import OnePass.Proofs.Generator.Invariant
import OnePass.Proofs.Safety.Compile
import OnePass.Proofs.Twins.Actions

/-!
# Steps of two compilations

What the actions do that change the symbol table, and with it what any step does: two generators
stay in correspondence, unless storage was declared that fits one layout and not the other. The last
step adds the code that starts the program; the stack begins right above the data, so it moves with
it. From the steps follow whole runs. -/

namespace OnePass

/-- The code that starts the program is left out, or it first sets both pointers to the end of the
    data, which is another in another layout. -/
inductive StartMoved (l l' : Layout) (globals : Scope) (dataEnd dataEnd' : Nat) :
    List Instruction → List Instruction → Prop
  | none : StartMoved l l' globals dataEnd dataEnd' [] []
  | main {rest rest' : List Instruction}
      (h : List.Forall₂ (Instruction.Moved l l' globals) rest rest') :
      StartMoved l l' globals dataEnd dataEnd'
        (.assign (.immediate (BitVec.ofNat 32 dataEnd)) (.direct l.stackPointer) ::
          .assign (.immediate (BitVec.ofNat 32 dataEnd)) (.direct l.framePointer) :: rest)
        (.assign (.immediate (BitVec.ofNat 32 dataEnd')) (.direct l'.stackPointer) ::
          .assign (.immediate (BitVec.ofNat 32 dataEnd')) (.direct l'.framePointer) :: rest')

/-- Storage that was declared did not fit. -/
def Generator.Overfull (g : Generator) : Prop :=
  ∃ d ∈ g.diagnostics, ∃ x, d.cause = .tooLarge x

/-- A function is open. -/
def Phase.isOpen : Phase → Bool
  | .header | .body _ => true
  | _ => false

section
variable (T : Twins)

/-- Two generators have finished corresponding programs. -/
structure Generator.Ended (g g' : Generator) : Prop where
  code : ∃ (s s' : Store) (stub stub' : List Instruction),
    s.Moved T.l T.l' g.symbols.globals s' ∧
    StartMoved T.l T.l' g.symbols.globals g.symbols.dataEnd g'.symbols.dataEnd stub stub' ∧
    g.code = s.append stub ∧ g'.code = s'.append stub'
  data : ∃ d, g.symbols.dataEnd = T.l.dataBase.toNat + d ∧
    g'.symbols.dataEnd = T.l'.dataBase.toNat + d
  stack : g'.stack.length = g.stack.length
  frames : List.Forall₂ (Frame.Twin T) g.frames.toList g'.frames.toList
  diagnostics : List.Forall₂ (Diagnostic.Twin T) g.diagnostics.toList g'.diagnostics.toList

/-- Two generators hold corresponding programs between two steps. -/
def Generator.Between (held : List Held) (g g' : Generator) : Prop :=
  ∃ globals n, g.Twin (T.over globals) (phase held).isOpen (held, n) g'

/-- Two generators do after a step, unless storage did not fit one of two layouts. -/
def Generator.Passed (held : List Held) (_ _ : Unit) (g g' : Generator) : Prop :=
  g.Between T held g' ∨ T.l ≠ T.l' ∧ (g.Overfull ∨ g'.Overfull)

/-- Two steps perform the same action at corresponding tokens. -/
structure Step.Twin (s s' : Step) : Prop where
  action : s'.action = s.action
  line : T.line s.token.line s'.token.line
  name : s.token.kind = .id → T.names.Pairs s.token.lexeme s'.token.lexeme
  text : s.token.kind ≠ .id → s.token.kind ≠ .stop → s'.token.lexeme = s.token.lexeme

end

variable {T : Twins} {inside inside' : Bool} {held held' : List Held} {n : Nat} {i : Juncture}

/-! ### The code that starts a program -/

theorem StartMoved.of_main (l l' : Layout) (globals : Scope) (dataEnd dataEnd' pc : Nat)
    (entry : Word) : StartMoved l l' globals dataEnd dataEnd' (Fragment.start l dataEnd pc entry)
      (Fragment.start l' dataEnd' pc entry) :=
  .main (.cons (.add (.direct .stackPointer) (.number _) (.direct (.scratch (by decide))))
    (.cons (.assign (.number _) (.indirect (.scratch (by decide)))) (.cons (.jump _) .nil)))

/-- For one layout what starts a program is the same too. -/
theorem StartMoved.moved {l : Layout} {globals : Scope} {dataEnd : Nat}
    {stub stub' : List Instruction} (h : StartMoved l l globals dataEnd dataEnd stub stub') :
    List.Forall₂ (Instruction.Moved l l globals) stub stub' := by
  cases h with
  | none => exact .nil
  | main h =>
    exact .cons (.assign (.number _) (.direct .stackPointer))
      (.cons (.assign (.number _) (.direct .framePointer)) h)

/-- For one layout the code of a program is the same to its end. -/
theorem Generator.Ended.sameOutput {g g' : Generator} (h : g.Ended T g') (heq : T.l = T.l') :
    ∃ globals, g.SameOutput (T.over globals) g' := by
  obtain ⟨s, s', stub, stub', hcode, hstub, hs, hs'⟩ := h.code
  obtain ⟨d, hd, hd'⟩ := h.data
  rw [← heq, ← hd] at hd'
  rw [← heq, hd'] at hstub
  refine ⟨g.symbols.globals, ?_, h.frames, h.diagnostics⟩
  rw [hs, hs']
  exact hcode.append (heq ▸ hstub.moved)

theorem Inside.isOpen (h : Inside held) : (phase held).isOpen = true := by
  obtain ⟨blocks, hphase⟩ := h
  rw [hphase]
  rfl

/-! ### More global storage -/

theorem StackValue.Twin.mono {more : Scope} (hmore : T.globals.Below more) {v v' : StackValue}
    (h : v.Twin T v') : v.Twin (T.over more) v' := by
  cases h with
  | type h => exact .type h
  | name h => exact .name h
  | symbol h => exact .symbol (h.mono hmore)
  | operator op => exact .operator op
  | label pc => exact .label pc
  | slot hole => exact .slot hole
  | branch hole h => exact .branch hole (h.mono hmore)
  | literal value => exact .literal value

theorem SameStack.mono {more : Scope} (hmore : T.globals.Below more) {stack stack' counts}
    (h : SameStack T held stack stack' counts) :
    SameStack (T.over more) held stack stack' counts := by
  induction h with
  | nil => exact .nil
  | entry hh hv _ ih => exact .entry hh (hv.mono hmore) ih
  | number value _ ih => exact .number value ih
  | named hs _ ih => exact .named ⟨hs.name, hs.twin.mono hmore⟩ ih
  | call hargs hs _ ih =>
    exact .call (hargs.imp fun _ _ hv => hv.mono hmore) ⟨hs.name, hs.twin.mono hmore⟩ ih
  | beside hh _ ih => exact .beside hh ih

/-- The tables get other, corresponding ones. -/
theorem Generator.Twin.withSymbols {g g' : Generator} (h : g.Twin T inside i g')
    {t t' : SymbolTable} (ht : t.TwinOver T inside' t') :
    ∃ globals, (g.withSymbols t).Twin (T.over globals) inside' i (g'.withSymbols t') := by
  obtain ⟨more, hmore, ht⟩ := ht
  exact ⟨more, {
    code := h.code.mono hmore
    frames := h.frames
    diagnostics := h.diagnostics
    layout := h.layout
    layout' := h.layout'
    symbols := ht
    scratch := h.scratch
    stack := h.stack.mono hmore
    argCounts := h.argCounts
    breaks := h.breaks
    body := h.body
    start := h.start }⟩

/-- The scratch cells taken and the trace may be others. -/
theorem Generator.Twin.taking {g g' : Generator} (h : g.Twin T inside (held, n) g') (k : Nat)
    (trace trace' : Array Event) :
    (g.taking k trace).Twin T inside (held, k) (g'.taking k trace') := by
  refine { h with scratch := ⟨k, Nat.le_refl k, ?_, ?_⟩ }
  · rw [← h.layout]
    rfl
  · rw [← h.layout']
    rfl

namespace Gen

open Generator

variable {α : Type} {result : α → α → Prop}

/-! ### Requests -/

/-- Outcomes of a request are good, or corresponding rejections. -/
inductive Outcomes (T : Twins) : Except SymbolError α → Except SymbolError α → Prop
  | ok (a a' : α) : Outcomes T (.ok a) (.ok a')
  | error {e e' : SymbolError} (h : ∀ globals, e.Twin (T.over globals) e') :
      Outcomes T (.error e) (.error e')

theorem paired_request {r r' : Request SymbolError α}
    (h : TableM.Agree T inside r.operation r'.operation result (SymbolError.Twin T) inside') :
    Paired (Generator.Twin T inside i) (request r) (request r')
      (fun o o' g g' => Outcomes T o o' ∧ ∃ globals, g.Twin (T.over globals) inside' i g')
      (Failed T) := by
  intro g g' hg
  have hrun := h g.symbols g'.symbols hg.symbols
  simp only [request, Bind.bind, EStateM.bind, MonadState.get, getThe, MonadStateOf.get,
    EStateM.get, Request.run, EStateM.run]
  cases hop : r.operation g.symbols <;> cases hop' : r'.operation g'.symbols <;>
    rw [hop, hop'] at hrun
  · obtain ⟨globals, htwin⟩ := hg.withSymbols hrun.2
    exact ⟨.ok _ _, globals, { htwin with }⟩
  · exact hrun.elim
  · exact hrun.elim
  · obtain ⟨globals, htwin⟩ := hg.withSymbols hrun.2
    refine ⟨.error fun more => ?_, globals, { htwin with }⟩
    cases hrun.1 with
    | duplicate h => exact .duplicate h
    | tooLarge h => exact .tooLarge h
    | fault h => exact .fault h

theorem paired_demand {r r' : Request Fault α}
    (h : TableM.Agree T inside r.operation r'.operation result T.fault inside') :
    Paired (Generator.Twin T inside i) (demand r) (demand r')
      (fun a a' g g' => result a a' ∧ ∃ globals, g.Twin (T.over globals) inside' i g')
      (Failed T) := by
  intro g g' hg
  have hrun := h g.symbols g'.symbols hg.symbols
  simp only [demand, Bind.bind, EStateM.bind, MonadState.get, getThe, MonadStateOf.get,
    EStateM.get, Request.run, EStateM.run]
  cases hop : r.operation g.symbols <;> cases hop' : r'.operation g'.symbols <;>
    rw [hop, hop'] at hrun
  · obtain ⟨globals, htwin⟩ := hg.withSymbols hrun.2
    exact ⟨hrun.1, globals, { htwin with }⟩
  · exact hrun.elim
  · exact hrun.elim
  · exact ⟨hrun.1, fun _ => ⟨T.globals, hg.code, hg.frames, hg.diagnostics⟩⟩

theorem Agree.passed {m m' : Gen Unit} (h : Agree T inside i m m' Eq (held, n))
    (hopen : (phase held).isOpen = inside) :
    Paired (Generator.Twin T inside i) m m' (Passed T held) (Failed T) :=
  Paired.imp h fun _ _ _ _ hg => .inl ⟨T.globals, n, hopen ▸ hg.2⟩

/-- Operations that are known to end well, begun with all scratch cells free. -/
theorem paired_of_does {m m' : Gen Unit} {g g' g₁ g₁' : Generator} {n n' : Nat}
    (hg : g.Twin T inside (held, 0) g') (h : Does m g 0 () g₁ n) (h' : Does m' g' 0 () g₁' n')
    {post : Unit → Unit → Generator → Generator → Prop}
    (hpost : ∀ trace trace', post () () (g₁.taking n trace) (g₁'.taking n' trace')) :
    Paired (fun s s' => s = g ∧ s' = g') m m' post (Failed T) := by
  have hfree : ∀ {l : Layout} {g : Generator}, g.layout = l →
      g.scratch = { ScratchPool.ofLayout l with used := 0 } → g.taking 0 g.trace = g := by
    rintro _ g rfl hscratch
    rw [Generator.taking, ← hscratch]
  rintro _ _ ⟨heq, heq'⟩
  rw [heq, heq']
  obtain ⟨k, hk, hscratch, hscratch'⟩ := hg.scratch
  obtain rfl := Nat.le_zero.mp hk
  obtain ⟨trace, htrace⟩ := h g.trace
  obtain ⟨trace', htrace'⟩ := h' g'.trace
  rw [hfree hg.layout hscratch] at htrace
  rw [hfree hg.layout' hscratch'] at htrace'
  rw [htrace, htrace']
  exact hpost trace trace'

/-! ### Storage -/

section
variable {a b : String} (hname : T.names.Pairs a b) {ty : Ty} {words line line' : Nat}
  (hline : T.line line line')

/-- A declaration that does not fit is recorded. -/
theorem overfull_of_tooLarge {x : String} {g : Generator} {t : SymbolTable} {trace : Array Event} :
    (((g.report line (.tooLarge x)).withSymbols t).taking n trace).Overfull :=
  ⟨⟨line, .tooLarge x⟩, Array.mem_push_self, x, rfl⟩

include hname hline

/-- Storage is declared alike, unless it fits only one of the layouts. -/
theorem passed_declareStorage (hty : ty = .int ∨ ty = .arrayInt) :
    Paired (Generator.Twin T (phase held).isOpen (held, 0)) (declareStorage a ty words line)
      (declareStorage b ty words line') (Passed T held) (Failed T) := by
  intro g g' hg
  have hcontains := hg.symbols.contains_current hname
  cases hfresh : g.symbols.current.contains a with
  | true =>
    refine paired_of_does hg (does_declareStorage_duplicate hfresh)
      (does_declareStorage_duplicate (hcontains.trans hfresh)) ?_ g g' ⟨rfl, rfl⟩
    exact fun _ _ => .inl ⟨T.globals, 0, (hg.report hline (.alreadyDefined hname)).taking ..⟩
  | false =>
    rw [hfresh] at hcontains
    have hmixed : g'.symbols.hasRoom words ≠ g.symbols.hasRoom words →
        (g.symbols.function = none ∧ g'.symbols.function = none) ∧ T.l ≠ T.l' := by
      intro hne
      refine ⟨?_, fun heq => hne (hg.symbols.hasRoom_eq (.inr heq) words)⟩
      cases hopen : (phase held).isOpen with
      | true => exact absurd (hg.symbols.hasRoom_eq (.inl hopen) words) hne
      | false => exact (hopen ▸ hg.symbols).function_none
    cases hroom : g.symbols.hasRoom words <;> cases hroom' : g'.symbols.hasRoom words
    · refine paired_of_does hg (does_declareStorage_tooLarge hfresh hroom)
        (does_declareStorage_tooLarge hcontains hroom') ?_ g g' ⟨rfl, rfl⟩
      obtain ⟨globals, htwin⟩ := (hg.report hline (.tooLarge hname)).withSymbols
        (hg.symbols.withPlaceholder hname hfresh)
      exact fun _ _ => .inl ⟨globals, 0, htwin.taking ..⟩
    · obtain ⟨hfunction', hother⟩ := hmixed (by rw [hroom, hroom']; decide)
      refine paired_of_does hg (does_declareStorage_tooLarge hfresh hroom) (does_declareStorage
        (SymbolTable.declare_global hfunction'.2 hcontains hroom')) ?_ g g' ⟨rfl, rfl⟩
      exact fun _ _ => .inr ⟨hother, .inl overfull_of_tooLarge⟩
    · obtain ⟨hfunction', hother⟩ := hmixed (by rw [hroom, hroom']; decide)
      refine paired_of_does hg (does_declareStorage
        (SymbolTable.declare_global hfunction'.1 hfresh hroom))
        (does_declareStorage_tooLarge hcontains hroom') ?_ g g' ⟨rfl, rfl⟩
      exact fun _ _ => .inr ⟨hother, .inr overfull_of_tooLarge⟩
    · rcases hg.symbols.declare hname hty hfresh hroom hroom' with
        ⟨s, s', t, t', hs, hs', htwin⟩ | ⟨fault, hs, hs'⟩
      · obtain ⟨globals, htwin⟩ := hg.withSymbols htwin
        exact paired_of_does hg (does_declareStorage hs) (does_declareStorage hs')
          (fun _ _ => .inl ⟨globals, 0, htwin.taking ..⟩) g g' ⟨rfl, rfl⟩
      · simp only [declareStorage, request, Request.declare, Request.run, EStateM.run, Bind.bind,
          EStateM.bind, MonadState.get, getThe, MonadStateOf.get, EStateM.get, hs, hs']
        exact ⟨T.fault_refl fault, fun _ => ⟨T.globals, hg.code, hg.frames, hg.diagnostics⟩⟩

end

section
variable {t t' : Token} (hline : T.line t.line t'.line)

include hline

theorem passed_declareVariable (held : List Held) :
    Paired (Generator.Twin T (phase held).isOpen (.name :: .type :: held, 0)) (declareVariable t)
      (declareVariable t') (Passed T held) (Failed T) := by
  refine Paired.bind Agree.popName fun x x' => Paired.given fun hname => ?_
  refine Paired.bind Agree.popType fun ty ty' => Paired.given ?_
  rintro ⟨rfl, hty⟩
  refine Paired.bind (Agree.checkNotVoid hty hname hline) fun a a' => Paired.given ?_
  rintro ⟨rfl, rfl⟩
  exact passed_declareStorage hname hline (.inl rfl)

theorem passed_declareArray (held : List Held) :
    Paired (Generator.Twin T (phase held).isOpen (.number :: .name :: .type :: held, 0))
      (declareArray t) (declareArray t') (Passed T held) (Failed T) := by
  refine Paired.bind Agree.popNumber fun size size' => Paired.given ?_
  rintro rfl
  refine Paired.bind Agree.popName fun x x' => Paired.given fun hname => ?_
  refine Paired.bind Agree.popType fun ty ty' => Paired.given ?_
  rintro ⟨rfl, hty⟩
  refine Paired.bind (Agree.checkNotVoid hty hname hline) fun a a' => Paired.given ?_
  rintro ⟨rfl, rfl⟩
  exact passed_declareStorage hname hline (.inr rfl)

theorem passed_addParameter (byReference : Bool) :
    Paired (Generator.Twin T true (.name :: .type :: .header :: held, n))
      (addParameter t byReference) (addParameter t' byReference) (Passed T (.header :: held))
      (Failed T) := by
  refine Paired.bind Agree.popName fun x x' => Paired.given fun hname => ?_
  refine Paired.bind Agree.popType fun ty ty' => Paired.given ?_
  rintro ⟨rfl, hty⟩
  refine Paired.bind (Agree.checkNotVoid hty hname hline) fun a a' => Paired.given ?_
  rintro ⟨rfl, rfl⟩
  refine Paired.bind (paired_request (TableM.Agree.addParameter hname _)) fun o o' =>
    Paired.given fun houtcome => Paired.exists_before fun globals => ?_
  cases houtcome with
  | ok => exact (Agree.pure rfl).passed rfl
  | error h =>
    exact (Agree.reportRejected (T := T.over globals) hline (h globals)).passed rfl

/-! ### Functions -/

theorem passed_declareFunction :
    Paired (Generator.Twin T false ([.name, .type, .program], n)) (declareFunction t)
      (declareFunction t') (Passed T [.header, .program]) (Failed T) := by
  refine Paired.bind Agree.popName fun x x' => Paired.given fun hname => ?_
  refine Paired.bind Agree.popType fun ty ty' => Paired.given ?_
  rintro ⟨rfl, -⟩
  refine Paired.get fun g g' hg => ?_
  rw [isSome_of_rel hg.body]
  refine Paired.ite (fun _ _ hg => hg.failed (T.fault_of .functionInside hname)) ?_
  refine Paired.bind Agree.pc fun entry entry' => Paired.given ?_
  rintro rfl
  refine Paired.bind (paired_request (TableM.Agree.openFunction hname _ _)) fun o o' =>
    Paired.given fun houtcome => Paired.exists_before fun globals => ?_
  have hopen : Agree (T.over globals) true ([.program], n)
      (do
        log (.functionDeclared ty' x entry)
        modify fun g => { g with body := some { name := x } })
      (do
        log (.functionDeclared ty' x' entry)
        modify fun g => { g with body := some { name := x' } }) Eq ([.header, .program], n) :=
    .next (.log _ _) fun _ => .change fun _ _ hg =>
      { hg with stack := .beside rfl hg.stack, body := .some ⟨x', hname, rfl⟩ }
  cases houtcome with
  | ok => exact hopen.passed rfl
  | error h =>
    exact (Agree.next (Agree.reportRejected (T := T.over globals) hline (h globals))
      fun _ => hopen).passed rfl

end

theorem passed_endFunction :
    Paired (Generator.Twin T true ([.body, .program], 0)) endFunction endFunction
      (Passed T [.program]) (Failed T) := by
  refine Paired.get fun g g' hg => ?_
  have hbody := hg.body
  generalize g.body = body, g'.body = body' at hbody
  cases hbody with
  | none => exact fun _ _ hg => hg.failed (T.fault_refl _)
  | some hbody =>
    obtain ⟨name, hname, rfl⟩ := hbody
    have hclear : Agree T true ([.body, .program], 0) (modify fun g => { g with body := none })
        (modify fun g => { g with body := none }) Eq ([.program], 0) :=
      .change fun _ _ hg => { hg with stack := hg.stack.beside_inv rfl, body := .none }
    refine Paired.bind hclear fun _ _ => Paired.given fun _ => ?_
    refine Paired.bind (paired_demand TableM.Agree.closeFunction) fun closed closed' =>
      Paired.given ?_
    rintro ⟨closedName, hclosed, rfl⟩
    refine Paired.exists_before fun globals => ?_
    dsimp only
    split
    · exact fun _ _ hg => hg.failed (T.fault_of .noPrologue hname)
    · refine Agree.passed (show Agree (T.over globals) false ([.program], 0) _ _ Eq
        ([.program], 3) from .get fun g g' hg => ?_) rfl
      rw [hg.layout, hg.layout']
      refine .next (.fill _ (.add (.direct .stackPointer) (.number _) (.direct .stackPointer)))
        fun _ => .next .pc fun _ => .next (.fillAll (.jump _) _) fun _ =>
        .next .emitEpilogue fun _ => .next (.log _ _) fun _ => .change fun _ _ hg => ?_
      refine { hg with frames := ?_ }
      rw [Array.toList_push, Array.toList_push]
      exact List.rel_append hg.frames (.cons ⟨closedName, hclosed, rfl⟩ .nil)

/-! ### Blocks -/

theorem passed_openBlock (hin : Inside held) :
    Paired (Generator.Twin T true (held, n)) (demand .openBlock) (demand .openBlock)
      (Passed T (.block :: held)) (Failed T) := by
  refine Paired.imp (paired_demand TableM.Agree.openBlock) ?_
  rintro _ _ g g' ⟨-, more, hg⟩
  exact .inl ⟨more, n, hin.block.isOpen ▸ { hg with stack := .beside rfl hg.stack }⟩

theorem passed_closeBlock (hin : Inside held) :
    Paired (Generator.Twin T true (.block :: held, n)) (demand .closeBlock) (demand .closeBlock)
      (Passed T held) (Failed T) := by
  refine Paired.imp (paired_demand TableM.Agree.closeBlock) ?_
  rintro _ _ g g' ⟨-, more, hg⟩
  exact .inl ⟨more, n, hin.isOpen ▸ { hg with stack := hg.stack.beside_inv rfl }⟩

/-! ### The end of the program -/

/-- The program has no code to start it. -/
theorem ended_of_twin {globals : Scope} {g g' : Generator}
    (hg : g.Twin (T.over globals) inside ([.program], n) g') : g.Ended T g' where
  code := ⟨g.code, g'.code, [], [], hg.symbols.current ▸ hg.code, .none, rfl, rfl⟩
  data := hg.symbols.data
  stack := by
    have hstack := hg.stack.beside_inv rfl
    generalize g.stack = stack, g'.stack = stack', g.argCounts = counts at hstack
    cases hstack
    rfl
  frames := hg.frames
  diagnostics := hg.diagnostics

/-- The code that starts the program is appended. -/
theorem ended_emitStart {globals : Scope} (entry : Word) :
    Paired (Generator.Twin (T.over globals) inside ([.program], 0)) (emitStart entry)
      (emitStart entry) (fun _ _ => Ended T) (Failed T) := by
  rcases T.room with heq | ⟨hslots, hslots'⟩
  · have hagree : Agree (T.over globals) inside ([.program], 0) (emitStart entry)
        (emitStart entry) Eq ([.program], 1) := by
      refine .get fun g g' hg => ?_
      rw [hg.layout, hg.layout']
      refine .get fun g g' hg => ?_
      obtain ⟨d, hd, hd'⟩ : ∃ d, g.symbols.dataEnd = T.l.dataBase.toNat + d ∧
          g'.symbols.dataEnd = T.l'.dataBase.toNat + d := hg.symbols.data
      rw [← heq, ← hd] at hd'
      rw [hd']
      exact .next (.emit (.assign (.number _) (.direct .stackPointer))) fun _ =>
        .next (.emit (.assign (.number _) (.direct .framePointer))) fun _ =>
        .bind (.headerOperand (by decide) .stackPointer _) fun place place' hplace =>
        .next .pc fun _ => .next (.emit (.assign (.number _) hplace)) fun _ => .emit (.jump _)
    exact Paired.imp hagree fun _ _ _ _ hg => ended_of_twin hg.2
  · intro g g' hg
    obtain ⟨n, hrun⟩ := does_emitStart (g := g) (hg.layout ▸ hslots) entry
    obtain ⟨n', hrun'⟩ := does_emitStart (g := g') (hg.layout' ▸ hslots') entry
    refine paired_of_does hg hrun hrun' (fun _ _ => ?_) g g' ⟨rfl, rfl⟩
    have hended := ended_of_twin hg
    have hcode := hg.symbols.current ▸ hg.code
    refine { hended with code := ⟨g.code, g'.code, _, _, hcode, ?_, rfl, rfl⟩ }
    rw [hg.layout, hg.layout', hg.code.pc]
    exact StartMoved.of_main ..

/-- The jump to the code that starts the program is filled in after that. -/
theorem ended_fill (hole : Hole) (target : Nat) :
    Paired (Ended T) (fill hole (.jump target)) (fill hole (.jump target)) (fun _ _ => Ended T)
      (Failed T) := by
  refine Paired.inspect fun g g' hg => ?_
  obtain ⟨s, s', stub, stub', hcode, hstub, hs, hs'⟩ := hg.code
  have hreserved : ∀ pc ∈ s'.pending, pc < s'.pc := by
    rw [hcode.pending, hcode.pc]
    exact hcode.reserved
  rw [hs, hs', Store.fill_append hcode.reserved, Store.fill_append hreserved]
  rcases hcode.fill hole (.jump target) with ⟨t, t', ht, ht', hmoved⟩ | ⟨fault, ht, ht'⟩
  · rw [ht, ht']
    rintro _ _ ⟨rfl, rfl⟩
    exact { hg with code := ⟨t, t', stub, stub', hmoved, hstub, rfl, rfl⟩ }
  · rw [ht, ht']
    rintro _ _ ⟨rfl, rfl⟩
    exact ⟨T.fault_refl fault, hg.sameOutput⟩

/-- The function that the program starts with is the same but for its name. -/
theorem filter_isMain {found found' : Option Symbol}
    (h : Option.Rel (Symbol.NamedTwin T) found found') :
    (found'.filter isMain).map (·.value) = (found.filter isMain).map (·.value) := by
  cases h with
  | none => rfl
  | @some s s' h =>
    have hmain : isMain s' = isMain s ∧ (isMain s = true → s'.value = s.value) := by
      cases h.twin with
      | same => exact ⟨rfl, fun _ => rfl⟩
      | data _ hfunction =>
        simp [isMain, hfunction]
    rw [Option.filter_some, Option.filter_some, hmain.1]
    split
    · exact congrArg some (hmain.2 ‹_›)
    · rfl

theorem ended_endProgram {t t' : Token} (hline : T.line t.line t'.line) (globals : Scope) :
    Paired (Generator.Twin (T.over globals) false ([.program], 0)) (endProgram t) (endProgram t')
      (fun _ _ => Ended T) (Failed T) := by
  refine Paired.get fun g g' hg => ?_
  obtain ⟨hf, hf'⟩ := hg.symbols.function_none
  rw [SymbolTable.functionName?, SymbolTable.functionName?, hf, hf']
  refine Paired.get fun g g' hg => ?_
  rw [hg.start]
  cases g.start with
  | none => exact fun _ _ hg => hg.failed (T.fault_refl _)
  | some start =>
    have hclear : Agree (T.over globals) false ([.program], 0)
        (modify fun g => { g with start := none }) (modify fun g => { g with start := none }) Eq
        ([.program], 0) := .change fun _ _ hg => { hg with start := rfl }
    refine Paired.bind hclear fun _ _ => Paired.given fun _ => ?_
    refine Paired.bind Agree.pc fun stub stub' => Paired.given ?_
    rintro rfl
    have hrest : Paired (Ended T)
        (do
          fill start (.jump stub)
          let g ← get
          log (.generated g.code.pc g.diagnostics.size g.symbols.dataEnd))
        (do
          fill start (.jump stub)
          let g ← get
          log (.generated g.code.pc g.diagnostics.size g.symbols.dataEnd))
        (fun _ _ => Ended T) (Failed T) :=
      Paired.bind (ended_fill start stub) fun _ _ =>
        Paired.get fun _ _ _ => Paired.modify fun _ _ hg => { hg with }
    refine Paired.get fun g g' hg => ?_
    have hmain := filter_isMain (hg.symbols.find? T.names.main)
    cases hfound : (g.symbols.find? "main").filter isMain with
    | none =>
      rw [hfound, Option.map_none, Option.map_eq_none_iff] at hmain
      rw [hmain]
      exact Paired.bind (Paired.imp (Agree.report (T := T.over globals) hline .noMain)
        fun _ _ _ _ hg => ended_of_twin hg.2) fun _ _ => hrest
    | some main =>
      rw [hfound, Option.map_some, Option.map_eq_some_iff] at hmain
      obtain ⟨main', hfound', hvalue⟩ := hmain
      rw [hfound']
      dsimp only
      rw [hvalue]
      exact Paired.bind (ended_emitStart _) fun _ _ => hrest

/-! ### Steps -/

section
variable {action : Action} {t t' : Token}

/-- A step starts with all scratch cells free. -/
theorem paired_perform {post : Unit → Unit → Generator → Generator → Prop}
    (h : ∀ globals, Paired (Generator.Twin (T.over globals) (phase held).isOpen (held, 0))
      (dispatch action t) (dispatch action t') post (Failed T)) :
    Paired (Between T held) (perform ⟨action, t⟩) (perform ⟨action, t'⟩) post (Failed T) := by
  refine Paired.exists_before fun globals => Paired.exists_before fun n => ?_
  refine Paired.bind (Agree.clearScratch (T := T.over globals)) fun _ _ => Paired.given fun _ => ?_
  refine Paired.get fun _ _ _ => Paired.bind (Agree.log _ _) fun _ _ => Paired.given fun _ => ?_
  exact h globals

theorem passed_perform (hopen : (phase held).isOpen = inside)
    (hopen' : (phase held').isOpen = inside)
    (h : ∀ globals, Agree (T.over globals) inside (held, 0) (dispatch action t)
      (dispatch action t') Eq (held', n)) :
    Paired (Between T held) (perform ⟨action, t⟩) (perform ⟨action, t'⟩) (Passed T held')
      (Failed T) :=
  paired_perform fun globals => hopen ▸ (h globals).passed hopen'

end

end Gen

theorem Step.Twin.text_of {s s' : Step} (h : s.Twin T s') {kind : TokenKind}
    (hkind : s.token.kind = kind) (hk : kind ≠ .id ∧ kind ≠ .stop := by decide) :
    s'.token.lexeme = s.token.lexeme := h.text (hkind ▸ hk.1) (hkind ▸ hk.2)

open Gen Generator

/-- Two generators that perform corresponding steps stay in correspondence, unless storage does not
    fit one of the layouts. -/
theorem Step.Turns.passed {s s' : Step} (h : s.Turns held held') (hs : s.Twin T s') :
    Paired (Between T held) (perform s) (perform s') (Passed T held') (Failed T) := by
  obtain ⟨action, t'⟩ := s'
  obtain rfl : action = s.action := hs.action
  have hline : ∀ globals, (T.over globals).line s.token.line t'.line := fun _ => hs.line
  cases h with
  | beginProgram => exact passed_perform rfl rfl fun _ => .beginProgram
  | pushType hkind => exact passed_perform rfl rfl fun _ => .pushType (hs.text_of hkind)
  | pushName hkind => exact passed_perform rfl rfl fun _ => .push (.name (hs.name hkind))
  | declareVariable =>
    exact paired_perform fun globals => passed_declareVariable (hline globals) held'
  | declareArray => exact paired_perform fun globals => passed_declareArray (hline globals) held'
  | declareFunction => exact paired_perform fun globals => passed_declareFunction (hline globals)
  | addParameter => exact paired_perform fun globals => passed_addParameter (hline globals) false
  | addArrayParameter =>
    exact paired_perform fun globals => passed_addParameter (hline globals) true
  | beginFunction => exact passed_perform rfl rfl fun _ => .beginFunction
  | endFunction => exact paired_perform fun _ => passed_endFunction
  | scopeUp hin => exact paired_perform fun _ => hin.isOpen ▸ passed_openBlock hin
  | scopeDown hin => exact paired_perform fun _ => hin.block.isOpen ▸ passed_closeBlock hin
  | pushIdentifier hkind =>
    exact passed_perform rfl rfl fun globals => .pushIdentifier (hline globals) (hs.name hkind)
  | pushNumber hkind =>
    exact passed_perform rfl rfl fun globals => .pushNumber (hline globals) (hs.text_of hkind)
  | pushOperator hkind => exact passed_perform rfl rfl fun _ => .pushOperator (hs.text_of hkind)
  | computeBinary hin =>
    exact passed_perform hin.isOpen hin.isOpen fun globals => .computeBinary (hline globals)
  | assign => exact passed_perform rfl rfl fun globals => .assign (hline globals)
  | indexArray hin =>
    exact passed_perform hin.isOpen hin.isOpen fun globals => .indexArray (hline globals)
  | popExpression => exact passed_perform rfl rfl fun _ => .bind .pop fun _ _ _ => .pure rfl
  | pushArgCount => exact passed_perform rfl rfl fun _ => .pushArgCount
  | incrementArgCount => exact passed_perform rfl rfl fun _ => .incrementArgCount
  | call hin => exact passed_perform hin.isOpen hin.isOpen fun globals => .call (hline globals)
  | reserveJumpSlot => exact passed_perform rfl rfl fun globals => .reserveBranch (hline globals)
  | startElse => exact passed_perform rfl rfl fun _ => .startElse
  | endElse => exact passed_perform rfl rfl fun _ => .endElse
  | endBranch => exact passed_perform rfl rfl fun _ => .endBranch
  | openBreaks => exact passed_perform rfl rfl fun _ => .openBreaks
  | startLoop => exact passed_perform rfl rfl fun _ => .startLoop
  | repeatLoop => exact passed_perform rfl rfl fun globals => .repeatLoop (hline globals)
  | closeBreaks => exact passed_perform rfl rfl fun _ => .closeBreaks
  | registerBreak => exact passed_perform rfl rfl fun globals => .registerBreak (hline globals)
  | storeReturnValue =>
    exact passed_perform rfl rfl fun globals => .storeReturnValue (hline globals)
  | markReturn => exact passed_perform rfl rfl fun _ => .markReturn

/-! ### Runs -/

/-- Storage that did not fit stays recorded. -/
theorem Generator.stable_overfull : Generator.Stable Generator.Overfull where
  similar := by
    rintro g g' ⟨-, -, hsame, -⟩ hg
    rwa [Overfull, hsame]
  log _ _ _ hg := hg
  report := by
    rintro g line cause ⟨d, hd, hcause⟩
    exact ⟨d, Array.mem_push.mpr (.inl hd), hcause⟩
  request _ _ _ hg := hg
  placeholder _ _ _ hg := hg

/-- Two runs end alike: both well, with related states, or in corresponding faults. -/
def Alike (T : Twins) (post : Generator → Generator → Prop) :
    Except Fault Unit × Generator → Except Fault Unit × Generator → Prop
  | (.ok _, g), (.ok _, g') => post g g'
  | (.error e, g), (.error e', g') => Failed T e e' g g'
  | _, _ => False

section
variable {steps steps' : List Step} {post : Generator → Generator → Prop} {g g' : Generator}

/-- Corresponding steps are run to the same end by two generators, and so is what comes after them,
    unless storage fits only one of two layouts. -/
theorem Walked.alike (h : Walked steps held held')
    (hsteps : List.Forall₂ (Step.Twin T) steps steps') {m m' : Gen Unit} (hm : Gen.Keeps m)
    (hm' : Gen.Keeps m')
    (hpost : Paired (Between T held') m m' (fun _ _ => post) (Failed T))
    (hg : g.Between T held g')
    (hfits : T.l ≠ T.l' → ¬ (g.run (steps.forM perform >>= fun _ => m)).2.Overfull ∧
      ¬ (g'.run (steps'.forM perform >>= fun _ => m')).2.Overfull) :
    Alike T post (g.run (steps.forM perform >>= fun _ => m))
      (g'.run (steps'.forM perform >>= fun _ => m')) := by
  induction h generalizing steps' g g' with
  | nil =>
    cases hsteps
    have hrun := hpost g g' hg
    simp only [Generator.run, EStateM.run, List.forM_eq_forM, List.forM_nil, pure_bind]
    revert hrun
    cases m g <;> cases m' g' <;> exact id
  | named _ ih =>
    obtain ⟨globals, n, hg⟩ := hg
    exact ih hsteps hpost ⟨globals, n, { hg with stack := hg.stack.operand_of_named }⟩ hfits
  | number _ ih =>
    obtain ⟨globals, n, hg⟩ := hg
    exact ih hsteps hpost ⟨globals, n, { hg with stack := hg.stack.operand_of_number }⟩ hfits
  | @cons step steps _ _ _ hstep _ ih =>
    cases hsteps with
    | @cons _ step' _ steps' htwin hsteps =>
      have hrest : Gen.Keeps (steps.forM perform >>= fun _ => m) :=
        .bind (.performAll steps) fun _ => hm
      have hrest' : Gen.Keeps (steps'.forM perform >>= fun _ => m') :=
        .bind (.performAll steps') fun _ => hm'
      have hrun := hstep.passed htwin g g' hg
      simp only [List.forM_eq_forM, List.forM_cons, Generator.run, EStateM.run, Bind.bind,
        EStateM.bind] at hfits ⊢
      revert hrun hfits
      cases perform step g with
      | error =>
        cases perform step' g' with
        | error => exact fun _ hrun => hrun
        | ok => exact fun _ hrun => hrun.elim
      | ok _ t =>
        cases perform step' g' with
        | error => exact fun _ hrun => hrun.elim
        | ok _ t' =>
          rintro hfits (hmid | ⟨hother, hfull | hfull⟩)
          · exact ih hsteps hpost hmid hfits
          · exact absurd (hrest _ stable_overfull t hfull) (hfits hother).1
          · exact absurd (hrest' _ stable_overfull t' hfull) (hfits hother).2

/-- Two programs with corresponding steps are compiled alike, to their ends or to a syntax error. -/
theorem alike_parse (tokens : List Token)
    (hsteps : List.Forall₂ (Step.Twin T) (parse tokens).steps steps')
    (hfits : T.l ≠ T.l' →
      ¬ ((Generator.initial T.l).run ((parse tokens).steps.forM perform)).2.Overfull ∧
      ¬ ((Generator.initial T.l').run (steps'.forM perform)).2.Overfull) :
    Alike T (fun g g' => g.Ended T g' ∨ (parse tokens).error ≠ none ∧ ∃ held, g.Between T held g')
      ((Generator.initial T.l).run ((parse tokens).steps.forM perform))
      ((Generator.initial T.l').run (steps'.forM perform)) := by
  have hstart : (Generator.initial T.l).Between T [] (.initial T.l') := ⟨_, 0, .initial⟩
  obtain ⟨steps, held, hwalked, -, ⟨stop, rfl, hparse⟩ | ⟨hparse, herror⟩⟩ := walks_parse tokens
  · rw [hparse] at hsteps hfits ⊢
    have hfront := (List.forall₂_take_append _ steps _ hsteps.flip).flip
    have hlast := (List.forall₂_drop_append _ steps _ hsteps.flip).flip
    rw [← List.take_append_drop steps.length steps'] at hfits ⊢
    generalize steps'.take steps.length = front, steps'.drop steps.length = last
      at hfits hfront hlast ⊢
    obtain ⟨⟨_, stop'⟩, _, ⟨rfl, hline, -, -⟩, hnil, rfl⟩ := List.forall₂_cons_left_iff.mp hlast
    obtain rfl := List.forall₂_nil_left_iff.mp hnil
    have hsplit : ∀ (steps : List Step) (step : Step), (steps ++ [step]).forM perform =
        (steps.forM perform >>= fun _ => perform step) := by
      intro steps step
      simp only [List.forM_eq_forM, List.forM_append, List.forM_cons, List.forM_nil, bind_pure_unit]
    simp only [hsplit] at hfits ⊢
    refine hwalked.alike hfront (.perform _) (.perform _) ?_ hstart hfits
    exact Paired.imp (paired_perform (ended_endProgram hline)) fun _ _ _ _ => .inl
  · rw [hparse] at hsteps hfits ⊢
    have hpure : ∀ steps : List Step, steps.forM perform =
        (steps.forM perform >>= fun _ => pure ()) := fun _ => bind_pure_unit.symm
    rw [hpure steps, hpure steps'] at hfits ⊢
    refine hwalked.alike hsteps (fun _ _ _ hg => hg) (fun _ _ _ hg => hg) ?_ hstart hfits
    exact Paired.pure fun _ _ h => .inr ⟨herror, held, h⟩

end

end OnePass
