import OnePass.Proofs.Generator.Declaration
import OnePass.Proofs.Safety.Shape
import OnePass.Proofs.Twins.Table

/-!
# Actions of two compilations

Two generators that hold corresponding programs do the same at every action: each emits code that
says in its layout what the code of the other says in the other layout, and what is reported is
about paired names. A step takes at most three scratch cells, so it does not matter how many more a
layout has.

Symbols on the operand stack may bear names that were never in the program, those of temporaries and
constants. A report must not print one of these, so it matters which entries of the stack still are
what a name of the program stands for. -/

namespace OnePass

/-- What is held is one entry of the operand stack. -/
def Held.isEntry : Held → Bool
  | .type | .name | .operand | .operator | .label | .slot | .branch => true
  | _ => false

/-- What is held is not on the operand stack. -/
def Held.isBeside : Held → Bool
  | .breaks | .block | .header | .body | .program => true
  | _ => false

theorem Held.isBeside_of_isEntry {h : Held} (hh : h.isEntry = true) : h.isBeside = false := by
  cases h <;> first | rfl | cases hh

/-- What is held between two operations, and how many scratch cells may be taken. -/
abbrev Juncture := List Held × Nat

/-! ### What corresponds -/

/-- Two operands say the same in the layouts of two compilations. -/
abbrev Operand.Twin (T : Twins) (o o' : Operand) : Prop := o.Moved T.l T.l' T.globals o'

/-- Two instructions say the same in the layouts of two compilations. -/
abbrev Instruction.Twin (T : Twins) (i i' : Instruction) : Prop := i.Moved T.l T.l' T.globals i'

section
variable (T : Twins)

/-- Two values of the operand stack correspond; names of declarations are paired. -/
inductive StackValue.Twin : StackValue → StackValue → Prop where
  | type {ty : Ty} (h : ty = .int ∨ ty = .void) : Twin (.type ty) (.type ty)
  | name {a b : String} (h : T.names.Pairs a b) : Twin (.name a) (.name b)
  | symbol {s s' : Symbol} (h : s.Twin T s') : Twin (.symbol s) (.symbol s')
  | operator (op : BinaryOp) : Twin (.operator op) (.operator op)
  | label (pc : Nat) : Twin (.label pc) (.label pc)
  | slot (hole : Hole) : Twin (.slot hole) (.slot hole)
  | branch (hole : Hole) {cond cond' : Operand} (h : cond.Twin T cond') :
      Twin (.branch hole cond) (.branch hole cond')
  | literal (value : Word) : Twin (.literal value) (.literal value)

/-- Two operand stacks correspond, and what names stand for on them has paired names; the last list
    holds the numbers of arguments of the calls being read. -/
inductive SameStack : List Held → List StackValue → List StackValue → List Nat → Prop where
  | nil : SameStack [] [] [] []
  | entry {h : Held} {held stack stack' counts} {v v' : StackValue} (hh : h.isEntry = true)
      (hv : v.Twin T v') (hstack : SameStack held stack stack' counts) :
      SameStack (h :: held) (v :: stack) (v' :: stack') counts
  | number {held stack stack' counts} (value : Word)
      (hstack : SameStack held stack stack' counts) :
      SameStack (.number :: held) (.literal value :: stack) (.literal value :: stack') counts
  | named {x : Token} {held stack stack' counts} {s s' : Symbol} (hs : s.NamedTwin T s')
      (hstack : SameStack held stack stack' counts) :
      SameStack (.named x :: held) (.symbol s :: stack) (.symbol s' :: stack') counts
  | call {x : Token} {held stack stack' counts} {args args' : List StackValue} {s s' : Symbol}
      (hargs : List.Forall₂ (StackValue.Twin T) args args') (hs : s.NamedTwin T s')
      (hstack : SameStack held stack stack' counts) :
      SameStack (.call x :: held) (args ++ .symbol s :: stack) (args' ++ .symbol s' :: stack')
        (args.length :: counts)
  | beside {h : Held} {held stack stack' counts} (hh : h.isBeside = true)
      (hstack : SameStack held stack stack' counts) : SameStack (h :: held) stack stack' counts

/-- Two mistakes are of the same kind and about paired names. -/
inductive Diagnostic.Cause.Renamed (N : Naming) : Diagnostic.Cause → Diagnostic.Cause → Prop where
  | alreadyDefined {a b : String} (h : N.Pairs a b) :
      Renamed N (.alreadyDefined a) (.alreadyDefined b)
  | notDefined {a b : String} (h : N.Pairs a b) : Renamed N (.notDefined a) (.notDefined b)
  | tooLarge {a b : String} (h : N.Pairs a b) : Renamed N (.tooLarge a) (.tooLarge b)
  | illegalVoid {a b : String} (h : N.Pairs a b) : Renamed N (.illegalVoid a) (.illegalVoid b)
  | literalRange (lexeme : String) : Renamed N (.literalRange lexeme) (.literalRange lexeme)
  | operandType (found : Category) : Renamed N (.operandType found) (.operandType found)
  | notArray {a b : String} (h : N.Pairs a b) : Renamed N (.notArray a) (.notArray b)
  | notFunction {a b : String} (h : N.Pairs a b) : Renamed N (.notFunction a) (.notFunction b)
  | argumentCount {a b : String} (h : N.Pairs a b) :
      Renamed N (.argumentCount a) (.argumentCount b)
  | argumentType (position : Nat) {a b : String} (h : N.Pairs a b) (expected found : Category) :
      Renamed N (.argumentType position a expected found) (.argumentType position b expected found)
  | breakOutsideLoop : Renamed N .breakOutsideLoop .breakOutsideLoop
  | noMain : Renamed N .noMain .noMain

/-- Two mistakes correspond, and so do the lines that they are reported for. -/
def Diagnostic.Twin (d d' : Diagnostic) : Prop :=
  T.line d.line d'.line ∧ d.cause.Renamed T.names d'.cause

/-- Two frames differ only in paired names. -/
def Frame.Twin (f f' : Frame) : Prop := ∃ name, T.names.Pairs f.name name ∧ f' = { f with name }

/-- Two bodies differ only in paired names. -/
def Body.Twin (b b' : Body) : Prop := ∃ name, T.names.Pairs b.name name ∧ b' = { b with name }

/-- Two generators have corresponding code, frames and mistakes. -/
structure Generator.SameOutput (g g' : Generator) : Prop where
  code : g.code.Moved T.l T.l' T.globals g'.code
  frames : List.Forall₂ (Frame.Twin T) g.frames.toList g'.frames.toList
  diagnostics : List.Forall₂ (Diagnostic.Twin T) g.diagnostics.toList g'.diagnostics.toList

/-- Two generators hold corresponding programs at a juncture. -/
structure Generator.Twin (inside : Bool) (i : Juncture) (g g' : Generator) : Prop
    extends Generator.SameOutput T g g' where
  layout : g.layout = T.l
  layout' : g'.layout = T.l'
  symbols : g.symbols.Twin T inside g'.symbols
  scratch : ∃ k ≤ i.2, g.scratch = { ScratchPool.ofLayout T.l with used := k } ∧
    g'.scratch = { ScratchPool.ofLayout T.l' with used := k }
  stack : SameStack T i.1 g.stack g'.stack g.argCounts
  argCounts : g'.argCounts = g.argCounts
  breaks : g'.breaks = g.breaks
  body : Option.Rel (Body.Twin T) g.body g'.body
  start : g'.start = g.start

/-- Two compilations stop with corresponding faults, and for one layout with corresponding
    output. -/
def Generator.Failed (e e' : Fault) (g g' : Generator) : Prop :=
  T.fault e e' ∧ (T.l = T.l' → ∃ globals, g.SameOutput (T.over globals) g')

end

variable {T : Twins} {inside : Bool} {held : List Held} {n : Nat} {i j k : Juncture}

theorem Generator.Twin.initial {T : Twins} : (Generator.initial T.l).Twin
    (T.over ⟨[SymbolTable.output]⟩) false ([], 0) (.initial T.l') where
  code := ⟨.nil, rfl, nofun⟩
  frames := .nil
  diagnostics := .nil
  layout := rfl
  layout' := rfl
  symbols := .initial
  scratch := ⟨0, Nat.le_refl 0, rfl, rfl⟩
  stack := .nil
  argCounts := rfl
  breaks := rfl
  body := .none
  start := rfl

theorem Generator.Twin.failed {g g' : Generator} (h : g.Twin T inside i g') {e e' : Fault}
    (he : T.fault e e') : Failed T e e' g g' := ⟨he, fun _ => ⟨T.globals, h.toSameOutput⟩⟩

/-- Corresponding mistakes are recorded. -/
theorem Generator.Twin.report {g g' : Generator} (h : g.Twin T inside i g') {line line' : Nat}
    (hline : T.line line line') {cause cause' : Diagnostic.Cause}
    (hcause : cause.Renamed T.names cause') :
    (g.report line cause).Twin T inside i (g'.report line' cause') := by
  refine { h with diagnostics := ?_ }
  rw [Generator.report, Generator.report, Array.toList_push, Array.toList_push]
  exact List.rel_append h.diagnostics (.cons ⟨hline, hcause⟩ .nil)

namespace SameStack

variable {stack stack' : List StackValue} {counts : List Nat} {x : Token}

/-- What a name stands for is an operand. -/
theorem operand_of_named (h : SameStack T (.named x :: held) stack stack' counts) :
    SameStack T (.operand :: held) stack stack' counts := by
  cases h with
  | entry hh => cases hh
  | named hs hstack => exact .entry rfl (.symbol hs.twin) hstack
  | beside hh => cases hh

/-- A number is an operand. -/
theorem operand_of_number (h : SameStack T (.number :: held) stack stack' counts) :
    SameStack T (.operand :: held) stack stack' counts := by
  cases h with
  | entry hh => cases hh
  | number value hstack => exact .entry rfl (.literal value) hstack
  | beside hh => cases hh

theorem entry_inv {h : Held} (hh : h.isEntry = true)
    (hs : SameStack T (h :: held) stack stack' counts) :
    ∃ v v' rest rest', stack = v :: rest ∧ stack' = v' :: rest' ∧ v.Twin T v' ∧
      SameStack T held rest rest' counts := by
  cases hs with
  | entry _ hv hstack => exact ⟨_, _, _, _, rfl, rfl, hv, hstack⟩
  | beside hbeside =>
    rw [Held.isBeside_of_isEntry hh] at hbeside
    cases hbeside
  | _ => cases hh

theorem beside_inv {h : Held} (hh : h.isBeside = true)
    (hs : SameStack T (h :: held) stack stack' counts) : SameStack T held stack stack' counts := by
  cases hs with
  | beside _ hstack => exact hstack
  | entry hentry =>
    rw [Held.isBeside_of_isEntry hentry] at hh
    cases hh
  | _ => cases hh

theorem number_inv (h : SameStack T (.number :: held) stack stack' counts) :
    ∃ value rest rest', stack = .literal value :: rest ∧ stack' = .literal value :: rest' ∧
      SameStack T held rest rest' counts := by
  cases h with
  | entry hh => cases hh
  | number value hstack => exact ⟨value, _, _, rfl, rfl, hstack⟩
  | beside hh => cases hh

theorem named_inv (h : SameStack T (.named x :: held) stack stack' counts) :
    ∃ s s' rest rest', stack = .symbol s :: rest ∧ stack' = .symbol s' :: rest' ∧
      s.NamedTwin T s' ∧ SameStack T held rest rest' counts := by
  cases h with
  | entry hh => cases hh
  | named hs hstack => exact ⟨_, _, _, _, rfl, rfl, hs, hstack⟩
  | beside hh => cases hh

/-- Values that are put on a stack are operands. -/
theorem operands {args args' : List StackValue}
    (hargs : List.Forall₂ (StackValue.Twin T) args args')
    (h : SameStack T held stack stack' counts) :
    SameStack T (List.replicate args.length .operand ++ held) (args ++ stack) (args' ++ stack')
      counts := by
  induction hargs with
  | nil => exact h
  | cons hv _ ih => exact .entry rfl hv ih

/-- A call that is read to its end leaves its arguments and what is called. -/
theorem call_inv (h : SameStack T (.call x :: held) stack stack' counts) :
    ∃ n rest, counts = n :: rest ∧
      SameStack T (List.replicate n .operand ++ .named x :: held) stack stack' rest := by
  cases h with
  | entry hh => cases hh
  | call hargs hs hstack => exact ⟨_, _, rfl, operands hargs (.named hs hstack)⟩
  | beside hh => cases hh

theorem addArgument (h : SameStack T (.operand :: .call x :: held) stack stack' counts) :
    ∃ n rest, counts = n :: rest ∧
      SameStack T (.call x :: held) stack stack' ((n + 1) :: rest) := by
  cases h with
  | entry _ hv hstack =>
    cases hstack with
    | entry hh => cases hh
    | call hargs hs hstack => exact ⟨_, _, rfl, .call (.cons hv hargs) hs hstack⟩
    | beside hh => cases hh
  | beside hh => cases hh

end SameStack

theorem Generator.Twin.mono {g g' : Generator} (h : g.Twin T inside (held, n) g') {m : Nat}
    (hle : n ≤ m) : g.Twin T inside (held, m) g' := by
  obtain ⟨k, hk, hscratch⟩ := h.scratch
  exact { h with scratch := ⟨k, Nat.le_trans hk hle, hscratch⟩ }

namespace Gen

open Generator

variable {α β : Type}

/-- Two operations of generators agree: they have related results, or fail alike. -/
def Agree (T : Twins) (inside : Bool) (i : Juncture) (m m' : Gen α) (result : α → α → Prop)
    (j : Juncture) : Prop :=
  Paired (Generator.Twin T inside i) m m' (fun a a' g g' => result a a' ∧ g.Twin T inside j g')
    (Generator.Failed T)

namespace Agree

variable {m m' m₂ m₂' : Gen α} {f f' : α → Gen β} {result : α → α → Prop} {last : β → β → Prop}

/-! ### Composition -/

theorem pure {a a' : α} (h : result a a') : Agree T inside i (pure a) (pure a') result i :=
  Paired.pure fun _ _ hg => ⟨h, hg⟩

theorem throw {fault fault' : Fault} (h : T.fault fault fault') :
    Agree T inside i (throw fault) (throw fault') result j :=
  Paired.throw fun _ _ hg => hg.failed h

theorem stop {fault : Fault} : Agree T inside i (MonadExcept.throw fault) (MonadExcept.throw fault)
    result j := throw (T.fault_refl fault)

theorem bind (hm : Agree T inside i m m' result k)
    (hf : ∀ a a', result a a' → Agree T inside k (f a) (f' a') last j) :
    Agree T inside i (m >>= f) (m' >>= f') last j :=
  Paired.bind hm fun a a' => Paired.given (hf a a')

/-- The usual case of `bind`: both results are the same. -/
theorem next (hm : Agree T inside i m m' Eq k) (hf : ∀ a, Agree T inside k (f a) (f' a) last j) :
    Agree T inside i (m >>= f) (m' >>= f') last j :=
  hm.bind fun a _ h => h ▸ hf a

theorem get {f f' : Generator → Gen β}
    (h : ∀ g g', g.Twin T inside i g' → Agree T inside i (f g) (f' g') last j) :
    Agree T inside i (MonadState.get >>= f) (MonadState.get >>= f') last j := Paired.get h

theorem change {u u' : Generator → Generator}
    (h : ∀ g g', g.Twin T inside i g' → (u g).Twin T inside j (u' g')) :
    Agree T inside i (modify u) (modify u') Eq j :=
  Paired.modify fun g g' hg => ⟨rfl, h g g' hg⟩

theorem ite {c : Prop} [Decidable c] (hm : Agree T inside i m m' result j)
    (hn : Agree T inside i m₂ m₂' result j) :
    Agree T inside i (if c then m else m₂) (if c then m' else m₂') result j := Paired.ite hm hn

/-- More cells may be taken after. -/
theorem weaken {a b : Nat} (h : Agree T inside i m m' result (held, a))
    (hle : a ≤ b := by exact Nat.zero_le _) : Agree T inside i m m' result (held, b) :=
  Paired.imp h fun _ _ _ _ hg => ⟨hg.1, hg.2.mono hle⟩

/-- Fewer cells may be taken before. -/
theorem relax {a b : Nat} (h : Agree T inside (held, b) m m' result j) (hle : a ≤ b) :
    Agree T inside (held, a) m m' result j :=
  fun g g' hg => h g g' (hg.mono hle)

theorem forM {γ : Type} {rel : γ → γ → Prop} {act act' : γ → Gen PUnit}
    (h : ∀ c c', rel c c' → Agree T inside i (act c) (act' c') Eq i) :
    ∀ {cs cs' : List γ}, List.Forall₂ rel cs cs' →
      Agree T inside i (cs.forM act) (cs'.forM act') Eq i
  | _, _, .nil => pure rfl
  | _, _, .cons hc hcs => next (h _ _ hc) fun _ => forM h hcs

/-! ### Code -/

theorem log (e e' : Event) : Agree T inside i (log e) (log e') Eq i :=
  change fun _ _ hg => { hg with }

theorem pc : Agree T inside i pc pc Eq i :=
  get fun _ _ hg => pure hg.code.pc.symm

theorem emit {c c' : Instruction} (h : c.Twin T c') : Agree T inside i (emit c) (emit c') Eq i :=
  next pc fun _ => next (log _ _) fun _ => change fun _ _ hg => { hg with code := hg.code.emit h }

theorem reserve : Agree T inside i reserve reserve Eq i := by
  refine Paired.inspect fun g g' hg => ?_
  rintro _ _ ⟨rfl, rfl⟩
  obtain ⟨hhole, hcode⟩ := hg.code.reserve
  exact ⟨hhole.symm, { hg with code := hcode }⟩

theorem fill (hole : Hole) {c c' : Instruction} (h : c.Twin T c') :
    Agree T inside i (fill hole c) (fill hole c') Eq i := by
  refine Paired.inspect fun g g' hg => ?_
  rcases hg.code.fill hole h with ⟨t, t', ht, ht', hcode⟩ | ⟨fault, ht, ht'⟩
  · rw [ht, ht']
    rintro _ _ ⟨rfl, rfl⟩
    exact ⟨rfl, { hg with code := hcode }⟩
  · rw [ht, ht']
    rintro _ _ ⟨rfl, rfl⟩
    exact hg.failed (T.fault_refl fault)

theorem fillAll {c c' : Instruction} (h : c.Twin T c') (holes : List Hole) :
    Agree T inside i (holes.forM fun hole => Gen.fill hole c)
      (holes.forM fun hole => Gen.fill hole c') Eq i :=
  forM (fun hole _ heq => heq ▸ fill hole h) (List.forall₂_same.mpr fun _ _ => rfl)

theorem clearScratch : Agree T inside (held, n) clearScratch clearScratch Eq (held, 0) := by
  refine change fun g g' hg => ?_
  obtain ⟨k, -, hscratch, hscratch'⟩ := hg.scratch
  exact { hg with
    scratch := ⟨0, Nat.le_refl 0, by rw [hscratch]; rfl, by rw [hscratch']; rfl⟩ }

/-- The scratch cells of the same number are taken; there may be too few of them only if both
    layouts are the same. -/
theorem takeScratch (hn : n < 3) : Agree T inside (held, n) takeScratch takeScratch
      (fun cell cell' => cell.Moved T.l T.l' T.globals cell') (held, n + 1) := by
  refine Paired.inspect fun g g' hg => ?_
  obtain ⟨k, hk, hscratch, hscratch'⟩ := hg.scratch
  have hk₃ := Nat.lt_of_le_of_lt hk hn
  rw [hscratch, hscratch']
  by_cases hslots : k < T.l.scratchSlots.toNat ∧ k < T.l'.scratchSlots.toNat
  · have htake : ∀ l : Layout, k < l.scratchSlots.toNat →
        ({ ScratchPool.ofLayout l with used := k } : ScratchPool).take =
          .ok (l.scratchCell k, { ScratchPool.ofLayout l with used := k + 1 }) :=
      fun _ hlt => if_pos hlt
    rw [htake _ hslots.1, htake _ hslots.2]
    rintro _ _ ⟨rfl, rfl⟩
    exact ⟨.scratch hk₃, { hg with scratch := ⟨k + 1, Nat.succ_le_succ hk, rfl, rfl⟩ }⟩
  · rcases T.room with heq | ⟨hroom, hroom'⟩
    · rw [← heq, and_self] at hslots
      have htake : ({ ScratchPool.ofLayout T.l with used := k } : ScratchPool).take =
          .error (.scratchExhausted T.l.scratchSlots.toNat) := if_neg hslots
      rw [← heq, htake]
      rintro _ _ ⟨rfl, rfl⟩
      exact hg.failed (T.fault_refl _)
    · exact (hslots ⟨Nat.lt_of_lt_of_le hk₃ hroom, Nat.lt_of_lt_of_le hk₃ hroom'⟩).elim

/-! ### The operand stack -/

theorem push {h : Held} {v v' : StackValue} (hv : v.Twin T v')
    (hh : h.isEntry = true := by exact rfl) :
    Agree T inside (held, n) (push v) (push v') Eq (h :: held, n) :=
  next (log _ _) fun _ => change fun _ _ hg => { hg with stack := .entry hh hv hg.stack }

theorem pushSymbol {s s' : Symbol} (h : s.Twin T s') :
    Agree T inside (held, n) (pushSymbol s) (pushSymbol s') Eq (.operand :: held, n) :=
  push (.symbol h)

theorem pushNamed {x : Token} {s s' : Symbol} (h : s.NamedTwin T s') :
    Agree T inside (held, n) (Gen.pushSymbol s) (Gen.pushSymbol s') Eq (.named x :: held, n) :=
  next (log _ _) fun _ => change fun _ _ hg => { hg with stack := .named h hg.stack }

theorem pushLiteral (value : Word) : Agree T inside (held, n) (Gen.push (.literal value))
    (Gen.push (.literal value)) Eq (.number :: held, n) :=
  next (log _ _) fun _ => change fun _ _ hg => { hg with stack := .number value hg.stack }

theorem pop {h : Held} (hh : h.isEntry = true := by exact rfl) :
    Agree T inside (h :: held, n) pop pop (StackValue.Twin T) (held, n) := by
  refine Paired.inspect fun g g' hg => ?_
  obtain ⟨v, v', rest, rest', hstack, hstack', hv, hrest⟩ := hg.stack.entry_inv hh
  rw [hstack, hstack']
  rintro _ _ ⟨rfl, rfl⟩
  exact ⟨hv, { hg with stack := hrest }⟩

theorem popSymbol : Agree T inside (.operand :: held, n) popSymbol popSymbol (Symbol.Twin T)
    (held, n) := by
  refine bind pop fun v v' hv => ?_
  cases hv with
  | symbol h => exact pure h
  | literal value => exact pure (.of_local rfl)
  | _ => exact stop

theorem popName : Agree T inside (.name :: held, n) popName popName T.names.Pairs (held, n) := by
  refine bind pop fun v v' hv => ?_
  cases hv with
  | name h => exact pure h
  | _ => exact stop

theorem popType : Agree T inside (.type :: held, n) popType popType
    (fun ty ty' => ty' = ty ∧ (ty = .int ∨ ty = .void)) (held, n) := by
  refine bind pop fun v v' hv => ?_
  cases hv with
  | type h => exact pure ⟨rfl, h⟩
  | _ => exact stop

theorem popOperator : Agree T inside (.operator :: held, n) popOperator popOperator Eq
    (held, n) := by
  refine bind pop fun v v' hv => ?_
  cases hv with
  | operator op => exact pure rfl
  | _ => exact stop

theorem popLabel : Agree T inside (.label :: held, n) popLabel popLabel Eq (held, n) := by
  refine bind pop fun v v' hv => ?_
  cases hv with
  | label pc => exact pure rfl
  | _ => exact stop

theorem popSlot : Agree T inside (.slot :: held, n) popSlot popSlot Eq (held, n) := by
  refine bind pop fun v v' hv => ?_
  cases hv with
  | slot hole => exact pure rfl
  | _ => exact stop

theorem popBranch : Agree T inside (.branch :: held, n) popBranch popBranch
    (fun b b' => b'.1 = b.1 ∧ b.2.Twin T b'.2) (held, n) := by
  refine bind pop fun v v' hv => ?_
  cases hv with
  | branch hole h => exact pure ⟨rfl, h⟩
  | _ => exact stop

/-- What a name stands for comes off the stack as it is. -/
theorem popNamed {x : Token} : Agree T inside (.named x :: held, n) Gen.popSymbol Gen.popSymbol
    (Symbol.NamedTwin T) (held, n) := by
  intro g g' hg
  obtain ⟨s, s', rest, rest', hstack, hstack', hs, hrest⟩ := hg.stack.named_inv
  simp only [Gen.popSymbol, Gen.pop, Bind.bind, EStateM.bind, MonadState.get, getThe,
    MonadStateOf.get, EStateM.get, hstack, hstack']
  exact ⟨hs, { hg with stack := hrest }⟩

/-- A number comes off the stack as it is. -/
theorem popNumber : Agree T inside (.number :: held, n) Gen.popSymbol Gen.popSymbol Eq
    (held, n) := by
  intro g g' hg
  obtain ⟨value, rest, rest', hstack, hstack', hrest⟩ := hg.stack.number_inv
  simp only [Gen.popSymbol, Gen.pop, Bind.bind, EStateM.bind, MonadState.get, getThe,
    MonadStateOf.get, EStateM.get, hstack, hstack']
  exact ⟨rfl, { hg with stack := hrest }⟩

theorem popSymbols : ∀ count, Agree T inside (List.replicate count .operand ++ held, n)
    (popSymbols count) (popSymbols count) (List.Forall₂ (Symbol.Twin T)) (held, n)
  | 0 => pure .nil
  | count + 1 => bind popSymbol fun _ _ hlast => bind (popSymbols count) fun _ _ hargs =>
    pure (List.rel_append hargs (.cons hlast .nil))

/-! ### Diagnostics and temporaries -/

section
variable {line line' : Nat} (hline : T.line line line')

include hline

theorem report {cause cause' : Diagnostic.Cause} (h : cause.Renamed T.names cause') :
    Agree T inside i (report line cause) (report line' cause') Eq i :=
  next (log _ _) fun _ => change fun _ _ hg => hg.report hline h

theorem reportRejected {e e' : SymbolError} (h : e.Twin T e') :
    Agree T inside i (reportRejected line e) (reportRejected line' e') Eq i := by
  cases h with
  | duplicate h => exact report hline (.alreadyDefined h)
  | tooLarge h => exact report hline (.tooLarge h)
  | fault h => exact throw h

theorem checkInts {operands operands' : List Symbol}
    (h : List.Forall₂ (Symbol.Twin T) operands operands') :
    Agree T inside i (checkInts operands line) (checkInts operands' line') Eq i := by
  have hfound : Option.Rel (Symbol.Twin T) (operands.find? (!·.isInt))
      (operands'.find? (!·.isInt)) := find?_related (fun s s' hs => by rw [hs.isInt]) h
  rw [Gen.checkInts, Gen.checkInts]
  generalize operands.find? (!·.isInt) = bad, operands'.find? (!·.isInt) = bad' at hfound
  cases hfound with
  | none => exact pure rfl
  | some hbad =>
    dsimp only
    rw [hbad.category]
    exact next (report hline (.operandType _)) fun _ => pure rfl

end

/-- A temporary is made in the frame of the open function. -/
theorem newTemporary (indexed : Bool) : Agree T true i (demand (.newTemporary indexed))
    (demand (.newTemporary indexed)) (fun s s' => s' = s ∧ s.isGlobal = false) i := by
  intro g g' hg
  obtain ⟨f, f', hf, hf', htwin⟩ := hg.symbols.function_some
  have hrecord : f'.record = f.record := by obtain ⟨-, -, -⟩ := htwin; rfl
  simp only [demand, Bind.bind, EStateM.bind, MonadState.get, getThe, MonadStateOf.get,
    EStateM.get, Request.run, Request.newTemporary, EStateM.run]
  by_cases hroom : f.record.HasRoom 1
  · rw [SymbolTable.newTemporary_eq hf hroom, SymbolTable.newTemporary_eq hf' (hrecord ▸ hroom)]
    have hgrown : (f.grow 1).Twin T (f'.grow 1) := by
      obtain ⟨hname, houter, hblocks⟩ := htwin
      exact ⟨hname, houter, hblocks⟩
    have hsymbols := hg.symbols.withFunction hgrown
    refine ⟨⟨?_, rfl⟩, { hg with symbols := { hsymbols with temporaries := ?_ } }⟩
    · rw [OpenFunction.temporary, OpenFunction.temporary, hrecord, hg.symbols.temporaries]
    · exact congrArg (· + 1) hg.symbols.temporaries
  · obtain ⟨fault, hfault⟩ := Record.allocate_of_not_hasRoom hroom
    simp only [SymbolTable.newTemporary, Bind.bind, EStateM.bind,
      SymbolTable.allocate_local_stops hf hfault,
      SymbolTable.allocate_local_stops hf' (hrecord ▸ hfault)]
    exact ⟨T.fault_refl fault, fun _ => ⟨T.globals, hg.code, hg.frames, hg.diagnostics⟩⟩

/-! ### Operands -/

section
variable (hn : n < 3)

include hn

theorem fieldOperand {pointer pointer' : Word} (h : pointer.Moved T.l T.l' T.globals pointer')
    (offset : Word) : Agree T inside (held, n) (fieldOperand pointer offset)
      (fieldOperand pointer' offset) (Operand.Twin T) (held, n + 1) := by
  refine ite ((pure (.indirect h)).weaken (Nat.le_succ n)) ?_
  refine bind (takeScratch hn) fun cell cell' hcell => ?_
  exact next (emit (.add (.direct h) (.number offset) (.direct hcell))) fun _ =>
    pure (.indirect hcell)

theorem headerOperand {pointer pointer' : Word} (h : pointer.Moved T.l T.l' T.globals pointer')
    (offset : Nat) : Agree T inside (held, n) (headerOperand pointer offset)
      (headerOperand pointer' offset) (Operand.Twin T) (held, n + 1) :=
  fieldOperand hn h _

variable {s s' : Symbol} (h : s.Twin T s') (hfunction : s.isFunction = false)

include h hfunction

omit h hfunction in
theorem localOperand (hs : s.isGlobal = false) (hs' : s'.isGlobal = false)
    (hvalue : s'.value = s.value) : Agree T inside (held, n) (Gen.cellOperand s)
      (Gen.cellOperand s') (Operand.Twin T) (held, n + 1) := by
  rw [Gen.cellOperand, Gen.cellOperand, hs, hs', hvalue]
  refine get fun g g' hg => ?_
  rw [hg.layout, hg.layout']
  exact fieldOperand hn .framePointer s.value

theorem cellOperand (hty : s.ty ≠ .arrayInt) : Agree T inside (held, n) (cellOperand s)
    (cellOperand s') (Operand.Twin T) (held, n + 1) := by
  rcases h.storage_cases hfunction with ⟨hvalue, hlocal⟩ | ⟨hglobal, hstored, hplace, hshift⟩
  · exact localOperand hn hlocal (h.isGlobal.trans hlocal) hvalue
  · rw [Gen.cellOperand, Gen.cellOperand, h.isGlobal, hglobal]
    rw [hstored.resolve_right hty] at hplace
    exact (pure (.direct (.data hplace hshift))).weaken (Nat.le_succ n)

omit hn h hfunction in
theorem throughCell {o o' : Operand} (ho : o.Twin T o') :
    Agree T inside i (throughCell o) (throughCell o') (Operand.Twin T) i := by
  cases ho with
  | number value => exact stop
  | array _ _ => exact stop
  | direct ha => exact pure (.indirect ha)
  | indirect ha =>
    exact next (emit (.assign (.indirect ha) (.direct ha))) fun _ => pure (.indirect ha)

theorem scalarOperand (hty : s.ty.isScalar = true) : Agree T inside (held, n) (scalarOperand s)
    (scalarOperand s') (Operand.Twin T) (held, n + 1) := by
  have hcell : Agree T inside (held, n) (Gen.cellOperand s) (Gen.cellOperand s') (Operand.Twin T)
      (held, n + 1) := by
    refine cellOperand hn h hfunction ?_
    intro harray
    rw [harray] at hty
    cases hty
  rw [Gen.scalarOperand, Gen.scalarOperand, h.isConstant, h.ty]
  cases hconstant : s.isConstant with
  | true =>
    rw [h.value_of_isConstant hconstant]
    exact (pure (.number s.value)).weaken (Nat.le_succ n)
  | false => exact bind hcell fun o o' ho => ite (throughCell ho) (pure ho)

/-- The address of an array: a number in the data, and computed in the frame. -/
theorem arrayOperand (hty : s.ty = .arrayInt ∨ s.ty = .arrayVoid) :
    Agree T inside (held, n)
      (do
        if s.isGlobal then return Operand.immediate s.value
        let scratch ← Gen.takeScratch
        Gen.emit (.add (.direct (← MonadState.get).layout.framePointer) (.immediate s.value)
          (.direct scratch))
        return .direct scratch)
      (do
        if s'.isGlobal then return Operand.immediate s'.value
        let scratch ← Gen.takeScratch
        Gen.emit (.add (.direct (← MonadState.get).layout.framePointer) (.immediate s'.value)
          (.direct scratch))
        return .direct scratch) (Operand.Twin T) (held, n + 1) := by
  rw [h.isGlobal]
  rcases h.storage_cases hfunction with ⟨hvalue, hlocal⟩ | ⟨hglobal, hstored, hplace, hshift⟩
  · rw [hlocal, hvalue]
    refine bind (takeScratch hn) fun cell cell' hcell => get fun g g' hg => ?_
    rw [hg.layout, hg.layout']
    exact next (emit (.add (.direct .framePointer) (.number _) (.direct hcell))) fun _ =>
      pure (.direct hcell)
  · have harray : s.ty = .arrayInt := by
      rcases hstored with hno | harray
      · rw [hno] at hty
        rcases hty with hty | hty <;> cases hty
      · exact harray
    rw [harray] at hplace
    rw [hglobal]
    exact (pure (.array hplace hshift)).weaken (Nat.le_succ n)

theorem baseOperand : Agree T inside (held, n) (baseOperand s) (baseOperand s') (Operand.Twin T)
    (held, n + 1) := by
  rw [Gen.baseOperand, Gen.baseOperand, h.ty]
  cases hty : s.ty with
  | arrayInt => exact arrayOperand hn h hfunction (.inl hty)
  | arrayVoid => exact arrayOperand hn h hfunction (.inr hty)
  | _ => exact cellOperand hn h hfunction (by rw [hty]; decide)

end

section
variable (hn : n < 3) {s s' : Symbol} (h : s.Twin T s')

include hn h

theorem resolveOperand : Agree T inside (held, n) (resolveOperand s) (resolveOperand s')
    (Option.Rel fun r r' : Resolved => r.operand.Twin T r'.operand) (held, n + 1) := by
  rw [Gen.resolveOperand, Gen.resolveOperand, h.isFunction, h.ty]
  cases hnone : (s.isFunction || !s.ty.isScalar) with
  | true => exact (pure .none).weaken (Nat.le_succ n)
  | false =>
    rw [Bool.or_eq_false_iff, Bool.not_eq_false'] at hnone
    exact next pc fun _ => bind (scalarOperand hn h hnone.1 hnone.2) fun o o' ho =>
      next pc fun _ => next (log _ _) fun _ => pure (.some ho)

theorem resolveReference : Agree T inside (held, n) (resolveReference s) (resolveReference s')
    (Option.Rel fun r r' : Resolved => r.operand.Twin T r'.operand) (held, n + 1) := by
  rw [Gen.resolveReference, Gen.resolveReference, h.isFunction, h.ty]
  cases hnone : (s.isFunction || !s.ty.isReference) with
  | true => exact (pure .none).weaken (Nat.le_succ n)
  | false =>
    rw [Bool.or_eq_false_iff, Bool.not_eq_false'] at hnone
    exact next pc fun _ => bind (baseOperand hn h hnone.1) fun o o' ho =>
      next pc fun _ => next (log _ _) fun _ => pure (.some ho)

omit hn h in
theorem operandOrZero {r r' : Option Resolved}
    (hr : Option.Rel (fun r r' : Resolved => r.operand.Twin T r'.operand) r r') :
    (operandOrZero r).Twin T (operandOrZero r') := by
  cases hr with
  | none => exact .number 0
  | some ho => exact ho

theorem valueOperand : Agree T inside (held, n) (valueOperand s) (valueOperand s')
    (Operand.Twin T) (held, n + 1) :=
  bind (resolveOperand hn h) fun _ _ hr => pure (operandOrZero hr)

end

/-! ### Expressions -/

variable {t t' : Token}

theorem pushPlaceholder (a b : String) : Agree T inside (held, n)
    (Gen.pushSymbol (.placeholder a)) (Gen.pushSymbol (.placeholder b)) Eq (.operand :: held, n) :=
  pushSymbol (.same b (.inl rfl))

/-- What cannot be compiled leaves a placeholder. -/
theorem giveUp {a b : String} {f f' : Unit → Gen β} {m : Nat}
    (h : Agree T inside (.operand :: held, n) (f ()) (f' ()) last (.operand :: held, n))
    (hle : n ≤ m := by exact Nat.zero_le _) : Agree T inside (held, n)
      (Gen.pushSymbol (.placeholder a) >>= f) (Gen.pushSymbol (.placeholder b) >>= f') last
      (.operand :: held, m) :=
  weaken (next (pushPlaceholder a b) fun _ => h) hle

theorem pushOperator (h : t'.lexeme = t.lexeme) : Agree T inside (held, n) (pushOperator t)
    (pushOperator t') Eq (.operator :: held, n) := by
  rw [Gen.pushOperator, Gen.pushOperator, h]
  cases BinaryOp.ofLexeme? t.lexeme with
  | some op => exact push (.operator op)
  | none => exact stop

section
variable (hline : T.line t.line t'.line)

include hline

theorem pushIdentifier (h : T.names.Pairs t.lexeme t'.lexeme) : Agree T inside (held, n)
    (pushIdentifier t) (pushIdentifier t') Eq (.named t :: held, n) := by
  refine get fun g g' hg => ?_
  have hfound := hg.symbols.find? h
  generalize g.symbols.find? t.lexeme = found, g'.symbols.find? t'.lexeme = found' at hfound
  cases hfound with
  | none => exact next (report hline (.notDefined h)) fun _ => pushNamed (.placeholder h)
  | some hs => exact pushNamed hs

theorem pushNumber (h : t'.lexeme = t.lexeme) : Agree T inside (held, n) (pushNumber t)
    (pushNumber t') Eq (.number :: held, n) := by
  rw [Gen.pushNumber, Gen.pushNumber, h]
  cases Word.ofNumeral? t.lexeme with
  | some value => exact pushLiteral value
  | none => exact next (report hline (.literalRange _)) fun _ => pushLiteral 0

theorem computeBinary : Agree T true (.operand :: .operator :: .operand :: held, 0)
    (computeBinary t) (computeBinary t') Eq (.operand :: held, 3) := by
  refine bind popSymbol fun rhs rhs' hrhs => next popOperator fun op =>
    bind popSymbol fun lhs lhs' hlhs =>
    next (checkInts hline (.cons hlhs (.cons hrhs .nil))) fun _ => ite (giveUp (pure rfl)) ?_
  refine bind (newTemporary false) ?_
  rintro result _ ⟨rfl, hresult⟩
  exact bind (valueOperand (by decide) hlhs) fun a a' ha =>
    bind (valueOperand (by decide) hrhs) fun b b' hb =>
    bind (valueOperand (by decide) (.of_local hresult)) fun dst dst' hdst =>
    next (emit (.binary ha hb hdst)) fun _ => pushSymbol (.of_local hresult)

theorem assign : Agree T inside (.operand :: .operand :: held, 0) (assign t) (assign t') Eq
    (.operand :: held, 2) :=
  bind popSymbol fun src src' hsrc => bind popSymbol fun dst dst' hdst =>
    next (checkInts hline (.cons hdst (.cons hsrc .nil))) fun _ => ite (giveUp (pure rfl)) <|
    bind (valueOperand (by decide) hsrc) fun value value' hvalue =>
    bind (valueOperand (by decide) hdst) fun place place' hplace =>
    next (emit (.assign hvalue hplace)) fun _ => pushSymbol hsrc

/-- Only what a name stands for is reported not to be an array. -/
theorem indexArray {x : Token} : Agree T true (.operand :: .named x :: held, 0) (indexArray t)
    (indexArray t') Eq (.operand :: held, 3) := by
  refine bind popSymbol fun index index' hindex => bind popNamed fun array array' harray => ?_
  rw [harray.twin.isPlaceholder, harray.twin.isFunction, harray.twin.ty]
  refine ite (giveUp (pure rfl)) <|
    ite (next (report hline (.notArray harray.name)) fun _ => giveUp (pure rfl)) <|
    next (checkInts hline (.cons hindex .nil)) fun _ => ite (giveUp (pure rfl)) <|
    bind (newTemporary true) ?_
  rintro element _ ⟨rfl, helement⟩
  refine bind (valueOperand (by decide) hindex) fun offset offset' hoffset =>
    bind (localOperand (by decide) helement helement rfl) fun cell cell' hcell =>
    next (emit (.mul hoffset (.number _) hcell)) fun _ =>
    bind (resolveReference (by decide) harray.twin) fun base base' hbase => ?_
  cases hbase with
  | none => exact stop
  | some hbase =>
    exact next (emit (.add hcell hbase hcell)) fun _ => pushSymbol (.of_local helement)

end

/-! ### Calls -/

theorem pushArgCount {x : Token} : Agree T inside (.named x :: held, n)
    (modify fun g => { g with argCounts := 0 :: g.argCounts })
    (modify fun g => { g with argCounts := 0 :: g.argCounts }) Eq (.call x :: held, n) := by
  refine change fun g g' hg =>
    { hg with stack := ?_, argCounts := congrArg (0 :: ·) hg.argCounts }
  obtain ⟨s, s', rest, rest', hstack, hstack', hs, hrest⟩ := hg.stack.named_inv
  rw [hstack, hstack']
  exact SameStack.call .nil hs hrest

theorem incrementArgCount {x : Token} : Agree T inside (.operand :: .call x :: held, n)
    incrementArgCount incrementArgCount Eq (.call x :: held, n) := by
  refine Paired.inspect fun g g' hg => ?_
  obtain ⟨count, rest, hcounts, hstack⟩ := hg.stack.addArgument
  rw [hg.argCounts, hcounts]
  rintro _ _ ⟨rfl, rfl⟩
  exact ⟨rfl, { hg with stack := hstack, argCounts := rfl }⟩

theorem popArgCount {x : Token} {f f' : Nat → Gen β}
    (h : ∀ count, Agree T inside (List.replicate count .operand ++ .named x :: held, n) (f count)
      (f' count) last j) :
    Agree T inside (.call x :: held, n) (Gen.popArgCount >>= f) (Gen.popArgCount >>= f') last
      j := by
  intro g g' hg
  obtain ⟨count, rest, hcounts, hstack⟩ := hg.stack.call_inv
  have hcounts' : g'.argCounts = count :: rest := hg.argCounts.trans hcounts
  simp only [Gen.popArgCount, Bind.bind, EStateM.bind, MonadState.get, getThe, MonadStateOf.get,
    EStateM.get, hcounts, hcounts']
  exact h count _ _ { hg with stack := hstack, argCounts := rfl }

theorem passArgument {arg arg' : Symbol} (h : arg.Twin T arg') (parameter : Ty) (index : Nat) :
    Agree T inside (held, n) (passArgument parameter arg index) (passArgument parameter arg' index)
      Eq (held, 2) := by
  have hplace : ∀ value value' : Operand, value.Twin T value' → Agree T inside (held, 1)
      (do
        let place ← Gen.headerOperand (← MonadState.get).layout.stackPointer
          (Record.header + Word.size * index)
        Gen.emit (.assign value place))
      (do
        let place ← Gen.headerOperand (← MonadState.get).layout.stackPointer
          (Record.header + Word.size * index)
        Gen.emit (.assign value' place)) Eq (held, 2) := by
    refine fun value value' hvalue => get fun g g' hg => ?_
    rw [hg.layout, hg.layout']
    exact bind (headerOperand (by decide) .stackPointer _) fun place place' hplace =>
      emit (.assign hvalue hplace)
  refine next clearScratch fun _ => ?_
  rw [h.isPlaceholder]
  split
  · exact bind (resolveReference (by decide) h) fun r r' hr => bind (pure (operandOrZero hr)) hplace
  · exact bind (valueOperand (by decide) h) hplace

theorem jumpToCallee (entry : Word) : Agree T inside (held, 0) (jumpToCallee entry)
    (jumpToCallee entry) Eq (held, 1) := by
  refine get fun g g' hg => ?_
  rw [hg.layout, hg.layout']
  exact bind (headerOperand (by decide) .stackPointer _) fun place place' hplace =>
    next pc fun _ => next (emit (.assign (.number _) hplace)) fun _ =>
    next (emit (.jump _)) fun _ => pure rfl

/-- Arguments of a call and what they are passed for, in order. -/
theorem forall₂_zipIdx {args args' : List Symbol} (h : List.Forall₂ (Symbol.Twin T) args args') :
    ∀ (params : List Ty) (k : Nat), List.Forall₂
      (fun p p' : (Ty × Symbol) × Nat => p'.1.1 = p.1.1 ∧ p.1.2.Twin T p'.1.2 ∧ p'.2 = p.2)
      ((params.zip args).zipIdx k) ((params.zip args').zipIdx k) := by
  induction h with
  | nil =>
    intro params k
    rw [List.zip_nil_right]
    exact .nil
  | cons harg _ ih =>
    intro params k
    cases params with
    | nil => exact .nil
    | cons parameter params => exact .cons ⟨rfl, harg, rfl⟩ (ih params (k + 1))

variable {args args' : List Symbol} (hargs : List.Forall₂ (Symbol.Twin T) args args')
  {callee : Symbol} {name : String}

include hargs

theorem argumentMistake? (hname : T.names.Pairs callee.name name) :
    Option.Rel (Diagnostic.Cause.Renamed T.names) (argumentMistake? callee args)
      (Gen.argumentMistake? { callee with name } args') := by
  simp only [Gen.argumentMistake?, ← hargs.length_eq]
  split
  · exact .some (.argumentCount hname)
  · have hfound : Option.Rel _
        (((callee.args.getD []).zip args).zipIdx.find? fun p => !p.1.2.matchesParameter p.1.1)
        (((callee.args.getD []).zip args').zipIdx.find? fun p => !p.1.2.matchesParameter p.1.1) :=
      find?_related (by
        rintro p p' ⟨hparameter, harg, -⟩
        rw [hparameter, harg.matchesParameter]) (forall₂_zipIdx hargs _ 0)
    generalize ((callee.args.getD []).zip args).zipIdx.find?
        (fun p => !p.1.2.matchesParameter p.1.1) = bad,
      ((callee.args.getD []).zip args').zipIdx.find?
        (fun p => !p.1.2.matchesParameter p.1.1) = bad' at hfound
    cases hfound with
    | none => exact .none
    | some hbad =>
      obtain ⟨hparameter, harg, hindex⟩ := hbad
      simp only [Option.map_some, hparameter, harg.category, hindex]
      exact .some (.argumentType _ hname _ _)

theorem callFunction : Agree T true (held, 0) (callFunction callee args)
    (callFunction { callee with name } args') Eq (.operand :: held, 1) := by
  refine next (relax (forM ?_ (forall₂_zipIdx hargs _ 0)) (Nat.zero_le 2)) fun _ =>
    next clearScratch fun _ => next (jumpToCallee _) fun _ => next (log _ _) fun _ =>
    ite (next (pushSymbol (.same name (.inl rfl))) fun _ => pure rfl) <|
    next clearScratch fun _ => bind (newTemporary false) ?_
  · rintro ⟨⟨parameter, arg⟩, index⟩ ⟨⟨_, arg'⟩, _⟩ ⟨rfl, harg, rfl⟩
    exact passArgument harg _ _
  · rintro result _ ⟨rfl, hresult⟩
    refine bind (valueOperand (by decide) (.of_local hresult)) fun dst dst' hdst =>
      get fun g g' hg => ?_
    rw [hg.layout, hg.layout']
    exact next (emit (.assign (.indirect .stackPointer) hdst)) fun _ =>
      pushSymbol (.of_local hresult)

theorem callOutput (a b : Symbol) : Agree T inside (held, 0) (callOutput a args)
    (callOutput b args') Eq (.operand :: held, 1) := by
  have hresult : ∀ value value' : Operand, value.Twin T value' → Agree T inside (held, 1)
      (do
        Gen.emit (.print value)
        Gen.pushSymbol (.voidResult a.name))
      (do
        Gen.emit (.print value')
        Gen.pushSymbol (.voidResult b.name)) Eq (.operand :: held, 1) :=
    fun _ _ hvalue => next (emit (.print hvalue)) fun _ => pushSymbol (.same b.name (.inl rfl))
  cases hargs with
  | nil => exact bind (pure (.number 0)).weaken hresult
  | cons harg _ => exact bind (valueOperand (by decide) harg) hresult

omit hargs

/-- What a function's address stands for is the function itself but for its name. -/
theorem callee_twin {g g' : Generator} (hg : g.Twin T inside i g') {target target' : Symbol}
    (h : target.NamedTwin T target') (hfunction : target.isFunction = true) :
    ∃ name, T.names.Pairs ((g.symbols.functionAt? target.value).getD target).name name ∧
      (g'.symbols.functionAt? target'.value).getD target' =
        { (g.symbols.functionAt? target.value).getD target with name } := by
  obtain ⟨name, rfl⟩ := h.twin.eq_of_isFunction hfunction
  have hfound := hg.symbols.functionAt? target.value
  have his : ∀ s, g.symbols.functionAt? target.value = some s → s.isFunction = true := by
    intro s hs
    obtain ⟨scope, -, hfind⟩ := List.exists_of_findSome?_eq_some hs
    rw [Scope.functionAt?] at hfind
    have hboth := List.find?_some hfind
    exact (Bool.and_eq_true_iff.mp hboth).1
  generalize g.symbols.functionAt? target.value = found,
    g'.symbols.functionAt? target.value = found' at hfound his
  cases hfound with
  | none => exact ⟨name, h.name, rfl⟩
  | some hs =>
    obtain ⟨name, rfl⟩ := hs.twin.eq_of_isFunction (his _ rfl)
    exact ⟨name, hs.name, rfl⟩

/-- Only what a name stands for is reported not to be a function, or to be called wrongly. -/
theorem call {x : Token} (hline : T.line t.line t'.line) : Agree T true (.call x :: held, 0)
    (call t) (call t') Eq (.operand :: held, 1) := by
  refine popArgCount fun count => bind (popSymbols count) fun args args' hargs =>
    bind popNamed fun target target' htarget => ?_
  rw [htarget.twin.isPlaceholder, htarget.twin.isFunction]
  refine ite (giveUp (pure rfl)) ?_
  cases hfunction : target.isFunction with
  | false => exact next (report hline (.notFunction htarget.name)) fun _ => giveUp (pure rfl)
  | true =>
    refine get fun g g' hg => ?_
    obtain ⟨name, hname, hcallee⟩ := callee_twin hg htarget hfunction
    rw [hcallee]
    generalize (g.symbols.functionAt? target.value).getD target = callee at hname ⊢
    have hmistake := argumentMistake? hargs hname
    dsimp only
    generalize Gen.argumentMistake? callee args = mistake,
      Gen.argumentMistake? { callee with name } args' = mistake' at hmistake
    cases hmistake with
    | some hcause => exact (next (report hline hcause) fun _ => pushPlaceholder _ _).weaken
    | none =>
      -- The function that prints is known by its name, which is paired with itself.
      have houtput : name = outputName ↔ callee.name = outputName :=
        (T.names.one hname T.names.output).symm
      simp only [houtput]
      exact ite (callOutput hargs _ _) (callFunction hargs)

/-! ### Statements -/

section
variable (hline : T.line t.line t'.line)

include hline

theorem conditionOperand : Agree T inside (.operand :: held, 0) (conditionOperand t)
    (conditionOperand t') (Operand.Twin T) (held, 1) :=
  bind popSymbol fun _ _ hcond => next (checkInts hline (.cons hcond .nil)) fun _ =>
    ite (pure (.number 0)).weaken (valueOperand (by decide) hcond)

theorem reserveBranch : Agree T inside (.operand :: held, 0) (reserveBranch t) (reserveBranch t') Eq
    (.branch :: held, 1) :=
  bind (conditionOperand hline) fun _ _ hcond => next reserve fun _ => next (log _ _) fun _ =>
    push (.branch _ hcond)

theorem repeatLoop : Agree T inside (.operand :: .label :: held, 0) (repeatLoop t) (repeatLoop t')
    Eq (held, 1) :=
  bind (conditionOperand hline) fun _ _ hcond => next popLabel fun _ => emit (.jumpIfFalse _ hcond)

theorem storeReturnValue : Agree T inside (.operand :: held, 0) (storeReturnValue t)
    (storeReturnValue t') Eq (held, 2) := by
  refine bind popSymbol fun _ _ hvalue => next (checkInts hline (.cons hvalue .nil)) fun _ =>
    ite (pure rfl).weaken <| bind (valueOperand (by decide) hvalue) fun source source' hsource =>
    get fun g g' hg => ?_
  rw [hg.layout, hg.layout']
  exact bind (headerOperand (by decide) .framePointer _) fun _ _ hplace =>
    emit (.assign hsource hplace)

theorem registerBreak : Agree T inside i (registerBreak t) (registerBreak t') Eq i := by
  refine get fun g g' hg => ?_
  rw [hg.breaks]
  cases g.breaks with
  | nil => exact report hline .breakOutsideLoop
  | cons holes rest => exact next reserve fun _ => change fun _ _ hg => { hg with breaks := rfl }

end

theorem startElse : Agree T inside (.branch :: held, n) startElse startElse Eq
    (.slot :: held, n) := by
  refine bind popBranch ?_
  rintro ⟨hole, cond⟩ ⟨_, cond'⟩ ⟨rfl, hcond⟩
  exact next reserve fun _ => next pc fun _ => next (fill _ (.jumpIfFalse _ hcond)) fun _ =>
    push (.slot _)

theorem endElse : Agree T inside (.slot :: held, n) endElse endElse Eq (held, n) :=
  next popSlot fun _ => next pc fun _ => fill _ (.jump _)

theorem endBranch : Agree T inside (.branch :: held, n) endBranch endBranch Eq (held, n) := by
  refine bind popBranch ?_
  rintro ⟨hole, cond⟩ ⟨_, cond'⟩ ⟨rfl, hcond⟩
  exact next pc fun _ => fill _ (.jumpIfFalse _ hcond)

theorem startLoop : Agree T inside (held, n) startLoop startLoop Eq (.label :: held, n) :=
  next pc fun _ => push (.label _)

theorem openBreaks : Agree T inside (held, n) openBreaks openBreaks Eq (.breaks :: held, n) :=
  change fun _ _ hg =>
    { hg with stack := .beside rfl hg.stack, breaks := congrArg ([] :: ·) hg.breaks }

theorem closeBreaks : Agree T inside (.breaks :: held, n) closeBreaks closeBreaks Eq (held, n) := by
  refine get fun g g' hg => ?_
  rw [hg.breaks]
  cases g.breaks with
  | nil => exact stop
  | cons holes rest =>
    have hclosed : Agree T inside (.breaks :: held, n) (modify ({ · with breaks := rest }))
        (modify ({ · with breaks := rest })) Eq (held, n) :=
      change fun _ _ hg => { hg with stack := hg.stack.beside_inv rfl, breaks := rfl }
    exact next hclosed fun _ => next pc fun _ => next (log _ _) fun _ => fillAll (.jump _) holes

theorem markReturn : Agree T inside i markReturn markReturn Eq i := by
  refine get fun g g' hg => ?_
  have hbody := hg.body
  generalize g.body = body, g'.body = body' at hbody
  cases hbody with
  | none => exact stop
  | some hbody =>
    obtain ⟨name, hname, rfl⟩ := hbody
    exact next reserve fun _ => change fun _ _ hg => { hg with body := .some ⟨name, hname, rfl⟩ }

/-! ### Declarations -/

theorem pushType (h : t'.lexeme = t.lexeme) : Agree T inside (held, n) (pushType t) (pushType t') Eq
    (.type :: held, n) := by
  rw [Gen.pushType, Gen.pushType, h]
  cases hty : Ty.ofKeyword? t.lexeme with
  | none => exact stop
  | some ty =>
    refine push (.type ?_)
    unfold Ty.ofKeyword? at hty
    split at hty
    · exact .inl (Option.some.inj hty).symm
    · exact .inr (Option.some.inj hty).symm
    · cases hty

/-- What is declared is an integer in the end. -/
theorem checkNotVoid {ty : Ty} (hty : ty = .int ∨ ty = .void) {a b : String}
    (h : T.names.Pairs a b) {line line' : Nat} (hline : T.line line line') :
    Agree T inside i (checkNotVoid ty a line) (checkNotVoid ty b line')
      (fun a a' => a' = a ∧ a = .int) i := by
  rcases hty with rfl | rfl
  · exact pure ⟨rfl, rfl⟩
  · exact next (report hline (.illegalVoid h)) fun _ => pure ⟨rfl, rfl⟩

theorem beginProgram : Agree T inside (held, n) beginProgram beginProgram Eq
    (.program :: held, n) := by
  refine get fun g g' hg => ?_
  rw [hg.start]
  refine ite (fun _ _ hg => hg.failed (T.fault_refl _)) (next reserve fun _ => change ?_)
  exact fun _ _ hg => { hg with stack := .beside rfl hg.stack, start := rfl }

theorem beginFunction : Agree T inside (.header :: held, 0) beginFunction beginFunction Eq
    (.body :: held, 2) := by
  refine get fun g g' hg => ?_
  have hnone : g'.body.isNone = g.body.isNone := by
    rw [← Option.not_isSome, ← Option.not_isSome, isSome_of_rel hg.body]
  rw [hnone]
  refine ite (fun _ _ hg => hg.failed (T.fault_refl _)) (get fun g g' hg => ?_)
  rw [hg.layout, hg.layout']
  refine bind (headerOperand (by decide) .stackPointer _) fun stack stack' hstack =>
    next (emit (.assign (.direct .stackPointer) hstack)) fun _ =>
    bind (headerOperand (by decide) .stackPointer _) fun frame frame' hframe =>
    next (emit (.assign (.direct .framePointer) hframe)) fun _ =>
    next (emit (.assign (.direct .stackPointer) (.direct .framePointer))) fun _ =>
    next reserve fun hole => change fun g g' hg =>
    { hg with stack := .beside rfl (hg.stack.beside_inv rfl), body := ?_ }
  have hbody := hg.body
  generalize g.body = body, g'.body = body' at hbody
  cases hbody with
  | none => exact .none
  | some hbody =>
    obtain ⟨name, hname, rfl⟩ := hbody
    exact .some ⟨name, hname, rfl⟩

theorem emitEpilogue : Agree T inside (held, 0) emitEpilogue emitEpilogue Eq (held, 3) := by
  refine get fun g g' hg => ?_
  rw [hg.layout, hg.layout']
  exact bind (headerOperand (by decide) .framePointer _) fun stack stack' hstack =>
    next (emit (.assign hstack (.direct .stackPointer))) fun _ =>
    bind (headerOperand (by decide) .framePointer _) fun frame frame' hframe =>
    next (emit (.assign hframe (.direct .framePointer))) fun _ =>
    bind (takeScratch (by decide)) fun cell cell' hcell =>
    next (emit (.add (.direct .stackPointer) (.number _) (.direct hcell))) fun _ =>
    next (emit (.assign (.indirect hcell) (.direct hcell))) fun _ => emit (.jumpThrough hcell)

end Agree

end Gen

end OnePass
