import OnePass.Proofs.Generator.Declaration
import OnePass.Proofs.Generator.Expression

/-!
# The shape of a state

Steps leave things for later steps: operands and names on the stack, counts of arguments and slots
of breaks beside it, an open function, open blocks, the slot of the first jump. All of them nest, so
one list of what is held, innermost first, describes a state.

    operand :: operator :: operand :: breaks :: block :: body :: [program]

`Fits` says that a state is as such a list describes it, that every slot some part of the state
still has to fill waits in the store, and that there is room for the words that later steps may
take. -/

namespace OnePass

/-- What earlier steps left for later ones. -/
inductive Held where
  | type | name | operand | number | operator | label | slot | branch
  /-- What the name at a token stands for. -/
  | named (name : Token)
  /-- A call by the name at a token, whose arguments are being read. -/
  | call (name : Token)
  /-- The breaks of a loop. -/
  | breaks
  /-- A block of a function. -/
  | block
  /-- A function before its body. -/
  | header
  /-- The body of a function. -/
  | body
  | program
  deriving DecidableEq, Repr

/-- Where in a program a state is. -/
inductive Phase where
  /-- Before the program or after it. -/
  | before
  /-- Between declarations. -/
  | outside
  /-- Among the parameters of a function. -/
  | header
  /-- In the body of a function, with some blocks open. -/
  | body (blocks : Nat)
  deriving DecidableEq, Repr

/-- One more block is open. -/
def Phase.deeper : Phase → Phase
  | .body blocks => .body (blocks + 1)
  | other => other

/-- Where in a program things are held. -/
def phase : List Held → Phase
  | [] => .before
  | .program :: _ => .outside
  | .header :: _ => .header
  | .body :: _ => .body 0
  | .block :: held => (phase held).deeper
  | _ :: held => phase held

/-- Things are held in the body of a function. -/
def Inside (held : List Held) : Prop := ∃ blocks, phase held = .body blocks

/-! ### The stack and the lists beside it -/

/-- The stack, the counts of arguments and the breaks hold what a list says. -/
inductive Stacked : List Held → List StackValue → List Nat → List (List Hole) → Prop
  | nil : Stacked [] [] [] []
  | type {held stack counts breaks} (ty : Ty) : Stacked held stack counts breaks →
      Stacked (.type :: held) (.type ty :: stack) counts breaks
  | name {held stack counts breaks} (x : String) : Stacked held stack counts breaks →
      Stacked (.name :: held) (.name x :: stack) counts breaks
  | operand {held stack counts breaks} {v : StackValue} {s : Symbol} : v.operand? = some s →
      Stacked held stack counts breaks → Stacked (.operand :: held) (v :: stack) counts breaks
  | number {held stack counts breaks} (value : Word) : Stacked held stack counts breaks →
      Stacked (.number :: held) (.literal value :: stack) counts breaks
  | named {held stack counts breaks} {x : Token} (s : Symbol) : Stacked held stack counts breaks →
      Stacked (.named x :: held) (.symbol s :: stack) counts breaks
  | operator {held stack counts breaks} (op : BinaryOp) : Stacked held stack counts breaks →
      Stacked (.operator :: held) (.operator op :: stack) counts breaks
  | label {held stack counts breaks} (pc : Nat) : Stacked held stack counts breaks →
      Stacked (.label :: held) (.label pc :: stack) counts breaks
  | slot {held stack counts breaks} (hole : Hole) : Stacked held stack counts breaks →
      Stacked (.slot :: held) (.slot hole :: stack) counts breaks
  | branch {held stack counts breaks} (hole : Hole) (cond : Operand) :
      Stacked held stack counts breaks →
      Stacked (.branch :: held) (.branch hole cond :: stack) counts breaks
  /-- A call holds its arguments, the last on top, and its target below them. -/
  | call {held stack counts breaks} {x : Token} {values : List StackValue} {args : List Symbol}
      (s : Symbol) : values.map (·.operand?) = args.map some → Stacked held stack counts breaks →
      Stacked (.call x :: held) (values ++ .symbol s :: stack) (args.length :: counts) breaks
  | breaks {held stack counts breaks} (holes : List Hole) : Stacked held stack counts breaks →
      Stacked (.breaks :: held) stack counts (holes :: breaks)
  | block {held stack counts breaks} : Stacked held stack counts breaks →
      Stacked (.block :: held) stack counts breaks
  | header {held stack counts breaks} : Stacked held stack counts breaks →
      Stacked (.header :: held) stack counts breaks
  | body {held stack counts breaks} : Stacked held stack counts breaks →
      Stacked (.body :: held) stack counts breaks
  | program {held stack counts breaks} : Stacked held stack counts breaks →
      Stacked (.program :: held) stack counts breaks

namespace Stacked

variable {held : List Held} {stack : List StackValue} {counts : List Nat}
  {breaks : List (List Hole)}

theorem type_inv (h : Stacked (.type :: held) stack counts breaks) :
    ∃ ty rest, stack = .type ty :: rest ∧ Stacked held rest counts breaks := by
  cases h with
  | type ty h => exact ⟨ty, _, rfl, h⟩

theorem name_inv (h : Stacked (.name :: held) stack counts breaks) :
    ∃ x rest, stack = .name x :: rest ∧ Stacked held rest counts breaks := by
  cases h with
  | name x h => exact ⟨x, _, rfl, h⟩

theorem operand_inv (h : Stacked (.operand :: held) stack counts breaks) :
    ∃ v s rest, stack = v :: rest ∧ v.operand? = some s ∧ Stacked held rest counts breaks := by
  cases h with
  | operand hv h => exact ⟨_, _, _, rfl, hv, h⟩

theorem number_inv (h : Stacked (.number :: held) stack counts breaks) :
    ∃ value rest, stack = .literal value :: rest ∧ Stacked held rest counts breaks := by
  cases h with
  | number value h => exact ⟨value, _, rfl, h⟩

theorem named_inv {x : Token} (h : Stacked (.named x :: held) stack counts breaks) :
    ∃ s rest, stack = .symbol s :: rest ∧ Stacked held rest counts breaks := by
  cases h with
  | named s h => exact ⟨s, _, rfl, h⟩

theorem operator_inv (h : Stacked (.operator :: held) stack counts breaks) :
    ∃ op rest, stack = .operator op :: rest ∧ Stacked held rest counts breaks := by
  cases h with
  | operator op h => exact ⟨op, _, rfl, h⟩

theorem label_inv (h : Stacked (.label :: held) stack counts breaks) :
    ∃ pc rest, stack = .label pc :: rest ∧ Stacked held rest counts breaks := by
  cases h with
  | label pc h => exact ⟨pc, _, rfl, h⟩

theorem slot_inv (h : Stacked (.slot :: held) stack counts breaks) :
    ∃ hole rest, stack = .slot hole :: rest ∧ Stacked held rest counts breaks := by
  cases h with
  | slot hole h => exact ⟨hole, _, rfl, h⟩

theorem branch_inv (h : Stacked (.branch :: held) stack counts breaks) :
    ∃ hole cond rest, stack = .branch hole cond :: rest ∧ Stacked held rest counts breaks := by
  cases h with
  | branch hole cond h => exact ⟨hole, cond, _, rfl, h⟩

theorem call_inv {x : Token} (h : Stacked (.call x :: held) stack counts breaks) :
    ∃ (values : List StackValue) (args : List Symbol) (s : Symbol) (rest : List StackValue)
      (others : List Nat), stack = values ++ .symbol s :: rest ∧ counts = args.length :: others ∧
      values.map (·.operand?) = args.map some ∧ Stacked held rest others breaks := by
  cases h with
  | call s hargs h => exact ⟨_, _, s, _, _, rfl, rfl, hargs, h⟩

theorem breaks_inv (h : Stacked (.breaks :: held) stack counts breaks) :
    ∃ holes others, breaks = holes :: others ∧ Stacked held stack counts others := by
  cases h with
  | breaks holes h => exact ⟨holes, _, rfl, h⟩

theorem block_inv (h : Stacked (.block :: held) stack counts breaks) :
    Stacked held stack counts breaks := by
  cases h with
  | block h => exact h

theorem header_inv (h : Stacked (.header :: held) stack counts breaks) :
    Stacked held stack counts breaks := by
  cases h with
  | header h => exact h

theorem body_inv (h : Stacked (.body :: held) stack counts breaks) :
    Stacked held stack counts breaks := by
  cases h with
  | body h => exact h

theorem program_inv (h : Stacked (.program :: held) stack counts breaks) :
    Stacked held stack counts breaks := by
  cases h with
  | program h => exact h

/-- The innermost loop may get one more break. -/
theorem addBreak (hole : Hole) {holes : List Hole} {others : List (List Hole)}
    (h : Stacked held stack counts (holes :: others)) :
    Stacked held stack counts ((holes ++ [hole]) :: others) := by
  generalize hb : holes :: others = all at h
  induction h with
  | nil => cases hb
  | breaks holes' h _ =>
    obtain ⟨rfl, rfl⟩ := List.cons.inj hb
    exact .breaks _ h
  | type ty _ ih => exact .type ty (ih hb)
  | name x _ ih => exact .name x (ih hb)
  | operand hv _ ih => exact .operand hv (ih hb)
  | number value _ ih => exact .number value (ih hb)
  | named s _ ih => exact .named s (ih hb)
  | operator op _ ih => exact .operator op (ih hb)
  | label pc _ ih => exact .label pc (ih hb)
  | slot hole' _ ih => exact .slot hole' (ih hb)
  | branch hole' cond _ ih => exact .branch hole' cond (ih hb)
  | call s hargs _ ih => exact .call s hargs (ih hb)
  | block _ ih => exact .block (ih hb)
  | header _ ih => exact .header (ih hb)
  | body _ ih => exact .body (ih hb)
  | program _ ih => exact .program (ih hb)

end Stacked

/-! ### Slots still to be filled -/

/-- The slot that a value on the stack has to fill. -/
def StackValue.hole? : StackValue → Option Hole
  | .slot hole => some hole
  | .branch hole _ => some hole
  | _ => none

@[simp] theorem StackValue.hole?_type (ty : Ty) : (StackValue.type ty).hole? = none := rfl
@[simp] theorem StackValue.hole?_name (x : String) : (StackValue.name x).hole? = none := rfl
@[simp] theorem StackValue.hole?_symbol (s : Symbol) : (StackValue.symbol s).hole? = none := rfl
@[simp] theorem StackValue.hole?_operator (op : BinaryOp) :
    (StackValue.operator op).hole? = none := rfl
@[simp] theorem StackValue.hole?_label (pc : Nat) : (StackValue.label pc).hole? = none := rfl
@[simp] theorem StackValue.hole?_slot (hole : Hole) :
    (StackValue.slot hole).hole? = some hole := rfl
@[simp] theorem StackValue.hole?_branch (hole : Hole) (cond : Operand) :
    (StackValue.branch hole cond).hole? = some hole := rfl

theorem StackValue.hole?_of_operand? {v : StackValue} {s : Symbol} (h : v.operand? = some s) :
    v.hole? = none := by
  cases v <;> first | rfl | cases h

theorem filterMap_hole?_operands : ∀ {values : List StackValue} {args : List Symbol},
    values.map (·.operand?) = args.map some → values.filterMap StackValue.hole? = []
  | [], _, _ => rfl
  | v :: values, [], h => by cases h
  | v :: values, arg :: args, h => by
    obtain ⟨hv, hrest⟩ := List.cons.inj h
    rw [List.filterMap_cons, StackValue.hole?_of_operand? hv]
    exact filterMap_hole?_operands hrest

/-- The slots that the end of a function has to fill. -/
def Body.holes (b : Body) : List Hole := b.prologue.toList ++ b.returns

/-- The positions of all slots that a state has to fill. -/
def Generator.holes (g : Generator) : List Nat :=
  (g.stack.filterMap StackValue.hole? ++ g.breaks.flatten ++ (g.body.map Body.holes).getD []
    ++ g.start.toList).map (·.pc)

/-! ### Words still to be taken -/

/-- The number of words that the steps of a program may take beyond its declarations. -/
def maxWords : Nat := 268435455

/-- There is room for some more words in the record of the open function. -/
def RoomFor (k : Nat) (function : Option OpenFunction) : Prop :=
  k ≤ maxWords ∧
    ∀ f ∈ function, f.record.size + Word.size * k ≤ declaredLimit + Word.size * maxWords

/-- A table comes from another by declarations and by taking some words. -/
structure SymbolTable.Follows (t : SymbolTable) (taken : Nat) (t' : SymbolTable) : Prop where
  data : t.dataEnd ≤ declaredLimit → t'.dataEnd ≤ declaredLimit
  stayClosed : t.function = none → t'.function = none
  stayOpen : ∀ f, t.function = some f → ∃ f', t'.function = some f' ∧
    f'.blocks.length = f.blocks.length ∧ f'.record.closed = f.record.closed ∧
    (f'.record.size ≤ f.record.size + Word.size * taken ∨ f'.record.size ≤ declaredLimit)

theorem SymbolTable.Follows.refl (t : SymbolTable) : t.Follows 0 t :=
  ⟨id, id, fun f hf => ⟨f, hf, rfl, rfl, .inl (Nat.le_refl _)⟩⟩

theorem SymbolTable.Follows.withTemporary {t : SymbolTable} {f : OpenFunction}
    (hf : t.function = some f) : t.Follows 1 (t.withTemporary f) := by
  refine ⟨id, fun h => ?_, fun f' hf' => ?_⟩
  · rw [hf] at h
    cases h
  · obtain rfl := Option.some.inj (hf.symm.trans hf')
    exact ⟨f.grow 1, rfl, rfl, rfl, .inl (Nat.le_refl _)⟩

theorem OpenFunction.blocks_insert (f : OpenFunction) (x : Symbol) :
    (f.insert x).blocks.length = f.blocks.length := by
  rw [insert]
  split
  · rename_i block rest h
    simp [h]
  · rename_i h
    rw [h]

theorem OpenFunction.record_insert (f : OpenFunction) (x : Symbol) :
    (f.insert x).record = f.record := by
  rw [insert]
  split <;> rfl

theorem SymbolTable.Follows.insert (t : SymbolTable) (x : Symbol) : t.Follows 0 (t.insert x) := by
  cases hf : t.function with
  | none =>
    have hinsert : t.insert x = { t with globals := t.globals.insert x } := by
      rw [SymbolTable.insert, hf]
    rw [hinsert]
    exact ⟨id, id, fun f hf' => ⟨f, hf', rfl, rfl, .inl (Nat.le_refl _)⟩⟩
  | some f =>
    have hinsert : t.insert x = { t with function := some (f.insert x) } := by
      rw [SymbolTable.insert, hf]
    rw [hinsert]
    refine ⟨id, fun h => ?_, fun f' hf' => ?_⟩
    · rw [hf] at h
      cases h
    · obtain rfl := Option.some.inj (hf.symm.trans hf')
      refine ⟨_, rfl, f.blocks_insert x, ?_, .inl ?_⟩
      · rw [f.record_insert]
      · rw [f.record_insert]
        exact Nat.le_refl _

theorem SymbolTable.Follows.declareGlobal {t : SymbolTable} {words : Nat} {globals : Scope}
    (hf : t.function = none) (hroom : t.hasRoom words) :
    t.Follows 0 { t with dataEnd := t.dataEnd + Word.size * words, globals } := by
  refine ⟨fun _ => (SymbolTable.hasRoom_iff hf).mp hroom, id, fun f hf' => ?_⟩
  rw [hf] at hf'
  cases hf'

theorem SymbolTable.Follows.declareLocal {t : SymbolTable} {words : Nat} {f : OpenFunction}
    {x : Symbol} (hf : t.function = some f) (hroom : t.hasRoom words) :
    t.Follows 0 { t with function := some ((f.grow words).insert x) } := by
  refine ⟨id, fun h => ?_, fun f' hf' => ?_⟩
  · rw [hf] at h
    cases h
  · obtain rfl := Option.some.inj (hf.symm.trans hf')
    rw [SymbolTable.hasRoom, hf] at hroom
    refine ⟨_, rfl, (f.grow words).blocks_insert x, ?_, .inr ?_⟩
    · rw [OpenFunction.record_insert]
      rfl
    · rw [OpenFunction.record_insert]
      exact Record.fits_iff.mp hroom

theorem RoomFor.hasRoom {k : Nat} {f : OpenFunction} (h : RoomFor (k + 1) (some f))
    (hopen : f.record.closed = false) : f.record.HasRoom 1 := by
  have hroom := h.2 f rfl
  refine ⟨hopen, ?_⟩
  simp only [Word.size, declaredLimit, maxWords, addressLimit] at hroom ⊢
  omega

theorem RoomFor.follows {t t' : SymbolTable} {k taken : Nat}
    (h : RoomFor (k + taken) t.function) (ht : t.Follows taken t') : RoomFor k t'.function := by
  refine ⟨Nat.le_trans (Nat.le_add_right ..) h.1, fun f' hf' => ?_⟩
  cases hf : t.function with
  | none =>
    rw [Option.mem_def, ht.stayClosed hf] at hf'
    cases hf'
  | some f =>
    obtain ⟨f₁, hf₁, -, -, hsize⟩ := ht.stayOpen f hf
    obtain rfl := Option.some.inj (hf₁.symm.trans hf')
    have hroom := h.2 f hf
    have hk := h.1
    simp only [Word.size, declaredLimit, maxWords] at hroom hsize hk ⊢
    omega

/-! ### States -/

/-- The open function is as the phase says. -/
def Phase.Fits (start : Option Hole) (body : Option Body) (function : Option OpenFunction) :
    Phase → Prop
  | .before => start = none ∧ body = none ∧ function = none
  | .outside => start.isSome ∧ body = none ∧ function = none
  | .header => start.isSome ∧ ∃ b f, body = some b ∧ b.prologue = none ∧ b.returns = [] ∧
      function = some f ∧ f.blocks.length = 0 ∧ f.record.closed = false
  | .body blocks => start.isSome ∧ ∃ b f, body = some b ∧ b.prologue.isSome ∧
      function = some f ∧ f.blocks.length = blocks ∧ f.record.closed = false

theorem Phase.Fits.follows {p : Phase} {start : Option Hole} {body : Option Body}
    {t t' : SymbolTable} {taken : Nat} (h : p.Fits start body t.function)
    (ht : t.Follows taken t') : p.Fits start body t'.function := by
  cases p with
  | before => exact ⟨h.1, h.2.1, ht.stayClosed h.2.2⟩
  | outside => exact ⟨h.1, h.2.1, ht.stayClosed h.2.2⟩
  | header =>
    obtain ⟨hstart, b, f, hb, hp, hr, hf, hblocks, hopen⟩ := h
    obtain ⟨f', hf', hlen, hclosed, -⟩ := ht.stayOpen f hf
    exact ⟨hstart, b, f', hb, hp, hr, hf', hlen.trans hblocks, hclosed.trans hopen⟩
  | body blocks =>
    obtain ⟨hstart, b, f, hb, hp, hf, hblocks, hopen⟩ := h
    obtain ⟨f', hf', hlen, hclosed, -⟩ := ht.stayOpen f hf
    exact ⟨hstart, b, f', hb, hp, hf', hlen.trans hblocks, hclosed.trans hopen⟩

/-- A state holds what a list says, with room for some more words. -/
structure Fits (held : List Held) (k : Nat) (g : Generator) : Prop where
  stacked : Stacked held g.stack g.argCounts g.breaks
  place : (phase held).Fits g.start g.body g.symbols.function
  waits : g.holes.Perm g.code.pending
  sound : g.code.Sound
  slots : 3 ≤ g.layout.scratchSlots.toNat
  data : g.symbols.dataEnd ≤ declaredLimit
  room : RoomFor k g.symbols.function
  frames : ∀ f ∈ g.frames, f.size ≤ addressLimit

theorem Fits.report {held : List Held} {k : Nat} {g : Generator} (hg : Fits held k g) (line : Nat)
    (cause : Diagnostic.Cause) : Fits held k (g.report line cause) :=
  ⟨hg.stacked, hg.place, hg.waits, hg.sound, hg.slots, hg.data, hg.room, hg.frames⟩

/-- Room that is not needed may be given up. -/
theorem Fits.mono {held : List Held} {k k' : Nat} {g : Generator} (hg : Fits held k g)
    (hk : k' ≤ k) : Fits held k' g :=
  { hg with room := ⟨Nat.le_trans hk hg.room.1, fun f hf =>
      Nat.le_trans (Nat.add_le_add_left (Nat.mul_le_mul_left _ hk) _) (hg.room.2 f hf)⟩ }

/-- What a name stands for, and a number, are operands. -/
theorem Fits.operand_of_named {x : Token} {held : List Held} {k : Nat} {g : Generator}
    (hg : Fits (.named x :: held) k g) : Fits (.operand :: held) k g := by
  obtain ⟨s, rest, hstack, h⟩ := hg.stacked.named_inv
  exact { hg with stacked := hstack ▸ .operand rfl h }

theorem Fits.operand_of_number {held : List Held} {k : Nat} {g : Generator}
    (hg : Fits (.number :: held) k g) : Fits (.operand :: held) k g := by
  obtain ⟨value, rest, hstack, h⟩ := hg.stacked.number_inv
  exact { hg with stacked := hstack ▸ .operand rfl h }

/-- What is left alone by a step that neither opens nor closes anything. -/
structure Generator.Same (g g' : Generator) : Prop where
  layout : g'.layout = g.layout
  start : g'.start = g.start
  body : g'.body = g.body
  frames : g'.frames = g.frames

/-- A step that appends code, takes words and changes what is on the stack. -/
theorem Fits.move {held held' : List Held} {k : Nat} {g g' : Generator} (taken : Nat)
    (is : List Instruction) (hg : Fits held (k + taken) g)
    (hstacked : Stacked held' g'.stack g'.argCounts g'.breaks)
    (hphase : phase held' = phase held) (hsame : g.Same g')
    (hholes : g'.holes = g.holes) (hcode : g'.code = g.code.append is)
    (hsymbols : g.symbols.Follows taken g'.symbols) : Fits held' k g' where
  stacked := hstacked
  place := by
    rw [hphase, hsame.start, hsame.body]
    exact hg.place.follows hsymbols
  waits := by
    rw [hholes, hcode, Store.pending_append]
    exact hg.waits
  sound := by
    rw [hcode]
    exact hg.sound.append is
  slots := by
    rw [hsame.layout]
    exact hg.slots
  data := hsymbols.data hg.data
  room := hg.room.follows hsymbols
  frames := by
    rw [hsame.frames]
    exact hg.frames

end OnePass
