import OnePass.Proofs.Generator.Operand
import OnePass.Proofs.Symbol.Table

/-!
# What the steps of expressions do

For each step there is one statement for the case where all is well, with the instructions it
appends, and one for each mistake it reports. A mistake leaves a placeholder where the result would
be, and the rest of the state as it was. -/

namespace OnePass

/-! ### The code of expressions -/

namespace Fragment

/-- The code of a binary operation. -/
def binary (l : Layout) (op : BinaryOp) (lhs rhs result : Symbol) : List Instruction :=
  let a := Use.value l 0 lhs
  let b := Use.value l a.cells rhs
  let c := Use.value l (a.cells + b.cells) result
  a.code ++ b.code ++ c.code ++ [op.instruction a.operand b.operand c.operand]

/-- The code of an assignment. -/
def assign (l : Layout) (dst src : Symbol) : List Instruction :=
  let a := Use.value l 0 src
  let b := Use.value l a.cells dst
  a.code ++ b.code ++ [.assign a.operand b.operand]

/-- The code that computes the address of an element. -/
def index (l : Layout) (array index element : Symbol) : List Instruction :=
  let a := Use.value l 0 index
  let b := Use.cell l a.cells element
  let c := Use.reference l (a.cells + b.cells) array
  a.code ++ b.code ++ [.mul a.operand (.immediate (BitVec.ofNat 32 Word.size)) b.operand]
    ++ c.code ++ [.add b.operand c.operand b.operand]

/-- The code that prints the first of some arguments. -/
def print (l : Layout) (args : List Symbol) : List Instruction :=
  let a := match args with
    | arg :: _ => Use.value l 0 arg
    | [] => Use.number 0
  a.code ++ [.print a.operand]

/-- The code that passes an argument. -/
def argument (l : Layout) (parameter : Ty) (arg : Symbol) (index : Nat) : List Instruction :=
  let a := Use.argument l 0 parameter arg
  let b := Use.field l a.cells l.stackPointer (BitVec.ofNat 32 (Record.header + Word.size * index))
  a.code ++ b.code ++ [.assign a.operand b.operand]

/-- The code that passes all arguments of a call. -/
def arguments (l : Layout) (params : List Ty) (args : List Symbol) : List Instruction :=
  (params.zip args).zipIdx.flatMap fun ((parameter, arg), index) => argument l parameter arg index

/-- The code that jumps to a function, at some position: the return address is the position after
    the jump. -/
def enter (l : Layout) (pc : Nat) (entry : Word) : List Instruction :=
  let a := Use.field l 0 l.stackPointer (BitVec.ofNat 32 Record.returnAddress)
  a.code ++ [.assign (.immediate (BitVec.ofNat 32 (pc + a.code.length + 2))) a.operand,
    .jump entry.toNat]

theorem enter_eq (l : Layout) (pc : Nat) (entry : Word) : enter l pc entry =
    [.add (.direct l.stackPointer) (.immediate 4) (.direct (l.scratchCell 0)),
      .assign (.immediate (BitVec.ofNat 32 (pc + 3))) (.indirect (l.scratchCell 0)),
      .jump entry.toNat] := rfl

/-- The code of a call, at some position: all arguments and the jump. -/
def call (l : Layout) (pc : Nat) (callee : Symbol) (args : List Symbol) : List Instruction :=
  let passed := arguments l (callee.args.getD []) args
  passed ++ enter l (pc + passed.length) callee.value

/-- The code that fetches the result of a call. -/
def fetch (l : Layout) (result : Symbol) : List Instruction :=
  let a := Use.value l 0 result
  a.code ++ [.assign (.indirect l.stackPointer) a.operand]

end Fragment

/-- The table after a temporary was made in the open function. -/
def SymbolTable.withTemporary (t : SymbolTable) (f : OpenFunction) : SymbolTable :=
  { t with function := some (f.grow 1), temporaries := t.temporaries + 1 }

namespace Gen

variable {g : Generator} {n : Nat} {t : Token} {stack : List StackValue}

/-! ### Operands -/

theorem performs_pushIdentifier {s : Symbol} (h : g.symbols.find? t.lexeme = some s) :
    Performs ⟨.pushIdentifier, t⟩ g { g with stack := .symbol s :: g.stack } := by
  refine Does.performs 0 (.get fun trace => ?_)
  rw [Generator.taking_symbols, h]
  exact does_push _

theorem performs_pushIdentifier_unknown (h : g.symbols.find? t.lexeme = none) :
    Performs ⟨.pushIdentifier, t⟩ g
      ((g.withStack (.symbol (.placeholder t.lexeme) :: g.stack)).report t.line
        (.notDefined t.lexeme)) := by
  refine Does.performs 0 (.get fun trace => ?_)
  rw [Generator.taking_symbols, h]
  exact (does_report _ _).bind (does_push _)

theorem performs_pushNumber {value : Word} (h : Word.ofNumeral? t.lexeme = some value) :
    Performs ⟨.pushNumber, t⟩ g { g with stack := .literal value :: g.stack } := by
  refine Does.performs 0 ?_
  rw [dispatch, pushNumber, h]
  exact does_push _

theorem performs_pushNumber_range (h : Word.ofNumeral? t.lexeme = none) :
    Performs ⟨.pushNumber, t⟩ g
      ((g.withStack (.literal 0 :: g.stack)).report t.line (.literalRange t.lexeme)) := by
  refine Does.performs 0 ?_
  rw [dispatch, pushNumber, h]
  exact (does_report _ _).bind (does_push _)

theorem performs_pushOperator {op : BinaryOp} (h : BinaryOp.ofLexeme? t.lexeme = some op) :
    Performs ⟨.pushOperator, t⟩ g { g with stack := .operator op :: g.stack } := by
  refine Does.performs 0 ?_
  rw [dispatch, pushOperator, h]
  exact does_push _

theorem performs_popExpression {value : StackValue} (h : g.stack = value :: stack) :
    Performs ⟨.popExpression, t⟩ g { g with stack } :=
  Does.performs 0 ((does_pop h).bind .pure)

/-! ### Operations -/

section
variable {f : OpenFunction} {vl vr : StackValue} {l r : Symbol} {op : BinaryOp}

theorem does_newTemporary (hf : g.symbols.function = some f) (hroom : f.record.HasRoom 1)
    (indexed : Bool) :
    Does (demand (.newTemporary indexed)) g n (f.temporary g.symbols.temporaries indexed)
      (g.withSymbols (g.symbols.withTemporary f)) n :=
  does_demand (SymbolTable.newTemporary_eq hf hroom indexed)

theorem stops_newTemporary (hf : g.symbols.function = some f) (hroom : ¬ f.record.HasRoom 1)
    (indexed : Bool) : Stops (demand (.newTemporary indexed)) g n := by
  obtain ⟨fault, h⟩ := SymbolTable.newTemporary_stops hf hroom indexed
  exact stops_demand h

theorem performs_computeBinary (hstack : g.stack = vr :: .operator op :: vl :: stack)
    (hl : vl.operand? = some l) (hr : vr.operand? = some r) (hli : l.isInt) (hri : r.isInt)
    (hf : g.symbols.function = some f) (hroom : f.record.HasRoom 1)
    (hslots : 3 ≤ g.layout.scratchSlots.toNat) :
    Performs ⟨.computeBinary, t⟩ g
      { g with
        stack := .symbol (f.temporary g.symbols.temporaries false) :: stack
        symbols := g.symbols.withTemporary f
        code := g.code.append (Fragment.binary g.layout op l r
          (f.temporary g.symbols.temporaries false)) } := by
  let a := Use.value g.layout 0 l
  let b := Use.value g.layout (0 + a.cells) r
  let c := Use.value g.layout (0 + a.cells + b.cells) (f.temporary g.symbols.temporaries false)
  have ha : a.cells ≤ 1 := Use.value_cells_le ..
  have hb : b.cells ≤ 1 := Use.value_cells_le ..
  refine Does.performs (0 + a.cells + b.cells + c.cells) ?_
  refine (does_popSymbol hstack hr).bind ((does_popOperator rfl).bind
    ((does_popSymbol rfl hl).bind ?_))
  refine (does_checkInts (by simp [hli, hri]) _).bind (.ite_neg (by decide) ?_)
  refine (does_newTemporary (by exact hf) hroom false).bind ?_
  have h0 : 0 < g.layout.scratchSlots.toNat := by omega
  have h1 : 0 + a.cells < g.layout.scratchSlots.toNat := by omega
  have h2 : 0 + a.cells + b.cells < g.layout.scratchSlots.toNat := by omega
  refine (does_valueOperand l (by exact h0)).bind ?_
  refine (does_valueOperand r (by exact h1)).bind ?_
  refine (does_valueOperand _ (by exact h2)).bind ?_
  refine (does_emit _).bind ((does_push _).congr ?_)
  simp [Generator.withStack, Generator.withSymbols, Generator.withCode, Generator.resolved,
    Fragment.binary]

/-- Without room for its result an operation ends the compilation. -/
theorem stops_computeBinary (hstack : g.stack = vr :: .operator op :: vl :: stack)
    (hl : vl.operand? = some l) (hr : vr.operand? = some r) (hli : l.isInt) (hri : r.isInt)
    (hf : g.symbols.function = some f) (hroom : ¬ f.record.HasRoom 1) :
    Stops (computeBinary t) g n := by
  refine (does_popSymbol hstack hr).stops ((does_popOperator rfl).stops
    ((does_popSymbol rfl hl).stops ?_))
  refine (does_checkInts (by simp [hli, hri]) _).stops (.ite_neg (by decide) ?_)
  exact (stops_newTemporary (by exact hf) hroom false).bind

theorem performs_computeBinary_mistake (hstack : g.stack = vr :: .operator op :: vl :: stack)
    (hl : vl.operand? = some l) (hr : vr.operand? = some r) (h : ¬ (l.isInt ∧ r.isInt)) :
    ∃ cause, Performs ⟨.computeBinary, t⟩ g
      ((g.withStack (.symbol (.placeholder "") :: stack)).report t.line cause) := by
  obtain ⟨cause, hcheck⟩ := does_checkInts_false (g := g.withStack stack) (n := 0) [l, r]
    (by simpa using h) t.line
  refine ⟨cause, Does.performs 0 ?_⟩
  refine (does_popSymbol hstack hr).bind ((does_popOperator rfl).bind
    ((does_popSymbol rfl hl).bind ?_))
  exact hcheck.bind (.ite_pos rfl ((does_push _).bind .pure))

theorem performs_assign (hstack : g.stack = vr :: vl :: stack)
    (hl : vl.operand? = some l) (hr : vr.operand? = some r) (hli : l.isInt) (hri : r.isInt)
    (hslots : 3 ≤ g.layout.scratchSlots.toNat) :
    Performs ⟨.assign, t⟩ g
      { g with
        stack := .symbol r :: stack
        code := g.code.append (Fragment.assign g.layout l r) } := by
  let a := Use.value g.layout 0 r
  let b := Use.value g.layout (0 + a.cells) l
  have ha : a.cells ≤ 1 := Use.value_cells_le ..
  refine Does.performs (0 + a.cells + b.cells) ?_
  refine (does_popSymbol hstack hr).bind ((does_popSymbol rfl hl).bind ?_)
  refine (does_checkInts (by simp [hli, hri]) _).bind (.ite_neg (by decide) ?_)
  have h0 : 0 < g.layout.scratchSlots.toNat := by omega
  have h1 : 0 + a.cells < g.layout.scratchSlots.toNat := by omega
  refine (does_valueOperand r (by exact h0)).bind ?_
  refine (does_valueOperand l (by exact h1)).bind ?_
  refine (does_emit _).bind ((does_push _).congr ?_)
  simp [Generator.withStack, Generator.withCode, Generator.resolved, Fragment.assign]

theorem performs_assign_mistake (hstack : g.stack = vr :: vl :: stack)
    (hl : vl.operand? = some l) (hr : vr.operand? = some r) (h : ¬ (l.isInt ∧ r.isInt)) :
    ∃ cause, Performs ⟨.assign, t⟩ g
      ((g.withStack (.symbol (.placeholder "") :: stack)).report t.line cause) := by
  obtain ⟨cause, hcheck⟩ := does_checkInts_false (g := g.withStack stack) (n := 0) [l, r]
    (by simpa using h) t.line
  refine ⟨cause, Does.performs 0 ?_⟩
  refine (does_popSymbol hstack hr).bind ((does_popSymbol rfl hl).bind ?_)
  exact hcheck.bind (.ite_pos rfl ((does_push _).bind .pure))

/-! ### Elements of arrays -/

theorem performs_indexArray (hstack : g.stack = vr :: vl :: stack) (hl : vl.operand? = some l)
    (hr : vr.operand? = some r) (hp : l.isPlaceholder = false) (hlf : l.isFunction = false)
    (hla : l.ty.isReference) (hri : r.isInt) (hf : g.symbols.function = some f)
    (hroom : f.record.HasRoom 1) (hslots : 3 ≤ g.layout.scratchSlots.toNat) :
    Performs ⟨.indexArray, t⟩ g
      { g with
        stack := .symbol (f.temporary g.symbols.temporaries true) :: stack
        symbols := g.symbols.withTemporary f
        code := g.code.append (Fragment.index g.layout l r
          (f.temporary g.symbols.temporaries true)) } := by
  let a := Use.value g.layout 0 r
  let b := Use.cell g.layout (0 + a.cells) (f.temporary g.symbols.temporaries true)
  let c := Use.reference g.layout (0 + a.cells + b.cells) l
  have ha : a.cells ≤ 1 := Use.value_cells_le ..
  have hb : b.cells ≤ 1 := Use.cell_cells_le ..
  have harray : (l.isFunction || !l.ty.isReference) = false := by simp [hlf, hla]
  refine Does.performs (0 + a.cells + b.cells + c.cells) ?_
  refine (does_popSymbol hstack hr).bind ((does_popSymbol rfl hl).bind ?_)
  refine .ite_neg (by simp [hp]) (.ite_neg (by simp [harray]) ?_)
  refine (does_checkInts (by simp [hri]) _).bind (.ite_neg (by decide) ?_)
  refine (does_newTemporary (by exact hf) hroom true).bind ?_
  have h0 : 0 < g.layout.scratchSlots.toNat := by omega
  have h1 : 0 + a.cells < g.layout.scratchSlots.toNat := by omega
  have h2 : 0 + a.cells + b.cells < g.layout.scratchSlots.toNat := by omega
  refine (does_valueOperand r (by exact h0)).bind ?_
  refine (does_cellOperand _ (by exact h1)).bind ?_
  refine (does_emit _).bind ?_
  refine (does_resolveReference l harray (by exact h2)).bind ?_
  refine (does_emit _).bind ((does_push _).congr ?_)
  simp [Generator.withStack, Generator.withSymbols, Generator.withCode, Generator.resolved,
    Fragment.index]

theorem stops_indexArray (hstack : g.stack = vr :: vl :: stack) (hl : vl.operand? = some l)
    (hr : vr.operand? = some r) (hp : l.isPlaceholder = false) (hlf : l.isFunction = false)
    (hla : l.ty.isReference) (hri : r.isInt) (hf : g.symbols.function = some f)
    (hroom : ¬ f.record.HasRoom 1) : Stops (indexArray t) g n := by
  refine (does_popSymbol hstack hr).stops ((does_popSymbol rfl hl).stops ?_)
  refine .ite_neg (by simp [hp]) (.ite_neg (by simp [hlf, hla]) ?_)
  refine (does_checkInts (by simp [hri]) _).stops (.ite_neg (by decide) ?_)
  exact (stops_newTemporary (by exact hf) hroom true).bind

theorem performs_indexArray_placeholder (hstack : g.stack = vr :: vl :: stack)
    (hl : vl.operand? = some l) (hr : vr.operand? = some r) (hp : l.isPlaceholder) :
    Performs ⟨.indexArray, t⟩ g (g.withStack (.symbol (.placeholder l.name) :: stack)) := by
  refine Does.performs 0 ?_
  refine (does_popSymbol hstack hr).bind ((does_popSymbol rfl hl).bind ?_)
  exact .ite_pos hp ((does_push _).bind .pure)

/-- Something that is no array is reported, and an index that is no integer. -/
theorem performs_indexArray_mistake (hstack : g.stack = vr :: vl :: stack)
    (hl : vl.operand? = some l) (hr : vr.operand? = some r) (hp : l.isPlaceholder = false)
    (h : ¬ (l.isFunction = false ∧ l.ty.isReference ∧ r.isInt)) :
    ∃ cause, Performs ⟨.indexArray, t⟩ g
      ((g.withStack (.symbol (.placeholder l.name) :: stack)).report t.line cause) := by
  by_cases harray : (l.isFunction || !l.ty.isReference) = true
  · refine ⟨.notArray l.name, Does.performs 0 ?_⟩
    refine (does_popSymbol hstack hr).bind ((does_popSymbol rfl hl).bind ?_)
    refine .ite_neg (by simp [hp]) (.ite_pos harray ?_)
    exact (does_report _ _).bind ((does_push _).bind .pure)
  · have hint : ¬ r.isInt := by
      intro hri
      simp only [Bool.or_eq_true, Bool.not_eq_true', not_or, Bool.not_eq_true,
        Bool.not_eq_false] at harray
      exact h ⟨harray.1, harray.2, hri⟩
    obtain ⟨cause, hcheck⟩ := does_checkInts_false (g := g.withStack stack) (n := 0) [r]
      (by simpa using hint) t.line
    refine ⟨cause, Does.performs 0 ?_⟩
    refine (does_popSymbol hstack hr).bind ((does_popSymbol rfl hl).bind ?_)
    refine .ite_neg (by simp [hp]) (.ite_neg harray ?_)
    exact hcheck.bind (.ite_pos rfl ((does_push _).bind .pure))

end

/-! ### Calls -/

section
variable {counts : List Nat} {values : List StackValue} {args : List Symbol}
  {target : StackValue} {callee s : Symbol} {f : OpenFunction}

theorem performs_pushArgCount :
    Performs ⟨.pushArgCount, t⟩ g { g with argCounts := 0 :: g.argCounts } :=
  Does.performs 0 (.modify fun _ => rfl)

theorem performs_incrementArgCount {count : Nat} (h : g.argCounts = count :: counts) :
    Performs ⟨.incrementArgCount, t⟩ g { g with argCounts := (count + 1) :: counts } := by
  refine Does.performs 0 (.get fun trace => ?_)
  rw [Generator.taking_argCounts, h]
  exact .modify fun _ => rfl

/-- A call whose target and arguments have come off the stack. -/
def callWith (token : Token) (target : Symbol) (args : List Symbol) : Gen Unit := do
  if target.isPlaceholder then
    pushSymbol (.placeholder target.name)
    return
  if !target.isFunction then
    report token.line (.notFunction target.name)
    pushSymbol (.placeholder target.name)
    return
  let callee := ((← get).symbols.functionAt? target.value).getD target
  match argumentMistake? callee args with
  | some cause =>
    report token.line cause
    pushSymbol (.placeholder callee.name)
  | none => if callee.name = outputName then callOutput callee args else callFunction callee args

/-- A call takes its arguments and its target off the stack first. -/
theorem Does.call {g' : Generator} (hcount : g.argCounts = args.length :: counts)
    (hstack : g.stack = values ++ target :: stack)
    (hargs : values.map (·.operand?) = args.map some) (ht : target.operand? = some s)
    (h : Does (callWith t s args.reverse) { g with argCounts := counts, stack } 0 () g' n) :
    Performs ⟨.call, t⟩ g g' := by
  have hpop : Does popArgCount g 0 args.length { g with argCounts := counts } 0 := by
    refine .get fun trace => ?_
    rw [Generator.taking_argCounts, hcount]
    exact fun trace => ⟨trace, rfl⟩
  refine Does.performs n (hpop.bind ?_)
  exact (does_popSymbols (by exact hstack) hargs).bind ((does_popSymbol rfl ht).bind h)

theorem Stops.call (hcount : g.argCounts = args.length :: counts)
    (hstack : g.stack = values ++ target :: stack)
    (hargs : values.map (·.operand?) = args.map some) (ht : target.operand? = some s)
    (h : Stops (callWith t s args.reverse) { g with argCounts := counts, stack } 0) :
    Stops (call t) g 0 := by
  have hpop : Does popArgCount g 0 args.length { g with argCounts := counts } 0 := by
    refine .get fun trace => ?_
    rw [Generator.taking_argCounts, hcount]
    exact fun trace => ⟨trace, rfl⟩
  refine hpop.stops ?_
  exact (does_popSymbols (by exact hstack) hargs).stops ((does_popSymbol rfl ht).stops h)

theorem does_callWith_placeholder (h : s.isPlaceholder) :
    Does (callWith t s args) g n () (g.withStack (.symbol (.placeholder s.name) :: g.stack)) n :=
  .ite_pos h ((does_push _).bind .pure)

theorem does_callWith_notFunction (hp : s.isPlaceholder = false) (h : s.isFunction = false) :
    Does (callWith t s args) g n ()
      ((g.withStack (.symbol (.placeholder s.name) :: g.stack)).report t.line
        (.notFunction s.name)) n :=
  .ite_neg (by simp [hp]) (.ite_pos (by simp [h]) ((does_report _ _).bind ((does_push _).bind .pure)))

/-- The function that a call goes to: it is found again by its entry. -/
def calleeOf (symbols : SymbolTable) (target : Symbol) : Symbol :=
  (symbols.functionAt? target.value).getD target

theorem does_callWith_mistake {cause : Diagnostic.Cause} (hp : s.isPlaceholder = false)
    (hfn : s.isFunction) (h : argumentMistake? (calleeOf g.symbols s) args = some cause) :
    Does (callWith t s args) g n ()
      ((g.withStack (.symbol (.placeholder (calleeOf g.symbols s).name) :: g.stack)).report t.line
        cause) n := by
  refine .ite_neg (by simp [hp]) (.ite_neg (by simp [hfn]) (.get fun trace => ?_))
  rw [calleeOf] at h
  simp only [Generator.taking_symbols, h]
  exact (does_report _ _).bind (does_push _)

/-- A call without mistakes prints or enters a function. -/
theorem Does.callWith {g' : Generator} {n' : Nat} (hp : s.isPlaceholder = false)
    (hfn : s.isFunction) (h : argumentMistake? (calleeOf g.symbols s) args = none)
    (hdo : Does (if (calleeOf g.symbols s).name = outputName
      then callOutput (calleeOf g.symbols s) args
      else callFunction (calleeOf g.symbols s) args) g n () g' n') :
    Does (callWith t s args) g n () g' n' := by
  refine .ite_neg (by simp [hp]) (.ite_neg (by simp [hfn]) (.get fun trace => ?_))
  simp only [calleeOf] at h hdo
  simp only [Generator.taking_symbols, h]
  exact hdo

theorem Stops.callWith (hp : s.isPlaceholder = false) (hfn : s.isFunction)
    (h : argumentMistake? (calleeOf g.symbols s) args = none)
    (hdo : Stops (if (calleeOf g.symbols s).name = outputName
      then callOutput (calleeOf g.symbols s) args
      else callFunction (calleeOf g.symbols s) args) g n) :
    Stops (callWith t s args) g n := by
  refine .ite_neg (by simp [hp]) (.ite_neg (by simp [hfn]) (.get fun trace => ?_))
  simp only [calleeOf] at h hdo
  simp only [Generator.taking_symbols, h]
  exact hdo

theorem does_callOutput (hslots : 3 ≤ g.layout.scratchSlots.toNat) :
    ∃ n, Does (callOutput s args) g 0 ()
      { g with
        stack := .symbol (.voidResult s.name) :: g.stack
        code := g.code.append (Fragment.print g.layout args) } n := by
  have h0 : 0 < g.layout.scratchSlots.toNat := by omega
  cases args with
  | nil => exact ⟨0, Does.pure.bind ((does_emit _).bind (does_push _))⟩
  | cons arg args =>
    refine ⟨0 + (Use.value g.layout 0 arg).cells,
      (does_valueOperand arg h0).bind ((does_emit _).bind ((does_push _).congr ?_))⟩
    simp [Generator.withStack, Generator.withCode, Generator.resolved, Fragment.print]

/-- Operations that only append code do so one after the other. -/
theorem does_forM_append {β : Type} {m : β → Gen Unit} {code : β → List Instruction}
    (l : Layout) (hm : ∀ x g n, g.layout = l →
      ∃ n', Does (m x) g n () (g.withCode (g.code.append (code x))) n') :
    ∀ (xs : List β) (g : Generator) (n : Nat), g.layout = l →
      ∃ n', Does (xs.forM m) g n () (g.withCode (g.code.append (xs.flatMap code))) n'
  | [], g, n, _ => ⟨n, .pure⟩
  | x :: xs, g, n, hg => by
    obtain ⟨n', hx⟩ := hm x g n hg
    obtain ⟨n'', hxs⟩ := does_forM_append l hm xs (g.withCode (g.code.append (code x))) n' hg
    refine ⟨n'', (hx.bind hxs).congr ?_⟩
    simp [Generator.withCode]

theorem does_passArgument (hslots : 3 ≤ g.layout.scratchSlots.toNat) (parameter : Ty)
    (arg : Symbol) (index : Nat) : ∃ n', Does (passArgument parameter arg index) g n ()
      (g.withCode (g.code.append (Fragment.argument g.layout parameter arg index))) n' := by
  let a := Use.argument g.layout 0 parameter arg
  have ha : a.cells ≤ 1 := Use.argument_cells_le ..
  have h0 : 0 < g.layout.scratchSlots.toNat := by omega
  have h1 : 0 + a.cells < g.layout.scratchSlots.toNat := by omega
  let b := Use.field g.layout (0 + a.cells) g.layout.stackPointer
    (BitVec.ofNat 32 (Record.header + Word.size * index))
  have hplace : Does (do
      let place ← headerOperand (← get).layout.stackPointer (Record.header + Word.size * index)
      emit (.assign a.operand place)) (g.resolved a) (0 + a.cells) ()
      (g.withCode (g.code.append (Fragment.argument g.layout parameter arg index)))
      (0 + a.cells + b.cells) := by
    refine .get fun trace => (does_fieldOperand _ _ (by exact h1)).bind ((does_emit _).congr ?_)
    simp [Generator.withCode, Generator.resolved, Fragment.argument, a]
  refine ⟨0 + a.cells + b.cells, does_clearScratch.bind ?_⟩
  simp only [a, Use.argument] at hplace ⊢
  split
  · rename_i hreference
    rw [if_pos hreference] at hplace
    rw [← bind_assoc]
    exact (does_referenceOrZero arg h0).bind hplace
  · rename_i hvalue
    rw [if_neg hvalue] at hplace
    exact (does_valueOperand arg h0).bind hplace

theorem does_jumpToCallee (hslots : 3 ≤ g.layout.scratchSlots.toNat) (entry : Word) :
    ∃ returnPc n', Does (jumpToCallee entry) g 0 returnPc
      (g.withCode (g.code.append (Fragment.enter g.layout g.code.pc entry))) n' := by
  let a := Use.field g.layout 0 g.layout.stackPointer (BitVec.ofNat 32 Record.returnAddress)
  have h0 : 0 < g.layout.scratchSlots.toNat := by omega
  refine ⟨(g.resolved a).code.pc + 2, 0 + a.cells, .get fun trace => ?_⟩
  refine (does_fieldOperand _ _ (by exact h0)).bind (does_pc.bind ((does_emit _).bind
    ((does_emit _).bind (Does.pure.congr ?_))))
  simp [Generator.withCode, Generator.resolved, Fragment.enter]

theorem does_passArguments (hslots : 3 ≤ g.layout.scratchSlots.toNat) (params : List Ty)
    (args : List Symbol) : ∃ n', Does ((params.zip args).zipIdx.forM fun ((parameter, arg), index) =>
        passArgument parameter arg index) g n ()
      (g.withCode (g.code.append (Fragment.arguments g.layout params args))) n' := by
  have hall : ∀ (x : (Ty × Symbol) × Nat) (g' : Generator) (n : Nat), g'.layout = g.layout →
      ∃ n', Does (passArgument x.1.1 x.1.2 x.2) g' n ()
        (g'.withCode (g'.code.append (Fragment.argument g.layout x.1.1 x.1.2 x.2))) n' := by
    intro x g' n hg
    rw [← hg] at hslots ⊢
    exact does_passArgument hslots _ _ _
  exact does_forM_append g.layout hall (params.zip args).zipIdx g n rfl

/-- A call passes all arguments and jumps; a function without result leaves that. -/
theorem does_callFunction_void (hslots : 3 ≤ g.layout.scratchSlots.toNat) (hty : callee.ty = .void) :
    ∃ n', Does (callFunction callee args) g 0 ()
      { g with
        stack := .symbol (.voidResult callee.name) :: g.stack
        code := g.code.append (Fragment.call g.layout g.code.pc callee args) } n' := by
  obtain ⟨n, hpass⟩ := does_passArguments (n := 0) hslots (callee.args.getD []) args
  obtain ⟨returnPc, n', hjump⟩ := does_jumpToCallee (g := g.withCode (g.code.append
    (Fragment.arguments g.layout (callee.args.getD []) args))) hslots callee.value
  refine ⟨n', hpass.bind (does_clearScratch.bind (hjump.bind ((does_log _).bind
    (.ite_pos hty ((does_push _).bind (Does.pure.congr ?_))))))⟩
  simp [Generator.withCode, Generator.withStack, Fragment.call]

/-- After the call of a function with a result, that is copied into a temporary. -/
theorem does_callFunction_value (hslots : 3 ≤ g.layout.scratchSlots.toNat)
    (hty : callee.ty ≠ .void) (hf : g.symbols.function = some f) (hroom : f.record.HasRoom 1) :
    ∃ n', Does (callFunction callee args) g 0 ()
      { g with
        stack := .symbol (f.temporary g.symbols.temporaries false) :: g.stack
        symbols := g.symbols.withTemporary f
        code := g.code.append (Fragment.call g.layout g.code.pc callee args
          ++ Fragment.fetch g.layout (f.temporary g.symbols.temporaries false)) } n' := by
  have h0 : 0 < g.layout.scratchSlots.toNat := by omega
  obtain ⟨n, hpass⟩ := does_passArguments (n := 0) hslots (callee.args.getD []) args
  obtain ⟨returnPc, n', hjump⟩ := does_jumpToCallee (g := g.withCode (g.code.append
    (Fragment.arguments g.layout (callee.args.getD []) args))) hslots callee.value
  let a := Use.value g.layout 0 (f.temporary g.symbols.temporaries false)
  refine ⟨0 + a.cells, hpass.bind (does_clearScratch.bind (hjump.bind ((does_log _).bind
    (.ite_neg hty (does_clearScratch.bind ?_)))))⟩
  refine (does_newTemporary (by exact hf) hroom false).bind ?_
  refine (does_valueOperand _ (by exact h0)).bind (.get fun trace => ?_)
  refine (does_emit _).bind ((does_push _).congr ?_)
  simp [Generator.withCode, Generator.withStack, Generator.withSymbols, Generator.resolved,
    Fragment.call, Fragment.fetch]

theorem stops_callFunction (hslots : 3 ≤ g.layout.scratchSlots.toNat) (hty : callee.ty ≠ .void)
    (hf : g.symbols.function = some f) (hroom : ¬ f.record.HasRoom 1) :
    Stops (callFunction callee args) g 0 := by
  obtain ⟨n, hpass⟩ := does_passArguments (n := 0) hslots (callee.args.getD []) args
  obtain ⟨returnPc, n', hjump⟩ := does_jumpToCallee (g := g.withCode (g.code.append
    (Fragment.arguments g.layout (callee.args.getD []) args))) hslots callee.value
  refine hpass.stops (does_clearScratch.stops (hjump.stops ((does_log _).stops
    (.ite_neg hty (does_clearScratch.stops ?_)))))
  exact (stops_newTemporary (by exact hf) hroom false).bind

end

end Gen

end OnePass
