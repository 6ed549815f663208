import OnePass.Proofs.Generator.Statement
import OnePass.Proofs.Symbol.Table

/-!
# What the steps of declarations do

A declaration does what the symbol table makes of it. The code around a function and around the
whole program is given in full. -/

namespace OnePass

/-! ### The code around functions -/

namespace Fragment

/-- The code at the start of a function, up to the slot that moves the stack pointer. -/
def prologue (l : Layout) : List Instruction :=
  let a := Use.field l 0 l.stackPointer (BitVec.ofNat 32 Record.savedStack)
  let b := Use.field l a.cells l.stackPointer (BitVec.ofNat 32 Record.savedFrame)
  a.code ++ [.assign (.direct l.stackPointer) a.operand] ++ b.code
    ++ [.assign (.direct l.framePointer) b.operand,
      .assign (.direct l.stackPointer) (.direct l.framePointer)]

/-- The instruction that moves the stack pointer past a frame of a size. -/
def moveStack (l : Layout) (size : Nat) : Instruction :=
  .add (.direct l.stackPointer) (.immediate (BitVec.ofNat 32 size)) (.direct l.stackPointer)

/-- The code at the end of a function. -/
def epilogue (l : Layout) : List Instruction :=
  let a := Use.field l 0 l.framePointer (BitVec.ofNat 32 Record.savedStack)
  let b := Use.field l a.cells l.framePointer (BitVec.ofNat 32 Record.savedFrame)
  let c := l.scratchCell (a.cells + b.cells)
  a.code ++ [.assign a.operand (.direct l.stackPointer)] ++ b.code
    ++ [.assign b.operand (.direct l.framePointer),
      .add (.direct l.stackPointer) (.immediate (BitVec.ofNat 32 Record.returnAddress)) (.direct c),
      .assign (.indirect c) (.direct c), .jumpThrough (.indirect c)]

/-- The code that starts a program, at some position. -/
def start (l : Layout) (dataEnd pc : Nat) (entry : Word) : List Instruction :=
  let base : Operand := .immediate (BitVec.ofNat 32 dataEnd)
  let a := Use.field l 0 l.stackPointer (BitVec.ofNat 32 Record.returnAddress)
  [.assign base (.direct l.stackPointer), .assign base (.direct l.framePointer)] ++ a.code
    ++ [.assign (.immediate (BitVec.ofNat 32 (pc + 2 + a.code.length + 2))) a.operand,
      .jump entry.toNat]

/-! Offsets of a record other than the first each take one scratch cell. -/

theorem prologue_eq (l : Layout) : prologue l =
    [.add (.direct l.stackPointer) (.immediate 8) (.direct (l.scratchCell 0)),
      .assign (.direct l.stackPointer) (.indirect (l.scratchCell 0)),
      .add (.direct l.stackPointer) (.immediate 12) (.direct (l.scratchCell 1)),
      .assign (.direct l.framePointer) (.indirect (l.scratchCell 1)),
      .assign (.direct l.stackPointer) (.direct l.framePointer)] := rfl

theorem epilogue_eq (l : Layout) : epilogue l =
    [.add (.direct l.framePointer) (.immediate 8) (.direct (l.scratchCell 0)),
      .assign (.indirect (l.scratchCell 0)) (.direct l.stackPointer),
      .add (.direct l.framePointer) (.immediate 12) (.direct (l.scratchCell 1)),
      .assign (.indirect (l.scratchCell 1)) (.direct l.framePointer),
      .add (.direct l.stackPointer) (.immediate 4) (.direct (l.scratchCell 2)),
      .assign (.indirect (l.scratchCell 2)) (.direct (l.scratchCell 2)),
      .jumpThrough (.indirect (l.scratchCell 2))] := rfl

theorem start_eq (l : Layout) (dataEnd pc : Nat) (entry : Word) : start l dataEnd pc entry =
    [.assign (.immediate (BitVec.ofNat 32 dataEnd)) (.direct l.stackPointer),
      .assign (.immediate (BitVec.ofNat 32 dataEnd)) (.direct l.framePointer),
      .add (.direct l.stackPointer) (.immediate 4) (.direct (l.scratchCell 0)),
      .assign (.immediate (BitVec.ofNat 32 (pc + 5))) (.indirect (l.scratchCell 0)),
      .jump entry.toNat] := rfl

end Fragment

/-- The type under which something declared so is known: only functions are void. -/
def Ty.orInt (ty : Ty) : Ty := if ty = .void then .int else ty

/-- The type of a parameter declared so. -/
def Ty.parameter (ty : Ty) (byReference : Bool) : Ty :=
  if byReference then ty.orInt.pointerTo else ty.orInt

/-- The frame of a function as far as it is laid out. -/
def OpenFunction.frame (f : OpenFunction) : Frame :=
  { name := f.name, entry := f.entry, params := f.params, frameSize := f.record.frameSize,
    size := f.record.size }

/-- The state in which a declaration of a type was reported if it is void. -/
def Generator.reportVoid (g : Generator) (ty : Ty) (name : String) (line : Nat) : Generator :=
  if ty = .void then g.report line (.illegalVoid name) else g

@[simp] theorem Generator.reportVoid_symbols (g : Generator) (ty : Ty) (name : String)
    (line : Nat) : (g.reportVoid ty name line).symbols = g.symbols := by
  rw [reportVoid]
  split <;> rfl

namespace Gen

variable {g g' : Generator} {n n' : Nat} {t : Token} {stack : List StackValue} {x : String}
  {ty : Ty} {symbols : SymbolTable}

/-! ### Storage -/

theorem performs_pushType (h : Ty.ofKeyword? t.lexeme = some ty) :
    Performs ⟨.pushType, t⟩ g { g with stack := .type ty :: g.stack } := by
  refine Does.performs 0 ?_
  rw [dispatch, pushType, h]
  exact does_push _

theorem performs_pushName :
    Performs ⟨.pushName, t⟩ g { g with stack := .name t.lexeme :: g.stack } :=
  Does.performs 0 (does_push _)

theorem does_checkNotVoid (ty : Ty) (x : String) (line : Nat) :
    Does (checkNotVoid ty x line) g n ty.orInt (g.reportVoid ty x line) n := by
  rw [checkNotVoid, Ty.orInt, Generator.reportVoid]
  split
  · exact (does_report _ _).bind .pure
  · exact .pure

theorem does_declareStorage {words line : Nat} {s : Symbol}
    (h : SymbolTable.declare x ty words g.symbols = .ok s symbols) :
    Does (declareStorage x ty words line) g n () (g.withSymbols symbols) n :=
  (does_request (r := .declare x ty words) h).bind .pure

theorem does_declareStorage_duplicate {words line : Nat} (h : g.symbols.current.contains x) :
    Does (declareStorage x ty words line) g n () (g.report line (.alreadyDefined x)) n :=
  (does_request_error (r := .declare x ty words) (SymbolTable.declare_duplicate h)).bind
    (does_report _ _)

theorem does_declareStorage_tooLarge {words line : Nat}
    (h : g.symbols.current.contains x = false) (hroom : g.symbols.hasRoom words = false) :
    Does (declareStorage x ty words line) g n ()
      ((g.report line (.tooLarge x)).withSymbols (g.symbols.insert (.placeholder x))) n :=
  (does_request_error (r := .declare x ty words) (SymbolTable.declare_tooLarge h hroom)).bind
    ((does_report _ _).bind (does_demand (r := .declarePlaceholder x) rfl))

theorem Does.declareVariable (hstack : g.stack = .name x :: .type ty :: stack)
    (h : Does (declareStorage x ty.orInt 1 t.line)
      ((g.withStack stack).reportVoid ty x t.line) 0 () g' n) :
    Performs ⟨.declareVariable, t⟩ g g' :=
  Does.performs n ((does_popName hstack).bind ((does_popType rfl).bind
    ((does_checkNotVoid _ _ _).bind h)))

theorem Does.declareArray {v : StackValue} {size : Symbol}
    (hstack : g.stack = v :: .name x :: .type ty :: stack) (hv : v.operand? = some size)
    (h : Does (declareStorage x ty.orInt.arrayOf size.value.toInt.toNat t.line)
      ((g.withStack stack).reportVoid ty x t.line) 0 () g' n) :
    Performs ⟨.declareArray, t⟩ g g' := by
  refine Does.performs n ((does_popSymbol hstack hv).bind ?_)
  refine (does_popName rfl).bind ((does_popType rfl).bind ?_)
  exact (does_checkNotVoid _ _ _).bind h

theorem does_addParameter {byReference : Bool} {s : Symbol}
    (hstack : g.stack = .name x :: .type ty :: stack)
    (h : SymbolTable.addParameter x (ty.parameter byReference) g.symbols = .ok s symbols) :
    Does (addParameter t byReference) g n ()
      (((g.withStack stack).reportVoid ty x t.line).withSymbols symbols) n := by
  have hadd : SymbolTable.addParameter x (ty.parameter byReference)
      ((g.withStack stack).reportVoid ty x t.line).symbols = .ok s symbols := by
    rw [Generator.reportVoid_symbols]
    exact h
  refine (does_popName hstack).bind ((does_popType rfl).bind ((does_checkNotVoid _ _ _).bind ?_))
  exact (does_request (r := .addParameter x (ty.parameter byReference)) hadd).bind .pure

theorem does_addParameter_duplicate {byReference : Bool}
    (hstack : g.stack = .name x :: .type ty :: stack)
    (h : SymbolTable.addParameter x (ty.parameter byReference) g.symbols =
      .error (.duplicate x) symbols) :
    Does (addParameter t byReference) g n ()
      ((((g.withStack stack).reportVoid ty x t.line).withSymbols symbols).report t.line
        (.alreadyDefined x)) n := by
  have hadd : SymbolTable.addParameter x (ty.parameter byReference)
      ((g.withStack stack).reportVoid ty x t.line).symbols = .error (.duplicate x) symbols := by
    rw [Generator.reportVoid_symbols]
    exact h
  refine (does_popName hstack).bind ((does_popType rfl).bind ((does_checkNotVoid _ _ _).bind ?_))
  exact (does_request_error (r := .addParameter x (ty.parameter byReference)) hadd).bind
    (does_report _ _)

theorem stops_addParameter {byReference : Bool} {fault : Fault}
    (hstack : g.stack = .name x :: .type ty :: stack)
    (h : SymbolTable.addParameter x (ty.parameter byReference) g.symbols =
      .error (.fault fault) symbols) : Stops (addParameter t byReference) g n := by
  have hadd : SymbolTable.addParameter x (ty.parameter byReference)
      ((g.withStack stack).reportVoid ty x t.line).symbols = .error (.fault fault) symbols := by
    rw [Generator.reportVoid_symbols]
    exact h
  refine (does_popName hstack).stops ((does_popType rfl).stops
    ((does_checkNotVoid _ _ _).stops ?_))
  exact (does_request_error (r := .addParameter x (ty.parameter byReference)) hadd).stops .throw

/-! ### Functions -/

theorem performs_declareFunction (hstack : g.stack = .name x :: .type ty :: stack)
    (hbody : g.body = none)
    (h : SymbolTable.openFunction x ty g.code.pc g.symbols = .ok () symbols) :
    Performs ⟨.declareFunction, t⟩ g { g with stack, symbols, body := some { name := x } } := by
  refine Does.performs 0 ((does_popName hstack).bind ?_)
  refine (does_popType rfl).bind (.get fun trace => .ite_neg ?_ (does_pc.bind ?_))
  · simp [Generator.withStack, hbody]
  · refine (does_request (r := .openFunction x ty g.code.pc) (by exact h)).bind ?_
    exact (does_log _).bind (.modify fun _ => rfl)

theorem performs_declareFunction_duplicate (hstack : g.stack = .name x :: .type ty :: stack)
    (hbody : g.body = none)
    (h : SymbolTable.openFunction x ty g.code.pc g.symbols = .error (.duplicate x) symbols) :
    Performs ⟨.declareFunction, t⟩ g
      (({ g with stack, symbols, body := some { name := x } } : Generator).report t.line
        (.alreadyDefined x)) := by
  refine Does.performs 0 ((does_popName hstack).bind ?_)
  refine (does_popType rfl).bind (.get fun trace => .ite_neg ?_ (does_pc.bind ?_))
  · simp [Generator.withStack, hbody]
  · refine (does_request_error (r := .openFunction x ty g.code.pc) (by exact h)).bind ?_
    exact (does_report _ _).bind ((does_log _).bind (.modify fun _ => rfl))

theorem performs_scopeUp (h : SymbolTable.openBlock g.symbols = .ok () symbols) :
    Performs ⟨.scopeUp, t⟩ g { g with symbols } :=
  Does.performs 0 (does_demand (r := .openBlock) h)

theorem performs_scopeDown (h : SymbolTable.closeBlock g.symbols = .ok () symbols) :
    Performs ⟨.scopeDown, t⟩ g { g with symbols } :=
  Does.performs 0 (does_demand (r := .closeBlock) h)

theorem performs_beginFunction {body : Body} (hbody : g.body = some body)
    (hslots : 3 ≤ g.layout.scratchSlots.toNat) :
    Performs ⟨.beginFunction, t⟩ g
      { g with
        body := some { body with prologue := some ⟨g.code.pc + (Fragment.prologue g.layout).length⟩ }
        code := (g.code.append (Fragment.prologue g.layout)).reserve.2 } := by
  let a := Use.field g.layout 0 g.layout.stackPointer (BitVec.ofNat 32 Record.savedStack)
  let b := Use.field g.layout (0 + a.cells) g.layout.stackPointer
    (BitVec.ofNat 32 Record.savedFrame)
  have ha : a.cells ≤ 1 := Use.field_cells_le ..
  have h0 : 0 < g.layout.scratchSlots.toNat := by omega
  have h1 : 0 + a.cells < g.layout.scratchSlots.toNat := by omega
  refine Does.performs (0 + a.cells + b.cells) (.get fun trace => .ite_neg ?_ (.get fun trace => ?_))
  · simp [hbody]
  refine (does_fieldOperand _ _ (by exact h0)).bind ((does_emit _).bind ?_)
  refine (does_fieldOperand _ _ (by exact h1)).bind ((does_emit _).bind ((does_emit _).bind ?_))
  refine does_reserve.bind (.modify fun trace => ?_)
  simp [Generator.taking, Generator.withCode, Generator.resolved, Store.reserve,
    Fragment.prologue, hbody, a, b]

theorem does_emitEpilogue (hslots : 3 ≤ g.layout.scratchSlots.toNat) :
    ∃ n, Does emitEpilogue g 0 () (g.withCode (g.code.append (Fragment.epilogue g.layout))) n := by
  let a := Use.field g.layout 0 g.layout.framePointer (BitVec.ofNat 32 Record.savedStack)
  let b := Use.field g.layout (0 + a.cells) g.layout.framePointer
    (BitVec.ofNat 32 Record.savedFrame)
  have ha : a.cells ≤ 1 := Use.field_cells_le ..
  have hb : b.cells ≤ 1 := Use.field_cells_le ..
  have h0 : 0 < g.layout.scratchSlots.toNat := by omega
  have h1 : 0 + a.cells < g.layout.scratchSlots.toNat := by omega
  have h2 : 0 + a.cells + b.cells < g.layout.scratchSlots.toNat := by omega
  refine ⟨0 + a.cells + b.cells + 1, .get fun trace => ?_⟩
  refine (does_fieldOperand _ _ (by exact h0)).bind ((does_emit _).bind ?_)
  refine (does_fieldOperand _ _ (by exact h1)).bind ((does_emit _).bind ?_)
  refine (does_takeScratch (by exact h2)).bind ((does_emit _).bind ((does_emit _).bind
    ((does_emit _).congr ?_)))
  simp [Generator.withCode, Generator.resolved, Fragment.epilogue, Layout.scratchCell]

theorem performs_endFunction {body : Body} {f : OpenFunction} {hole : Hole} {code code' : Store}
    (hbody : g.body = some body) (hprologue : body.prologue = some hole)
    (hf : g.symbols.function = some f) (hblocks : f.blocks = [])
    (hopen : f.record.closed = false)
    (hfill : g.code.fill hole (Fragment.moveStack g.layout f.record.size) = .ok code)
    (hreturns : code.fillAll (.jump g.code.pc) body.returns = .ok code')
    (hslots : 3 ≤ g.layout.scratchSlots.toNat) :
    Performs ⟨.endFunction, t⟩ g
      { g with
        body := none
        symbols := { g.symbols with function := none }
        code := code'.append (Fragment.epilogue g.layout)
        frames := g.frames.push f.frame } := by
  have hall : code.fillAll (.jump code.pc) body.returns = .ok code' := by
    rw [Store.pc_fill hfill]
    exact hreturns
  let closed : Generator := { g with
    body := none, symbols := { g.symbols with function := none }, code := code' }
  obtain ⟨n, hepilogue⟩ := does_emitEpilogue (g := closed) hslots
  refine Does.performs n (.get fun trace => ?_)
  rw [Generator.taking_body, hbody]
  have hnone : Does (modify fun g => { g with body := none }) g 0 () { g with body := none } 0 :=
    .modify fun _ => rfl
  refine hnone.bind ?_
  refine (does_demand (r := .closeFunction)
    (SymbolTable.closeFunction_eq (by exact hf) hblocks hopen)).bind ?_
  simp only [hprologue]
  refine .get fun trace => (does_fill (by exact hfill)).bind (does_pc.bind ?_)
  exact (does_fillAll (by exact hall)).bind (hepilogue.bind ((does_log _).bind
    (.modify fun _ => rfl)))

/-! ### Programs -/

theorem performs_beginProgram (h : g.start = none) :
    Performs ⟨.beginProgram, t⟩ g
      { g with start := some ⟨g.code.pc⟩, code := g.code.reserve.2 } := by
  refine Does.performs 0 (.get fun trace => .ite_neg (by simp [h]) ?_)
  exact does_reserve.bind (.modify fun _ => rfl)

theorem does_emitStart (hslots : 3 ≤ g.layout.scratchSlots.toNat) (entry : Word) :
    ∃ n, Does (emitStart entry) g 0 ()
      (g.withCode (g.code.append
        (Fragment.start g.layout g.symbols.dataEnd g.code.pc entry))) n := by
  let a := Use.field g.layout 0 g.layout.stackPointer (BitVec.ofNat 32 Record.returnAddress)
  have h0 : 0 < g.layout.scratchSlots.toNat := by omega
  refine ⟨0 + a.cells, .get fun trace => .get fun trace => ?_⟩
  refine (does_emit _).bind ((does_emit _).bind ?_)
  refine (does_fieldOperand _ _ (by exact h0)).bind (does_pc.bind ((does_emit _).bind
    ((does_emit _).congr ?_)))
  simp only [Generator.withCode, Generator.resolved, Fragment.start, Store.emit_append,
    Store.pc_append, Store.pc_emit, List.append_assoc]
  rfl

/-- The program starts with its main function. -/
theorem performs_endProgram {main : Symbol} {hole : Hole} {code : Store}
    (hf : g.symbols.function = none) (hstart : g.start = some hole)
    (hmain : (g.symbols.find? "main").filter isMain = some main)
    (hfill : (g.code.append (Fragment.start g.layout g.symbols.dataEnd g.code.pc main.value)).fill
      hole (.jump g.code.pc) = .ok code)
    (hslots : 3 ≤ g.layout.scratchSlots.toNat) :
    Performs ⟨.endProgram, t⟩ g { g with start := none, code } := by
  obtain ⟨n, hemit⟩ := does_emitStart (g := { g with start := none }) hslots main.value
  refine Does.performs n (.get fun trace => ?_)
  simp only [Generator.taking_symbols, SymbolTable.functionName?, hf, Option.map_none]
  refine .get fun trace => ?_
  rw [Generator.taking_start, hstart]
  have hnone : Does (modify fun g => { g with start := none }) g 0 () { g with start := none } 0 :=
    .modify fun _ => rfl
  refine hnone.bind (does_pc.bind (.get fun trace => ?_))
  simp only [Generator.taking_symbols, hmain]
  refine hemit.bind ?_
  exact (does_fill (by exact hfill)).bind (.get fun trace => does_log _)

theorem performs_endProgram_noMain {hole : Hole} {code : Store}
    (hf : g.symbols.function = none) (hstart : g.start = some hole)
    (hmain : (g.symbols.find? "main").filter isMain = none)
    (hfill : g.code.fill hole (.jump g.code.pc) = .ok code) :
    Performs ⟨.endProgram, t⟩ g
      (({ g with start := none, code } : Generator).report t.line .noMain) := by
  refine Does.performs 0 (.get fun trace => ?_)
  simp only [Generator.taking_symbols, SymbolTable.functionName?, hf, Option.map_none]
  refine .get fun trace => ?_
  rw [Generator.taking_start, hstart]
  have hnone : Does (modify fun g => { g with start := none }) g 0 () { g with start := none } 0 :=
    .modify fun _ => rfl
  refine hnone.bind (does_pc.bind (.get fun trace => ?_))
  simp only [Generator.taking_symbols, hmain]
  refine (does_report _ _).bind ?_
  exact (does_fill (by exact hfill)).bind (.get fun trace => does_log _)

end Gen

end OnePass
