import OnePass.Word

/-!
# Three-address instructions

An instruction has an operation and up to three operands. An operand is a number (`#k`), a cell
(`a`) or the cell whose address a cell holds (`@a`). A listing has one instruction a line, after
its position. -/

namespace OnePass

/-- The operations of the target machine. -/
inductive Opcode where
  | add | mul | sub | eq | lt | assign | jpf | jp | print
  deriving DecidableEq, Repr

/-- The name of an operation in a listing. -/
def Opcode.text : Opcode → String
  | .add => "ADD"
  | .mul => "MUL"
  | .sub => "SUB"
  | .eq => "EQ"
  | .lt => "LT"
  | .assign => "ASSIGN"
  | .jpf => "JPF"
  | .jp => "JP"
  | .print => "PRINT"

/-- Where an instruction finds a value or leaves one. -/
inductive Operand where
  /-- The number itself. -/
  | immediate (value : Word)
  /-- The cell at an address. -/
  | direct (address : Word)
  /-- The cell whose address the cell at `address` holds. -/
  | indirect (address : Word)
  deriving DecidableEq, Repr

/-- An operand in a listing: `#k`, `a` or `@a`. -/
def Operand.text : Operand → String
  | .immediate value => s!"#{Word.numberText value}"
  | .direct address => Word.addressText address
  | .indirect address => s!"@{Word.addressText address}"

/-- One instruction; an operation leaves the operands it does not use absent. -/
structure Instruction where
  op : Opcode
  a : Option Operand
  b : Option Operand
  c : Option Operand
  deriving DecidableEq, Repr

namespace Instruction

/-- `dst := a op b`. -/
def binary (op : Opcode) (a b dst : Operand) : Instruction := ⟨op, some a, some b, some dst⟩

/-- `dst := a + b`. -/
def add (a b dst : Operand) : Instruction := binary .add a b dst

/-- `dst := a * b`. -/
def mul (a b dst : Operand) : Instruction := binary .mul a b dst

/-- `dst := src`. -/
def assign (src dst : Operand) : Instruction := ⟨.assign, some src, some dst, none⟩

/-- A jump target: the low 32 bits of a position. -/
def target (pc : Nat) : Operand := .direct (BitVec.ofNat 32 pc)

/-- Jump to `pc` if `cond` is zero. -/
def jumpIfFalse (cond : Operand) (pc : Nat) : Instruction :=
  ⟨.jpf, some cond, some (target pc), none⟩

/-- Jump to `pc`. -/
def jump (pc : Nat) : Instruction := ⟨.jp, some (target pc), none, none⟩

/-- Jump to the position that `place` holds. -/
def jumpThrough (place : Operand) : Instruction := ⟨.jp, some place, none, none⟩

/-- Print a value. -/
def print (value : Operand) : Instruction := ⟨.print, some value, none, none⟩

/-- The operand that holds the target, in an instruction that jumps. -/
def targetOperand? (i : Instruction) : Option Operand :=
  match i.op with
  | .jp => i.a
  | .jpf => i.b
  | _ => none

/-- The position an instruction jumps to, if it names one. -/
def jumpTarget? (i : Instruction) : Option Nat :=
  match i.targetOperand? with
  | some (.direct address) => some address.toNat
  | _ => none

/-- The text of an operand that may be absent. -/
def operandText : Option Operand → String
  | some operand => operand.text
  | none => ""

/-- An instruction in a listing: `(OP, a, b, c)`. -/
def text (i : Instruction) : String :=
  s!"({i.op.text}, {operandText i.a}, {operandText i.b}, {operandText i.c})"

/-- One line of a listing: position, tab, instruction. -/
def line (pc : Nat) (i : Instruction) : String := s!"{pc}\t{i.text}\n"

/-- The listing of a program, one line an instruction, counted from zero. -/
def listing (code : List Instruction) : String :=
  String.join (code.zipIdx.map fun (i, pc) => line pc i)

end Instruction

end OnePass
