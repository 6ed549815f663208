import OnePass.Code.Store
import OnePass.Symbol.Basic

/-!
# Values on the operand stack

Actions hand on what they find through a stack. It holds values of several kinds: names and types
of a declaration, operands and operators of an expression, and positions and holes of jumps. -/

namespace OnePass

/-- The binary operators of the language. -/
inductive BinaryOp where
  | add | sub | mul | lt | eq
  deriving DecidableEq, Repr

namespace BinaryOp

/-- The operator of a symbol. -/
def ofLexeme? : String → Option BinaryOp
  | "+" => some .add
  | "-" => some .sub
  | "*" => some .mul
  | "<" => some .lt
  | "==" => some .eq
  | _ => none

/-- The operation that computes an operator. -/
def opcode : BinaryOp → Opcode
  | .add => .add
  | .sub => .sub
  | .mul => .mul
  | .lt => .lt
  | .eq => .eq

/-- The instruction that computes an operator. -/
def instruction (op : BinaryOp) (a b dst : Operand) : Instruction := .binary op.opcode a b dst

/-- The operator's name in a trace. -/
def label : BinaryOp → String
  | .add => "Add"
  | .sub => "Sub"
  | .mul => "Mul"
  | .lt => "Lt"
  | .eq => "Eq"

end BinaryOp

/-- A value on the operand stack. -/
inductive StackValue where
  | type (ty : Ty)
  | name (name : String)
  | symbol (symbol : Symbol)
  | operator (op : BinaryOp)
  /-- A position to jump back to. -/
  | label (pc : Nat)
  /-- A slot for a jump. -/
  | slot (hole : Hole)
  /-- A slot for a jump that depends on a condition already computed. -/
  | branch (hole : Hole) (cond : Operand)
  | literal (value : Word)
  deriving DecidableEq, Repr

namespace StackValue

/-- The kind of a value. -/
def kind : StackValue → StackKind
  | .type _ => .type
  | .name _ => .name
  | .symbol _ => .symbol
  | .operator _ => .operator
  | .label _ => .label
  | .slot _ => .slot
  | .branch _ _ => .branch
  | .literal _ => .literal

/-! ### Values in a trace -/

/-- A text in a trace. -/
def quoted (text : String) : String := s!"\"{text}\""

/-- A truth value in a trace. -/
def flagText (b : Bool) : String := if b then "true" else "false"

/-- Fields between braces in a trace. -/
def fieldsText (name : String) (fields : List (String × String)) : String :=
  let body := ", ".intercalate (fields.map fun (field, value) => s!"{field}: {value}")
  s!"{name} \x7b {body} \x7d"

/-- The parameters of a symbol in a trace. -/
def argsText : Option (List Ty) → String
  | none => "None"
  | some args =>
    let body := ", ".intercalate (args.map Ty.label)
    s!"Some([{body}])"

/-- A symbol in a trace. -/
def symbolText (s : Symbol) : String :=
  fieldsText "Symbol"
    [("name", quoted s.name), ("symbol_type", s.ty.label), ("value", Word.numberText s.value),
     ("args", argsText s.args), ("is_function", flagText s.isFunction),
     ("is_global", flagText s.isGlobal), ("is_constant", flagText s.isConstant),
     ("is_placeholder", flagText s.isPlaceholder)]

/-- A hole in a trace. -/
def holeText (hole : Hole) : String := fieldsText "Placeholder" [("pc", toString hole.pc)]

/-- An operand in a trace. -/
def operandText : Operand → String
  | .immediate value => s!"Immediate({Word.numberText value})"
  | .direct address => s!"Direct({Word.addressText address})"
  | .indirect address => s!"Indirect({Word.addressText address})"

/-- A value in a trace. -/
def text : StackValue → String
  | .type ty => s!"TypeName({ty.label})"
  | .name x => s!"Name({quoted x})"
  | .symbol s => s!"Symbol({symbolText s})"
  | .operator op => s!"Operator({op.label})"
  | .label pc => s!"Label({pc})"
  | .slot hole => s!"Slot({holeText hole})"
  | .branch hole cond => fieldsText "Branch" [("slot", holeText hole), ("cond", operandText cond)]
  | .literal value => s!"Literal({Word.numberText value})"

end StackValue

end OnePass
