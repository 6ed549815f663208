import OnePass.Fault
import OnePass.Layout.Segment

/-!
# Types and symbols

A symbol is what a name or an intermediate result stands for: a constant, a cell in the global
data, a cell in the frame of the function at hand, or a function. Its value is the number, the
address, the offset in the frame or the entry position, in that order. -/

namespace OnePass

/-- What diagnostics call a value. -/
inductive Category where
  | void | int | array | function
  deriving DecidableEq, Repr

/-- The word diagnostics use. -/
def Category.text : Category → String
  | .void => "void"
  | .int => "int"
  | .array => "array"
  | .function => "function"

/-- The types of symbols. -/
inductive Ty where
  | void | int | arrayInt | arrayVoid | pointerInt | pointerVoid
  /-- A temporary that holds the address of a value, not the value. -/
  | indexed
  deriving DecidableEq, Repr

namespace Ty

/-- The type that a keyword names. -/
def ofKeyword? : String → Option Ty
  | "int" => some .int
  | "void" => some .void
  | _ => none

/-- The type of an array of such elements. -/
def arrayOf : Ty → Ty
  | .void => .arrayVoid
  | _ => .arrayInt

/-- The type of a parameter that refers to an array of such elements. -/
def pointerTo : Ty → Ty
  | .void => .pointerVoid
  | _ => .pointerInt

/-- A value of the type can stand where an integer is expected. -/
def isScalar : Ty → Bool
  | .int | .indexed => true
  | _ => false

/-- A value of the type is passed as the address of its first element. -/
def isReference : Ty → Bool
  | .arrayInt | .arrayVoid | .pointerInt | .pointerVoid => true
  | _ => false

/-- What diagnostics call the type. -/
def category : Ty → Category
  | .void => .void
  | .int | .indexed => .int
  | _ => .array

/-- The type as diagnostics and frames name it. -/
def text (ty : Ty) : String := ty.category.text

/-- The type's own name, which tells all types apart. -/
def label : Ty → String
  | .void => "Void"
  | .int => "Int"
  | .arrayInt => "ArrayInt"
  | .arrayVoid => "ArrayVoid"
  | .pointerInt => "PointerInt"
  | .pointerVoid => "PointerVoid"
  | .indexed => "Indexed"

end Ty

/-- What a name or an intermediate result stands for. -/
structure Symbol where
  name : String := ""
  ty : Ty := .int
  /-- Constant value, global address, offset in the frame or entry position. -/
  value : Word := 0
  /-- The types of a function's parameters. -/
  args : Option (List Ty) := none
  isFunction : Bool := false
  isGlobal : Bool := false
  isConstant : Bool := false
  /-- The symbol stands in for one that was rejected. -/
  isPlaceholder : Bool := false
  deriving DecidableEq, Repr

namespace Symbol

/-- A symbol for storage at an address, which must fit a signed word. -/
def storage (name : String) (ty : Ty) (address : Nat) (isGlobal : Bool) : Except Fault Symbol :=
  if address ≤ addressLimit then .ok { name, ty, value := BitVec.ofNat 32 address, isGlobal }
  else .error (.addressOutOfRange address name)

/-- An integer. -/
def constant (value : Word) : Symbol := { value, isConstant := true }

/-- A zero that later checks accept, in place of something that was rejected. -/
def placeholder (name : String) : Symbol := { name, isConstant := true, isPlaceholder := true }

/-- The value of a call of a function without result. -/
def voidResult (callee : String) : Symbol := { name := callee, ty := .void, isConstant := true }

/-- What diagnostics call the symbol. -/
def category (s : Symbol) : Category := if s.isFunction then .function else s.ty.category

/-- The symbol can be used as an integer. A placeholder can, so that one mistake is reported
    once. -/
def isInt (s : Symbol) : Bool := s.isPlaceholder || (!s.isFunction && s.ty.isScalar)

/-- The symbol can be passed for a parameter of a type. -/
def matchesParameter (s : Symbol) (parameter : Ty) : Bool :=
  s.isPlaceholder ||
    (!s.isFunction && if parameter.isReference then s.ty.isReference else s.ty.isScalar)

end Symbol

end OnePass
