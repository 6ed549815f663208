import OnePass.Token.Basic

/-!
# Actions

The grammar has actions at fixed places of its rules. To compile a program is to perform them in
the order in which a parse comes by them; each is performed at a token, which gives it a name, a
number or a line. -/

namespace OnePass

/-- The actions of the grammar. -/
inductive Action where
  | beginProgram | endProgram
  | pushType | pushName | declareVariable | declareArray | declareFunction
  | addParameter | addArrayParameter | scopeUp | scopeDown
  | pushIdentifier | pushNumber | pushOperator | computeBinary | assign | indexArray | popExpression
  | reserveJumpSlot | emitCondJumpAndReserveNext | patchJumpToHere | patchCondJumpToHere
  | labelHere | jumpBackIfFalse | pushBreakScope | registerBreak | closeBreakScope
  | beginFunction | endFunction | storeReturnValue | markReturn
  | pushArgCount | incrementArgCount | call
  deriving DecidableEq, Repr

namespace Action

/-- All actions. -/
def all : List Action :=
  [.beginProgram, .endProgram,
   .pushType, .pushName, .declareVariable, .declareArray, .declareFunction,
   .addParameter, .addArrayParameter, .scopeUp, .scopeDown,
   .pushIdentifier, .pushNumber, .pushOperator, .computeBinary, .assign, .indexArray,
   .popExpression,
   .reserveJumpSlot, .emitCondJumpAndReserveNext, .patchJumpToHere, .patchCondJumpToHere,
   .labelHere, .jumpBackIfFalse, .pushBreakScope, .registerBreak, .closeBreakScope,
   .beginFunction, .endFunction, .storeReturnValue, .markReturn,
   .pushArgCount, .incrementArgCount, .call]

/-- The name of an action in a grammar. -/
def name : Action → String
  | .beginProgram => "begin_program"
  | .endProgram => "end_program"
  | .pushType => "push_type"
  | .pushName => "push_name"
  | .declareVariable => "declare_variable"
  | .declareArray => "declare_array"
  | .declareFunction => "declare_function"
  | .addParameter => "add_parameter"
  | .addArrayParameter => "add_array_parameter"
  | .scopeUp => "scope_up"
  | .scopeDown => "scope_down"
  | .pushIdentifier => "push_identifier"
  | .pushNumber => "push_number"
  | .pushOperator => "push_operator"
  | .computeBinary => "compute_binary"
  | .assign => "assign"
  | .indexArray => "index_array"
  | .popExpression => "pop_expression"
  | .reserveJumpSlot => "reserve_jump_slot"
  | .emitCondJumpAndReserveNext => "emit_cond_jump_and_reserve_next"
  | .patchJumpToHere => "patch_jump_to_here"
  | .patchCondJumpToHere => "patch_cond_jump_to_here"
  | .labelHere => "label_here"
  | .jumpBackIfFalse => "jump_back_if_false"
  | .pushBreakScope => "push_break_scope"
  | .registerBreak => "register_break"
  | .closeBreakScope => "close_break_scope"
  | .beginFunction => "begin_function"
  | .endFunction => "end_function"
  | .storeReturnValue => "store_return_value"
  | .markReturn => "mark_return"
  | .pushArgCount => "push_arg_count"
  | .incrementArgCount => "increment_arg_count"
  | .call => "call"

/-- An action as it stands in a grammar rule. -/
def text (a : Action) : String := "#" ++ a.name

/-- A name without the mark that may stand before it in a grammar rule. -/
def bareName (text : String) : String :=
  match text.toList with
  | '#' :: rest => String.ofList rest
  | _ => text

/-- The action of a name, with or without its mark. -/
def ofName? (text : String) : Option Action := all.find? (·.name == bareName text)

end Action

/-- An action to perform, and the token to perform it at. -/
structure Step where
  action : Action
  token : Token
  deriving DecidableEq, Repr

end OnePass
