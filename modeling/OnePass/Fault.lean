/-!
# Faults

A fault is a broken contract between two parts of the compiler: an action applied where no grammar
puts it, a slot filled twice, an address outside the machine. No well-formed use of the parts
raises one. Each cause is a constructor, and `Fault.message` is the one place with their wording. -/

namespace OnePass

/-- The kinds of value that share the operand stack. -/
inductive StackKind where
  | type | name | symbol | operator | label | slot | branch | literal
  deriving DecidableEq, Repr

/-- The word a fault uses for a kind of stack value. -/
def StackKind.text : StackKind → String
  | .type => "type"
  | .name => "name"
  | .symbol => "symbol"
  | .operator => "operator"
  | .label => "label"
  | .slot => "slot"
  | .branch => "branch"
  | .literal => "literal"

/-- A broken contract between parts of the compiler. -/
inductive Fault where
  /-- An action asked for more scratch cells than the layout has. -/
  | scratchExhausted (cells : Nat)
  /-- A slot was filled that is not waiting for an instruction. -/
  | slotNotPending (pc : Nat)
  /-- Code was asked for while a reserved slot still waits. -/
  | slotUnfilled (pc : Nat)
  /-- A slot holds nothing although nothing waits to be filled. -/
  | slotEmpty (pc : Nat)
  /-- An address does not fit a signed word. -/
  | addressOutOfRange (address : Nat) (name : String)
  | dataSegmentFull
  | recordFull
  | recordClosed
  | recordClosedTwice
  /-- The symbol table was asked to open a function inside another. -/
  | functionStillOpen (name openName : String)
  | parameterOutside (name : String)
  | parameterAfterBody (name : String)
  | scopeUpOutside
  | scopeDownOutside
  | scopeUnmatched
  | endOutside
  | scopesUnclosed (name : String) (count : Nat)
  | stackUnderflow
  | unexpectedValue (expected found : StackKind)
  | beginTwice
  | endWhileOpen (name : String)
  | endWithoutBegin
  | notTypeKeyword (lexeme : String)
  | notBinaryOperator (lexeme : String)
  /-- The generator was asked to declare a function inside another. -/
  | functionInside (name : String)
  | noDeclaredFunction
  | noPrologue (name : String)
  | returnOutside
  | incrementWithoutCount
  | callWithoutCount
  | closeWithoutBreakScope
  | indexedWithoutStorage
  | arrayBaseUnresolved
  | valuesLeft (count : Nat)
  deriving DecidableEq, Repr

/-- What a fault says. -/
def Fault.message : Fault → String
  | .scratchExhausted cells => s!"scratch pool exhausted ({cells} cells) within one action"
  | .slotNotPending pc => s!"slot {pc} patched but it was never reserved or was already patched"
  | .slotUnfilled pc => s!"slot {pc} was reserved but never patched"
  | .slotEmpty pc => s!"slot {pc} is empty"
  | .addressOutOfRange address name => s!"address {address} of '{name}' is out of range"
  | .dataSegmentFull => "data segment exceeds the address range"
  | .recordFull => "activation record exceeds the address range"
  | .recordClosed => "allocation in an activation record that is already finalized"
  | .recordClosedTwice => "activation record finalized twice"
  | .functionStillOpen name openName =>
    s!"function '{name}' declared while '{openName}' is still open"
  | .parameterOutside name => s!"parameter '{name}' outside of a function"
  | .parameterAfterBody name => s!"parameter '{name}' added after the function body was opened"
  | .scopeUpOutside => "scope_up with no open function"
  | .scopeDownOutside => "scope_down with no open function"
  | .scopeUnmatched => "scope_down without a matching scope_up"
  | .endOutside => "end_function with no open function"
  | .scopesUnclosed name count => s!"function '{name}' closed with {count} unclosed scopes"
  | .stackUnderflow => "semantic stack underflow"
  | .unexpectedValue expected found =>
    s!"expected {expected.text} on the semantic stack, found {found.text}"
  | .beginTwice => "begin_program applied twice"
  | .endWhileOpen name => s!"end of program while '{name}' is still open"
  | .endWithoutBegin => "end_program without begin_program"
  | .notTypeKeyword lexeme => s!"'{lexeme}' is not a type keyword"
  | .notBinaryOperator lexeme => s!"'{lexeme}' is not a binary operator"
  | .functionInside name => s!"function '{name}' declared inside another function"
  | .noDeclaredFunction => "begin_function with no declared function"
  | .noPrologue name => s!"function '{name}' has no prologue"
  | .returnOutside => "return outside of a function"
  | .incrementWithoutCount => "increment_arg_count without push_arg_count"
  | .callWithoutCount => "call without push_arg_count"
  | .closeWithoutBreakScope => "close_break_scope without push_break_scope"
  | .indexedWithoutStorage => "indexed temporary without storage"
  | .arrayBaseUnresolved => "array base did not resolve"
  | .valuesLeft count => s!"{count} value(s) left on the semantic stack"

end OnePass
