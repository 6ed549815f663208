/-!
# Tokens

A token is a classified piece of source text with the line it starts on. The last token of a
program is the stop mark, which stands for no text. -/

namespace OnePass

/-- The classes of token. -/
inductive TokenKind where
  | num | id | keyword | symbol
  /-- The stop mark. -/
  | stop
  deriving DecidableEq, Repr

/-- The name of a class of token. -/
def TokenKind.text : TokenKind → String
  | .num => "NUM"
  | .id => "ID"
  | .keyword => "KEYWORD"
  | .symbol => "SYMBOL"
  | .stop => "END"

/-- A piece of source text, its class and its line. -/
structure Token where
  lexeme : String
  kind : TokenKind
  line : Nat
  deriving DecidableEq, Repr

namespace Token

/-- The stop mark at a line. -/
def stopMark (line : Nat) : Token := ⟨"$", .stop, line⟩

/-- The token is the given symbol. -/
def isSymbol (t : Token) (lexeme : String) : Bool := t.kind == .symbol && t.lexeme == lexeme

/-- The token is the given keyword. -/
def isKeyword (t : Token) (lexeme : String) : Bool := t.kind == .keyword && t.lexeme == lexeme

/-- A token as it is shown: `(KIND, lexeme)`. -/
def text (t : Token) : String := s!"({t.kind.text}, {t.lexeme})"

end Token

end OnePass
