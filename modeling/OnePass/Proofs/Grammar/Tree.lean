import Mathlib
import OnePass.Grammar.Action
import OnePass.Generator.Value

/-!
# Syntax trees

A tree has a node for every phrase of the language, with what its tokens leave open: the texts of
names and numerals, and the line of every token. `tokens` is the text a tree stands for, and
`steps` are the actions of the grammar in the order in which they stand in it, from left to right
and inner phrases first.

Trees are a little larger than the language. `Grammatical` picks those that the grammar builds:

    e₁ * e₂     e₁ is a product, e₂ a factor          so that * goes to the left
    e₁ + e₂     e₁ is a sum, e₂ a product             so do + and -
    e₁ < e₂     both are sums                         so that < and == do not chain
    e₁ = e₂     e₁ is a name or an indexed name
    if (e) s₁ else s₂     s₁ does not end in an `if` that could take the `else` -/

namespace OnePass

namespace Token

/-- A symbol at a line. -/
def symbolAt (lexeme : String) (line : Nat) : Token := ⟨lexeme, .symbol, line⟩

/-- A reserved word at a line. -/
def keywordAt (lexeme : String) (line : Nat) : Token := ⟨lexeme, .keyword, line⟩

end Token

open Token (symbolAt keywordAt)

/-- A name as it stands in a text. -/
structure Name where
  lexeme : String
  line : Nat
  deriving DecidableEq, Repr

/-- The token of a name. -/
def Name.token (x : Name) : Token := ⟨x.lexeme, .id, x.line⟩

/-- A number as it stands in a text. -/
structure Numeral where
  lexeme : String
  line : Nat
  deriving DecidableEq, Repr

/-- The token of a numeral. -/
def Numeral.token (n : Numeral) : Token := ⟨n.lexeme, .num, n.line⟩

/-- The types that a program can write down. -/
inductive BaseType where
  | int | void
  deriving DecidableEq, Repr

namespace BaseType

/-- The reserved word of a type. -/
def lexeme : BaseType → String
  | .int => "int"
  | .void => "void"

/-- The type of symbols declared so. -/
def ty : BaseType → Ty
  | .int => .int
  | .void => .void

end BaseType

/-- The word for a type as it stands in a text. -/
structure TypeWord where
  base : BaseType
  line : Nat
  deriving DecidableEq, Repr

/-- The token of a word for a type. -/
def TypeWord.token (t : TypeWord) : Token := keywordAt t.base.lexeme t.line

/-! ### Expressions -/

namespace BinaryOp

/-- The symbol of an operator. -/
def lexeme : BinaryOp → String
  | .add => "+"
  | .sub => "-"
  | .mul => "*"
  | .lt => "<"
  | .eq => "=="

/-- The token of an operator. -/
def token (op : BinaryOp) (line : Nat) : Token := symbolAt op.lexeme line

end BinaryOp

/-- How tightly an expression holds together, the tightest first. -/
inductive Precedence where
  | factor | product | sum | comparison | assignment
  deriving DecidableEq, Repr

/-- The rank of a level. -/
def Precedence.rank : Precedence → Nat
  | .factor => 0
  | .product => 1
  | .sum => 2
  | .comparison => 3
  | .assignment => 4

namespace BinaryOp

/-- The level of an expression with an operator. -/
def level : BinaryOp → Precedence
  | .mul => .product
  | .add | .sub => .sum
  | .lt | .eq => .comparison

/-- The loosest left operand. -/
def leftLevel : BinaryOp → Precedence
  | .mul => .product
  | _ => .sum

/-- The loosest right operand. -/
def rightLevel : BinaryOp → Precedence
  | .mul => .factor
  | .add | .sub => .product
  | .lt | .eq => .sum

end BinaryOp

mutual

/-- An expression. The numbers are the lines of its tokens. -/
inductive Expr where
  | num (n : Numeral)
  | name (x : Name)
  | index (x : Name) (opening : Nat) (i : Expr) (closing : Nat)
  | call (f : Name) (opening : Nat) (args : Args)
  | paren (opening : Nat) (e : Expr) (closing : Nat)
  | binary (op : BinaryOp) (line : Nat) (l r : Expr)
  | assign (target : Expr) (line : Nat) (value : Expr)

/-- The arguments of a call, with the parenthesis that closes them. -/
inductive Args where
  | none (closing : Nat)
  | last (e : Expr) (closing : Nat)
  | more (e : Expr) (comma : Nat) (rest : Args)

end

/-- The level of an expression. -/
def Expr.level : Expr → Precedence
  | .binary op _ _ _ => op.level
  | .assign _ _ _ => .assignment
  | _ => .factor

/-- A name or an indexed name. -/
def Expr.isPlace : Expr → Bool
  | .name _ | .index _ _ _ _ => true
  | _ => false

/-- There is at least one argument. -/
def Args.nonempty : Args → Bool
  | .none _ => false
  | _ => true

mutual

/-- The tokens of an expression. -/
def Expr.tokens : Expr → List Token
  | .num n => [n.token]
  | .name x => [x.token]
  | .index x opening i closing =>
    [x.token, symbolAt "[" opening] ++ i.tokens ++ [symbolAt "]" closing]
  | .call f opening args => [f.token, symbolAt "(" opening] ++ args.tokens
  | .paren opening e closing => [symbolAt "(" opening] ++ e.tokens ++ [symbolAt ")" closing]
  | .binary op line l r => l.tokens ++ [op.token line] ++ r.tokens
  | .assign target line value => target.tokens ++ [symbolAt "=" line] ++ value.tokens

/-- The tokens of some arguments. -/
def Args.tokens : Args → List Token
  | .none closing => [symbolAt ")" closing]
  | .last e closing => e.tokens ++ [symbolAt ")" closing]
  | .more e comma rest => e.tokens ++ [symbolAt "," comma] ++ rest.tokens

end

mutual

/-- The steps of an expression. -/
def Expr.steps : Expr → List Step
  | .num n => [⟨.pushNumber, n.token⟩]
  | .name x => [⟨.pushIdentifier, x.token⟩]
  | .index x _ i _ => [⟨.pushIdentifier, x.token⟩] ++ i.steps ++ [⟨.indexArray, x.token⟩]
  | .call f opening args =>
    [⟨.pushIdentifier, f.token⟩, ⟨.pushArgCount, symbolAt "(" opening⟩] ++ args.steps
      ++ [⟨.call, f.token⟩]
  | .paren _ e _ => e.steps
  | .binary op line l r =>
    l.steps ++ [⟨.pushOperator, op.token line⟩] ++ r.steps ++ [⟨.computeBinary, op.token line⟩]
  | .assign target line value => target.steps ++ value.steps ++ [⟨.assign, symbolAt "=" line⟩]

/-- The steps of some arguments; one is counted at the token after it. -/
def Args.steps : Args → List Step
  | .none _ => []
  | .last e closing => e.steps ++ [⟨.incrementArgCount, symbolAt ")" closing⟩]
  | .more e comma rest => e.steps ++ [⟨.incrementArgCount, symbolAt "," comma⟩] ++ rest.steps

end

mutual

/-- The grammar builds an expression. -/
def Expr.Grammatical : Expr → Prop
  | .num _ | .name _ => True
  | .index _ _ i _ => i.Grammatical
  | .call _ _ args => args.Grammatical
  | .paren _ e _ => e.Grammatical
  | .binary op _ l r =>
    (l.level.rank ≤ op.leftLevel.rank ∧ l.Grammatical)
      ∧ r.level.rank ≤ op.rightLevel.rank ∧ r.Grammatical
  | .assign target _ value => (target.isPlace ∧ target.Grammatical) ∧ value.Grammatical

/-- The grammar builds some arguments. -/
def Args.Grammatical : Args → Prop
  | .none _ => True
  | .last e _ => e.Grammatical
  | .more e _ rest => e.Grammatical ∧ rest.nonempty ∧ rest.Grammatical

end

/-! ### Declarations of storage -/

/-- What follows the name in a declaration of storage. -/
inductive Extent where
  /-- A variable: `;`. -/
  | scalar (semicolon : Nat)
  /-- An array: `[ size ] ;`. -/
  | array (opening : Nat) (size : Numeral) (closing semicolon : Nat)
  deriving DecidableEq, Repr

/-- The declaration of a variable or an array. -/
structure VarDecl where
  type : TypeWord
  name : Name
  extent : Extent
  deriving DecidableEq, Repr

namespace Extent

/-- The tokens after the name. -/
def tokens : Extent → List Token
  | .scalar semicolon => [symbolAt ";" semicolon]
  | .array opening size closing semicolon =>
    [symbolAt "[" opening, size.token, symbolAt "]" closing, symbolAt ";" semicolon]

/-- The steps after the name. -/
def steps (name : Name) : Extent → List Step
  | .scalar _ => [⟨.declareVariable, name.token⟩]
  | .array _ size _ _ => [⟨.pushNumber, size.token⟩, ⟨.declareArray, name.token⟩]

end Extent

namespace VarDecl

/-- The tokens of a declaration. -/
def tokens (d : VarDecl) : List Token := [d.type.token, d.name.token] ++ d.extent.tokens

/-- The steps of a declaration. -/
def steps (d : VarDecl) : List Step :=
  [⟨.pushType, d.type.token⟩, ⟨.pushName, d.name.token⟩] ++ d.extent.steps d.name

end VarDecl

/-! ### Statements -/

/-- A statement. The numbers are the lines of its tokens. -/
inductive Stmt where
  | empty (semicolon : Nat)
  | expr (e : Expr) (semicolon : Nat)
  | block (opening : Nat) (locals : List VarDecl) (body : List Stmt) (closing : Nat)
  | leave (line semicolon : Nat)
  | ifThen (line opening : Nat) (cond : Expr) (closing : Nat) (body : Stmt)
  | ifElse (line opening : Nat) (cond : Expr) (closing : Nat) (body : Stmt) (elseLine : Nat)
      (other : Stmt)
  | loop (line : Nat) (body : Stmt) (untilLine opening : Nat) (cond : Expr) (closing : Nat)
  | return (line semicolon : Nat)
  | returnValue (line : Nat) (e : Expr) (semicolon : Nat)

mutual

/-- The tokens of a statement. -/
def Stmt.tokens : Stmt → List Token
  | .empty semicolon => [symbolAt ";" semicolon]
  | .expr e semicolon => e.tokens ++ [symbolAt ";" semicolon]
  | .block opening locals body closing =>
    [symbolAt "\x7b" opening] ++ locals.flatMap VarDecl.tokens ++ Stmt.listTokens body
      ++ [symbolAt "\x7d" closing]
  | .leave line semicolon => [keywordAt "break" line, symbolAt ";" semicolon]
  | .ifThen line opening cond closing body =>
    [keywordAt "if" line, symbolAt "(" opening] ++ cond.tokens ++ [symbolAt ")" closing]
      ++ body.tokens
  | .ifElse line opening cond closing body elseLine other =>
    [keywordAt "if" line, symbolAt "(" opening] ++ cond.tokens ++ [symbolAt ")" closing]
      ++ body.tokens ++ [keywordAt "else" elseLine] ++ other.tokens
  | .loop line body untilLine opening cond closing =>
    [keywordAt "repeat" line] ++ body.tokens
      ++ [keywordAt "until" untilLine, symbolAt "(" opening] ++ cond.tokens
      ++ [symbolAt ")" closing]
  | .return line semicolon => [keywordAt "return" line, symbolAt ";" semicolon]
  | .returnValue line e semicolon =>
    [keywordAt "return" line] ++ e.tokens ++ [symbolAt ";" semicolon]

/-- The tokens of some statements. -/
def Stmt.listTokens : List Stmt → List Token
  | [] => []
  | s :: ss => s.tokens ++ Stmt.listTokens ss

end

mutual

/-- The steps of a statement, given the token after it: the end of an `if` is noted there. -/
def Stmt.steps (after : Token) : Stmt → List Step
  | .empty _ => []
  | .expr e semicolon => e.steps ++ [⟨.popExpression, symbolAt ";" semicolon⟩]
  | .block opening locals body closing =>
    [⟨.scopeUp, symbolAt "\x7b" opening⟩] ++ locals.flatMap VarDecl.steps
      ++ Stmt.listSteps (symbolAt "\x7d" closing) body ++ [⟨.scopeDown, symbolAt "\x7d" closing⟩]
  | .leave line _ => [⟨.registerBreak, keywordAt "break" line⟩]
  | .ifThen _ _ cond closing body =>
    cond.steps ++ [⟨.reserveJumpSlot, symbolAt ")" closing⟩] ++ body.steps after
      ++ [⟨.patchCondJumpToHere, after⟩]
  | .ifElse _ _ cond closing body elseLine other =>
    cond.steps ++ [⟨.reserveJumpSlot, symbolAt ")" closing⟩]
      ++ body.steps (keywordAt "else" elseLine)
      ++ [⟨.emitCondJumpAndReserveNext, keywordAt "else" elseLine⟩] ++ other.steps after
      ++ [⟨.patchJumpToHere, after⟩]
  | .loop line body untilLine _ cond closing =>
    [⟨.pushBreakScope, keywordAt "repeat" line⟩, ⟨.labelHere, keywordAt "repeat" line⟩]
      ++ body.steps (keywordAt "until" untilLine) ++ cond.steps
      ++ [⟨.jumpBackIfFalse, symbolAt ")" closing⟩, ⟨.closeBreakScope, symbolAt ")" closing⟩]
  | .return line _ => [⟨.markReturn, keywordAt "return" line⟩]
  | .returnValue line e _ =>
    e.steps ++ [⟨.storeReturnValue, keywordAt "return" line⟩, ⟨.markReturn, keywordAt "return" line⟩]

/-- The steps of some statements. -/
def Stmt.listSteps (after : Token) : List Stmt → List Step
  | [] => []
  | s :: ss => s.steps ((Stmt.listTokens ss).headD after) ++ Stmt.listSteps after ss

end

/-- The statement ends in an `if` that an `else` after it would go to. -/
def Stmt.endsOpen : Stmt → Bool
  | .ifThen _ _ _ _ _ => true
  | .ifElse _ _ _ _ _ _ other => other.endsOpen
  | _ => false

mutual

/-- The grammar builds a statement. -/
def Stmt.Grammatical : Stmt → Prop
  | .empty _ | .leave _ _ | .return _ _ => True
  | .expr e _ | .returnValue _ e _ => e.Grammatical
  | .block _ _ body _ => Stmt.ListGrammatical body
  | .ifThen _ _ cond _ body => cond.Grammatical ∧ body.Grammatical
  | .ifElse _ _ cond _ body _ other =>
    cond.Grammatical ∧ (body.endsOpen = false ∧ body.Grammatical) ∧ other.Grammatical
  | .loop _ body _ _ cond _ => body.Grammatical ∧ cond.Grammatical

/-- The grammar builds some statements. -/
def Stmt.ListGrammatical : List Stmt → Prop
  | [] => True
  | s :: ss => s.Grammatical ∧ Stmt.ListGrammatical ss

end

/-! ### Programs -/

/-- A parameter; with brackets it stands for an array. -/
structure Param where
  type : TypeWord
  name : Name
  brackets : Option (Nat × Nat) := none
  deriving DecidableEq, Repr

namespace Param

/-- The tokens of a parameter. -/
def tokens (p : Param) : List Token :=
  [p.type.token, p.name.token] ++
    match p.brackets with
    | some (opening, closing) => [symbolAt "[" opening, symbolAt "]" closing]
    | none => []

/-- The action that adds a parameter. -/
def action (p : Param) : Action :=
  if p.brackets.isSome then .addArrayParameter else .addParameter

/-- The steps of a parameter. -/
def steps (p : Param) : List Step :=
  [⟨.pushType, p.type.token⟩, ⟨.pushName, p.name.token⟩, ⟨p.action, p.name.token⟩]

end Param

/-- What stands between the parentheses of a function. -/
inductive Params where
  /-- The word `void`. -/
  | void (line : Nat)
  /-- Parameters, each but the first after a comma. -/
  | list (first : Param) (more : List (Nat × Param))
  deriving DecidableEq, Repr

namespace Params

/-- The parameters. -/
def toList : Params → List Param
  | .void _ => []
  | .list first more => first :: more.map (·.2)

/-- The tokens of a parameter after the first. -/
def moreTokens (p : Nat × Param) : List Token := symbolAt "," p.1 :: p.2.tokens

/-- The tokens between the parentheses. -/
def tokens : Params → List Token
  | .void line => [keywordAt "void" line]
  | .list first more => first.tokens ++ more.flatMap moreTokens

/-- The steps between the parentheses. -/
def steps (ps : Params) : List Step := ps.toList.flatMap Param.steps

end Params

/-- A block as the body of a function. -/
structure Block where
  opening : Nat
  locals : List VarDecl
  body : List Stmt
  closing : Nat

/-- A block as a statement. -/
def Block.stmt (b : Block) : Stmt := .block b.opening b.locals b.body b.closing

/-- The brace that closes a block. -/
def Block.close (b : Block) : Token := symbolAt "\x7d" b.closing

/-- A function. -/
structure FnDecl where
  type : TypeWord
  name : Name
  opening : Nat
  params : Params
  closing : Nat
  body : Block

namespace FnDecl

/-- The tokens of a function. -/
def tokens (f : FnDecl) : List Token :=
  [f.type.token, f.name.token, symbolAt "(" f.opening] ++ f.params.tokens
    ++ [symbolAt ")" f.closing] ++ f.body.stmt.tokens

/-- The steps of a function. -/
def steps (f : FnDecl) : List Step :=
  [⟨.pushType, f.type.token⟩, ⟨.pushName, f.name.token⟩, ⟨.declareFunction, f.name.token⟩]
    ++ f.params.steps ++ [⟨.beginFunction, f.name.token⟩] ++ f.body.stmt.steps f.body.close
    ++ [⟨.endFunction, f.body.close⟩]

end FnDecl

/-- A declaration of a program. -/
inductive Decl where
  | var (d : VarDecl)
  | fn (f : FnDecl)

namespace Decl

/-- The tokens of a declaration. -/
def tokens : Decl → List Token
  | .var d => d.tokens
  | .fn f => f.tokens

/-- The steps of a declaration. -/
def steps : Decl → List Step
  | .var d => d.steps
  | .fn f => f.steps

/-- The grammar builds a declaration. -/
def Grammatical : Decl → Prop
  | .var _ => True
  | .fn f => f.body.stmt.Grammatical

end Decl

/-- A program: its declarations in order. -/
structure Program where
  decls : List Decl

namespace Program

/-- The tokens of a program, without the stop mark. -/
def tokens (p : Program) : List Token := p.decls.flatMap Decl.tokens

/-- The steps of a program that ends at a stop mark. -/
def steps (p : Program) (stop : Token) : List Step :=
  [⟨.beginProgram, p.tokens.headD stop⟩] ++ p.decls.flatMap Decl.steps ++ [⟨.endProgram, stop⟩]

/-- The grammar builds a program. -/
def Grammatical (p : Program) : Prop := ∀ d ∈ p.decls, d.Grammatical

end Program

end OnePass
