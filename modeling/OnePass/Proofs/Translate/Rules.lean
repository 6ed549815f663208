import OnePass.Proofs.Chain
import OnePass.Proofs.Code.Plan
import OnePass.Proofs.Generator.Declaration
import OnePass.Proofs.Generator.Expression
import OnePass.Proofs.Grammar.Tree

/-!
# The code of a program

What becomes of a program without mistakes, as rules over its tree. A phrase stands at a position,
finds a symbol table and leaves one; an expression becomes instructions and a value, a statement
becomes code with jumps that are still open, a program becomes its code.

    e.Translates l pc t is v t'        s.Translates l inLoop pc t ps t'

There is no rule for a phrase with a mistake, nor for one whose temporaries do not fit. -/

namespace OnePass

open Planned (plain settle)

/-- A value on the stack is an operand that can be used as an integer. -/
def StackValue.IsInt (v : StackValue) (s : Symbol) : Prop := v.operand? = some s ∧ s.isInt

/-- A symbol can be indexed. -/
def Symbol.IsArray (s : Symbol) : Prop :=
  s.isPlaceholder = false ∧ s.isFunction = false ∧ s.ty.isReference

/-- A symbol can be called. -/
def Symbol.IsCallable (s : Symbol) : Prop := s.isPlaceholder = false ∧ s.isFunction

/-! ### Expressions -/

/-- A call at which all is well: its target, the values of its arguments, and what is called. -/
structure Calls (t : SymbolTable) (target : Symbol) (values : List StackValue)
    (callee : Symbol) (args : List Symbol) : Prop where
  callable : target.IsCallable
  operands : values.map (·.operand?) = args.map some
  found : Gen.calleeOf t target = callee
  matching : Gen.argumentMistake? callee args = none

mutual

/-- An expression at a position becomes code and a value. -/
inductive Expr.Translates (l : Layout) :
    Nat → SymbolTable → Expr → List Instruction → StackValue → SymbolTable → Prop
  | num {pc t n w} : Word.ofNumeral? n.lexeme = some w →
      Expr.Translates l pc t (.num n) [] (.literal w) t
  | name {pc t x s} : t.find? x.lexeme = some s → Expr.Translates l pc t (.name x) [] (.symbol s) t
  | index {pc t x opening i closing a is v s t₁ f} : t.find? x.lexeme = some a → a.IsArray →
      Expr.Translates l pc t i is v t₁ → v.IsInt s → t₁.function = some f → f.record.HasRoom 1 →
      Expr.Translates l pc t (.index x opening i closing)
        (is ++ Fragment.index l a s (f.temporary t₁.temporaries true))
        (.symbol (f.temporary t₁.temporaries true)) (t₁.withTemporary f)
  | print {pc t x opening args target is values t₁ callee ss} : t.find? x.lexeme = some target →
      Args.Translates l pc t args is values t₁ → Calls t₁ target values callee ss →
      callee.name = outputName →
      Expr.Translates l pc t (.call x opening args) (is ++ Fragment.print l ss)
        (.symbol (.voidResult callee.name)) t₁
  | callVoid {pc t x opening args target is values t₁ callee ss} :
      t.find? x.lexeme = some target → Args.Translates l pc t args is values t₁ →
      Calls t₁ target values callee ss → callee.name ≠ outputName → callee.ty = .void →
      Expr.Translates l pc t (.call x opening args) (is ++ Fragment.call l (pc + is.length) callee ss)
        (.symbol (.voidResult callee.name)) t₁
  | callValue {pc t x opening args target is values t₁ callee ss f} :
      t.find? x.lexeme = some target → Args.Translates l pc t args is values t₁ →
      Calls t₁ target values callee ss → callee.name ≠ outputName → callee.ty ≠ .void →
      t₁.function = some f → f.record.HasRoom 1 →
      Expr.Translates l pc t (.call x opening args)
        (is ++ (Fragment.call l (pc + is.length) callee ss
          ++ Fragment.fetch l (f.temporary t₁.temporaries false)))
        (.symbol (f.temporary t₁.temporaries false)) (t₁.withTemporary f)
  | paren {pc t opening e closing is v t'} : Expr.Translates l pc t e is v t' →
      Expr.Translates l pc t (.paren opening e closing) is v t'
  | binary {pc t op line e₁ e₂ is v₁ s₁ t₁ js v₂ s₂ t₂ f} :
      Expr.Translates l pc t e₁ is v₁ t₁ → v₁.IsInt s₁ →
      Expr.Translates l (pc + is.length) t₁ e₂ js v₂ t₂ → v₂.IsInt s₂ →
      t₂.function = some f → f.record.HasRoom 1 →
      Expr.Translates l pc t (.binary op line e₁ e₂)
        (is ++ js ++ Fragment.binary l op s₁ s₂ (f.temporary t₂.temporaries false))
        (.symbol (f.temporary t₂.temporaries false)) (t₂.withTemporary f)
  | assign {pc t line target value is v₁ s₁ t₁ js v₂ s₂ t₂} :
      Expr.Translates l pc t target is v₁ t₁ → v₁.IsInt s₁ →
      Expr.Translates l (pc + is.length) t₁ value js v₂ t₂ → v₂.IsInt s₂ →
      Expr.Translates l pc t (.assign target line value) (is ++ js ++ Fragment.assign l s₁ s₂)
        (.symbol s₂) t₂

/-- Arguments at a position become code and values, in their order. -/
inductive Args.Translates (l : Layout) :
    Nat → SymbolTable → Args → List Instruction → List StackValue → SymbolTable → Prop
  | none {pc t closing} : Args.Translates l pc t (.none closing) [] [] t
  | last {pc t e closing is v t'} : Expr.Translates l pc t e is v t' →
      Args.Translates l pc t (.last e closing) is [v] t'
  | more {pc t e comma rest is v t₁ js vs t₂} : Expr.Translates l pc t e is v t₁ →
      Args.Translates l (pc + is.length) t₁ rest js vs t₂ →
      Args.Translates l pc t (.more e comma rest) (is ++ js) (v :: vs) t₂

end

/-- A condition at a position becomes code and an operand to test. -/
inductive Expr.Tests (l : Layout) (pc : Nat) (t : SymbolTable) (e : Expr) :
    List Instruction → Operand → SymbolTable → Prop
  | intro {is v s t'} : e.Translates l pc t is v t' → v.IsInt s →
      Tests l pc t e (is ++ (Use.value l 0 s).code) (Use.value l 0 s).operand t'

/-! ### Declarations of storage -/

namespace SymbolTable

/-- The table with another open function. -/
def withFunction (t : SymbolTable) (f : OpenFunction) : SymbolTable := { t with function := some f }

/-- The table after a declaration in the open function. -/
def withLocal (t : SymbolTable) (f : OpenFunction) (name : String) (ty : Ty) (words : Nat) :
    SymbolTable :=
  t.withFunction ((f.grow words).insert (.cell name ty f.record.size false))

/-- The table after a declaration outside functions. -/
def withGlobal (t : SymbolTable) (name : String) (ty : Ty) (words : Nat) : SymbolTable :=
  { t with
    dataEnd := t.dataEnd + Word.size * words
    globals := t.globals.insert (.cell name ty t.dataEnd true) }

/-- The table after a parameter of the open function. -/
def withParameter (t : SymbolTable) (f : OpenFunction) (name : String) (ty : Ty) : SymbolTable :=
  { t with
    globals := t.addType f ty
    function := some
      { f.grow 1 with
        params := f.params ++ [ty]
        outer := f.outer.insert (.cell name ty f.record.size false) } }

/-- The table after the head of a function at a position. -/
def withEntry (t : SymbolTable) (name : String) (ty : Ty) (entry : Nat) : SymbolTable :=
  { t with
    globals := t.globals.insert (functionSymbol name ty entry)
    function := some { name, entry, registered := true } }

/-- A fresh name gets some words of storage that fit. -/
inductive Stores (name : String) (ty : Ty) (words : Nat) : SymbolTable → SymbolTable → Prop
  | inner {t f} : t.function = some f → f.record.closed = false →
      f.current.contains name = false → f.record.fits words →
      Stores name ty words t (t.withLocal f name ty words)
  | outer {t} : t.function = none → t.globals.contains name = false → t.hasRoom words →
      Stores name ty words t (t.withGlobal name ty words)

end SymbolTable

/-- A declaration gives a name its storage. -/
inductive VarDecl.Declares : VarDecl → SymbolTable → SymbolTable → Prop
  | scalar {line x semicolon t t'} : SymbolTable.Stores x.lexeme .int 1 t t' →
      Declares ⟨⟨.int, line⟩, x, .scalar semicolon⟩ t t'
  | array {line x opening n closing semicolon w t t'} : Word.ofNumeral? n.lexeme = some w →
      SymbolTable.Stores x.lexeme .arrayInt w.toInt.toNat t t' →
      Declares ⟨⟨.int, line⟩, x, .array opening n closing semicolon⟩ t t'

/-- The type of a parameter. -/
def Param.ty (p : Param) : Ty := Ty.parameter .int p.brackets.isSome

/-- A parameter gets its place in the record of the open function. -/
inductive Param.Adds (p : Param) : SymbolTable → SymbolTable → Prop
  | intro {t f} : p.type.base = .int → t.function = some f → f.blocks = [] →
      f.record.HasRoom 1 → f.outer.contains p.name.lexeme = false →
      Adds p t (t.withParameter f p.name.lexeme p.ty)

/-! ### Statements -/

mutual

/-- A statement at a position, in a loop or not, becomes code. -/
inductive Stmt.Translates (l : Layout) :
    Bool → Nat → SymbolTable → Stmt → List Planned → SymbolTable → Prop
  | empty {inLoop pc t semicolon} : Stmt.Translates l inLoop pc t (.empty semicolon) [] t
  | expr {inLoop pc t e semicolon is v t'} : e.Translates l pc t is v t' →
      Stmt.Translates l inLoop pc t (.expr e semicolon) (plain is) t'
  | block {inLoop pc t opening locals body closing f t₁ ps t₂ f₂ block blocks} :
      t.function = some f →
      Chain VarDecl.Declares locals (t.withFunction { f with blocks := {} :: f.blocks }) t₁ →
      Stmt.ListTranslates l inLoop pc t₁ body ps t₂ → t₂.function = some f₂ →
      f₂.blocks = block :: blocks →
      Stmt.Translates l inLoop pc t (.block opening locals body closing) ps
        (t₂.withFunction { f₂ with blocks })
  | leave {pc t line semicolon} : Stmt.Translates l true pc t (.leave line semicolon) [.leave] t
  | ifThen {inLoop pc t line opening cond closing body is c t₁ ps t₂} :
      cond.Tests l pc t is c t₁ →
      Stmt.Translates l inLoop (pc + is.length + 1) t₁ body ps t₂ →
      Stmt.Translates l inLoop pc t (.ifThen line opening cond closing body)
        (plain (is ++ [.jumpIfFalse c (pc + is.length + 1 + ps.length)]) ++ ps) t₂
  | ifElse {inLoop pc t line opening cond closing body elseLine other is c t₁ ps t₂ qs t₃} :
      cond.Tests l pc t is c t₁ →
      Stmt.Translates l inLoop (pc + is.length + 1) t₁ body ps t₂ →
      Stmt.Translates l inLoop (pc + is.length + 1 + ps.length + 1) t₂ other qs t₃ →
      Stmt.Translates l inLoop pc t (.ifElse line opening cond closing body elseLine other)
        (plain (is ++ [.jumpIfFalse c (pc + is.length + 1 + ps.length + 1)]) ++ ps
          ++ plain [.jump (pc + is.length + 1 + ps.length + 1 + qs.length)] ++ qs) t₃
  | loop {inLoop pc t line body untilLine opening cond closing ps t₁ is c t₂} :
      Stmt.Translates l true pc t body ps t₁ → cond.Tests l (pc + ps.length) t₁ is c t₂ →
      Stmt.Translates l inLoop pc t (.loop line body untilLine opening cond closing)
        ((ps ++ plain (is ++ [.jumpIfFalse c pc])).map
          (settle .leave (.jump (pc + ps.length + is.length + 1)))) t₂
  | return {inLoop pc t line semicolon} :
      Stmt.Translates l inLoop pc t (.return line semicolon) [.back] t
  | returnValue {inLoop pc t line e semicolon is v s t'} : e.Translates l pc t is v t' →
      v.IsInt s →
      Stmt.Translates l inLoop pc t (.returnValue line e semicolon)
        (plain (is ++ Fragment.storeReturn l s) ++ [.back]) t'

/-- Statements in a row become code in a row. -/
inductive Stmt.ListTranslates (l : Layout) :
    Bool → Nat → SymbolTable → List Stmt → List Planned → SymbolTable → Prop
  | nil {inLoop pc t} : Stmt.ListTranslates l inLoop pc t [] [] t
  | cons {inLoop pc t s ss ps t₁ qs t₂} : Stmt.Translates l inLoop pc t s ps t₁ →
      Stmt.ListTranslates l inLoop (pc + ps.length) t₁ ss qs t₂ →
      Stmt.ListTranslates l inLoop pc t (s :: ss) (ps ++ qs) t₂

end

/-! ### Programs -/

/-- The instruction of code in which only the end of the function is open. -/
def Planned.finish (epilogue : Nat) : Planned → Instruction
  | .code i => i
  | _ => .jump epilogue

/-- The code of a function with a record of some size, at a position. -/
def Fragment.function (l : Layout) (pc size : Nat) (body : List Planned) : List Instruction :=
  prologue l ++ [moveStack l size]
    ++ body.map (Planned.finish (pc + (prologue l).length + 1 + body.length)) ++ epilogue l

/-- A function at a position becomes code, and a frame. -/
inductive FnDecl.Translates (l : Layout) (pc : Nat) (t : SymbolTable) (f : FnDecl) :
    List Instruction → SymbolTable → Frame → Prop
  | intro {t₁ ps t₂ fn} : t.function = none → t.globals.contains f.name.lexeme = false →
      Chain Param.Adds f.params.toList (t.withEntry f.name.lexeme f.type.base.ty pc) t₁ →
      f.body.stmt.Translates l false (pc + (Fragment.prologue l).length + 1) t₁ ps t₂ →
      t₂.function = some fn →
      Translates l pc t f (Fragment.function l pc fn.record.size ps)
        { t₂ with function := none } fn.frame

/-- Declarations at a position become code, and frames. -/
inductive Decl.ListTranslates (l : Layout) :
    Nat → SymbolTable → List Decl → List Instruction → SymbolTable → List Frame → Prop
  | nil {pc t} : ListTranslates l pc t [] [] t []
  | var {pc t d ds t₁ is t₂ frames} : d.Declares t t₁ →
      Decl.ListTranslates l pc t₁ ds is t₂ frames →
      ListTranslates l pc t (.var d :: ds) is t₂ frames
  | fn {pc t f ds is t₁ frame js t₂ frames} : f.Translates l pc t is t₁ frame →
      Decl.ListTranslates l (pc + is.length) t₁ ds js t₂ frames →
      ListTranslates l pc t (.fn f :: ds) (is ++ js) t₂ (frame :: frames)

/-- A program becomes code: a jump to its start, its declarations, and the start. -/
inductive Program.Translates (l : Layout) (p : Program) :
    List Instruction → SymbolTable → List Frame → Prop
  | intro {is t frames main} :
      Decl.ListTranslates l 1 (.initial l.dataBase) p.decls is t frames →
      (t.find? "main").filter Gen.isMain = some main →
      Translates l p ([.jump (1 + is.length)] ++ is
        ++ Fragment.start l t.dataEnd (1 + is.length) main.value) t frames

end OnePass
