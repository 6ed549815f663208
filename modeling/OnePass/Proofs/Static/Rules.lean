import OnePass.Proofs.Grammar.Tree
import OnePass.Symbol.Table

/-!
# Static semantics

Which programs make sense, said of their trees alone. A context is what the names that can be seen
are declared as; an expression has a category in it or has none; statements and declarations are
well typed or not.

    e.category? Γ        s.WellTyped Γ inLoop        p.WellTyped

Nothing here depends on how code is made. All of it can be decided. -/

namespace OnePass

/-! ### Contexts -/

/-- What a name is declared as. -/
inductive Meaning where
  | variable
  /-- An array, or a parameter that refers to one. -/
  | array
  | function (result : BaseType) (params : List Category)
  deriving DecidableEq, Repr

/-- What a name is when it is used as a value. -/
def Meaning.category : Meaning → Category
  | .variable => .int
  | .array => .array
  | .function _ _ => .function

/-- What a call of a function with a type is. -/
def BaseType.category : BaseType → Category
  | .int => .int
  | .void => .void

/-- Names and what they are declared as, in order. -/
abbrev Bindings := List (String × Meaning)

/-- The names that can be seen: those of the file, and those of the open scopes of a function, the
    innermost first. -/
structure Context where
  file : Bindings
  inner : List Bindings := []
  deriving DecidableEq, Repr

namespace Context

/-- What a name stands for: the innermost scope that declares it says. -/
def find? (Γ : Context) (x : String) : Option Meaning :=
  (Γ.inner ++ [Γ.file]).findSome? (·.lookup x)

/-- The context inside a scope. -/
def enter (Γ : Context) (scope : Bindings) : Context := { Γ with inner := scope :: Γ.inner }

/-- The names of a file before its first declaration. -/
def builtins : Bindings := [(outputName, .function .void [.int])]

end Context

/-! ### Expressions -/

/-- A literal has a value that fits a word. -/
def Numeral.InRange (n : Numeral) : Prop := (Word.ofNumeral? n.lexeme).isSome

instance (n : Numeral) : Decidable n.InRange := inferInstanceAs (Decidable (_ = true))

mutual

/-- What an expression is, unless it has a mistake. -/
def Expr.category? (Γ : Context) : Expr → Option Category
  | .num n => if n.InRange then some .int else none
  | .name x => (Γ.find? x.lexeme).map Meaning.category
  | .index x _ i _ =>
    if Γ.find? x.lexeme = some .array ∧ i.category? Γ = some .int then some .int else none
  | .call f _ args =>
    match Γ.find? f.lexeme with
    | some (.function result params) =>
      if args.categories? Γ = some params then some result.category else none
    | _ => none
  | .paren _ e _ => e.category? Γ
  | .binary _ _ l r =>
    if l.category? Γ = some .int ∧ r.category? Γ = some .int then some .int else none
  | .assign target _ value =>
    if target.category? Γ = some .int ∧ value.category? Γ = some .int then some .int else none

/-- What some arguments are, unless one has a mistake. -/
def Args.categories? (Γ : Context) : Args → Option (List Category)
  | .none _ => some []
  | .last e _ => (e.category? Γ).map ([·])
  | .more e _ rest =>
    match e.category? Γ, rest.categories? Γ with
    | some c, some cs => some (c :: cs)
    | _, _ => none

end

/-- An expression can be used as an integer. -/
def Expr.IsInt (Γ : Context) (e : Expr) : Prop := e.category? Γ = some .int

instance (Γ : Context) (e : Expr) : Decidable (e.IsInt Γ) := inferInstanceAs (Decidable (_ = _))

/-! ### Storage -/

namespace VarDecl

/-- What a declaration says of its name. -/
def binding (d : VarDecl) : String × Meaning :=
  (d.name.lexeme, match d.extent with
    | .scalar _ => .variable
    | .array _ _ _ _ => .array)

/-- A declaration of integers, of a size that is in range. -/
def WellTyped (d : VarDecl) : Prop :=
  d.type.base = .int ∧ match d.extent with
    | .scalar _ => True
    | .array _ size _ _ => size.InRange

instance : (d : VarDecl) → Decidable d.WellTyped
  | ⟨type, _, .scalar _⟩ => inferInstanceAs (Decidable (type.base = .int ∧ True))
  | ⟨type, _, .array _ size _ _⟩ => inferInstanceAs (Decidable (type.base = .int ∧ size.InRange))

end VarDecl

/-- The names of some declarations are distinct. -/
def Bindings.Distinct (Γ : Bindings) : Prop := (Γ.map (·.1)).Nodup

instance (Γ : Bindings) : Decidable Γ.Distinct := inferInstanceAs (Decidable (List.Nodup _))

/-- The words of the array that a declaration declares, if it does. -/
def VarDecl.arrayWords (d : VarDecl) : Nat :=
  match d.extent with
  | .scalar _ => 0
  | .array _ size _ _ => (Word.ofNumeral? size.lexeme).elim 0 (·.toInt.toNat)

/-! ### Statements -/

mutual

/-- The words of the arrays declared in a statement. -/
def Stmt.arrayWords : Stmt → Nat
  | .empty _ | .expr _ _ | .leave _ _ | .return _ _ | .returnValue _ _ _ => 0
  | .block _ locals body _ => (locals.map VarDecl.arrayWords).sum + Stmt.listArrayWords body
  | .ifThen _ _ _ _ body | .loop _ body _ _ _ _ => body.arrayWords
  | .ifElse _ _ _ _ body _ other => body.arrayWords + other.arrayWords

/-- The words of the arrays declared in some statements. -/
def Stmt.listArrayWords : List Stmt → Nat
  | [] => 0
  | s :: ss => s.arrayWords + Stmt.listArrayWords ss

end

mutual

/-- A statement makes sense, in a loop or not. -/
def Stmt.WellTyped (Γ : Context) (inLoop : Bool) : Stmt → Prop
  | .empty _ => True
  | .expr e _ => (e.category? Γ).isSome
  | .block _ locals body _ =>
    (Bindings.Distinct (locals.map VarDecl.binding) ∧ ∀ d ∈ locals, d.WellTyped) ∧
      Stmt.ListWellTyped (Γ.enter (locals.map VarDecl.binding)) inLoop body
  | .leave _ _ => inLoop = true
  | .ifThen _ _ cond _ body => cond.IsInt Γ ∧ body.WellTyped Γ inLoop
  | .ifElse _ _ cond _ body _ other =>
    cond.IsInt Γ ∧ body.WellTyped Γ inLoop ∧ other.WellTyped Γ inLoop
  | .loop _ body _ _ cond _ => body.WellTyped Γ true ∧ cond.IsInt Γ
  | .return _ _ => True
  | .returnValue _ e _ => e.IsInt Γ

/-- All of some statements make sense. -/
def Stmt.ListWellTyped (Γ : Context) (inLoop : Bool) : List Stmt → Prop
  | [] => True
  | s :: ss => s.WellTyped Γ inLoop ∧ Stmt.ListWellTyped Γ inLoop ss

end

mutual

/-- Whether a statement makes sense. -/
def Stmt.decideWellTyped (Γ : Context) (inLoop : Bool) : (s : Stmt) →
    Decidable (s.WellTyped Γ inLoop)
  | .empty _ | .return _ _ => isTrue trivial
  | .expr e _ => inferInstanceAs (Decidable ((e.category? Γ).isSome = true))
  | .block _ locals body _ =>
    have := Stmt.decideListWellTyped (Γ.enter (locals.map VarDecl.binding)) inLoop body
    inferInstanceAs (Decidable ((Bindings.Distinct (locals.map VarDecl.binding) ∧
      ∀ d ∈ locals, d.WellTyped) ∧ Stmt.ListWellTyped _ inLoop body))
  | .leave _ _ => inferInstanceAs (Decidable (inLoop = true))
  | .ifThen _ _ cond _ body =>
    have := body.decideWellTyped Γ inLoop
    inferInstanceAs (Decidable (cond.IsInt Γ ∧ body.WellTyped Γ inLoop))
  | .ifElse _ _ cond _ body _ other =>
    have := body.decideWellTyped Γ inLoop
    have := other.decideWellTyped Γ inLoop
    inferInstanceAs (Decidable (cond.IsInt Γ ∧ body.WellTyped Γ inLoop ∧
      other.WellTyped Γ inLoop))
  | .loop _ body _ _ cond _ =>
    have := body.decideWellTyped Γ true
    inferInstanceAs (Decidable (body.WellTyped Γ true ∧ cond.IsInt Γ))
  | .returnValue _ e _ => inferInstanceAs (Decidable (e.IsInt Γ))

/-- Whether all of some statements make sense. -/
def Stmt.decideListWellTyped (Γ : Context) (inLoop : Bool) : (ss : List Stmt) →
    Decidable (Stmt.ListWellTyped Γ inLoop ss)
  | [] => isTrue trivial
  | s :: ss =>
    have := s.decideWellTyped Γ inLoop
    have := Stmt.decideListWellTyped Γ inLoop ss
    inferInstanceAs (Decidable (s.WellTyped Γ inLoop ∧ Stmt.ListWellTyped Γ inLoop ss))

end

instance (Γ : Context) (inLoop : Bool) (s : Stmt) : Decidable (s.WellTyped Γ inLoop) :=
  s.decideWellTyped Γ inLoop

/-! ### Programs -/

namespace Param

/-- What a parameter is. -/
def meaning (p : Param) : Meaning := if p.brackets.isSome then .array else .variable

/-- What a parameter says of its name. -/
def binding (p : Param) : String × Meaning := (p.name.lexeme, p.meaning)

end Param

namespace FnDecl

/-- What a function says of its name. -/
def binding (f : FnDecl) : String × Meaning :=
  (f.name.lexeme, .function f.type.base (f.params.toList.map (·.meaning.category)))

/-- A function makes sense after some declarations of the file; it can be seen in its own body. -/
def WellTyped (file : Bindings) (f : FnDecl) : Prop :=
  (Bindings.Distinct (f.params.toList.map Param.binding) ∧
    ∀ p ∈ f.params.toList, p.type.base = .int) ∧
    f.body.stmt.WellTyped ⟨file ++ [f.binding], [f.params.toList.map Param.binding]⟩ false

instance (file : Bindings) (f : FnDecl) : Decidable (f.WellTyped file) :=
  inferInstanceAs (Decidable (_ ∧ _))

/-- The function where a program begins. -/
def IsMain (f : FnDecl) : Prop :=
  f.name.lexeme = "main" ∧ f.type.base = .void ∧ f.params.toList = []

instance (f : FnDecl) : Decidable f.IsMain := inferInstanceAs (Decidable (_ ∧ _))

end FnDecl

namespace Decl

/-- What a declaration says of its name. -/
def binding : Decl → String × Meaning
  | .var d => d.binding
  | .fn f => f.binding

/-- A declaration makes sense after some others of the file. -/
def WellTyped (file : Bindings) : Decl → Prop
  | .var d => d.WellTyped
  | .fn f => f.WellTyped file

instance (file : Bindings) : (d : Decl) → Decidable (d.WellTyped file)
  | .var d => inferInstanceAs (Decidable d.WellTyped)
  | .fn f => inferInstanceAs (Decidable (f.WellTyped file))

/-- Declarations make sense after some others, and their names are new. -/
def ListWellTyped : Bindings → List Decl → Prop
  | _, [] => True
  | file, d :: ds =>
    (d.binding.1 ∉ file.map (·.1) ∧ d.WellTyped file) ∧ ListWellTyped (file ++ [d.binding]) ds

/-- Whether declarations make sense. -/
def decideListWellTyped : (file : Bindings) → (ds : List Decl) → Decidable (ListWellTyped file ds)
  | _, [] => isTrue trivial
  | file, d :: ds =>
    have := decideListWellTyped (file ++ [d.binding]) ds
    inferInstanceAs (Decidable ((d.binding.1 ∉ file.map (·.1) ∧ d.WellTyped file) ∧
      ListWellTyped (file ++ [d.binding]) ds))

/-- A declaration is the function where a program begins. -/
def IsMain : Decl → Prop
  | .var _ => False
  | .fn f => f.IsMain

instance : (d : Decl) → Decidable d.IsMain
  | .var _ => isFalse id
  | .fn f => inferInstanceAs (Decidable f.IsMain)

end Decl

/-- The words of the arrays that a declaration declares, in a function too. -/
def Decl.arrayWords : Decl → Nat
  | .var d => d.arrayWords
  | .fn f => f.body.stmt.arrayWords

/-- The words of all arrays that a program declares. -/
def Program.arrayWords (p : Program) : Nat := (p.decls.map Decl.arrayWords).sum

/-- A program makes sense: all of its declarations do, and it has a beginning. -/
def Program.WellTyped (p : Program) : Prop :=
  Decl.ListWellTyped Context.builtins p.decls ∧ ∃ d ∈ p.decls, d.IsMain

instance (p : Program) : Decidable p.WellTyped :=
  have := Decl.decideListWellTyped Context.builtins p.decls
  inferInstanceAs (Decidable (_ ∧ _))

end OnePass
