import OnePass.Proofs.Static.Rules

/-!
# Running a program

What a program without calls does, said of its tree alone. Variables are numbered in the order in
which the text declares them, and each has its cells from the beginning to the end of the run, all
zero at first: a block that is entered again finds its variables as it left them.

    e.evaluate? env cells        s.run? fuel env n x        p.run? fuel

There is no result where an index is out of bounds, and none where some loop goes round more often
than `fuel` allows. Calls other than that of the built-in function, and assignments inside
expressions, have no meaning here; `Program.IsSimple` says that a program has none. -/

namespace OnePass

/-! ### Names and values -/

/-- What a name of a running program stands for. -/
inductive Entity where
  | variable (number : Nat)
  | array (number length : Nat)
  | function
  deriving DecidableEq, Repr

/-- The names that can be seen, the newest first. -/
abbrev Environment := List (String × Entity)

/-- The cells of the variables of a running program, by the number of the variable and an index. -/
abbrev Cells := Nat → Nat → Word

/-- The cells after one of them was given a value. -/
def Cells.set (cells : Cells) (number index : Nat) (value : Word) : Cells :=
  fun k i => if k = number ∧ i = index then value else cells k i

/-- The value of an expression. -/
inductive Value where
  | number (w : Word)
  /-- An array or a function as a whole. -/
  | whole
  deriving DecidableEq, Repr

/-- The number, if a value is one. -/
def Value.number? : Value → Option Word
  | .number w => some w
  | .whole => none

/-- What an operator computes; a comparison gives one or zero. -/
def BinaryOp.apply : BinaryOp → Word → Word → Word
  | .add, a, b => a + b
  | .sub, a, b => a - b
  | .mul, a, b => a * b
  | .lt, a, b => if a.toInt < b.toInt then 1 else 0
  | .eq, a, b => if a = b then 1 else 0

/-- The value of what stands for an entity. -/
def Entity.value (cells : Cells) : Entity → Value
  | .variable k => .number (cells k 0)
  | .array _ _ | .function => .whole

/-- The cell of an element, if the index is in bounds. -/
def Entity.element? (index : Word) : Entity → Option (Nat × Nat)
  | .array k length =>
    if 0 ≤ index.toInt ∧ index.toInt < length then some (k, index.toInt.toNat) else none
  | .variable _ | .function => none

/-! ### Expressions -/

namespace Expr

/-- An expression without calls and assignments. -/
def isPure : Expr → Bool
  | .num _ | .name _ => true
  | .index _ _ i _ => i.isPure
  | .paren _ e _ => e.isPure
  | .binary _ _ l r => l.isPure && r.isPure
  | .call _ _ _ | .assign _ _ _ => false

/-- The value of an expression. -/
def evaluate? (env : Environment) (cells : Cells) : Expr → Option Value
  | .num n => (Word.ofNumeral? n.lexeme).map .number
  | .name x => (env.lookup x.lexeme).map (·.value cells)
  | .index x _ i _ =>
    (env.lookup x.lexeme).bind fun entity =>
      ((i.evaluate? env cells).bind Value.number?).bind fun w =>
        (entity.element? w).map fun (k, j) => .number (cells k j)
  | .paren _ e _ => e.evaluate? env cells
  | .binary op _ l r =>
    ((l.evaluate? env cells).bind Value.number?).bind fun a =>
      ((r.evaluate? env cells).bind Value.number?).map fun b => .number (op.apply a b)
  | .call _ _ _ | .assign _ _ _ => none

/-- The number that is the value of an expression. -/
def number? (env : Environment) (cells : Cells) (e : Expr) : Option Word :=
  (e.evaluate? env cells).bind Value.number?

/-- The cell that an expression stands for. -/
def place? (env : Environment) (cells : Cells) : Expr → Option (Nat × Nat)
  | .name x =>
    match env.lookup x.lexeme with
    | some (.variable k) => some (k, 0)
    | _ => none
  | .index x _ i _ =>
    (env.lookup x.lexeme).bind fun entity => (i.number? env cells).bind entity.element?
  | _ => none

end Expr

/-! ### Statements -/

/-- A program on its way: its cells, and what it has printed. -/
structure Execution where
  cells : Cells := fun _ _ => 0
  printed : List Word := []

/-- How a statement ends. -/
inductive Flow where
  /-- The next statement follows. -/
  | next
  /-- The innermost loop is left. -/
  | leave
  /-- The function is left. -/
  | back
  deriving DecidableEq, Repr

namespace Expr

/-- An expression as it may stand as a statement: one value is printed, one cell is assigned, or
    nothing is done. -/
def isCommand : Expr → Bool
  | .call f _ (.last e _) => f.lexeme == outputName && e.isPure
  | .assign target _ value => target.isPure && value.isPure
  | e => e.isPure

/-- Performs an expression as a statement. -/
def perform? (env : Environment) (x : Execution) : Expr → Option Execution
  | .call _ _ (.last e _) =>
    (e.number? env x.cells).map fun w => { x with printed := x.printed ++ [w] }
  | .assign target _ value =>
    (target.place? env x.cells).bind fun (k, i) =>
      (value.number? env x.cells).map fun w => { x with cells := x.cells.set k i w }
  | e => (e.evaluate? env x.cells).map fun _ => x

end Expr

/-- What a declared name stands for, given the number of the variable. -/
def VarDecl.entity (d : VarDecl) (number : Nat) : Entity :=
  match d.extent with
  | .scalar _ => .variable number
  | .array _ _ _ _ => .array number d.arrayWords

/-- The names after some declarations, given the number of the first variable. -/
def Environment.declare (env : Environment) : Nat → List VarDecl → Environment
  | _, [] => env
  | n, d :: ds => Environment.declare ((d.name.lexeme, d.entity n) :: env) (n + 1) ds

/-- A body, again and again until a condition gives a number other than zero. -/
def repeatUntil? (body : Execution → Option (Flow × Execution)) (cond : Execution → Option Word) :
    Nat → Execution → Option (Flow × Execution)
  | 0, _ => none
  | n + 1, x =>
    (body x).bind fun (flow, x₁) =>
      match flow with
      | .next => (cond x₁).bind fun w =>
        if w = 0 then repeatUntil? body cond n x₁ else some (.next, x₁)
      | .leave => some (.next, x₁)
      | .back => some (.back, x₁)

mutual

/-- The number of variables that a statement declares. -/
def Stmt.variables : Stmt → Nat
  | .empty _ | .expr _ _ | .leave _ _ | .return _ _ | .returnValue _ _ _ => 0
  | .block _ locals body _ => locals.length + Stmt.listVariables body
  | .ifThen _ _ _ _ body | .loop _ body _ _ _ _ => body.variables
  | .ifElse _ _ _ _ body _ other => body.variables + other.variables

/-- The number of variables that some statements declare. -/
def Stmt.listVariables : List Stmt → Nat
  | [] => 0
  | s :: ss => s.variables + Stmt.listVariables ss

end

mutual

/-- A statement in which calls and assignments stand only as statements. -/
def Stmt.isSimple : Stmt → Bool
  | .empty _ | .leave _ _ | .return _ _ => true
  | .expr e _ => e.isCommand
  | .block _ _ body _ => Stmt.listIsSimple body
  | .ifThen _ _ cond _ body => cond.isPure && body.isSimple
  | .ifElse _ _ cond _ body _ other => cond.isPure && body.isSimple && other.isSimple
  | .loop _ body _ _ cond _ => body.isSimple && cond.isPure
  | .returnValue _ e _ => e.isPure

/-- Statements in which calls and assignments stand only as statements. -/
def Stmt.listIsSimple : List Stmt → Bool
  | [] => true
  | s :: ss => s.isSimple && Stmt.listIsSimple ss

end

mutual

/-- Runs a statement, given the number of the first variable that it declares. -/
def Stmt.run? (fuel : Nat) : Stmt → Environment → Nat → Execution → Option (Flow × Execution)
  | .empty _, _, _, x => some (.next, x)
  | .expr e _, env, _, x => (e.perform? env x).map fun x => (.next, x)
  | .block _ locals body _, env, n, x =>
    Stmt.listRun? fuel body (env.declare n locals) (n + locals.length) x
  | .leave _ _, _, _, x => some (.leave, x)
  | .ifThen _ _ cond _ body, env, n, x =>
    (cond.number? env x.cells).bind fun w =>
      if w = 0 then some (.next, x) else body.run? fuel env n x
  | .ifElse _ _ cond _ body _ other, env, n, x =>
    (cond.number? env x.cells).bind fun w =>
      if w = 0 then other.run? fuel env (n + body.variables) x else body.run? fuel env n x
  | .loop _ body _ _ cond _, env, n, x =>
    repeatUntil? (body.run? fuel env n) (fun x => cond.number? env x.cells) fuel x
  | .return _ _, _, _, x => some (.back, x)
  | .returnValue _ e _, env, _, x => (e.number? env x.cells).map fun _ => (.back, x)

/-- Runs some statements until one of them does not go on to the next. -/
def Stmt.listRun? (fuel : Nat) :
    List Stmt → Environment → Nat → Execution → Option (Flow × Execution)
  | [], _, _, x => some (.next, x)
  | s :: ss, env, n, x =>
    (s.run? fuel env n x).bind fun (flow, x₁) =>
      match flow with
      | .next => Stmt.listRun? fuel ss env (n + s.variables) x₁
      | flow => some (flow, x₁)

end

/-! ### Programs -/

/-- Runs the main function of some declarations, given the names before them and the number of the
    first variable; the result is what is printed. -/
def Decl.listRun? (fuel : Nat) : List Decl → Environment → Nat → Option (List Word)
  | [], _, _ => none
  | .var d :: ds, env, n => Decl.listRun? fuel ds ((d.name.lexeme, d.entity n) :: env) (n + 1)
  | .fn f :: ds, env, n =>
    let env := (f.name.lexeme, .function) :: env
    if f.IsMain then (f.body.stmt.run? fuel env n {}).map (·.2.printed)
    else Decl.listRun? fuel ds env (n + f.body.stmt.variables)

namespace Program

/-- Runs a program; the result is what it prints. -/
def run? (fuel : Nat) (p : Program) : Option (List Word) :=
  Decl.listRun? fuel p.decls [(outputName, .function)] 0

/-- A program of variables and arrays and one function, `void main(void)`, in which calls and
    assignments stand only as statements and only the built-in function is called. -/
def IsSimple (p : Program) : Prop :=
  ∃ (before : List VarDecl) (main : FnDecl) (after : List VarDecl),
    p.decls = before.map Decl.var ++ Decl.fn main :: after.map Decl.var ∧
      main.IsMain ∧ main.body.stmt.isSimple

end Program

end OnePass
