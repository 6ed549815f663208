import OnePass.Symbol.Record
import OnePass.Symbol.Scope

/-!
# The symbol table

Globals are in one scope. While a function is open it has a scope for its parameters and one for
each block that is open in its body. All of them share the function's record, so closing a block
hides its names but does not give its storage back.

The operations keep what they changed when they fail: a function whose name clashes is opened
nevertheless, so that its body can be compiled. -/

namespace OnePass

/-- The name of the function that prints. -/
def outputName : String := "output"

/-- Why the table rejects something. -/
inductive SymbolError where
  | duplicate (name : String)
  /-- Declared storage does not fit. -/
  | tooLarge (name : String)
  | fault (fault : Fault)
  deriving DecidableEq, Repr

/-- A function whose body is being compiled. -/
structure OpenFunction where
  name : String
  entry : Nat
  /-- The global of this name is this function. -/
  registered : Bool
  params : List Ty := []
  record : Record := {}
  /-- The scope of the parameters. -/
  outer : Scope := {}
  /-- The scopes of open blocks, innermost first. -/
  blocks : List Scope := []
  deriving DecidableEq, Repr

namespace OpenFunction

/-- All scopes, innermost first. -/
def scopes (f : OpenFunction) : List Scope := f.blocks ++ [f.outer]

/-- The innermost scope. -/
def current (f : OpenFunction) : Scope :=
  match f.blocks with
  | block :: _ => block
  | [] => f.outer

/-- Adds a symbol to the innermost scope. -/
def insert (f : OpenFunction) (x : Symbol) : OpenFunction :=
  match f.blocks with
  | block :: rest => { f with blocks := block.insert x :: rest }
  | [] => { f with outer := f.outer.insert x }

end OpenFunction

/-- A function whose body is complete. -/
structure ClosedFunction where
  name : String
  entry : Nat
  params : List Ty
  record : Record
  deriving DecidableEq, Repr

/-- The summary of a complete function. -/
def ClosedFunction.frame (f : ClosedFunction) : Frame :=
  { name := f.name, entry := f.entry, params := f.params, frameSize := f.record.frameSize,
    size := f.record.size }

/-- All names, and where the next storage goes. -/
structure SymbolTable where
  globals : Scope
  /-- The first address past the global data. -/
  dataEnd : Nat
  function : Option OpenFunction := none
  /-- Temporaries made so far. -/
  temporaries : Nat := 0
  deriving DecidableEq, Repr

/-- An operation on the table; changes made before it fails stay. -/
abbrev TableM (ε : Type) := EStateM ε SymbolTable

namespace SymbolTable

/-- The built-in function that prints an integer. -/
def output : Symbol :=
  { name := outputName, ty := .void, value := -1, args := some [.int], isFunction := true,
    isGlobal := true }

/-- The table at the start of a program. -/
def initial (dataBase : Word) : SymbolTable :=
  { globals := ⟨[output]⟩, dataEnd := dataBase.toNat }

/-- Name of the open function. -/
def functionName? (t : SymbolTable) : Option String := t.function.map (·.name)

/-- Number of open scopes, that of the parameters included. -/
def scopeDepth (t : SymbolTable) : Nat :=
  match t.function with
  | some f => f.scopes.length
  | none => 0

/-- The scopes in which a name is looked up, innermost first. -/
def scopes (t : SymbolTable) : List Scope :=
  match t.function with
  | some f => f.scopes ++ [t.globals]
  | none => [t.globals]

/-- The symbol a name stands for: that of the innermost scope that has one. -/
def find? (t : SymbolTable) (name : String) : Option Symbol :=
  t.scopes.findSome? (·.find? name)

/-- The function whose entry is at `value`. Only functions count, so that data whose address
    happens to equal an entry is not taken for one. -/
def functionAt? (t : SymbolTable) (value : Word) : Option Symbol :=
  t.scopes.findSome? (·.functionAt? value)

/-- The innermost scope. -/
def current (t : SymbolTable) : Scope :=
  match t.function with
  | some f => f.current
  | none => t.globals

/-- Adds a symbol to the innermost scope. -/
def insert (t : SymbolTable) (x : Symbol) : SymbolTable :=
  match t.function with
  | some f => { t with function := some (f.insert x) }
  | none => { t with globals := t.globals.insert x }

/-- A declaration of some words fits where the next storage goes. -/
def hasRoom (t : SymbolTable) (words : Nat) : Bool :=
  match t.function with
  | some f => f.record.fits words
  | none => (segmentEnd? t.dataEnd words declaredLimit).isSome

/-! ### Operations -/

/-- Raises a fault. -/
def orFault {α : Type} : Except Fault α → TableM Fault α
  | .ok a => pure a
  | .error fault => throw fault

/-- An operation whose faults are errors of the table. -/
def lift {α : Type} (operation : TableM Fault α) : TableM SymbolError α :=
  EStateM.adaptExcept .fault operation

/-- Takes storage: from the record of the open function, or else from the global data. Gives the
    offset or address, and whether it is global. -/
def allocate (words : Nat) : TableM Fault (Nat × Bool) := do
  let t ← get
  match t.function with
  | some f =>
    let (offset, record) ← orFault (f.record.allocate words)
    set { t with function := some { f with record } }
    return (offset, false)
  | none =>
    match segmentEnd? t.dataEnd words addressLimit with
    | some dataEnd =>
      set { t with dataEnd }
      return (t.dataEnd, true)
    | none => throw .dataSegmentFull

/-- Declares a name for some words of storage in the innermost scope. -/
def declare (name : String) (ty : Ty) (words : Nat) : TableM SymbolError Symbol := do
  let t ← get
  if t.current.contains name then throw (.duplicate name)
  if !t.hasRoom words then throw (.tooLarge name)
  let (address, isGlobal) ← lift (allocate words)
  let symbol ← lift (orFault (Symbol.storage name ty address isGlobal))
  modify (·.insert symbol)
  return symbol

/-- Lets a name stand for a placeholder after its declaration was rejected. -/
def declarePlaceholder (name : String) : TableM Fault Unit := modify (·.insert (.placeholder name))

/-- Opens a function. It is opened even if its name is taken; only then is the clash reported. -/
def openFunction (name : String) (ty : Ty) (entry : Nat) : TableM SymbolError Unit := do
  let t ← get
  match t.function with
  | some f => throw (.fault (.functionStillOpen name f.name))
  | none =>
    let duplicate := t.globals.contains name
    let symbol : Symbol :=
      { name, ty, value := BitVec.ofNat 32 entry, args := some [], isFunction := true,
        isGlobal := true }
    set { t with
      globals := if duplicate then t.globals else t.globals.insert symbol
      function := some { name, entry, registered := !duplicate } }
    if duplicate then throw (.duplicate name)

/-- Adds a parameter to the open function. It takes its place in the record even if its name
    clashes, since callers pass it there. -/
def addParameter (name : String) (ty : Ty) : TableM SymbolError Symbol := do
  let t ← get
  match t.function with
  | none => throw (.fault (.parameterOutside name))
  | some f =>
    if !f.blocks.isEmpty then throw (.fault (.parameterAfterBody name))
    let params := f.params ++ [ty]
    let globals :=
      if f.registered then t.globals.modify f.name fun x => { x with args := some params }
      else t.globals
    set { t with globals, function := some { f with params } }
    let (offset, record) ← lift (orFault (f.record.allocate 1))
    let f := { f with params, record }
    set { t with globals, function := some f }
    if f.outer.contains name then throw (.duplicate name)
    let symbol ← lift (orFault (Symbol.storage name ty offset false))
    set { t with globals, function := some { f with outer := f.outer.insert symbol } }
    return symbol

/-- Opens a block. -/
def openBlock : TableM Fault Unit := do
  let t ← get
  match t.function with
  | none => throw .scopeUpOutside
  | some f => set { t with function := some { f with blocks := {} :: f.blocks } }

/-- Closes the innermost block. -/
def closeBlock : TableM Fault Unit := do
  let t ← get
  match t.function with
  | none => throw .scopeDownOutside
  | some f =>
    match f.blocks with
    | [] => throw .scopeUnmatched
    | _ :: blocks => set { t with function := some { f with blocks } }

/-- A fresh word for an intermediate result, or for its address. Temporaries are never reused. -/
def newTemporary (indexed : Bool) : TableM Fault Symbol := do
  let (address, isGlobal) ← allocate 1
  let t ← get
  set { t with temporaries := t.temporaries + 1 }
  let ty := if indexed then .indexed else .int
  orFault (Symbol.storage s!"t{t.temporaries}" ty address isGlobal)

/-- Closes the open function. -/
def closeFunction : TableM Fault ClosedFunction := do
  let t ← get
  match t.function with
  | none => throw .endOutside
  | some f =>
    set { t with function := none }
    if !f.blocks.isEmpty then throw (.scopesUnclosed f.name f.blocks.length)
    let record ← orFault f.record.close
    return { name := f.name, entry := f.entry, params := f.params, record }

end SymbolTable

end OnePass
