import OnePass.Symbol.Table
import OnePass.Trace

/-!
# Requests to the symbol table

A request is an operation on the table together with what its outcome adds to the trace. -/

namespace OnePass

/-- An operation on the symbol table, and the events of its outcome. -/
structure Request (ε α : Type) where
  operation : TableM ε α
  events : Except ε α → List Event := fun _ => []

namespace Request

/-- The outcome of a request, the table after it, and its events. -/
def run {ε α : Type} (r : Request ε α) (t : SymbolTable) :
    Except ε α × SymbolTable × List Event :=
  match r.operation.run t with
  | .ok a t => (.ok a, t, r.events (.ok a))
  | .error e t => (.error e, t, r.events (.error e))

/-- An event for success only. -/
def onSuccess {ε α : Type} (event : α → Event) : Except ε α → List Event
  | .ok a => [event a]
  | .error _ => []

/-- Declares a name for some words of storage. -/
def declare (name : String) (ty : Ty) (words : Nat) : Request SymbolError Symbol :=
  ⟨SymbolTable.declare name ty words, onSuccess (.declared · words)⟩

/-- Lets a name stand for a placeholder. -/
def declarePlaceholder (name : String) : Request Fault Unit :=
  { operation := SymbolTable.declarePlaceholder name }

/-- Opens a function, also one whose name is taken. -/
def openFunction (name : String) (ty : Ty) (entry : Nat) : Request SymbolError Unit :=
  ⟨SymbolTable.openFunction name ty entry, fun
    | .error (.fault _) => []
    | _ => [.functionOpened name entry]⟩

/-- Adds a parameter to the open function. -/
def addParameter (name : String) (ty : Ty) : Request SymbolError Symbol :=
  ⟨SymbolTable.addParameter name ty, onSuccess .parameterAdded⟩

/-- Opens a block. -/
def openBlock : Request Fault Unit := { operation := SymbolTable.openBlock }

/-- Closes the innermost block. -/
def closeBlock : Request Fault Unit := { operation := SymbolTable.closeBlock }

/-- Makes a temporary. -/
def newTemporary (indexed : Bool) : Request Fault Symbol :=
  ⟨SymbolTable.newTemporary indexed, onSuccess .temporaryMade⟩

/-- Closes the open function. -/
def closeFunction : Request Fault ClosedFunction :=
  ⟨SymbolTable.closeFunction, onSuccess fun f => .functionClosed f.name f.record.frameSize⟩

end Request

end OnePass
