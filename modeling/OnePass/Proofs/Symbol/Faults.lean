import Mathlib
import OnePass.Generator.Apply

/-!
# Faults of the symbol table

A request to the symbol table fails over names, scopes and storage only. What else can go wrong, with
slots and scratch cells for instance, it never reports. -/

namespace OnePass

/-- The fault is about names, scopes or storage. -/
def Fault.isTable : Fault → Bool
  | .addressOutOfRange .. | .dataSegmentFull | .recordFull | .recordClosed | .recordClosedTwice
  | .functionStillOpen .. | .parameterOutside _ | .parameterAfterBody _ | .scopeUpOutside
  | .scopeDownOutside | .scopeUnmatched | .endOutside | .scopesUnclosed .. => true
  | _ => false

/-- The fault is about something else. -/
def Fault.IsForeign (fault : Fault) : Prop := fault.isTable = false

/-- An operation on the table never fails in a way that `blames` names. -/
def TableM.Spares {ε α : Type} (blames : ε → Prop) (m : TableM ε α) : Prop :=
  ∀ t e t', m t = .error e t' → ¬ blames e

/-- A rejection is a fault that is not about the table. -/
def SymbolError.IsForeign (e : SymbolError) : Prop := ∃ fault, e = .fault fault ∧ fault.IsForeign

namespace TableM.Spares

variable {ε α β : Type} {blames : ε → Prop}

theorem run {r : Request ε α} (h : Spares blames r.operation) {t : SymbolTable} {e : ε}
    (he : (r.run t).1 = .error e) : ¬ blames e := by
  simp only [Request.run, EStateM.run] at he
  cases hr : r.operation t with
  | ok a t' =>
    rw [hr] at he
    cases he
  | error e' t' =>
    rw [hr] at he
    obtain rfl := Except.error.inj he
    exact h _ _ _ hr

theorem pure {a : α} : Spares blames (pure a) := by
  rintro t e t' ⟨⟩

theorem throw {e : ε} (h : ¬ blames e) : Spares blames (throw e : TableM ε α) := by
  rintro t _ t' ⟨⟩
  exact h

theorem bind {m : TableM ε α} {k : α → TableM ε β} (hm : Spares blames m)
    (hk : ∀ a, Spares blames (k a)) : Spares blames (m >>= k) := by
  intro t e t' h
  simp only [Bind.bind, EStateM.bind] at h
  split at h
  · rename_i a t₁ h₁
    exact hk a _ _ _ h
  · rename_i e₁ t₁ h₁
    cases h
    exact hm _ _ _ h₁

/-- Nothing comes after a failure. -/
theorem throw_bind {e : ε} {k : α → TableM ε β} (h : ¬ blames e) :
    Spares blames (MonadExcept.throw e >>= k) := by
  rintro t _ t' ⟨⟩
  exact h

theorem get {k : SymbolTable → TableM ε β} (hk : ∀ t, Spares blames (k t)) :
    Spares blames (get >>= k) := bind (by rintro t e t' ⟨⟩) hk

theorem set {t : SymbolTable} : Spares blames (set t : TableM ε PUnit) := by
  rintro t e t' ⟨⟩

theorem modify {f : SymbolTable → SymbolTable} : Spares blames (modify f : TableM ε PUnit) := by
  rintro t e t' ⟨⟩

theorem ite {c : Prop} [Decidable c] {m₁ m₂ : TableM ε α} (h₁ : Spares blames m₁)
    (h₂ : Spares blames m₂) : Spares blames (if c then m₁ else m₂) := by
  split
  · exact h₁
  · exact h₂

theorem lift {m : TableM Fault α} (h : Spares Fault.IsForeign m) :
    Spares SymbolError.IsForeign (SymbolTable.lift m) := by
  intro t e t' he
  simp only [SymbolTable.lift, EStateM.adaptExcept] at he
  split at he
  · rename_i fault t₁ h₁
    cases he
    rintro ⟨_, ⟨⟩, hforeign⟩
    exact h _ _ _ h₁ hforeign
  · cases he

theorem orFault {a : Except Fault α} (h : ∀ fault, a = .error fault → ¬ fault.IsForeign) :
    Spares Fault.IsForeign (SymbolTable.orFault a) := by
  cases a with
  | ok a => exact pure
  | error fault => exact throw (h fault rfl)

theorem recordAllocate (r : Record) (words : Nat) :
    Spares Fault.IsForeign (SymbolTable.orFault (r.allocate words)) := by
  refine orFault fun fault h => ?_
  rw [Record.allocate] at h
  split at h
  · cases h
    rintro ⟨_, ⟨⟩⟩
  · split at h
    · cases h
    · cases h
      rintro ⟨_, ⟨⟩⟩

theorem storage (name : String) (ty : Ty) (address : Nat) (isGlobal : Bool) :
    Spares Fault.IsForeign (SymbolTable.orFault (Symbol.storage name ty address isGlobal)) := by
  refine orFault fun fault h => ?_
  rw [Symbol.storage] at h
  split at h
  · cases h
  · cases h
    rintro ⟨_, ⟨⟩⟩

theorem allocate (words : Nat) : Spares Fault.IsForeign (SymbolTable.allocate words) := by
  refine get fun t => ?_
  split
  · exact bind (recordAllocate _ _) fun _ => bind set fun _ => pure
  · split
    · exact bind set fun _ => pure
    · exact throw nofun

theorem declare (name : String) (ty : Ty) (words : Nat) :
    Spares SymbolError.IsForeign (SymbolTable.declare name ty words) :=
  get fun _ => ite (throw_bind (by rintro ⟨_, ⟨⟩, _⟩)) <|
    ite (throw_bind (by rintro ⟨_, ⟨⟩, _⟩)) <| bind (lift (allocate words)) fun _ =>
    bind (lift (storage _ _ _ _)) fun _ => bind modify fun _ => pure

theorem openFunction (name : String) (ty : Ty) (entry : Nat) :
    Spares SymbolError.IsForeign (SymbolTable.openFunction name ty entry) := by
  refine get fun t => ?_
  split
  · exact throw (by rintro ⟨_, ⟨⟩, ⟨_, ⟨⟩⟩⟩)
  · exact bind set fun _ => ite (throw (by rintro ⟨_, ⟨⟩, _⟩)) pure

theorem addParameter (name : String) (ty : Ty) :
    Spares SymbolError.IsForeign (SymbolTable.addParameter name ty) := by
  refine get fun t => ?_
  split
  · exact throw (by rintro ⟨_, ⟨⟩, ⟨_, ⟨⟩⟩⟩)
  · exact ite (throw_bind (by rintro ⟨_, ⟨⟩, ⟨_, ⟨⟩⟩⟩)) <| bind set fun _ =>
      bind (lift (recordAllocate _ _)) fun _ => bind set fun _ =>
      ite (throw_bind (by rintro ⟨_, ⟨⟩, _⟩)) <| bind (lift (storage _ _ _ _)) fun _ =>
      bind set fun _ => pure

theorem openBlock : Spares Fault.IsForeign SymbolTable.openBlock := by
  refine get fun t => ?_
  split
  · exact throw nofun
  · exact set

theorem closeBlock : Spares Fault.IsForeign SymbolTable.closeBlock := by
  refine get fun t => ?_
  split
  · exact throw nofun
  · split
    · exact throw nofun
    · exact set

theorem newTemporary (indexed : Bool) : Spares Fault.IsForeign (SymbolTable.newTemporary indexed) :=
  bind (allocate 1) fun _ => get fun _ => bind set fun _ => storage _ _ _ _

theorem closeFunction : Spares Fault.IsForeign SymbolTable.closeFunction := by
  refine get fun t => ?_
  split
  · exact throw nofun
  · rename_i f hf
    have hclose : Spares Fault.IsForeign (SymbolTable.orFault f.record.close) := by
      refine orFault fun fault h => ?_
      rw [Record.close] at h
      split at h
      · cases h
        rintro ⟨_, ⟨⟩⟩
      · cases h
    exact bind set fun _ => ite (throw_bind nofun) <| bind hclose fun _ => pure

end TableM.Spares

end OnePass
