import OnePass.Proofs.Session.Ledger
import OnePass.Proofs.Symbol.Faults

/-!
# Slots change hands

An operation may take slots off the stack and hold them for a while, or reserve a slot that it has
not put anywhere yet. Such slots are loose. A state is linear when loose slots and the slots it
holds itself are all different and all wait. `Handles` says what an operation does with loose slots:
those it needs before, and those it leaves after. A fault in the middle drops what is loose; the
rest stays linear, and the fault is never that a slot does not wait. -/

namespace OnePass

/-- A fault says that a slot does not wait. -/
def Fault.IsSlot (fault : Fault) : Prop := ∃ pc, fault = .slotNotPending pc

/-- The symbol table knows of no slots. -/
theorem Fault.IsSlot.isForeign {fault : Fault} (h : fault.IsSlot) : fault.IsForeign := by
  obtain ⟨pc, rfl⟩ := h
  rfl

namespace Generator

/-- Loose slots and the slots of a state are different and wait, and the ledger is in order. -/
structure Linear (g : Generator) (loose : List Nat) : Prop where
  ledger : g.Ledger
  distinct : (loose ++ g.holes).Nodup
  waiting : ∀ pc ∈ loose ++ g.holes, pc ∈ g.code.pending

/-- What is written stays, and the scratch pool keeps its size. -/
structure Grows (g g' : Generator) : Prop where
  pool : g'.scratch.slots = g.scratch.slots
  written : ∀ pc i, g.code.get? pc = some i → g'.code.get? pc = some i

/-- Two states have the same slots. -/
structure Alike (g g' : Generator) : Prop where
  holes : g'.holes = g.holes
  pool : g'.scratch.slots = g.scratch.slots
  code : g'.code = g.code
  writes : g'.writes = g.writes
  reservations : g'.reservations = g.reservations
  patches : g'.patches = g.patches

theorem Grows.refl (g : Generator) : g.Grows g := ⟨rfl, fun _ _ h => h⟩

theorem Grows.trans {g g' g'' : Generator} (h : g.Grows g') (h' : g'.Grows g'') : g.Grows g'' :=
  ⟨h'.pool.trans h.pool, fun pc i hi => h'.written pc i (h.written pc i hi)⟩

theorem Alike.grows {g g' : Generator} (h : g.Alike g') : g.Grows g' :=
  ⟨h.pool, fun pc i hi => by rw [h.code]; exact hi⟩

/-- Slots may pass between a state and what is loose. -/
theorem Linear.move {g g' : Generator} {before after : List Nat} (hg : g.Linear before)
    (hledger : g'.Ledger) (hcode : g'.code = g.code)
    (hperm : (after ++ g'.holes).Perm (before ++ g.holes)) : g'.Linear after where
  ledger := hledger
  distinct := hperm.nodup_iff.mpr hg.distinct
  waiting pc hpc := by
    rw [hcode]
    exact hg.waiting pc (hperm.mem_iff.mp hpc)

theorem Linear.alike {g g' : Generator} {loose : List Nat} (hg : g.Linear loose)
    (h : g.Alike g') : g'.Linear loose :=
  hg.move (hg.ledger.congr h.code h.writes h.reservations h.patches) h.code
    (by rw [h.holes])

/-- Loose slots may be dropped. -/
theorem Linear.drop {g : Generator} {dropped loose : List Nat} (hg : g.Linear (dropped ++ loose)) :
    g.Linear loose where
  ledger := hg.ledger
  distinct := by
    have h := hg.distinct
    rw [List.append_assoc] at h
    exact (List.nodup_append.mp h).2.1
  waiting pc hpc := by
    refine hg.waiting pc ?_
    rw [List.append_assoc]
    exact List.mem_append_right _ hpc

theorem Linear.dropAll {g : Generator} {loose : List Nat} (hg : g.Linear loose) :
    g.Linear [] := by
  rw [← List.append_nil loose] at hg
  exact hg.drop

/-- A state without slots of its own and an empty store is linear. -/
theorem Linear.initial (layout : Layout) : (Generator.initial layout).Linear [] where
  ledger := .initial layout
  distinct := List.nodup_nil
  waiting pc hpc := by cases hpc

end Generator

namespace Gen

open Generator

variable {α β : Type}

/-- An outcome leaves a linear state with some slots loose, or else a fault that is not about a
    slot, with none. -/
def Lands (g : Generator) (after : α → List Nat) : EStateM.Result Fault Generator α → Prop
  | .ok a g' => g'.Linear (after a) ∧ g.Grows g'
  | .error fault g' => g'.Linear [] ∧ g.Grows g' ∧ ¬ fault.IsSlot

/-- An operation makes some loose slots of others, depending on its result. -/
def Handles (m : Gen α) (before : List Nat) (after : α → List Nat) : Prop :=
  ∀ g, g.Linear before → Lands g after (m g)

/-- An operation leaves loose slots alone. -/
def Steady (m : Gen α) : Prop := ∀ loose, Handles m loose fun _ => loose

/-! ### Composition -/

theorem Lands.trans {g g' : Generator} {after : α → List Nat}
    {r : EStateM.Result Fault Generator α} (h : g.Grows g') (hr : Lands g' after r) :
    Lands g after r := by
  cases r with
  | ok a g'' => exact ⟨hr.1, h.trans hr.2⟩
  | error fault g'' => exact ⟨hr.1, h.trans hr.2.1, hr.2.2⟩

theorem Handles.pure {a : α} {after : α → List Nat} : Handles (pure a) (after a) after :=
  fun g hg => ⟨hg, .refl g⟩

theorem Handles.throw {fault : Fault} {before : List Nat} {after : α → List Nat}
    (h : ¬ fault.IsSlot) : Handles (throw fault) before after :=
  fun g hg => ⟨hg.dropAll, .refl g, h⟩

theorem Handles.bind {m : Gen α} {k : α → Gen β} {before : List Nat} {mid : α → List Nat}
    {after : β → List Nat} (hm : Handles m before mid)
    (hk : ∀ a, Handles (k a) (mid a) after) : Handles (m >>= k) before after := by
  intro g hg
  have hlands := hm g hg
  simp only [Bind.bind, EStateM.bind]
  cases hr : m g with
  | ok a g' =>
    rw [hr] at hlands
    exact (hk a g' hlands.1).trans hlands.2
  | error fault g' =>
    rw [hr] at hlands
    exact hlands

/-- What comes after may depend on the state that is read. -/
theorem Handles.get {k : Generator → Gen β} {before : List Nat} {after : β → List Nat}
    (h : ∀ g, g.Linear before → Lands g after (k g g)) : Handles (get >>= k) before after := h

theorem Handles.read {k : Generator → Gen β} {before : List Nat} {after : β → List Nat}
    (h : ∀ g, Handles (k g) before after) : Handles (MonadState.get >>= k) before after :=
  fun g hg => h g g hg

theorem Handles.ite {c : Prop} [Decidable c] {m₁ m₂ : Gen α} {before : List Nat}
    {after : α → List Nat} (h₁ : Handles m₁ before after) (h₂ : Handles m₂ before after) :
    Handles (if c then m₁ else m₂) before after := by
  split
  · exact h₁
  · exact h₂

/-- A change of the state passes slots on. -/
theorem Handles.change {f : Generator → Generator} {k : Unit → Gen β} {g : Generator}
    {mid : List Nat} {after : β → List Nat} (hf : (f g).Linear mid) (hgrows : g.Grows (f g))
    (hk : Handles (k ()) mid after) : Lands g after ((modify f >>= k) g) :=
  (hk _ hf).trans hgrows

/-- The order of loose slots does not matter. -/
theorem Handles.perm {m : Gen α} {before before' : List Nat} {after : α → List Nat}
    (h : Handles m before after) (hperm : before.Perm before') : Handles m before' after :=
  fun g hg => h g (hg.move hg.ledger rfl (hperm.append_right _))

/-- Loose slots that nobody wants may be dropped. -/
theorem Handles.drop {m : Gen α} {before : List Nat} {dropped after : α → List Nat}
    (h : Handles m before fun a => dropped a ++ after a) : Handles m before after := by
  intro g hg
  have hlands := h g hg
  revert hlands
  cases m g with
  | ok a g' => exact fun ⟨hlinear, hgrows⟩ => ⟨hlinear.drop, hgrows⟩
  | error fault g' => exact id

namespace Steady

theorem pure {a : α} : Steady (pure a) := fun _ g hg => ⟨hg, .refl g⟩

theorem throw {fault : Fault} (h : ¬ fault.IsSlot) : Steady (throw fault : Gen α) :=
  fun _ => Handles.throw h

theorem bind {m : Gen α} {k : α → Gen β} (hm : Steady m) (hk : ∀ a, Steady (k a)) :
    Steady (m >>= k) := fun loose => (hm loose).bind fun a => hk a loose

theorem get {k : Generator → Gen β} (hk : ∀ g, Steady (k g)) : Steady (get >>= k) :=
  fun loose => Handles.read fun g => hk g loose

theorem ite {c : Prop} [Decidable c] {m₁ m₂ : Gen α} (h₁ : Steady m₁) (h₂ : Steady m₂) :
    Steady (if c then m₁ else m₂) := fun loose => (h₁ loose).ite (h₂ loose)

theorem forM {k : α → Gen Unit} (h : ∀ a, Steady (k a)) : ∀ as : List α, Steady (as.forM k)
  | [] => pure
  | a :: as => bind (h a) fun _ => forM h as

theorem change {f : Generator → Generator} (h : ∀ g : Generator, g.Alike (f g)) :
    Steady (modify f) := fun _ g hg => ⟨hg.alike (h g), (h g).grows⟩

end Steady

end Gen

end OnePass
