import OnePass.Proofs.Safety.Shape

/-!
# The ledger of slots

The trace of a generator tells which position was written when, which was reserved and which was
filled later. A ledger is in order when the store is what the trace tells: each position was written
at most once, holds what was written there, and waits just as long as it is reserved and not yet
filled. Appending, reserving, and filling a slot that waits keep a ledger in order. -/

namespace OnePass

/-! ### What a trace tells of slots -/

namespace Event

/-- The position and the instruction of an event that writes to the store. -/
def write? : Event → Option (Nat × Instruction)
  | .emitted pc i | .filled pc i => some (pc, i)
  | _ => none

/-- The position of an event that reserves a slot. -/
def reservation? : Event → Option Nat
  | .reserved pc => some pc
  | _ => none

/-- The position of an event that fills a slot. -/
def patch? : Event → Option Nat
  | .filled pc _ => some pc
  | _ => none

/-- An event is not about the store. -/
def IsQuiet (e : Event) : Prop := e.write? = none ∧ e.reservation? = none ∧ e.patch? = none

end Event

namespace Generator

/-- All writes to the store so far, in order. -/
def writes (g : Generator) : List (Nat × Instruction) := g.trace.toList.filterMap Event.write?

/-- The positions of all slots reserved so far. -/
def reservations (g : Generator) : List Nat := g.trace.toList.filterMap Event.reservation?

/-- The positions of all slots filled so far. -/
def patches (g : Generator) : List Nat := g.trace.toList.filterMap Event.patch?

theorem filterMap_push {β : Type} (f : Event → Option β) (trace : Array Event) (e : Event) :
    (trace.push e).toList.filterMap f = trace.toList.filterMap f ++ (f e).toList := by
  rw [Array.toList_push, List.filterMap_append]
  cases h : f e with
  | none => rw [List.filterMap_cons_none h]; rfl
  | some b => rw [List.filterMap_cons_some h]; rfl

/-- A slot that was filled was written. -/
theorem exists_write_of_patch {g : Generator} {pc : Nat} (h : pc ∈ g.patches) :
    ∃ i, (pc, i) ∈ g.writes := by
  obtain ⟨e, he, hpc⟩ := List.mem_filterMap.mp h
  cases e with
  | filled pc' i =>
    obtain rfl := Option.some.inj hpc
    exact ⟨i, List.mem_filterMap.mpr ⟨_, he, rfl⟩⟩
  | _ => cases hpc

/-- The store is what the trace tells. -/
structure Ledger (g : Generator) : Prop where
  /-- A slot waits just if it is empty. -/
  pending : ∀ pc, pc ∈ g.code.pending ↔ g.code.slots[pc]? = some none
  distinct : g.code.pending.Nodup
  /-- No position is written twice. -/
  once : (g.writes.map (·.1)).Nodup
  written : ∀ pc i, (pc, i) ∈ g.writes ↔ g.code.get? pc = some i
  reserved : ∀ pc, pc ∈ g.code.pending ↔ pc ∈ g.reservations ∧ pc ∉ g.patches

namespace Ledger

theorem initial (layout : Layout) : (Generator.initial layout).Ledger where
  pending pc := by simp [Generator.initial]
  distinct := List.nodup_nil
  once := List.nodup_nil
  written pc i := by simp [Generator.initial, writes, Event.write?, Store.get?]
  reserved pc := by simp [Generator.initial, reservations, Event.reservation?]

variable {g g' : Generator}

/-- A ledger depends on the store and on what the trace tells of it. -/
theorem congr (h : g.Ledger) (hcode : g'.code = g.code) (hwrites : g'.writes = g.writes)
    (hreservations : g'.reservations = g.reservations) (hpatches : g'.patches = g.patches) :
    g'.Ledger where
  pending := hcode ▸ h.pending
  distinct := hcode ▸ h.distinct
  once := hwrites ▸ h.once
  written := hcode ▸ hwrites ▸ h.written
  reserved := hcode ▸ hreservations ▸ hpatches ▸ h.reserved

/-! ### Positions are those of the store -/

theorem lt_of_write (h : g.Ledger) {pc : Nat} {i : Instruction} (hw : (pc, i) ∈ g.writes) :
    pc < g.code.pc := by
  have hget := (h.written pc i).mp hw
  by_contra hge
  simp [Store.get?, Array.getElem?_eq_none (Nat.le_of_not_lt hge)] at hget

theorem lt_of_pending (h : g.Ledger) {pc : Nat} (hpc : pc ∈ g.code.pending) : pc < g.code.pc := by
  have hslot := (h.pending pc).mp hpc
  by_contra hge
  rw [Array.getElem?_eq_none (Nat.le_of_not_lt hge)] at hslot
  cases hslot

theorem notMem_patches (h : g.Ledger) : g.code.pc ∉ g.patches := by
  intro hpc
  obtain ⟨i, hw⟩ := exists_write_of_patch hpc
  exact Nat.lt_irrefl _ (h.lt_of_write hw)

theorem notMem_reservations (h : g.Ledger) : g.code.pc ∉ g.reservations := by
  intro hpc
  exact Nat.lt_irrefl _ (h.lt_of_pending ((h.reserved _).mpr ⟨hpc, h.notMem_patches⟩))

theorem notMem_writes (h : g.Ledger) {pc : Nat} (hget : g.code.get? pc = none) :
    pc ∉ g.writes.map (·.1) := by
  intro hpc
  obtain ⟨⟨pc', i⟩, hw, rfl⟩ := List.mem_map.mp hpc
  have hwritten := (h.written pc' i).mp hw
  simp only at hget
  rw [hget] at hwritten
  cases hwritten

theorem get?_of_pending (h : g.Ledger) {pc : Nat} (hpc : pc ∈ g.code.pending) :
    g.code.get? pc = none := by
  rw [Store.get?, (h.pending pc).mp hpc]
  rfl

/-! ### The three operations of the store -/

/-- Appending an instruction keeps a ledger in order. -/
theorem emit (h : g.Ledger) (i : Instruction) :
    { g with trace := g.trace.push (.emitted g.code.pc i), code := g.code.emit i }.Ledger where
  pending pc := by
    change pc ∈ g.code.pending ↔ (g.code.slots.push (some i))[pc]? = some none
    rw [h.pending, Array.getElem?_push]
    split
    · rename_i heq
      simp [heq]
    · exact Iff.rfl
  distinct := h.distinct
  once := by
    have hnew : g.code.pc ∉ g.writes.map (·.1) := fun hpc => by
      obtain ⟨⟨pc, j⟩, hw, hpc⟩ := List.mem_map.mp hpc
      exact Nat.lt_irrefl _ (hpc ▸ h.lt_of_write hw)
    rw [writes, filterMap_push, List.map_append]
    exact (List.perm_append_singleton _ _).nodup_iff.mpr (List.nodup_cons.mpr ⟨hnew, h.once⟩)
  written pc j := by
    have hnew : ∀ j, (g.code.pc, j) ∉ g.writes := fun j hw => Nat.lt_irrefl _ (h.lt_of_write hw)
    rw [Store.get?_emit]
    rw [writes, filterMap_push, List.mem_append, ← writes]
    by_cases hpc : pc = g.code.pc
    · subst hpc
      simp [Event.write?, hnew, eq_comm]
    · rw [if_neg hpc, ← h.written]
      simp [Event.write?, hpc]
  reserved pc := by
    change pc ∈ g.code.pending ↔ _
    rw [h.reserved]
    simp [reservations, patches, Event.reservation?, Event.patch?]

/-- Reserving a slot keeps a ledger in order. -/
theorem reserve (h : g.Ledger) :
    { g with code := g.code.reserve.2, trace := g.trace.push (.reserved g.code.pc) }.Ledger where
  pending pc := by
    change pc ∈ g.code.pending ++ [g.code.slots.size] ↔
      (g.code.slots.push none)[pc]? = some none
    rw [List.mem_append, h.pending, Array.getElem?_push]
    by_cases hpc : pc = g.code.slots.size <;> simp [hpc]
  distinct := by
    have hnew : g.code.pc ∉ g.code.pending := fun hpc => Nat.lt_irrefl _ (h.lt_of_pending hpc)
    exact (List.perm_append_singleton _ _).nodup_iff.mpr (List.nodup_cons.mpr ⟨hnew, h.distinct⟩)
  once := by
    rw [writes, filterMap_push, ← writes]
    simpa [Event.write?] using h.once
  written pc i := by
    rw [Store.get?_reserve, ← h.written, writes, filterMap_push]
    simp [Event.write?, writes]
  reserved pc := by
    change pc ∈ g.code.pending ++ [g.code.pc] ↔ _
    have hpatches := h.notMem_patches
    have hreserved := h.reserved pc
    simp only [reservations, patches, filterMap_push, List.mem_append] at hreserved hpatches ⊢
    by_cases hpc : pc = g.code.pc
    · subst hpc
      simp [Event.reservation?, Event.patch?, hpatches]
    · simp [Event.reservation?, Event.patch?, hpc, hreserved]

/-- Filling a slot that waits keeps a ledger in order. -/
theorem fill (h : g.Ledger) {hole : Hole} (hpc : hole.pc ∈ g.code.pending) (i : Instruction) :
    { g with trace := g.trace.push (.filled hole.pc i)
             code := { slots := g.code.slots.setIfInBounds hole.pc (some i)
                       pending := g.code.pending.erase hole.pc } }.Ledger where
  pending pc := by
    change pc ∈ g.code.pending.erase hole.pc ↔
      (g.code.slots.setIfInBounds hole.pc (some i))[pc]? = some none
    rw [h.distinct.mem_erase_iff, h.pending, Array.getElem?_setIfInBounds]
    by_cases heq : hole.pc = pc
    · simp [heq]
    · simp [heq, Ne.symm heq]
  distinct := h.distinct.erase _
  once := by
    have hnew := h.notMem_writes (h.get?_of_pending hpc)
    rw [writes, filterMap_push, List.map_append]
    exact (List.perm_append_singleton _ _).nodup_iff.mpr (List.nodup_cons.mpr ⟨hnew, h.once⟩)
  written pc j := by
    change _ ↔ (g.code.slots.setIfInBounds hole.pc (some i))[pc]?.join = some j
    have hold := h.written pc j
    have hempty := h.get?_of_pending hpc
    have hlt : hole.pc < g.code.slots.size := h.lt_of_pending hpc
    simp only [writes, filterMap_push, List.mem_append, Array.getElem?_setIfInBounds] at hold ⊢
    by_cases heq : hole.pc = pc
    · subst heq
      rw [hempty] at hold
      simp [Event.write?, hold, hlt, eq_comm]
    · simp [Event.write?, heq, Ne.symm heq, hold, Store.get?]
  reserved pc := by
    change pc ∈ g.code.pending.erase hole.pc ↔ _
    have hreserved := h.reserved pc
    rw [h.distinct.mem_erase_iff]
    simp only [reservations, patches, filterMap_push, List.mem_append] at hreserved ⊢
    by_cases heq : pc = hole.pc
    · simp [heq, Event.patch?]
    · simp [heq, hreserved, Event.reservation?, Event.patch?]

/-! ### Whole programs -/

/-- The code is whole just if every slot ever reserved was filled. -/
theorem instructions_iff (h : g.Ledger) :
    (∃ is, g.code.instructions = .ok is) ↔ ∀ pc ∈ g.reservations, pc ∈ g.patches := by
  constructor
  · rintro ⟨is, his⟩ pc hpc
    by_contra hpatch
    have hwaits := (h.reserved pc).mpr ⟨hpc, hpatch⟩
    rw [Store.instructions] at his
    cases hpending : g.code.pending with
    | nil =>
      rw [hpending] at hwaits
      cases hwaits
    | cons first rest =>
      rw [hpending] at his
      cases his
  · intro hall
    have hsound : g.code.Sound := fun pc hslot => (h.pending pc).mpr hslot
    have hnone : g.code.pending = [] := List.eq_nil_iff_forall_not_mem.mpr fun pc hpc =>
      ((h.reserved pc).mp hpc).2 (hall pc ((h.reserved pc).mp hpc).1)
    obtain ⟨is, his, -⟩ := hsound.instructions hnone
    exact ⟨is, his⟩

end Ledger

end Generator

end OnePass
