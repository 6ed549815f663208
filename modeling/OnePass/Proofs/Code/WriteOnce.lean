import OnePass.Proofs.Session.Ledger

/-!
# Slots are written once

Several stores may be in use at a time, and a hole may be filled in a store that did not hand it
out. Whatever is called on them, each store stays in order: its positions are allocated one after
the other, its empty slots are those that wait, in the order of their reservation, and what is
written never changes. A hole from elsewhere is refused unless its position happens to wait. -/

namespace OnePass

/-! ### Calls -/

/-- A call of an operation of a store. The hole may come from anywhere. -/
inductive StoreCall where
  | emit (i : Instruction)
  | reserve
  | fill (hole : Hole) (i : Instruction)
  deriving DecidableEq, Repr

namespace StoreCall

/-- The store after a call; a call that is refused leaves it as it is. -/
def after (c : StoreCall) (s : Store) : Store :=
  match c with
  | .emit i => s.emit i
  | .reserve => s.reserve.2
  | .fill hole i =>
    match s.fill hole i with
    | .ok t => t
    | .error _ => s

/-- What a call does, unless it is refused. -/
def event? (c : StoreCall) (s : Store) : Option Event :=
  match c with
  | .emit i => some (.emitted s.pc i)
  | .reserve => some (.reserved s.reserve.1.pc)
  | .fill hole i =>
    match s.fill hole i with
    | .ok _ => some (.filled hole.pc i)
    | .error _ => none

end StoreCall

/-- The position of an event that allocates a slot. -/
def Event.allocation? : Event → Option Nat
  | .emitted pc _ | .reserved pc => some pc
  | _ => none

/-- A store and what was done to it. -/
structure StoreSession where
  store : Store := {}
  trace : Array Event := #[]

namespace StoreSession

def call (s : StoreSession) (c : StoreCall) : StoreSession where
  store := c.after s.store
  trace := s.trace ++ (c.event? s.store).toArray

/-- All writes to the store, in order. -/
def writes (s : StoreSession) : List (Nat × Instruction) := s.trace.toList.filterMap Event.write?

/-- The positions of all slots that were reserved, in order. -/
def reservations (s : StoreSession) : List Nat := s.trace.toList.filterMap Event.reservation?

/-- The positions of all slots that were allocated, in order. -/
def allocations (s : StoreSession) : List Nat := s.trace.toList.filterMap Event.allocation?

/-- A generator that has this store and this trace. Its ledger is that of the session. -/
def generator (s : StoreSession) : Generator :=
  { Generator.initial {} with code := s.store, trace := s.trace }

theorem filterMap_call {β : Type} (f : Event → Option β) (s : StoreSession) (c : StoreCall) :
    (s.call c).trace.toList.filterMap f =
      s.trace.toList.filterMap f ++ ((c.event? s.store).bind f).toList := by
  rw [call, Array.toList_append, List.filterMap_append]
  cases c.event? s.store with
  | none => rfl
  | some e => cases h : f e <;> simp [h]

/-! ### What a call keeps -/

/-- The store is what the trace tells, with its slots in order. -/
structure Sound (s : StoreSession) : Prop where
  ledger : s.generator.Ledger
  allocations : s.allocations = List.range s.store.pc
  pending : s.store.pending = s.reservations.filter fun pc => (s.store.get? pc).isNone

variable {s : StoreSession}

theorem Sound.empty : ({} : StoreSession).Sound where
  ledger := (Generator.Ledger.initial {}).congr rfl rfl rfl rfl
  allocations := rfl
  pending := rfl

/-- Appending an instruction fills no slot that was reserved. -/
theorem Sound.emit (h : s.Sound) (i : Instruction) : (s.call (.emit i)).Sound where
  ledger := h.ledger.emit i
  allocations := by
    rw [StoreSession.allocations, filterMap_call, ← StoreSession.allocations, h.allocations]
    exact (List.range_succ ..).symm.trans (congrArg List.range (Store.pc_emit ..).symm)
  pending := by
    have hnew : s.store.pc ∉ s.reservations := h.ledger.notMem_reservations
    rw [reservations, filterMap_call]
    change s.store.pending = (s.reservations ++ []).filter
      fun pc => ((s.store.emit i).get? pc).isNone
    rw [h.pending, List.append_nil]
    refine List.filter_congr fun pc hpc => ?_
    have hne : pc ≠ s.store.pc := by
      rintro rfl
      exact hnew hpc
    rw [Store.get?_emit, if_neg hne]

/-- A slot that is reserved waits behind those that wait. -/
theorem Sound.reserve (h : s.Sound) : (s.call .reserve).Sound where
  ledger := h.ledger.reserve
  allocations := by
    rw [StoreSession.allocations, filterMap_call, ← StoreSession.allocations, h.allocations]
    exact (List.range_succ ..).symm.trans (congrArg List.range (Store.pc_reserve ..).symm)
  pending := by
    have hempty : s.store.get? s.store.pc = none := by
      rw [Store.get?, Store.pc, Array.getElem?_size]
      rfl
    rw [reservations, filterMap_call]
    change s.store.pending ++ [s.store.pc] = (s.reservations ++ [s.store.pc]).filter
      fun pc => (s.store.reserve.2.get? pc).isNone
    simp only [Store.get?_reserve, List.filter_append, ← h.pending]
    rw [List.filter_cons_of_pos (by rw [hempty]; rfl), List.filter_nil]

/-- What filling a slot comes to. -/
theorem Sound.fill_eq (h : s.Sound) {hole : Hole} (hpc : hole.pc ∈ s.store.pending)
    (i : Instruction) : ∃ t, s.store.fill hole i = .ok t ∧
      (∀ pc, t.slots[pc]? = if pc = hole.pc then some (some i) else s.store.slots[pc]?) ∧
      t.pending = s.store.pending.filter (· ≠ hole.pc) := by
  have hlt : hole.pc < s.store.slots.size := h.ledger.lt_of_pending hpc
  refine ⟨_, if_pos hpc, fun pc => ?_, ?_⟩
  · rw [Array.getElem?_setIfInBounds]
    by_cases heq : pc = hole.pc
    · subst heq
      rw [if_pos rfl, if_pos hlt, if_pos rfl]
    · rw [if_neg (Ne.symm heq), if_neg heq]
  · have hnodup : s.store.pending.Nodup := h.ledger.distinct
    rw [hnodup.erase_eq_filter]
    refine List.filter_congr fun pc _ => ?_
    by_cases heq : pc = hole.pc <;> simp [heq]

/-- A call that is refused changes nothing. -/
theorem call_of_refused {hole : Hole} {i : Instruction} {fault : Fault}
    (hfill : s.store.fill hole i = .error fault) : s.call (.fill hole i) = s := by
  rw [call]
  simp [StoreCall.after, StoreCall.event?, hfill]

/-- Filling a slot that waits takes it out of the row and leaves the others in it. -/
theorem Sound.fill (h : s.Sound) (hole : Hole) (i : Instruction) :
    (s.call (.fill hole i)).Sound := by
  by_cases hpc : hole.pc ∈ s.store.pending
  · obtain ⟨t, hfill, -, hpending⟩ := h.fill_eq hpc i
    have hlt : hole.pc < s.store.pc := h.ledger.lt_of_pending hpc
    have hstore : (s.call (.fill hole i)).store = t := by
      rw [call]
      simp only [StoreCall.after, hfill]
    have hevent : (StoreCall.fill hole i).event? s.store = some (.filled hole.pc i) := by
      rw [StoreCall.event?, hfill]
    refine ⟨?_, ?_, ?_⟩
    · rw [generator, hstore, call, hevent]
      obtain rfl := Except.ok.inj (hfill.symm.trans (if_pos hpc))
      exact h.ledger.fill hpc i
    · rw [StoreSession.allocations, filterMap_call, hevent, ← StoreSession.allocations,
        h.allocations, hstore, Store.pc_fill hfill]
      exact List.append_nil _
    · rw [hstore, hpending, reservations, filterMap_call, hevent, h.pending, List.filter_filter]
      change _ = (s.reservations ++ []).filter _
      rw [List.append_nil]
      refine List.filter_congr fun pc _ => ?_
      rw [Store.get?_fill hfill hlt]
      by_cases heq : pc = hole.pc <;> simp [heq]
  · rwa [call_of_refused (if_neg hpc)]

/-- Whatever is called, a session stays sound. -/
theorem Sound.call (h : s.Sound) (c : StoreCall) : (s.call c).Sound := by
  cases c with
  | emit i => exact h.emit i
  | reserve => exact h.reserve
  | fill hole i => exact h.fill hole i

/-- A call changes nothing that is written. -/
theorem Sound.get?_call (h : s.Sound) (c : StoreCall) {pc : Nat} {i : Instruction}
    (hi : s.store.get? pc = some i) : (s.call c).store.get? pc = some i := by
  have hwrite : (pc, i) ∈ s.writes := (h.ledger.written pc i).mpr hi
  refine ((h.call c).ledger.written pc i).mp ?_
  change (pc, i) ∈ (s.call c).trace.toList.filterMap Event.write?
  rw [filterMap_call]
  exact List.mem_append_left _ hwrite

/-- The program of a store in which nothing waits is what was written. -/
theorem Sound.instructions (h : s.Sound) (hpending : s.store.pending = []) :
    ∃ is, s.store.instructions = .ok is ∧ is.length = s.store.pc ∧
      ∀ pc i, is[pc]? = some i ↔ (pc, i) ∈ s.writes := by
  have hsound : s.store.Sound := fun pc hslot => (h.ledger.pending pc).mpr hslot
  obtain ⟨is, his, hslots⟩ := hsound.instructions hpending
  refine ⟨is, his, ?_, fun pc i => ?_⟩
  · have hlength := congrArg List.length hslots
    rw [Array.length_toList, List.length_map] at hlength
    exact hlength.symm
  · refine Iff.trans ?_ (h.ledger.written pc i).symm
    change _ ↔ s.store.slots[pc]?.join = some i
    rw [← Array.getElem?_toList, hslots, List.getElem?_map]
    cases is[pc]? <;> simp

end StoreSession

/-! ### Several stores -/

namespace Stores

variable {ι : Type} [DecidableEq ι]

/-- A call on one of several stores. -/
def call (ss : ι → StoreSession) (c : ι × StoreCall) : ι → StoreSession :=
  Function.update ss c.1 ((ss c.1).call c.2)

/-- Calls on several stores, all of them empty at first. -/
def run (calls : List (ι × StoreCall)) : ι → StoreSession := calls.foldl call fun _ => {}

theorem run_concat (calls : List (ι × StoreCall)) (c : ι × StoreCall) :
    run (calls ++ [c]) = call (run calls) c := by
  rw [run, List.foldl_append]
  rfl

theorem run_concat_self (calls : List (ι × StoreCall)) (k : ι) (c : StoreCall) :
    run (calls ++ [(k, c)]) k = (run calls k).call c := by
  rw [run_concat, call, Function.update_self]

/-- A call leaves the other stores alone. -/
theorem run_concat_of_ne (calls : List (ι × StoreCall)) {j k : ι} (hne : j ≠ k) (c : StoreCall) :
    run (calls ++ [(k, c)]) j = run calls j := by
  rw [run_concat, call, Function.update_of_ne hne]

/-- What calls on one store keep, calls on several keep of each. -/
theorem forall_run {P : StoreSession → Prop} (hempty : P {}) (hcall : ∀ s c, P s → P (s.call c))
    (calls : List (ι × StoreCall)) (k : ι) : P (run calls k) := by
  induction calls using List.reverseRecOn with
  | nil => exact hempty
  | append_singleton calls c ih =>
    obtain ⟨j, c⟩ := c
    by_cases hjk : k = j
    · subst hjk
      rw [run_concat_self]
      exact hcall _ c ih
    · rw [run_concat_of_ne calls hjk]
      exact ih

theorem sound_run (calls : List (ι × StoreCall)) (k : ι) : (run calls k).Sound :=
  forall_run .empty (fun _ c h => h.call c) calls k

/-- What is written stays, whatever is called after it. -/
theorem get?_run_append {calls : List (ι × StoreCall)} {k : ι} {pc : Nat} {i : Instruction}
    (hi : (run calls k).store.get? pc = some i) (more : List (ι × StoreCall)) :
    (run (calls ++ more) k).store.get? pc = some i := by
  induction more using List.reverseRecOn with
  | nil => rwa [List.append_nil]
  | append_singleton more c ih =>
    obtain ⟨j, c⟩ := c
    rw [← List.append_assoc]
    by_cases hjk : k = j
    · subst hjk
      rw [run_concat_self]
      exact (sound_run _ k).get?_call c ih
    · rwa [run_concat_of_ne _ hjk]

end Stores

/-- Let any calls be made on any number of stores, with holes from anywhere. Then in each store: as
    many slots are there as were appended or reserved, and they were allocated one after the other.
    The empty slots are those that wait, in the order in which they were reserved. A slot is filled
    just if it waits, which writes it and takes it out of the row and changes nothing else, in this
    store or another; if it is refused, nothing changes at all. What is written stays, and no
    position is written twice. The program is whole just if nothing waits, and is then what was
    written; otherwise the slot is reported that was reserved first. -/
theorem stores_write_once {ι : Type} [DecidableEq ι] (calls : List (ι × StoreCall)) (k : ι) :
    let s := Stores.run calls k
    (s.store.slots.size = s.store.pc ∧ s.allocations = List.range s.store.pc) ∧
    (∀ pc, s.store.slots[pc]? = some none ↔ pc ∈ s.store.pending) ∧
    s.store.pending = s.reservations.filter (fun pc => (s.store.get? pc).isNone) ∧
    (∀ hole i, hole.pc ∈ s.store.pending →
      ∃ t, s.store.fill hole i = .ok t ∧
        (Stores.run (calls ++ [(k, .fill hole i)]) k).store = t ∧
        (∀ pc, t.slots[pc]? = if pc = hole.pc then some (some i) else s.store.slots[pc]?) ∧
        t.pending = s.store.pending.filter (· ≠ hole.pc)) ∧
    (∀ hole i, hole.pc ∉ s.store.pending →
      s.store.fill hole i = .error (.slotNotPending hole.pc) ∧
        Stores.run (calls ++ [(k, .fill hole i)]) = Stores.run calls) ∧
    (∀ c j, j ≠ k → Stores.run (calls ++ [(k, c)]) j = Stores.run calls j) ∧
    ((s.writes.map (·.1)).Nodup ∧ ∀ more pc i, s.store.get? pc = some i →
      (Stores.run (calls ++ more) k).store.get? pc = some i) ∧
    (s.store.pending = [] → ∃ is, s.store.instructions = .ok is ∧ is.length = s.store.pc ∧
      ∀ pc i, is[pc]? = some i ↔ (pc, i) ∈ s.writes) ∧
    ∀ pc rest, s.store.pending = pc :: rest →
      s.store.instructions = .error (.slotUnfilled pc) := by
  intro s
  have hsound : s.Sound := Stores.sound_run calls k
  refine ⟨⟨rfl, hsound.allocations⟩, fun pc => (hsound.ledger.pending pc).symm, hsound.pending,
    fun hole i hpc => ?_, fun hole i hpc => ?_, fun c j hne => Stores.run_concat_of_ne calls hne c,
    ⟨hsound.ledger.once, fun more pc i hi => Stores.get?_run_append hi more⟩, hsound.instructions,
    fun pc rest hpending => ?_⟩
  · obtain ⟨t, hfill, hslots, hpending⟩ := hsound.fill_eq hpc i
    refine ⟨t, hfill, ?_, hslots, hpending⟩
    rw [Stores.run_concat_self, StoreSession.call]
    simp only [StoreCall.after, s, hfill]
  · have hfill : s.store.fill hole i = .error (.slotNotPending hole.pc) := if_neg hpc
    refine ⟨hfill, ?_⟩
    rw [Stores.run_concat, Stores.call, StoreSession.call_of_refused hfill, Function.update_eq_self]
  · rw [Store.instructions, hpending]

end OnePass
