import Mathlib
import OnePass.Code.Store

/-!
# The code store

Instructions appended in a row, slots filled in a row, and what keeps a store sound: every empty
slot waits to be filled. A store in which nothing waits is a whole program. -/

namespace OnePass

namespace Store

/-! ### Instructions in a row -/

/-- Appends instructions in order. -/
def append (s : Store) (is : List Instruction) : Store := is.foldl emit s

@[simp] theorem append_nil (s : Store) : s.append [] = s := rfl

@[simp] theorem append_append (s : Store) (is js : List Instruction) :
    (s.append is).append js = s.append (is ++ js) := (List.foldl_append ..).symm

@[simp] theorem emit_append (s : Store) (is : List Instruction) (i : Instruction) :
    (s.append is).emit i = s.append (is ++ [i]) := append_append s is [i]

@[simp] theorem pending_append (s : Store) (is : List Instruction) :
    (s.append is).pending = s.pending := by
  induction is generalizing s with
  | nil => rfl
  | cons i is ih => exact ih (s.emit i)

@[simp] theorem pc_append (s : Store) (is : List Instruction) :
    (s.append is).pc = s.pc + is.length := by
  induction is generalizing s with
  | nil => rfl
  | cons i is ih =>
    rw [List.length_cons]
    have h := ih (s.emit i)
    rw [pc_emit] at h
    exact h.trans (by omega)

theorem slots_append (s : Store) (is : List Instruction) :
    (s.append is).slots.toList = s.slots.toList ++ is.map some := by
  induction is generalizing s with
  | nil => simp
  | cons i is ih =>
    have h := ih (s.emit i)
    rw [emit, Array.toList_push, List.append_assoc] at h
    exact h

/-- Appended instructions stand at the end, and what was there before stays. -/
theorem get?_append (s : Store) (is : List Instruction) (pc : Nat) :
    (s.append is).get? pc = if pc < s.pc then s.get? pc else is[pc - s.pc]? := by
  simp only [get?, ← Array.getElem?_toList, slots_append, List.getElem?_append, Array.length_toList,
    Store.pc]
  split
  · rfl
  · rw [List.getElem?_map]
    cases is[pc - s.slots.size]? <;> rfl

/-- A slot may be filled before instructions are appended as well as after that. -/
theorem fill_append {s : Store} (h : ∀ pc ∈ s.pending, pc < s.pc) (hole : Hole) (i : Instruction)
    (is : List Instruction) : (s.append is).fill hole i = (s.fill hole i).map (·.append is) := by
  rw [fill, fill, pending_append]
  split
  · rename_i hpending
    have hlt : hole.pc < s.slots.toList.length := by
      rw [Array.length_toList]
      exact h _ hpending
    rw [Except.map, Except.ok.injEq, Store.mk.injEq, pending_append]
    refine ⟨Array.toList_inj.mp ?_, rfl⟩
    rw [Array.toList_setIfInBounds, slots_append, slots_append, Array.toList_setIfInBounds,
      List.set_append_left _ _ hlt]
  · rfl

/-- Fills slots one after the other with the same instruction. -/
def fillAll (s : Store) (i : Instruction) : List Hole → Except Fault Store
  | [] => .ok s
  | hole :: holes => do (← s.fill hole i).fillAll i holes

theorem pc_fillAll {i : Instruction} : ∀ {holes : List Hole} {s t : Store},
    s.fillAll i holes = .ok t → t.pc = s.pc
  | [], _, _, h => by rw [Except.ok.inj h]
  | hole :: holes, s, _, h => by
    cases hfill : s.fill hole i with
    | error fault =>
      simp only [fillAll, bind, Except.bind, hfill] at h
      cases h
    | ok u =>
      simp only [fillAll, bind, Except.bind, hfill] at h
      rw [pc_fillAll h, pc_fill hfill]

/-- A slot that is filled holds the instruction, and the others stay as they are. -/
theorem get?_fill {s t : Store} {hole : Hole} {i : Instruction} (h : s.fill hole i = .ok t)
    (hlt : hole.pc < s.pc) (pc : Nat) :
    t.get? pc = if pc = hole.pc then some i else s.get? pc := by
  have hslot : hole.pc < s.slots.size := hlt
  unfold fill at h
  split at h
  · obtain rfl := Except.ok.inj h
    by_cases heq : pc = hole.pc
    · subst heq
      simp [get?, hslot]
    · rw [if_neg heq]
      simp [get?, Ne.symm heq]
  · cases h

/-- Slots that are filled all hold the instruction. -/
theorem get?_fillAll {i : Instruction} : ∀ {holes : List Hole} {s t : Store},
    s.fillAll i holes = .ok t → (∀ hole ∈ holes, hole.pc < s.pc) →
      (∀ pc, s.get? pc = some i → t.get? pc = some i) ∧ ∀ hole ∈ holes, t.get? hole.pc = some i
  | [], _, _, h, _ => by
    rw [Except.ok.inj h]
    exact ⟨fun _ hi => hi, nofun⟩
  | hole :: holes, s, _, h, hlt => by
    cases hfill : s.fill hole i with
    | error fault =>
      simp only [fillAll, bind, Except.bind, hfill] at h
      cases h
    | ok u =>
      simp only [fillAll, bind, Except.bind, hfill] at h
      have hfirst := get?_fill hfill (hlt hole (List.mem_cons_self ..))
      obtain ⟨hkept, hfilled⟩ := get?_fillAll h fun hole' hmem => by
        rw [pc_fill hfill]
        exact hlt hole' (List.mem_cons_of_mem _ hmem)
      refine ⟨fun pc hi => hkept pc ?_, fun hole' hmem => ?_⟩
      · rw [hfirst, hi, ite_self]
      · rcases List.mem_cons.mp hmem with rfl | hmem
        · exact hkept _ (by rw [hfirst, if_pos rfl])
        · exact hfilled hole' hmem

/-! ### Slots that wait -/

/-- Every empty slot waits to be filled. -/
def Sound (s : Store) : Prop := ∀ pc, s.slots[pc]? = some none → pc ∈ s.pending

theorem Sound.empty : Sound {} := by simp [Sound]

theorem Sound.emit {s : Store} (h : s.Sound) (i : Instruction) : (s.emit i).Sound := by
  intro pc hpc
  simp only [Store.emit, Array.getElem?_push] at hpc
  split at hpc
  · cases hpc
  · exact h pc hpc

theorem Sound.append {s : Store} (h : s.Sound) (is : List Instruction) : (s.append is).Sound := by
  induction is generalizing s with
  | nil => exact h
  | cons i is ih => exact ih (h.emit i)

theorem Sound.reserve {s : Store} (h : s.Sound) : s.reserve.2.Sound := by
  intro pc hpc
  simp only [Store.reserve, Array.getElem?_push] at hpc
  split at hpc
  · rename_i he
    simp [Store.reserve, Store.pc, he]
  · exact List.mem_append_left _ (h pc hpc)

/-- A reserved slot waits too. -/
theorem reserve_perm {s : Store} {waiting : List Nat} (h : waiting.Perm s.pending) :
    (s.pc :: waiting).Perm s.reserve.2.pending :=
  (List.Perm.cons s.pc h).trans (List.perm_append_singleton _ _).symm

/-- A slot that waits can be filled; the others go on waiting. -/
theorem fill_of_perm {s : Store} {hole : Hole} {waiting : List Nat} (i : Instruction)
    (hs : s.Sound) (h : (hole.pc :: waiting).Perm s.pending) :
    ∃ t, s.fill hole i = .ok t ∧ waiting.Perm t.pending ∧ t.Sound := by
  have hmem : hole.pc ∈ s.pending := h.subset (List.mem_cons_self ..)
  refine ⟨_, if_pos hmem, ?_, ?_⟩
  · exact List.Perm.cons_inv (h.trans (List.perm_cons_erase hmem))
  · intro pc hpc
    rw [Array.getElem?_setIfInBounds] at hpc
    split at hpc
    · rename_i he
      split at hpc <;> cases hpc
    · rename_i he
      exact (List.mem_erase_of_ne (Ne.symm he)).mpr (hs pc hpc)

theorem fillAll_of_perm {waiting : List Nat} (i : Instruction) : ∀ {holes : List Hole} {s : Store},
    s.Sound → (holes.map (·.pc) ++ waiting).Perm s.pending →
      ∃ t, s.fillAll i holes = .ok t ∧ waiting.Perm t.pending ∧ t.Sound
  | [], s, hs, h => ⟨s, rfl, h, hs⟩
  | hole :: holes, s, hs, h => by
    obtain ⟨t, hfill, hpending, ht⟩ := fill_of_perm i hs h
    obtain ⟨u, hall, hrest⟩ := fillAll_of_perm i ht hpending
    exact ⟨u, by simp only [fillAll, bind, Except.bind, hfill, hall], hrest⟩

/-- The instruction of a slot at a position, if it has one. -/
def slotInstruction : Option Instruction × Nat → Except Fault Instruction
  | (some i, _) => .ok i
  | (none, pc) => .error (.slotEmpty pc)

theorem mapM_slotInstruction : ∀ (slots : List (Option Instruction)) (pc : Nat),
    none ∉ slots → ∃ is, (slots.zipIdx pc).mapM slotInstruction = .ok is ∧ slots = is.map some
  | [], _, _ => ⟨[], rfl, rfl⟩
  | none :: slots, _, h => absurd (List.mem_cons_self ..) h
  | some i :: slots, pc, h => by
    obtain ⟨is, hmap, hslots⟩ := mapM_slotInstruction slots (pc + 1)
      (fun hmem => h (List.mem_cons_of_mem _ hmem))
    refine ⟨i :: is, ?_, by rw [hslots]; rfl⟩
    rw [List.zipIdx_cons, List.mapM_cons, hmap]
    rfl

/-- A sound store in which nothing waits holds a whole program. -/
theorem Sound.instructions {s : Store} (hs : s.Sound) (h : s.pending = []) :
    ∃ is, s.instructions = .ok is ∧ s.slots.toList = is.map some := by
  have hfull : none ∉ s.slots.toList := by
    intro hmem
    obtain ⟨pc, hpc⟩ := List.mem_iff_getElem?.mp hmem
    have hwaits := hs pc (by simpa using hpc)
    rw [h] at hwaits
    cases hwaits
  obtain ⟨is, hmap, hslots⟩ := mapM_slotInstruction s.slots.toList 0 hfull
  refine ⟨is, ?_, hslots⟩
  rw [Store.instructions, h]
  exact hmap

/-- What stands at a position of a sound store stands there in the program. -/
theorem Sound.getElem?_instructions {s : Store} (hs : s.Sound) {is : List Instruction}
    (h : s.instructions = .ok is) {pc : Nat} {i : Instruction} (hi : s.get? pc = some i) :
    is[pc]? = some i := by
  cases hpending : s.pending with
  | cons =>
    rw [Store.instructions, hpending] at h
    cases h
  | nil =>
    obtain ⟨js, hjs, hslots⟩ := hs.instructions hpending
    obtain rfl := Except.ok.inj (h.symm.trans hjs)
    rw [get?, ← Array.getElem?_toList, hslots, List.getElem?_map] at hi
    cases hpc : is[pc]? with
    | none =>
      rw [hpc] at hi
      cases hi
    | some j => rwa [hpc] at hi

/-- Code without slots is the program that was appended. -/
theorem instructions_append (is : List Instruction) :
    (({} : Store).append is).instructions = .ok is := by
  obtain ⟨js, hjs, hslots⟩ := (Sound.empty.append is).instructions (pending_append {} is)
  rw [slots_append] at hslots
  obtain rfl : is = js := (List.map_inj_right fun _ _ => Option.some.inj).mp hslots
  exact hjs

end Store

end OnePass
