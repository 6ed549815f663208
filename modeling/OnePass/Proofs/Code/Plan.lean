import OnePass.Proofs.Code.Store

/-!
# Code under way

The code of a statement may hold jumps whose targets come up only after it: out of the innermost
loop, or to the end of the function. `Planned` is such code, and `Store.plan` appends it to a store.
Filling the slots of one kind of jump turns them into instructions and leaves the rest as it is. -/

namespace OnePass

/-- What stands at a position of code under way. -/
inductive Planned where
  | code (i : Instruction)
  /-- A jump out of the innermost loop. -/
  | leave
  /-- A jump to the end of the function. -/
  | back
  deriving DecidableEq, Repr

namespace Planned

/-- The contents of a slot for it. -/
def slot : Planned → Option Instruction
  | .code i => some i
  | _ => none

/-- Code in which all targets are known. -/
def plain (is : List Instruction) : List Planned := is.map .code

/-- The positions that wait, counted from one. -/
def waiting : Nat → List Planned → List Nat
  | _, [] => []
  | pc, p :: ps => (if p.slot.isNone then [pc] else []) ++ waiting (pc + 1) ps

/-- The slots of one kind of jump, counted from a position. -/
def holes (kind : Planned) : Nat → List Planned → List Hole
  | _, [] => []
  | pc, p :: ps => (if p = kind then [⟨pc⟩] else []) ++ holes kind (pc + 1) ps

/-- One kind of jump becomes an instruction. -/
def settle (kind : Planned) (i : Instruction) (p : Planned) : Planned :=
  if p = kind then .code i else p

theorem waiting_append (pc : Nat) (ps qs : List Planned) :
    waiting pc (ps ++ qs) = waiting pc ps ++ waiting (pc + ps.length) qs := by
  induction ps generalizing pc with
  | nil => rfl
  | cons p ps ih =>
    rw [List.cons_append, waiting, waiting, ih, List.append_assoc, List.length_cons,
      Nat.add_assoc pc 1, Nat.add_comm 1]

theorem holes_append (kind : Planned) (pc : Nat) (ps qs : List Planned) :
    holes kind pc (ps ++ qs) = holes kind pc ps ++ holes kind (pc + ps.length) qs := by
  induction ps generalizing pc with
  | nil => rfl
  | cons p ps ih =>
    rw [List.cons_append, holes, holes, ih, List.append_assoc, List.length_cons,
      Nat.add_assoc pc 1, Nat.add_comm 1]

theorem lt_of_mem_waiting {pc q : Nat} {ps : List Planned} (h : q ∈ waiting pc ps) :
    pc ≤ q ∧ q < pc + ps.length := by
  induction ps generalizing pc with
  | nil => cases h
  | cons p ps ih =>
    rw [waiting] at h
    rcases List.mem_append.mp h with h | h
    · split at h
      · obtain rfl := List.mem_singleton.mp h
        simp
      · cases h
    · have := ih h
      simp only [List.length_cons]
      omega

@[simp] theorem holes_leave_plain (pc : Nat) (is : List Instruction) :
    holes .leave pc (plain is) = [] := by
  induction is generalizing pc with
  | nil => rfl
  | cons i is ih => exact ih (pc + 1)

@[simp] theorem holes_back_plain (pc : Nat) (is : List Instruction) :
    holes .back pc (plain is) = [] := by
  induction is generalizing pc with
  | nil => rfl
  | cons i is ih => exact ih (pc + 1)

@[simp] theorem length_plain (is : List Instruction) : (plain is).length = is.length := by
  simp [plain]

theorem plain_append (is js : List Instruction) : plain (is ++ js) = plain is ++ plain js := by
  simp [plain]

theorem holes_eq_nil {kind : Planned} {ps : List Planned} (h : kind ∉ ps) (pc : Nat) :
    holes kind pc ps = [] := by
  induction ps generalizing pc with
  | nil => rfl
  | cons p ps ih =>
    have hp : p ≠ kind := fun hp => h (hp ▸ List.mem_cons_self ..)
    rw [holes, if_neg hp, ih fun hmem => h (List.mem_cons_of_mem _ hmem)]
    rfl

theorem plain_singleton (i : Instruction) : plain [i] = [.code i] := rfl

/-- No jump of a kind is left once they are settled. -/
theorem holes_settle_same {kind : Planned} (hkind : kind.slot = none) (i : Instruction) (pc : Nat)
    (ps : List Planned) : holes kind pc (ps.map (settle kind i)) = [] := by
  induction ps generalizing pc with
  | nil => rfl
  | cons p ps ih =>
    have hne : settle kind i p ≠ kind := by
      rw [settle]
      split
      · rintro rfl
        cases hkind
      · assumption
    rw [List.map_cons, holes, if_neg hne, ih]
    rfl

/-- Settling one kind of jump leaves another as it is. -/
theorem holes_settle_other {kind other : Planned} (hother : other.slot = none)
    (hne : other ≠ kind) (i : Instruction) (pc : Nat) (ps : List Planned) :
    holes other pc (ps.map (settle kind i)) = holes other pc ps := by
  induction ps generalizing pc with
  | nil => rfl
  | cons p ps ih =>
    have hsame : settle kind i p = other ↔ p = other := by
      rw [settle]
      split
      · rename_i hp
        subst hp
        constructor
        · rintro rfl
          cases hother
        · rintro rfl
          exact absurd rfl hne
      · exact Iff.rfl
    rw [List.map_cons, holes, holes, ih]
    simp only [hsame]

end Planned

namespace Store

open Planned

/-- Appends code under way. -/
def plan (s : Store) (ps : List Planned) : Store :=
  { slots := s.slots ++ (ps.map slot).toArray, pending := s.pending ++ waiting s.pc ps }

/-- Only positions of the store wait. -/
def Tidy (s : Store) : Prop := ∀ pc ∈ s.pending, pc < s.pc

@[simp] theorem pc_plan (s : Store) (ps : List Planned) : (s.plan ps).pc = s.pc + ps.length := by
  simp [plan, pc]

@[simp] theorem plan_nil (s : Store) : s.plan [] = s := by simp [plan, waiting]

@[simp] theorem plan_plan (s : Store) (ps qs : List Planned) :
    (s.plan ps).plan qs = s.plan (ps ++ qs) := by
  have hpc := pc_plan s ps
  rw [plan, hpc]
  simp [plan, waiting_append, Array.append_assoc]

theorem append_eq_plan (s : Store) (is : List Instruction) : s.append is = s.plan (plain is) := by
  induction is generalizing s with
  | nil => exact (plan_nil s).symm
  | cons i is ih =>
    have hemit : s.emit i = s.plan [.code i] := by
      simp [emit, plan, waiting, slot]
    have happend : s.append (i :: is) = (s.emit i).append is := rfl
    rw [happend, ih, hemit, plan_plan]
    rfl

theorem reserve_eq_plan (s : Store) {p : Planned} (hp : p.slot = none) :
    s.reserve.2 = s.plan [p] := by
  simp [reserve, plan, waiting, hp]

theorem Tidy.plan {s : Store} (h : s.Tidy) (ps : List Planned) : (s.plan ps).Tidy := by
  intro pc hpc
  rw [pc_plan]
  rcases List.mem_append.mp hpc with hpc | hpc
  · exact Nat.lt_of_lt_of_le (h pc hpc) (Nat.le_add_right ..)
  · exact (lt_of_mem_waiting hpc).2

/-! ### Filling -/

/-- A slot that was planned can be filled; nothing else changes. -/
theorem fill_plan {s : Store} (hs : s.Tidy) (ps : List Planned) {p : Planned}
    (qs : List Planned) (hp : p.slot = none) (i : Instruction) :
    (s.plan (ps ++ p :: qs)).fill ⟨s.pc + ps.length⟩ i = .ok (s.plan (ps ++ .code i :: qs)) := by
  have hwaiting : (s.plan (ps ++ p :: qs)).pending =
      (s.pending ++ waiting s.pc ps) ++ (s.pc + ps.length) :: waiting (s.pc + ps.length + 1) qs := by
    simp [plan, waiting_append, waiting, hp]
  have hbefore : s.pc + ps.length ∉ s.pending ++ waiting s.pc ps := by
    intro hmem
    rcases List.mem_append.mp hmem with hmem | hmem
    · have := hs _ hmem
      omega
    · have := (lt_of_mem_waiting hmem).2
      omega
  have hmem : s.pc + ps.length ∈ (s.plan (ps ++ p :: qs)).pending := by
    rw [hwaiting]
    simp
  rw [fill, if_pos hmem, hwaiting, List.erase_append_right _ hbefore, List.erase_cons_head]
  congr 1
  simp only [plan, waiting_append, waiting, List.map_append, List.map_cons, slot]
  congr 1
  · apply Array.ext'
    simp [List.set_append_right, pc]
  · simp

/-- All slots of a kind can be filled one after the other. -/
theorem fillAll_plan {s : Store} (hs : s.Tidy) {kind : Planned} (hkind : kind.slot = none)
    (i : Instruction) : ∀ ps qs : List Planned,
    (s.plan (ps ++ qs)).fillAll i (holes kind (s.pc + ps.length) qs) =
      .ok (s.plan (ps ++ qs.map (settle kind i)))
  | ps, [] => rfl
  | ps, q :: qs => by
    have ih := fillAll_plan hs hkind i (ps ++ [settle kind i q]) qs
    rw [List.append_assoc, List.append_assoc, List.length_append, ← Nat.add_assoc] at ih
    rw [holes, List.map_cons]
    by_cases hq : q = kind
    · have hfill := fill_plan hs ps qs (hq ▸ hkind : q.slot = none) i
      rw [settle, if_pos hq] at ih ⊢
      rw [if_pos hq, List.singleton_append, fillAll, hfill]
      exact ih
    · rw [settle, if_neg hq] at ih ⊢
      rw [if_neg hq, List.nil_append]
      exact ih

end Store

end OnePass
