import OnePass.Fault
import OnePass.Code.Instruction

/-!
# The code store

Instructions are appended as they are found. A forward jump is not known yet when its place comes
up: the store then reserves a slot, and hands out a `Hole` that is filled later, once. The slots
still waiting are kept in the order of their reservation. -/

namespace OnePass

/-- The right to fill one reserved slot. -/
structure Hole where
  pc : Nat
  deriving DecidableEq, Repr

/-- Code so far: one slot a position, and the positions that wait for an instruction. -/
structure Store where
  slots : Array (Option Instruction) := #[]
  pending : List Nat := []
  deriving Repr

namespace Store

/-- The position of the next slot. -/
def pc (s : Store) : Nat := s.slots.size

/-- Appends an instruction. -/
def emit (s : Store) (i : Instruction) : Store := { s with slots := s.slots.push (some i) }

/-- Appends a slot to be filled later. -/
def reserve (s : Store) : Hole × Store :=
  (⟨s.pc⟩, { slots := s.slots.push none, pending := s.pending ++ [s.pc] })

/-- Fills a slot that waits; a hole that does not belong to a waiting slot is refused. -/
def fill (s : Store) (hole : Hole) (i : Instruction) : Except Fault Store :=
  if hole.pc ∈ s.pending then
    .ok { slots := s.slots.setIfInBounds hole.pc (some i), pending := s.pending.erase hole.pc }
  else .error (.slotNotPending hole.pc)

/-- The instruction at a position, if there is one. -/
def get? (s : Store) (pc : Nat) : Option Instruction := s.slots[pc]?.join

/-- The whole code, once no slot waits. -/
def instructions (s : Store) : Except Fault (List Instruction) :=
  match s.pending with
  | pc :: _ => .error (.slotUnfilled pc)
  | [] => s.slots.toList.zipIdx.mapM fun
    | (some i, _) => .ok i
    | (none, pc) => .error (.slotEmpty pc)

/-! ### Positions and contents -/

@[simp] theorem pc_emit (s : Store) (i : Instruction) : (s.emit i).pc = s.pc + 1 := by
  simp [emit, pc]

@[simp] theorem pc_reserve (s : Store) : s.reserve.2.pc = s.pc + 1 := by
  simp [reserve, pc]

/-- Filling a slot moves nothing. -/
theorem pc_fill {s t : Store} {hole : Hole} {i : Instruction} (h : s.fill hole i = .ok t) :
    t.pc = s.pc := by
  unfold fill at h
  split at h
  · obtain rfl := Except.ok.inj h
    simp [pc]
  · cases h

/-- An appended instruction stands at the end, and what was there before stays. -/
theorem get?_emit (s : Store) (i : Instruction) (pc : Nat) :
    (s.emit i).get? pc = if pc = s.pc then some i else s.get? pc := by
  change (s.slots.push (some i))[pc]?.join = if pc = s.slots.size then some i else s.get? pc
  by_cases h : pc = s.slots.size <;> simp [Array.getElem?_push, h, get?]

/-- A reserved slot is empty, and what was there before stays. -/
theorem get?_reserve (s : Store) (pc : Nat) : s.reserve.2.get? pc = s.get? pc := by
  simp only [reserve, get?, Array.getElem?_push]
  split
  · rename_i h
    simp [h]
  · rfl

end Store

end OnePass
