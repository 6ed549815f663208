import OnePass.Fault
import OnePass.Layout.Basic

/-!
# The scratch pool

Cells for addresses that are computed on the way to an operand. They are handed out in order, each
once, and all come back together when the pool is cleared. -/

namespace OnePass

/-- The scratch cells of a layout and how many of them are taken. -/
structure ScratchPool where
  base : Word
  slots : Word
  used : Nat := 0
  deriving DecidableEq, Repr

namespace ScratchPool

/-- The pool of a layout, with nothing taken. -/
def ofLayout (l : Layout) : ScratchPool := { base := l.scratchBase, slots := l.scratchSlots }

/-- Gives all cells back. -/
def clear (p : ScratchPool) : ScratchPool := { p with used := 0 }

/-- The next free cell. -/
def take (p : ScratchPool) : Except Fault (Word × ScratchPool) :=
  if p.used < p.slots.toNat then
    .ok (p.base + BitVec.ofNat 32 (Word.size * p.used), { p with used := p.used + 1 })
  else .error (.scratchExhausted p.slots.toNat)

end ScratchPool

end OnePass
