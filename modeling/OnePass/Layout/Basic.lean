import OnePass.Layout.Segment

/-!
# Memory layouts

The target machine keeps its two pointers and the scratch pool in fixed cells below the global
data. A layout says where. It is sound when every cell is word aligned, the pool is not empty, and
pointers, pool and data do not overlap; `Layout.flaw?` names the first thing wrong. -/

namespace OnePass

/-- Where the machine keeps its pointers, the scratch pool and the global data. -/
structure Layout where
  framePointer : Word := 200
  stackPointer : Word := 204
  scratchBase : Word := 208
  scratchSlots : Word := 4
  dataBase : Word := 224
  deriving DecidableEq, Repr

namespace Layout

/-- The settings of a layout. -/
inductive Key where
  | framePointer | stackPointer | scratchBase | scratchSlots | dataBase
  deriving DecidableEq, Repr

/-- The name of a setting. -/
def Key.name : Key → String
  | .framePointer => "frame_pointer"
  | .stackPointer => "stack_pointer"
  | .scratchBase => "scratch_base"
  | .scratchSlots => "scratch_slots"
  | .dataBase => "data_base"

/-- All settings. -/
def Key.all : List Key := [.framePointer, .stackPointer, .scratchBase, .scratchSlots, .dataBase]

/-- The setting of a name. -/
def Key.ofName? (name : String) : Option Key := Key.all.find? (·.name == name)

/-- The value of a setting. -/
def get (l : Layout) : Key → Word
  | .framePointer => l.framePointer
  | .stackPointer => l.stackPointer
  | .scratchBase => l.scratchBase
  | .scratchSlots => l.scratchSlots
  | .dataBase => l.dataBase

/-- Gives a setting a new value. -/
def set (l : Layout) (key : Key) (value : Word) : Layout :=
  match key with
  | .framePointer => { l with framePointer := value }
  | .stackPointer => { l with stackPointer := value }
  | .scratchBase => { l with scratchBase := value }
  | .scratchSlots => { l with scratchSlots := value }
  | .dataBase => { l with dataBase := value }

/-- The first address past the scratch pool, or the last address if the pool reaches beyond it. -/
def scratchEnd (l : Layout) : Nat :=
  min (l.scratchBase.toNat + Word.size * l.scratchSlots.toNat) Word.addressMax

/-- What can be wrong with a layout. -/
inductive Flaw where
  | unaligned (key : Key) (address : Word)
  | noScratch
  | pointersShared
  | pointerOverlap (key : Key) (address : Word)
  | dataTooHigh (base : Word)
  | scratchOverlap (base : Word) (stop : Nat) (data : Word)
  deriving DecidableEq, Repr

/-- What a flaw says. -/
def Flaw.message : Flaw → String
  | .unaligned key address => s!"{key.name} ({Word.addressText address}) is not word aligned"
  | .noScratch => "scratch_slots must be at least 1"
  | .pointersShared => "frame_pointer and stack_pointer share a cell"
  | .pointerOverlap key address =>
    s!"{key.name} ({Word.addressText address}) overlaps the scratch pool or the data segment"
  | .dataTooHigh base =>
    s!"data_base ({Word.addressText base}) leaves no room for the data segment"
  | .scratchOverlap base stop data =>
    s!"scratch pool [{Word.addressText base}, {stop}) overlaps the data segment "
      ++ s!"at {Word.addressText data}"

/-- A cell is word aligned. -/
def aligned (address : Word) : Bool := address.toNat % Word.size == 0

/-- An address lies in the scratch pool or at or above the global data. -/
def occupied (l : Layout) (address : Word) : Bool :=
  (l.scratchBase.toNat ≤ address.toNat && address.toNat < l.scratchEnd)
    || l.dataBase.toNat ≤ address.toNat

/-- Every flaw with the test for it, in the order in which they are reported. -/
def tests (l : Layout) : List (Bool × Flaw) :=
  [(!aligned l.framePointer, .unaligned .framePointer l.framePointer),
   (!aligned l.stackPointer, .unaligned .stackPointer l.stackPointer),
   (!aligned l.scratchBase, .unaligned .scratchBase l.scratchBase),
   (!aligned l.dataBase, .unaligned .dataBase l.dataBase),
   (l.scratchSlots == 0, .noScratch),
   (l.framePointer == l.stackPointer, .pointersShared),
   (l.occupied l.framePointer, .pointerOverlap .framePointer l.framePointer),
   (l.occupied l.stackPointer, .pointerOverlap .stackPointer l.stackPointer),
   (declaredLimit ≤ l.dataBase.toNat, .dataTooHigh l.dataBase),
   (l.dataBase.toNat < l.scratchEnd, .scratchOverlap l.scratchBase l.scratchEnd l.dataBase)]

/-- The first flaw of a layout, if it has one. -/
def flaw? (l : Layout) : Option Flaw := (l.tests.find? (·.1)).map (·.2)

/-- Accepts a layout without flaws. -/
def check (l : Layout) : Except Flaw Layout :=
  match l.flaw? with
  | some flaw => .error flaw
  | none => .ok l

end Layout

end OnePass
