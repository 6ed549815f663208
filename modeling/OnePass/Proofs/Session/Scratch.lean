import OnePass.Compile
import OnePass.Proofs.Generator.Footprint
import OnePass.Proofs.Session.Linear

/-!
# How many scratch cells are enough

With three scratch cells no session ever runs out of them, whatever its actions and whichever of them
fail. With fewer, a function is enough to run out: its prologue takes two cells and its epilogue
three. A layout is accepted with one cell already. -/

namespace OnePass

namespace Generator

/-- One call leaves the pool its cells and does not run out of them. -/
theorem performNamed_lends {g : Generator} (hg : 3 ≤ g.scratch.slots.toNat) (name : String)
    (token : Token) : 3 ≤ (g.performNamed name token).2.scratch.slots.toNat ∧
      ∀ cells, (g.performNamed name token).1 ≠ .error (.fault (.scratchExhausted cells)) := by
  simp only [performNamed]
  cases Action.ofName? name with
  | none => exact ⟨hg, by rintro cells ⟨⟩⟩
  | some action =>
    have hspent := Gen.Spends.perform (n := g.scratch.used) ⟨action, token⟩ g
    simp only [run, EStateM.run]
    cases hrun : Gen.perform ⟨action, token⟩ g with
    | ok a g' =>
      rw [hrun] at hspent
      exact ⟨(hspent.2 ⟨hg, Nat.le_refl _⟩).1, by rintro cells ⟨⟩⟩
    | error fault g' =>
      rw [hrun] at hspent
      obtain ⟨hslots, hfault⟩ := hspent.2 ⟨hg, Nat.le_refl _⟩
      refine ⟨hslots, ?_⟩
      rintro cells ⟨⟩
      cases hfault

/-- A whole session leaves the pool its cells. -/
theorem session_lends {g : Generator} (hg : 3 ≤ g.scratch.slots.toNat)
    (calls : List (String × Token)) : 3 ≤ (g.session calls).scratch.slots.toNat := by
  induction calls generalizing g with
  | nil => exact hg
  | cons call calls ih => exact ih (performNamed_lends hg call.1 call.2).1

end Generator

/-- Calls that bring a function up to its prologue. -/
def declaringCalls : List (String × Token) :=
  [("push_type", ⟨"void", .keyword, 1⟩), ("push_name", ⟨"main", .id, 1⟩),
    ("declare_function", ⟨"main", .id, 1⟩)]

/-- With fewer than three cells, the prologue or the epilogue of a function runs out of them. -/
theorem exists_exhausted {layout : Layout} (h : layout.scratchSlots.toNat < 3) :
    ∃ calls name token, (((Generator.initial layout).session calls).performNamed name token).1 =
      .error (.fault (.scratchExhausted layout.scratchSlots.toNat)) := by
  have hslots : layout.scratchSlots = 0#32 ∨ layout.scratchSlots = 1#32 ∨
      layout.scratchSlots = 2#32 := by bv_omega
  obtain ⟨fp, sp, base, slots, data⟩ := layout
  rcases hslots with rfl | rfl | rfl
  · exact ⟨declaringCalls, "begin_function", ⟨"(", .symbol, 1⟩, by cbv⟩
  · exact ⟨declaringCalls, "begin_function", ⟨"(", .symbol, 1⟩, by cbv⟩
  · exact ⟨declaringCalls ++ [("begin_function", ⟨"(", .symbol, 1⟩)], "end_function",
      ⟨"\x7d", .symbol, 1⟩, by cbv⟩

/-- No session runs out of scratch cells, whatever actions are performed at whatever tokens, just if
    the layout has three of them. -/
theorem never_exhausted_iff_three_cells (layout : Layout) :
    (∀ calls name token cells,
      (((Generator.initial layout).session calls).performNamed name token).1 ≠
        .error (.fault (.scratchExhausted cells))) ↔ 3 ≤ layout.scratchSlots.toNat := by
  constructor
  · intro h
    by_contra hfew
    obtain ⟨calls, name, token, hexhausted⟩ := exists_exhausted (Nat.lt_of_not_le hfew)
    exact h calls name token _ hexhausted
  · intro h calls name token
    have hlends := (Generator.initial layout).session_lends h calls
    exact (Generator.performNamed_lends hlends name token).2

/-- The layout with one cell is accepted, and a program of one empty function runs out of cells
    in it. -/
theorem one_cell_accepted_yet_exhausted :
    ({ scratchSlots := 1 } : Layout).flaw? = none ∧
      compile { scratchSlots := 1 } "void main(void) \x7b \x7d" =
        .error (.fault (.scratchExhausted 1)) := by
  constructor
  · decide
  · cbv

end OnePass
