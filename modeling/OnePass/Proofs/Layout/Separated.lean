import OnePass.Proofs.Storage.Layout

/-!
# Accepted layouts lie apart

A layout is accepted just if its parts, taken as ranges of addresses without end, have no address in
common: that the end of the scratch pool is cut off at the last address lets no overlap through. In
an accepted layout the pool hands out its cells one after the other, each of them a word inside the
pool, until none is left. -/

namespace OnePass

namespace Layout

/-- The addresses of the bytes of a word. -/
def wordAt (address : Word) : Set Nat := Set.Ico address.toNat (address.toNat + Word.size)

/-- The addresses of the scratch pool, however far it reaches. -/
def scratchRange (l : Layout) : Set Nat :=
  Set.Ico l.scratchBase.toNat (l.scratchBase.toNat + Word.size * l.scratchSlots.toNat)

/-- The parts of a layout: the two pointers, the scratch pool, and the data without end. -/
def parts (l : Layout) : List (Set Nat) :=
  [wordAt l.framePointer, wordAt l.stackPointer, l.scratchRange, Set.Ici l.dataBase.toNat]

/-- The parts of a layout are at whole words and have no address in common. -/
structure Separated (l : Layout) : Prop where
  framePointer : Word.size ∣ l.framePointer.toNat
  stackPointer : Word.size ∣ l.stackPointer.toNat
  scratchBase : Word.size ∣ l.scratchBase.toNat
  dataBase : Word.size ∣ l.dataBase.toNat
  slots : 1 ≤ l.scratchSlots.toNat
  room : l.dataBase.toNat < 2 ^ 30
  apart : l.parts.Pairwise Disjoint

variable {l : Layout}

/-! ### Ranges of addresses -/

theorem disjoint_ranges {a b c d : Nat} (hab : a < b) (hcd : c < d) :
    Disjoint (Set.Ico a b) (Set.Ico c d) ↔ b ≤ c ∨ d ≤ a := by
  rw [Set.Ico_disjoint_Ico]
  omega

theorem disjoint_data {a b c : Nat} (hab : a < b) :
    Disjoint (Set.Ico a b) (Set.Ici c) ↔ b ≤ c := by
  rw [Set.disjoint_left]
  constructor
  · intro h
    by_contra hcb
    exact h ⟨Nat.le_sub_one_of_lt hab, by omega⟩ (Set.mem_Ici.mpr (by omega))
  · intro hbc x hx hdata
    exact absurd (hx.2.trans_le hbc) (Nat.not_lt.mpr hdata)

/-- The parts of a layout have no address in common just if each of the first three ends before
    another starts, and before the data. -/
theorem pairwise_parts_iff (hslots : 1 ≤ l.scratchSlots.toNat) :
    l.parts.Pairwise Disjoint ↔
      (l.framePointer.toNat + Word.size ≤ l.stackPointer.toNat ∨
        l.stackPointer.toNat + Word.size ≤ l.framePointer.toNat) ∧
      (∀ pointer ∈ [l.framePointer, l.stackPointer],
        (pointer.toNat + Word.size ≤ l.scratchBase.toNat ∨
          l.scratchBase.toNat + Word.size * l.scratchSlots.toNat ≤ pointer.toNat) ∧
        pointer.toNat + Word.size ≤ l.dataBase.toNat) ∧
      l.scratchBase.toNat + Word.size * l.scratchSlots.toNat ≤ l.dataBase.toNat := by
  have hword : ∀ a : Nat, a < a + Word.size := fun a => Nat.lt_add_of_pos_right (by decide)
  have hscratch : l.scratchBase.toNat < l.scratchBase.toNat + Word.size * l.scratchSlots.toNat :=
    Nat.lt_add_of_pos_right (Nat.mul_pos (by decide) hslots)
  simp only [parts, wordAt, scratchRange, List.pairwise_cons, List.mem_cons, List.not_mem_nil,
    or_false, forall_eq_or_imp, forall_eq, disjoint_ranges (hword _) (hword _),
    disjoint_ranges (hword _) hscratch, disjoint_data (hword _), disjoint_data hscratch,
    IsEmpty.forall_iff, implies_true, List.Pairwise.nil, and_true]
  tauto

/-! ### What is accepted -/

theorem check_eq_ok_iff : l.check = .ok l ↔ l.flaw? = none := by
  rw [check]
  split <;> simp_all

/-- What the tests of a layout come to. -/
theorem flaw?_eq_none_iff : l.flaw? = none ↔
    (Word.size ∣ l.framePointer.toNat ∧ Word.size ∣ l.stackPointer.toNat ∧
      Word.size ∣ l.scratchBase.toNat ∧ Word.size ∣ l.dataBase.toNat) ∧
    l.scratchSlots.toNat ≠ 0 ∧ l.framePointer.toNat ≠ l.stackPointer.toNat ∧
    (∀ pointer ∈ [l.framePointer, l.stackPointer],
      (pointer.toNat < l.scratchBase.toNat ∨ l.scratchEnd ≤ pointer.toNat) ∧
        pointer.toNat < l.dataBase.toNat) ∧
    l.dataBase.toNat < declaredLimit ∧ l.scratchEnd ≤ l.dataBase.toNat := by
  simp only [flaw?, tests, Option.map_eq_none_iff, List.find?_eq_none, List.forall_mem_cons,
    Bool.not_eq_true, beq_eq_false_iff_ne, occupied, Bool.or_eq_false_iff, Bool.and_eq_false_iff,
    decide_eq_false_iff_not, Nat.not_le, Nat.not_lt, Bool.not_eq_false', aligned, beq_iff_eq,
    Nat.dvd_iff_mod_eq_zero, ne_eq, BitVec.toNat_eq]
  simp only [BitVec.ofNat_eq_ofNat, BitVec.toNat_ofNat, Nat.reducePow, Nat.zero_mod,
    List.not_mem_nil, IsEmpty.forall_iff, implies_true, and_true]
  tauto

/-- The layouts without flaws are those that are separated. -/
theorem flaw?_eq_none_iff_separated : l.flaw? = none ↔ l.Separated := by
  have hlimit : declaredLimit = 2 ^ 30 := rfl
  constructor
  · intro h
    have hapart := apart_of_flaw? h
    obtain ⟨⟨hframe, hstack, hscratch, hdata⟩, hslots, -, -, hroom, -⟩ := flaw?_eq_none_iff.mp h
    refine ⟨hframe, hstack, hscratch, hdata, Nat.one_le_iff_ne_zero.mpr hslots, hroom, ?_⟩
    rw [pairwise_parts_iff (Nat.one_le_iff_ne_zero.mpr hslots)]
    -- at whole words, what starts below a range ends below it
    have hpointers := hapart.pointers
    have hbelow := hapart.framePointer_lt
    have hbelow' := hapart.stackPointer_lt
    have hpool := hapart.framePointer_scratch
    have hpool' := hapart.stackPointer_scratch
    simp only [List.forall_mem_cons, Word.size] at *
    refine ⟨by omega, ⟨⟨by omega, by omega⟩, ⟨by omega, by omega⟩, List.forall_mem_nil _⟩, hapart.scratch_le⟩
  · rintro ⟨hframe, hstack, hscratch, hdata, hslots, hroom, hparts⟩
    rw [pairwise_parts_iff hslots] at hparts
    obtain ⟨hpointers, houtside, hbelow⟩ := hparts
    have hend : l.scratchEnd = l.scratchBase.toNat + Word.size * l.scratchSlots.toNat := by
      rw [scratchEnd, Word.addressMax]
      omega
    rw [flaw?_eq_none_iff, hend]
    refine ⟨⟨hframe, hstack, hscratch, hdata⟩, by omega, ?_, fun pointer hpointer => ?_, hroom,
      hbelow⟩
    · simp only [Word.size] at hpointers
      omega
    · have hapart := houtside pointer hpointer
      simp only [Word.size] at hapart ⊢
      omega

end Layout

/-! ### Lending cells -/

namespace ScratchPool

/-- A call of an operation of the pool. -/
inductive Call where
  | take
  | clear
  deriving DecidableEq, Repr

/-- A pool, and the cells it has handed out since it was cleared last. -/
structure Lending where
  pool : ScratchPool
  lent : List Word
  deriving DecidableEq, Repr

namespace Lending

/-- One call; a cell that is not there is not handed out. -/
def call (s : Lending) : Call → Lending
  | .clear => ⟨s.pool.clear, []⟩
  | .take =>
    match s.pool.take with
    | .ok (cell, pool) => ⟨pool, s.lent ++ [cell]⟩
    | .error _ => s

/-- Any calls on the pool of a layout. -/
def run (l : Layout) (calls : List Call) : Lending := calls.foldl call ⟨ofLayout l, []⟩

/-- The first cells of the pool are lent. -/
structure Sound (s : Lending) (l : Layout) : Prop where
  pool : s.pool = { ofLayout l with used := s.lent.length }
  lent : s.lent = (List.range s.lent.length).map l.scratchCell
  within : s.lent.length ≤ l.scratchSlots.toNat

variable {s : Lending} {l : Layout}

/-- What taking a cell comes to. -/
theorem Sound.take (h : s.Sound l) : s.pool.take =
    if s.lent.length < l.scratchSlots.toNat then
      .ok (l.scratchCell s.lent.length, { ofLayout l with used := s.lent.length + 1 })
    else .error (.scratchExhausted l.scratchSlots.toNat) := by
  rw [h.pool]
  rfl

/-- A call lends the next cell, lends nothing, or gets all of them back. -/
theorem Sound.call (h : s.Sound l) (c : Call) : (s.call c).Sound l := by
  cases c with
  | clear =>
    refine ⟨?_, rfl, Nat.zero_le _⟩
    rw [Lending.call, h.pool]
    rfl
  | take =>
    rw [Lending.call, h.take]
    by_cases hroom : s.lent.length < l.scratchSlots.toNat
    · rw [if_pos hroom]
      have hlength : (s.lent ++ [l.scratchCell s.lent.length]).length = s.lent.length + 1 :=
        List.length_append ..
      refine ⟨?_, ?_, ?_⟩
      · simp only [hlength]
      · simp only [hlength, List.range_succ, List.map_append, List.map_cons, List.map_nil, ← h.lent]
      · simp only [hlength]
        exact hroom
    · rw [if_neg hroom]
      exact h

theorem sound_run (l : Layout) (calls : List Call) : (run l calls).Sound l := by
  have hfold : ∀ {s : Lending}, s.Sound l → (calls.foldl Lending.call s).Sound l := by
    induction calls with
    | nil => exact id
    | cons c calls ih => exact fun h => ih (h.call c)
  exact hfold ⟨rfl, rfl, Nat.zero_le _⟩

/-- In a layout whose parts lie apart, no cell is lent twice. -/
theorem Sound.nodup (h : s.Sound l) (hapart : l.Apart) : s.lent.Nodup := by
  rw [h.lent]
  refine List.Nodup.map_on (fun i hi j hj heq => ?_) List.nodup_range
  have hwithin := h.within
  rw [List.mem_range] at hi hj
  have hsame := congrArg BitVec.toNat heq
  rw [Layout.toNat_scratchCell hapart (by omega), Layout.toNat_scratchCell hapart (by omega),
    Word.size] at hsame
  omega

/-- In a separated layout, what is lent are words of the pool. -/
theorem Sound.word (h : s.Sound l) (hapart : l.Apart) (hbase : Word.size ∣ l.scratchBase.toNat)
    {cell : Word} (hcell : cell ∈ s.lent) :
    Word.size ∣ cell.toNat ∧ Layout.wordAt cell ⊆ l.scratchRange := by
  rw [h.lent] at hcell
  obtain ⟨i, hi, rfl⟩ := List.mem_map.mp hcell
  have hlt : i < l.scratchSlots.toNat := (List.mem_range.mp hi).trans_le h.within
  have hvalue := Layout.toNat_scratchCell hapart hlt
  rw [Layout.wordAt, Layout.scratchRange, hvalue]
  refine ⟨hbase.add (Nat.dvd_mul_right ..), Set.Ico_subset_Ico (Nat.le_add_right ..) ?_⟩
  simp only [Word.size]
  omega

end Lending

end ScratchPool

/-- A layout is accepted just if its parts lie at whole words and have no address in common, the
    pool has a cell and the data starts below the limit. On the pool of an accepted layout, whatever
    is called, the cells handed out since it was cleared last are different words inside the pool.
    The next one is refused just if all are handed out; otherwise its address is the exact sum. -/
theorem check_accepts_separated (l : Layout) :
    (l.check = .ok l ↔ l.Separated) ∧
    (l.check = .ok l → ∀ calls : List ScratchPool.Call,
      let s := ScratchPool.Lending.run l calls
      s.lent.Nodup ∧
      (∀ cell ∈ s.lent, Word.size ∣ cell.toNat ∧ Layout.wordAt cell ⊆ l.scratchRange) ∧
      s.pool.used = s.lent.length ∧ s.lent.length ≤ l.scratchSlots.toNat ∧
      ((∃ fault, s.pool.take = .error fault) ↔ s.lent.length = l.scratchSlots.toNat) ∧
      ∀ cell pool, s.pool.take = .ok (cell, pool) →
        cell.toNat = l.scratchBase.toNat + Word.size * s.lent.length) := by
  rw [Layout.check_eq_ok_iff]
  refine ⟨Layout.flaw?_eq_none_iff_separated, fun haccepted calls => ?_⟩
  intro s
  have hsound : s.Sound l := ScratchPool.Lending.sound_run l calls
  have hapart := Layout.apart_of_flaw? haccepted
  have hbase := (Layout.flaw?_eq_none_iff_separated.mp haccepted).scratchBase
  have hwithin := hsound.within
  refine ⟨hsound.nodup hapart, fun cell => hsound.word hapart hbase, by rw [hsound.pool], hwithin,
    ?_, ?_⟩
  · rw [hsound.take]
    split
    · rename_i hroom
      exact ⟨by rintro ⟨fault, ⟨⟩⟩, fun hfull => absurd hroom (by omega)⟩
    · exact ⟨fun _ => by omega, fun _ => ⟨_, rfl⟩⟩
  · intro cell pool htake
    rw [hsound.take] at htake
    split at htake
    · rename_i hroom
      obtain ⟨rfl, -⟩ := Prod.mk.inj (Except.ok.inj htake)
      exact Layout.toNat_scratchCell hapart hroom
    · cases htake

-- the layout that is used when none is given
example : ({} : Layout).check = .ok {} := by decide

end OnePass
