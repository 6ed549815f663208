import OnePass.Proofs.Runs.Operators
import OnePass.Proofs.Storage.Places

/-!
# Running expressions

The names of a running function stand for cells of its record or of the global data, and so an
expression without calls and assignments has a value in a memory. Its code borrows no cells but
those of its temporaries, and leaves its value in a symbol: the value stays there as long as the
cells of the symbol do, and these are no cells that code behind it borrows. -/

namespace OnePass

/-! ### Values of expressions -/

/-- What the names of a running function stand for: their symbols, how many elements their arrays
    have, and where the record of the function begins. -/
structure View where
  symbol? : String → Option Symbol
  extent : String → Nat
  base : Nat

namespace View

/-- The cell of a variable. -/
def cell? (V : View) (x : String) : Option Int :=
  (V.symbol? x).bind fun s =>
    if s.isFunction = false ∧ s.ty = .int then some (s.place V.base) else none

/-- The cell of an element, which must be in bounds: so many words behind the first one. -/
def element? (V : View) (m : Memory) (x : String) (w : Word) : Option Int :=
  (V.symbol? x).bind fun s =>
    if s.isFunction = false ∧ (s.ty = .arrayInt ∨ s.ty = .pointerInt) ∧
      0 ≤ w.toInt ∧ w.toInt < V.extent x
    then some ((s.baseIn V.base m).toInt + Word.size * w.toInt)
    else none

variable {V : View} {m : Memory} {x : String} {w : Word} {a : Int}

theorem cell?_eq_some : V.cell? x = some a ↔
    ∃ s, V.symbol? x = some s ∧ s.isFunction = false ∧ s.ty = .int ∧ a = s.place V.base := by
  simp only [cell?, Option.bind_eq_some_iff, Option.ite_none_right_eq_some, Option.some.injEq,
    and_assoc, @eq_comm _ a]

theorem element?_eq_some : V.element? m x w = some a ↔
    ∃ s, V.symbol? x = some s ∧ s.isFunction = false ∧ (s.ty = .arrayInt ∨ s.ty = .pointerInt) ∧
      ∃ i : Nat, w.toInt = i ∧ i < V.extent x ∧
        (s.baseIn V.base m).toInt + (Word.size * i : Nat) = a := by
  simp only [element?, Option.bind_eq_some_iff, Option.ite_none_right_eq_some, Option.some.injEq]
  refine exists_congr fun s => and_congr_right fun _ => ?_
  constructor
  · rintro ⟨⟨hfn, hty, hlo, hhi⟩, ha⟩
    refine ⟨hfn, hty, w.toInt.toNat, by omega, by omega, ?_⟩
    rw [← ha, Int.natCast_mul, Int.toNat_of_nonneg hlo]
  · rintro ⟨hfn, hty, i, hi, hlt, ha⟩
    refine ⟨⟨hfn, hty, by omega, by omega⟩, ?_⟩
    rw [← ha, hi, Int.natCast_mul]

end View

namespace Expr

/-- The value of an expression without calls and assignments, if all indices are in bounds. -/
def valueIn? (V : View) (m : Memory) : Expr → Option Word
  | .num n => Word.ofNumeral? n.lexeme
  | .name x => (V.cell? x.lexeme).map m
  | .index x _ i _ => (i.valueIn? V m).bind fun w => (V.element? m x.lexeme w).map m
  | .paren _ e _ => e.valueIn? V m
  | .binary op _ e₁ e₂ =>
    (e₁.valueIn? V m).bind fun w₁ => (e₂.valueIn? V m).map fun w₂ => op.apply w₁ w₂
  | .call .. => none
  | .assign .. => none

/-- The cell that an expression stands for. -/
def cellIn? (V : View) (m : Memory) : Expr → Option Int
  | .name x => V.cell? x.lexeme
  | .index x _ i _ => (i.valueIn? V m).bind (V.element? m x.lexeme)
  | _ => none

end Expr

/-! ### Memories for expressions -/

/-- The record has free words between two addresses, and no cell of a name or of an element lies
    there. All of it can be addressed. -/
structure View.Hosts (V : View) (l : Layout) (lo hi : Nat) (m : Memory) : Prop where
  apart : l.Apart
  slots : 3 ≤ l.scratchSlots.toNat
  framePointer : m l.framePointer.toNat = BitVec.ofNat 32 V.base
  record : V.base < lo
  bound : hi ≤ 2147483648
  free : ∀ a : Nat, lo ≤ a → a < hi → l.Free a
  cell : ∀ x s, V.symbol? x = some s → s.isFunction = false → s.ty = .int ∨ s.ty = .pointerInt →
    s.isConstant = false ∧ s.Placed l V.base ∧ (s.place V.base < lo ∨ hi ≤ s.place V.base)
  element : ∀ x w a, V.element? m x w = some a →
    a < 2147483648 ∧ l.Free a ∧ (a < lo ∨ hi ≤ a)

namespace View.Hosts

variable {V : View} {l : Layout} {lo mid hi : Nat} {m m' : Memory} {x : String} {w : Word}
  {a : Int}

/-- A variable can be read at its cell. -/
theorem ready (h : V.Hosts l lo hi m) {s : Symbol} (hs : V.symbol? x = some s)
    (hfn : s.isFunction = false) (hty : s.ty = .int) :
    s.isConstant = false ∧ s.Ready l V.base lo hi m ∧ s.target V.base m = s.place V.base := by
  obtain ⟨hc, hplaced, hout⟩ := h.cell x s hs hfn (.inl hty)
  refine ⟨hc, ⟨hfn, by rw [hty]; rfl, fun _ => hplaced, fun a ha => ?_⟩,
    Symbol.target_of_ne (by rw [hty]; nofun)⟩
  rw [Symbol.cells, hc, if_neg Bool.false_ne_true, hty, if_neg (by nofun)] at ha
  rw [List.mem_singleton.mp ha]
  exact ⟨hplaced.free, by omega⟩

/-- There is room for a temporary. -/
theorem offers (h : V.Hosts l lo hi m) {f : OpenFunction} (hlo : lo = V.base + f.record.size)
    (hroom : lo + Word.size ≤ hi) : l.Offers V.base f.record.size m := by
  have hrecord := h.record
  have hbound := h.bound
  simp only [Word.size] at hroom
  refine ⟨h.apart, h.slots, h.framePointer, by omega, by omega, ?_⟩
  rw [← hlo]
  exact h.free lo (Nat.le_refl lo) (by omega)

section
variable (h : V.Hosts l lo hi m) (hm : l.Borrows lo mid m m') (hhi : mid ≤ hi)
include h hm hhi

/-- Arrays stay where they are, and so do the cells of elements. -/
theorem element?_eq (x : String) (w : Word) : V.element? m' x w = V.element? m x w := by
  refine Option.bind_congr fun s hs => ite_congr rfl (fun hs' => ?_) fun _ => rfl
  obtain ⟨hfn, harray | hpointer, -⟩ := hs'
  · rw [Symbol.baseIn_congr fun hne => absurd harray hne]
  · obtain ⟨-, hplaced, hout⟩ := h.cell x s hs hfn (.inr hpointer)
    rw [Symbol.baseIn_congr fun _ _ => hm.spares _ hplaced.free (by omega)]

/-- Code that only borrows free words leaves room for the code behind it. -/
theorem later (hlo : lo ≤ mid) : V.Hosts l mid hi m' where
  apart := h.apart
  slots := h.slots
  framePointer := hm.framePointer.trans h.framePointer
  record := Nat.lt_of_lt_of_le h.record hlo
  bound := h.bound
  free a hmid ha := h.free a (Nat.le_trans hlo hmid) ha
  cell x s hs hfn hty := by
    obtain ⟨hc, hplaced, hout⟩ := h.cell x s hs hfn hty
    exact ⟨hc, hplaced, by omega⟩
  element x w a ha := by
    rw [h.element?_eq hm hhi] at ha
    obtain ⟨hbound, hfree, hout⟩ := h.element x w a ha
    exact ⟨hbound, hfree, by omega⟩

/-- What code borrows makes no difference to the cells that names stand for. -/
theorem cell?_same (ha : V.cell? x = some a) : m' a = m a := by
  obtain ⟨s, hs, hfn, hty, rfl⟩ := View.cell?_eq_some.mp ha
  obtain ⟨-, hplaced, hout⟩ := h.cell x s hs hfn (.inl hty)
  exact hm.spares _ hplaced.free (by omega)

theorem element?_same (ha : V.element? m x w = some a) : m' a = m a := by
  obtain ⟨-, hfree, hout⟩ := h.element x w a ha
  exact hm.spares a hfree (by omega)

/-- What code borrows makes no difference to the value of an expression. -/
theorem valueIn?_eq : ∀ {e : Expr} {w : Word}, e.valueIn? V m = some w → e.valueIn? V m' = some w
  | .num _, _, hw => hw
  | .name x, w, hw => by
    obtain ⟨a, ha, rfl⟩ := Option.map_eq_some_iff.mp hw
    exact Option.map_eq_some_iff.mpr ⟨a, ha, h.cell?_same hm hhi ha⟩
  | .index x _ i _, w, hw => by
    obtain ⟨wi, hi, hw⟩ := Option.bind_eq_some_iff.mp hw
    obtain ⟨a, ha, rfl⟩ := Option.map_eq_some_iff.mp hw
    refine Option.bind_eq_some_iff.mpr ⟨wi, valueIn?_eq hi, ?_⟩
    exact Option.map_eq_some_iff.mpr
      ⟨a, (h.element?_eq hm hhi ..).trans ha, h.element?_same hm hhi ha⟩
  | .paren _ e _, w, hw => valueIn?_eq (e := e) hw
  | .binary op _ e₁ e₂, w, hw => by
    obtain ⟨w₁, hw₁, hw⟩ := Option.bind_eq_some_iff.mp hw
    obtain ⟨w₂, hw₂, rfl⟩ := Option.map_eq_some_iff.mp hw
    refine Option.bind_eq_some_iff.mpr ⟨w₁, valueIn?_eq hw₁, ?_⟩
    exact Option.map_eq_some_iff.mpr ⟨w₂, valueIn?_eq hw₂, rfl⟩

end

end View.Hosts

/-! ### Code of expressions -/

/-- The names of a view are names of a table. -/
def View.Sees (V : View) (t : SymbolTable) : Prop :=
  ∀ x s, V.symbol? x = some s → t.find? x = some s

theorem View.Sees.of_extends {V : View} {t t' : SymbolTable} (h : V.Sees t) (ht : t.Extends t') :
    V.Sees t' := fun x s hs => (ht.find? x).trans (h x s hs)

section
variable {V : View} {l : Layout}

/-- The code of an expression borrows the cells of its temporaries and leaves its value. -/
def Expr.Computes (V : View) (l : Layout) (e : Expr) : Prop :=
  ∀ ⦃pc hi : Nat⦄ ⦃t t' : SymbolTable⦄ ⦃is : List Instruction⦄ ⦃v : StackValue⦄ ⦃m : Memory⦄
    ⦃w : Word⦄, e.Translates l pc t is v t' → V.Sees t →
    V.Hosts l (V.base + t.recordSize) hi m → V.base + t'.recordSize ≤ hi →
    e.valueIn? V m = some w →
      ∃ m' s, effects? is m = some m' ∧
        l.Borrows (V.base + t.recordSize) (V.base + t'.recordSize) m m' ∧
        v.operand? = some s ∧ s.Ready l V.base (V.base + t'.recordSize) hi m' ∧
        s.valueIn V.base m' = w

/-- The code of an expression that stands for a cell leaves a symbol that stands for it. -/
def Expr.Finds (V : View) (l : Layout) (e : Expr) : Prop :=
  ∀ ⦃pc hi : Nat⦄ ⦃t t' : SymbolTable⦄ ⦃is : List Instruction⦄ ⦃v : StackValue⦄ ⦃m : Memory⦄
    ⦃a : Int⦄, e.Translates l pc t is v t' → V.Sees t →
    V.Hosts l (V.base + t.recordSize) hi m → V.base + t'.recordSize ≤ hi →
    e.cellIn? V m = some a →
      ∃ m' s, effects? is m = some m' ∧
        l.Borrows (V.base + t.recordSize) (V.base + t'.recordSize) m m' ∧
        v.operand? = some s ∧ s.Ready l V.base (V.base + t'.recordSize) hi m' ∧
        s.isConstant = false ∧ s.target V.base m' = a

namespace Expr

theorem finds_name (x : Name) : (Expr.name x).Finds V l := by
  intro pc hi t t' is v m a h hsees hm _ ha
  obtain ⟨s, hs, hfn, hty, rfl⟩ := View.cell?_eq_some.mp ha
  cases h with
  | name hfind =>
    obtain rfl := Option.some.inj (hfind.symm.trans (hsees _ _ hs))
    obtain ⟨hc, hready, htarget⟩ := hm.ready hs hfn hty
    exact ⟨m, _, rfl, .refl .., rfl, hready, hc, htarget⟩

/-- An index that is in bounds leads to the element. -/
theorem Computes.finds_index {i : Expr} (hi : i.Computes V l) (x : Name) (opening closing : Nat) :
    (Expr.index x opening i closing).Finds V l := by
  intro pc top t t' is v m a h hsees hm hend ha
  obtain ⟨w, hw, ha⟩ := Option.bind_eq_some_iff.mp ha
  obtain ⟨hbound, hfree, hout⟩ := hm.element _ _ _ ha
  cases h with
  | index hfind harray hindex hint hf hfits =>
    rename_i array js v₁ s t₁ f
    rw [SymbolTable.recordSize_withTemporary hf, ← Nat.add_assoc] at hend ⊢
    have hle := hindex.extends.recordSize_le
    obtain ⟨m₁, s', hrun₁, hborrows₁, hoperand, hready, hvalue⟩ :=
      hi hindex hsees hm (by omega) hw
    obtain rfl := Option.some.inj (hint.1.symm.trans hoperand)
    have hm₁ := hm.later hborrows₁ (by omega) (by omega)
    -- the array is still where it was when the code of the index began
    rw [← hm.element?_eq hborrows₁ (by omega)] at ha
    obtain ⟨array', hfind', hfn, hty, k, hk, -, haddress⟩ := View.element?_eq_some.mp ha
    obtain rfl := Option.some.inj (hfind.symm.trans (hsees _ _ hfind'))
    have hoffers := hm₁.offers (congrArg (V.base + ·) (SymbolTable.recordSize_eq hf)) hend
    have hcell : array.ty ≠ .arrayInt → array.ty ≠ .arrayVoid →
        array.Placed l V.base ∧ array.place V.base ≠ V.base + t₁.recordSize := by
      intro hne _
      obtain ⟨-, hplaced, haway⟩ := hm₁.cell _ _ hfind' hfn (.inr (hty.resolve_left hne))
      exact ⟨hplaced, by simp only [Word.size] at hend; omega⟩
    rw [SymbolTable.recordSize_eq hf] at hready hcell hborrows₁ hend hle ⊢
    obtain ⟨m₂, hrun₂, hborrows₂, helement, htarget⟩ := hoffers.effects?_index hready hfn harray.2.2
      hcell (hvalue ▸ hk) haddress hbound hfree (by omega) t₁.temporaries
    refine ⟨m₂, _, ?_, hborrows₁.trans hborrows₂ (by omega) (by omega), rfl, helement, rfl, htarget⟩
    rw [effects?_append, hrun₁]
    exact hrun₂

/-- What a cell that was found holds is the value of the expression. -/
theorem Finds.computes {e : Expr} (h : e.Finds V l)
    (he : ∀ m, e.valueIn? V m = (e.cellIn? V m).map m)
    (hsame : ∀ {lo mid hi : Nat} {m m' : Memory} {a : Int}, V.Hosts l lo hi m →
      l.Borrows lo mid m m' → mid ≤ hi → e.cellIn? V m = some a → m' a = m a) :
    e.Computes V l := by
  intro pc hi t t' is v m w ht hsees hm hend hw
  obtain ⟨a, ha, rfl⟩ := Option.map_eq_some_iff.mp ((he m).symm.trans hw)
  obtain ⟨m', s, hrun, hborrows, hoperand, hready, hc, htarget⟩ := h ht hsees hm hend ha
  refine ⟨m', s, hrun, hborrows, hoperand, hready, ?_⟩
  rw [Symbol.valueIn, hc, if_neg Bool.false_ne_true, htarget]
  exact hsame hm hborrows hend ha

theorem computes_name (x : Name) : (Expr.name x).Computes V l :=
  (finds_name x).computes (fun _ => rfl) fun h hm hhi ha => h.cell?_same hm hhi ha

theorem Computes.index {i : Expr} (hi : i.Computes V l) (x : Name) (opening closing : Nat) :
    (Expr.index x opening i closing).Computes V l := by
  refine (hi.finds_index x opening closing).computes (fun m => ?_) fun h hm hhi ha => ?_
  · exact (Option.map_bind ..).symm
  · obtain ⟨w, -, ha⟩ := Option.bind_eq_some_iff.mp ha
    exact h.element?_same hm hhi ha

theorem Computes.binary {e₁ e₂ : Expr} (he₁ : e₁.Computes V l) (he₂ : e₂.Computes V l)
    (op : BinaryOp) (line : Nat) : (Expr.binary op line e₁ e₂).Computes V l := by
  intro pc hi t t' is v m w h hsees hm hend hw
  obtain ⟨w₁, hw₁, hw⟩ := Option.bind_eq_some_iff.mp hw
  obtain ⟨w₂, hw₂, rfl⟩ := Option.map_eq_some_iff.mp hw
  cases h with
  | binary h₁ hint₁ h₂ hint₂ hf hfits =>
    rename_i is v₁ s₁ t₁ js v₂ s₂ t₂ f
    rw [SymbolTable.recordSize_withTemporary hf, ← Nat.add_assoc] at hend ⊢
    have hext₁ := h₁.extends
    have hle₁ := hext₁.recordSize_le
    have hle₂ := h₂.extends.recordSize_le
    obtain ⟨m₁, s₁', hrun₁, hborrows₁, hoperand₁, hready₁, rfl⟩ :=
      he₁ h₁ hsees hm (by omega) hw₁
    obtain rfl := Option.some.inj (hint₁.1.symm.trans hoperand₁)
    have hm₁ := hm.later hborrows₁ (by omega) (by omega)
    obtain ⟨m₂, s₂', hrun₂, hborrows₂, hoperand₂, hready₂, rfl⟩ :=
      he₂ h₂ (hsees.of_extends hext₁) hm₁ (by omega) (hm.valueIn?_eq hborrows₁ (by omega) hw₂)
    obtain rfl := Option.some.inj (hint₂.1.symm.trans hoperand₂)
    have hm₂ := hm₁.later hborrows₂ (by omega) (by omega)
    -- the code of the second operand leaves the first alone
    obtain ⟨hready₁', hsame⟩ := hready₁.later hborrows₂ (by omega) (by omega)
    have hoffers := hm₂.offers (congrArg (V.base + ·) (SymbolTable.recordSize_eq hf)) hend
    rw [SymbolTable.recordSize_eq hf] at hready₁' hready₂ hborrows₂ hend hle₂ ⊢
    obtain ⟨m₃, hrun₃, hborrows₃, hresult, hheld⟩ :=
      hoffers.effects?_operator hready₁' hready₂ hend op t₂.temporaries
    refine ⟨m₃, _, ?_, (hborrows₁.trans hborrows₂ (by omega) (by omega)).trans hborrows₃ (by omega)
      (by omega), rfl, hresult, by rw [hheld, hsame]⟩
    rw [effects?_append, effects?_append, hrun₁, Option.bind_some, hrun₂]
    exact hrun₃

/-- The code of an expression computes its value. -/
theorem computes : ∀ e : Expr, e.Computes V l
  | .num n => by
    intro pc hi t t' is v m w h _ _ _ hw
    cases h with
    | num hn =>
      obtain rfl := Option.some.inj (hn.symm.trans hw)
      exact ⟨m, _, rfl, .refl .., rfl, .constant _, rfl⟩
  | .name x => computes_name x
  | .index x opening i closing => (computes i).index x opening closing
  | .paren _ e _ => by
    intro pc hi t t' is v m w h hsees hm hend hw
    cases h with
    | paren h => exact computes e h hsees hm hend hw
  | .binary op line e₁ e₂ => (computes e₁).binary (computes e₂) op line
  | .call .. => fun _ _ _ _ _ _ _ _ _ _ _ _ hw => nomatch hw
  | .assign .. => fun _ _ _ _ _ _ _ _ _ _ _ _ hw => nomatch hw

/-- The code of an expression finds the cell that it stands for. -/
theorem finds : ∀ e : Expr, e.Finds V l
  | .name x => finds_name x
  | .index x opening i closing => (computes i).finds_index x opening closing
  | .num .. => fun _ _ _ _ _ _ _ _ _ _ _ _ ha => nomatch ha
  | .paren .. => fun _ _ _ _ _ _ _ _ _ _ _ _ ha => nomatch ha
  | .binary .. => fun _ _ _ _ _ _ _ _ _ _ _ _ ha => nomatch ha
  | .call .. => fun _ _ _ _ _ _ _ _ _ _ _ _ ha => nomatch ha
  | .assign .. => fun _ _ _ _ _ _ _ _ _ _ _ _ ha => nomatch ha

end Expr

end

end OnePass
