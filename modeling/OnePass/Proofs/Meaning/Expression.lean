import OnePass.Proofs.Meaning.Homes
import OnePass.Proofs.Runs.Expression

/-!
# Running the expressions of a program

What the names of a running program stand for lies in its homes, so the value of an expression in a
memory that mirrors the program is the value that it has there. Its code therefore borrows no cells
but those of its temporaries, and leaves its value in a symbol. -/

namespace OnePass

variable {R : Residence}

/-! ### Symbols that can be read -/

/-- A symbol can be used as an integer, and none of its cells lies between two addresses. -/
abbrev Residence.Ready (R : Residence) (lo hi : Nat) (m : Memory) (s : Symbol) : Prop :=
  s.Ready R.layout R.base lo hi m

/-- A value that is a number can be read from what an expression leaves. -/
def Residence.Leaves (R : Residence) (lo hi : Nat) (m : Memory) (v : StackValue) (value : Value) :
    Prop :=
  ∀ w, value = .number w → ∃ s, v.operand? = some s ∧ R.Ready lo hi m s ∧ s.valueIn R.base m = w

theorem Residence.Leaves.operand {lo hi : Nat} {m : Memory} {v : StackValue} {w : Word} {s : Symbol}
    (h : R.Leaves lo hi m v (.number w)) (hs : v.IsInt s) :
    R.Ready lo hi m s ∧ s.valueIn R.base m = w := by
  obtain ⟨s', hoperand, hready⟩ := h w rfl
  obtain rfl := Option.some.inj (hs.1.symm.trans hoperand)
  exact hready

/-! ### Names of a program -/

theorem Entity.eq_array_of_element? {w : Word} {k i : Nat} : ∀ {entity : Entity},
    entity.element? w = some (k, i) → ∃ length, entity = .array k length ∧ w.toInt = i ∧ i < length
  | .variable _, h => nomatch h
  | .function, h => nomatch h
  | .array number length, h => by
    simp only [element?, Option.ite_none_right_eq_some, Option.some.injEq, Prod.mk.injEq] at h
    obtain ⟨⟨hlo, hhi⟩, rfl, rfl⟩ := h
    exact ⟨length, rfl, by omega, by omega⟩

/-- The variables and arrays of an environment, as a table knows them. -/
def Residence.view (R : Residence) (env : Environment) (t : SymbolTable) : View where
  symbol? x := (env.lookup x).bind fun entity => if entity = .function then none else t.find? x
  extent x := match env.lookup x with
    | some (.array _ length) => length
    | _ => 0
  base := R.base

namespace Residence.Names

variable {env : Environment} {t : SymbolTable} {cells : Cells} {m : Memory} {x : String}

theorem view_symbol? {s : Symbol} : (R.view env t).symbol? x = some s ↔
    ∃ entity, env.lookup x = some entity ∧ entity ≠ .function ∧ t.find? x = some s := by
  simp only [view, Option.bind_eq_some_iff, Option.ite_none_left_eq_some]

theorem view_extent {k length : Nat} (hx : env.lookup x = some (.array k length)) :
    (R.view env t).extent x = length := by
  simp only [view, hx]

theorem view_sees (R : Residence) (env : Environment) (t : SymbolTable) :
    (R.view env t).Sees t := by
  intro x s hs
  obtain ⟨_, -, -, hfind⟩ := view_symbol?.mp hs
  exact hfind

theorem denotes (h : R.Names env t) {s : Symbol} (hs : (R.view env t).symbol? x = some s) :
    ∃ entity, env.lookup x = some entity ∧ entity ≠ .function ∧ R.Denotes s entity := by
  obtain ⟨entity, hx, hne, hfind⟩ := view_symbol?.mp hs
  obtain ⟨s', hs', hdenotes⟩ := h x entity hx
  obtain rfl := Option.some.inj (hfind.symm.trans hs')
  exact ⟨entity, hx, hne, hdenotes⟩

/-- A variable is found at home. -/
theorem cell? (h : R.Names env t) {k : Nat} (hx : env.lookup x = some (.variable k)) :
    ∃ a, (R.view env t).cell? x = some a ∧ R.Home k 0 a := by
  obtain ⟨s, hs, hdenotes⟩ := h x _ hx
  obtain ⟨hfn, hty, -, -, hhome⟩ := hdenotes.of_variable
  refine ⟨_, View.cell?_eq_some.mpr ⟨s, ?_, hfn, hty, rfl⟩, hhome⟩
  exact view_symbol?.mpr ⟨_, hx, nofun, hs⟩

/-- An element is found at home. -/
theorem element? (h : R.Names env t) {entity : Entity} {w : Word} {k i : Nat}
    (hx : env.lookup x = some entity) (hw : entity.element? w = some (k, i)) (m : Memory) :
    ∃ a, (R.view env t).element? m x w = some a ∧ R.Home k i a := by
  obtain ⟨length, rfl, hi, hlength⟩ := Entity.eq_array_of_element? hw
  obtain ⟨s, hs, hdenotes⟩ := h x _ hx
  obtain ⟨hfn, hty, hhomes⟩ := hdenotes.of_array
  have hbounds := (hhomes i hlength).bounds
  have hbound := R.bound
  have hbase : (s.baseIn R.base m).toInt = s.place R.base := by
    rw [Symbol.baseIn, hty, Word.toInt_ofNat (by omega)]
  refine ⟨_, View.element?_eq_some.mpr ⟨s, ?_, hfn, .inl hty, i, hi, ?_, ?_⟩, hhomes i hlength⟩
  · exact view_symbol?.mpr ⟨_, hx, by rintro ⟨⟩, hs⟩
  · rwa [view_extent hx]
  · exact (congrArg (· + _) hbase).trans (Int.natCast_add ..).symm

/-- An element that is found is at home. -/
theorem home_of_element? (h : R.Names env t) {w : Word} {a : Int}
    (ha : (R.view env t).element? m x w = some a) : ∃ k i, R.Home k i a := by
  obtain ⟨s, hs, -, hty, i, hi, hlt, -⟩ := View.element?_eq_some.mp ha
  obtain ⟨entity, hx, hne, hdenotes⟩ := h.denotes hs
  match entity with
  | .variable k =>
    rw [hdenotes.of_variable.2.1] at hty
    simp at hty
  | .array k length =>
    rw [view_extent hx] at hlt
    have hw : (Entity.array k length).element? w = some (k, w.toInt.toNat) :=
      if_pos ⟨by omega, by omega⟩
    obtain ⟨a', ha', hhome⟩ := h.element? hx hw m
    obtain rfl := Option.some.inj (ha.symm.trans ha')
    exact ⟨_, _, hhome⟩
  | .function => exact absurd rfl hne

/-- There is room for the code of an expression where nobody lives. -/
theorem hosts (h : R.Names env t) (hm : R.Mirrors cells m) {lo hi : Nat} (hclear : R.Clear lo hi) :
    (R.view env t).Hosts R.layout lo hi m := by
  have hheader := hclear.header
  have hend := hclear.size
  have hbound := R.bound
  refine ⟨R.apart, R.slots, hm.active.framePointer, ?_, by omega, fun a hlo _ => ?_, ?_, ?_⟩
  · exact Nat.lt_of_lt_of_le (Nat.lt_add_of_pos_right (by decide)) hheader
  · exact R.free (by omega)
  · intro x s hs hfn hty
    obtain ⟨entity, -, hne, hdenotes⟩ := h.denotes hs
    match entity with
    | .variable k =>
      obtain ⟨-, -, hc, hplaced, hhome⟩ := hdenotes.of_variable
      have hout := hhome.outside hclear
      refine ⟨hc, hplaced, ?_⟩
      change s.place R.base < lo ∨ hi ≤ s.place R.base
      omega
    | .array k length =>
      rw [hdenotes.of_array.2.1] at hty
      simp at hty
    | .function => exact absurd rfl hne
  · intro x w a ha
    obtain ⟨k, i, hhome⟩ := h.home_of_element? ha
    have hbounds := hhome.bounds
    exact ⟨by omega, hhome.free, hhome.outside hclear⟩

end Residence.Names

/-! ### Expressions -/

/-- The code of an expression borrows the cells of its temporaries and leaves its value. -/
def Expr.Runs (R : Residence) (e : Expr) : Prop :=
  ∀ ⦃pc hi : Nat⦄ ⦃t t' : SymbolTable⦄ ⦃is : List Instruction⦄ ⦃v : StackValue⦄
    ⦃env : Environment⦄ ⦃cells : Cells⦄ ⦃value : Value⦄ ⦃m : Memory⦄,
    e.Translates R.layout pc t is v t' → R.Names env t → e.evaluate? env cells = some value →
    R.Mirrors cells m → R.Clear (R.base + t.recordSize) hi → R.base + t'.recordSize ≤ hi →
      ∃ m', effects? is m = some m' ∧
        R.layout.Borrows (R.base + t.recordSize) (R.base + t'.recordSize) m m' ∧
        R.Leaves (R.base + t'.recordSize) hi m' v value

namespace Expr

variable {env : Environment} {t : SymbolTable} {cells : Cells} {m : Memory}

theorem number?_eq_some {e : Expr} {w : Word} :
    e.number? env cells = some w ↔ e.evaluate? env cells = some (.number w) := by
  rw [number?, Option.bind_eq_some_iff]
  constructor
  · rintro ⟨_ | _, hvalue, hw⟩
    · obtain rfl := Option.some.inj hw
      exact hvalue
    · cases hw
  · exact fun h => ⟨_, h, rfl⟩

/-- The value of an expression in a memory that mirrors a program. -/
theorem valueIn?_of_evaluate? (hnames : R.Names env t) (hm : R.Mirrors cells m) :
    ∀ {e : Expr} {w : Word}, e.evaluate? env cells = some (.number w) →
      e.valueIn? (R.view env t) m = some w
  | .num n, w, h => by
    obtain ⟨w', hw', heq⟩ := Option.map_eq_some_iff.mp h
    obtain rfl := Value.number.inj heq
    exact hw'
  | .name x, w, h => by
    obtain ⟨entity, hx, heq⟩ := Option.map_eq_some_iff.mp h
    match entity, heq with
    | .variable k, rfl =>
      obtain ⟨a, ha, hhome⟩ := hnames.cell? hx
      exact Option.map_eq_some_iff.mpr ⟨a, ha, hm.cell hhome⟩
  | .index x _ i _, w, h => by
    obtain ⟨entity, hx, h⟩ := Option.bind_eq_some_iff.mp h
    obtain ⟨wi, hwi, h⟩ := Option.bind_eq_some_iff.mp h
    obtain ⟨⟨k, j⟩, helement, heq⟩ := Option.map_eq_some_iff.mp h
    obtain rfl := Value.number.inj heq
    obtain ⟨a, ha, hhome⟩ := hnames.element? hx helement m
    refine Option.bind_eq_some_iff.mpr
      ⟨wi, valueIn?_of_evaluate? hnames hm (number?_eq_some.mp hwi), ?_⟩
    exact Option.map_eq_some_iff.mpr ⟨a, ha, hm.cell hhome⟩
  | .paren _ e _, w, h => valueIn?_of_evaluate? hnames hm (e := e) h
  | .binary op _ e₁ e₂, w, h => by
    obtain ⟨w₁, hw₁, h⟩ := Option.bind_eq_some_iff.mp h
    obtain ⟨w₂, hw₂, heq⟩ := Option.map_eq_some_iff.mp h
    obtain rfl := Value.number.inj heq
    refine Option.bind_eq_some_iff.mpr
      ⟨w₁, valueIn?_of_evaluate? hnames hm (number?_eq_some.mp hw₁), ?_⟩
    exact Option.map_eq_some_iff.mpr
      ⟨w₂, valueIn?_of_evaluate? hnames hm (number?_eq_some.mp hw₂), rfl⟩

/-- The cell that an expression stands for is at home. -/
theorem cellIn?_of_place? (hnames : R.Names env t) (hm : R.Mirrors cells m) {e : Expr} {k i : Nat}
    (h : e.place? env cells = some (k, i)) :
    ∃ a, e.cellIn? (R.view env t) m = some a ∧ R.Home k i a := by
  match e with
  | .name x =>
    rw [place?] at h
    split at h
    · rename_i k' hx
      cases h
      exact hnames.cell? hx
    · cases h
  | .index x _ j _ =>
    obtain ⟨entity, hx, h⟩ := Option.bind_eq_some_iff.mp h
    obtain ⟨w, hw, helement⟩ := Option.bind_eq_some_iff.mp h
    obtain ⟨a, ha, hhome⟩ := hnames.element? hx helement m
    refine ⟨a, Option.bind_eq_some_iff.mpr ⟨w, ?_, ha⟩, hhome⟩
    exact valueIn?_of_evaluate? hnames hm (number?_eq_some.mp hw)

/-- The code of an expression runs if it does so where the value is no number. -/
theorem Runs.of_whole {e : Expr} (he : ∀ {pc t t' is v env cells},
    e.Translates R.layout pc t is v t' → e.evaluate? env cells = some .whole → is = [] ∧ t' = t) :
    e.Runs R := by
  intro pc hi t t' is v env cells value m h hnames hvalue hm hclear hend
  match value with
  | .whole =>
    obtain ⟨rfl, rfl⟩ := he h hvalue
    exact ⟨m, rfl, .refl .., nofun⟩
  | .number w =>
    obtain ⟨m', s, hrun, hborrows, hoperand, hready, hheld⟩ := e.computes h
      (Residence.Names.view_sees R env t) (hnames.hosts hm hclear) hend
      (valueIn?_of_evaluate? hnames hm hvalue)
    refine ⟨m', hrun, hborrows, fun w' hw' => ⟨s, hoperand, hready, ?_⟩⟩
    exact hheld.trans (Value.number.inj hw')

/-- The code of an expression without calls and assignments leaves its value. -/
theorem runs : ∀ e : Expr, e.isPure → e.Runs R
  | .num n, _ => .of_whole fun _ h => by
    obtain ⟨_, -, h⟩ := Option.map_eq_some_iff.mp h
    cases h
  | .name x, _ => .of_whole fun h _ => by
    cases h
    exact ⟨rfl, rfl⟩
  | .index .., _ => .of_whole fun _ h => by
    obtain ⟨_, -, h⟩ := Option.bind_eq_some_iff.mp h
    obtain ⟨_, -, h⟩ := Option.bind_eq_some_iff.mp h
    obtain ⟨_, -, h⟩ := Option.map_eq_some_iff.mp h
    cases h
  | .paren opening e closing, he => by
    intro pc hi t t' is v env cells value m h
    cases h with
    | paren h => exact runs e he h
  | .binary .., _ => .of_whole fun _ h => by
    obtain ⟨_, -, h⟩ := Option.bind_eq_some_iff.mp h
    obtain ⟨_, -, h⟩ := Option.map_eq_some_iff.mp h
    cases h

/-- The code of a place leaves a symbol that stands for the cell. -/
theorem runs_place {e : Expr} {pc top k i : Nat} {t t' : SymbolTable}
    {is : List Instruction} {v : StackValue} {env : Environment} {cells : Cells} {m : Memory}
    (h : e.Translates R.layout pc t is v t') (hnames : R.Names env t)
    (hplace : e.place? env cells = some (k, i)) (hm : R.Mirrors cells m)
    (hclear : R.Clear (R.base + t.recordSize) top) (hend : R.base + t'.recordSize ≤ top) :
    ∃ m' s, effects? is m = some m' ∧ v.operand? = some s ∧ s.isConstant = false ∧
      R.layout.Borrows (R.base + t.recordSize) (R.base + t'.recordSize) m m' ∧
      R.Ready (R.base + t'.recordSize) top m' s ∧ R.Home k i (s.target R.base m') := by
  obtain ⟨a, ha, hhome⟩ := cellIn?_of_place? hnames hm hplace
  obtain ⟨m', s, hrun, hborrows, hoperand, hready, hc, htarget⟩ :=
    e.finds h (Residence.Names.view_sees R env t) (hnames.hosts hm hclear) hend ha
  exact ⟨m', s, hrun, hoperand, hc, hborrows, hready, htarget ▸ hhome⟩

end Expr

end OnePass
