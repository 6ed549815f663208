import OnePass.Proofs.Runs.Operators
import OnePass.Proofs.Storage.Code

/-!
# Where a running program lives

Each variable of a running program has a home in the memory of the machine: some cells in a row, in
the data or in the record of the main function. Homes are numbered as the variables are, in the
order of the text. A memory mirrors a running program if every home holds what its variable does and
the header of the record is intact; code that only borrows cells in which nobody lives changes
nothing about that. -/

namespace OnePass

/-! ### Homes -/

/-- A record in use, with the homes of all variables: in the data before the record, or in the
    record behind its header, one behind the other. All of it can be addressed. -/
structure Residence where
  layout : Layout
  base : Nat
  size : Nat
  homes : List (VarDecl × Nat)
  /-- What the header holds: the frame pointer of the caller, and where it goes on. -/
  caller : Word
  back : Nat
  apart : layout.Apart
  slots : 3 ≤ layout.scratchSlots.toNat
  data : layout.dataBase.toNat ≤ base
  bound : base + size < 2147483648
  ordered : Ascending layout.dataBase.toNat homes (base + size)
  header : ∀ x ∈ homes, x.2 + Word.size * x.1.words ≤ base ∨ base + Record.header ≤ x.2

/-- The address of a cell of a variable. -/
inductive Residence.Home (R : Residence) : Nat → Nat → Int → Prop
  | intro {k i d first} : R.homes[k]? = some (d, first) → i < d.words →
      Home R k i (first + Word.size * i : Nat)

/-- Nobody lives between two addresses, which lie in the record behind its header. -/
structure Residence.Clear (R : Residence) (lo hi : Nat) : Prop where
  header : R.base + Record.header ≤ lo
  size : hi ≤ R.base + R.size
  homes : ∀ x ∈ R.homes, x.2 + Word.size * x.1.words ≤ lo ∨ hi ≤ x.2

variable {R : Residence}

namespace Residence

/-- Homes are in the order of their numbers. -/
theorem ends_before {k k' : Nat} {x y : VarDecl × Nat} (hx : R.homes[k]? = some x)
    (hy : R.homes[k']? = some y) (h : k < k') : x.2 + Word.size * x.1.words ≤ y.2 := by
  obtain ⟨hk, rfl⟩ := List.getElem?_eq_some_iff.mp hx
  obtain ⟨hk', rfl⟩ := List.getElem?_eq_some_iff.mp hy
  exact List.pairwise_iff_getElem.mp R.ordered.ordered k k' hk hk' h

theorem free {a : Nat} (h : R.base ≤ a) : R.layout.Free a :=
  R.apart.free (by have := R.data; omega)

theorem Clear.mono {lo lo' hi hi' : Nat} (h : R.Clear lo hi) (hlo : lo ≤ lo') (hhi : hi' ≤ hi) :
    R.Clear lo' hi' := by
  refine ⟨Nat.le_trans h.header hlo, Nat.le_trans hhi h.size, fun x hx => ?_⟩
  have := h.homes x hx
  omega

namespace Home

variable {k i k' i' lo hi : Nat} {a : Int}

theorem bounds (h : R.Home k i a) :
    R.layout.dataBase.toNat ≤ a ∧ a + Word.size ≤ (R.base + R.size : Nat) := by
  cases h with
  | intro hk hi =>
    obtain ⟨hlo, hhi⟩ := R.ordered.bounds _ (List.mem_of_getElem? hk)
    simp only [Word.size] at hhi ⊢
    omega

theorem free (h : R.Home k i a) : R.layout.Free a := R.apart.free h.bounds.1

/-- Nobody lives in the header. -/
theorem header (h : R.Home k i a) :
    a + Word.size ≤ R.base ∨ (R.base + Record.header : Nat) ≤ a := by
  cases h with
  | intro hk hi =>
    have := R.header _ (List.mem_of_getElem? hk)
    simp only [Word.size] at this ⊢
    omega

theorem outside (h : R.Home k i a) (hclear : R.Clear lo hi) : a < lo ∨ hi ≤ a := by
  cases h with
  | intro hk hi =>
    have := hclear.homes _ (List.mem_of_getElem? hk)
    simp only [Word.size] at this ⊢
    omega

/-- Different cells have different addresses. -/
theorem unique (h : R.Home k i a) (h' : R.Home k' i' a) : k = k' ∧ i = i' := by
  generalize ha : a = a' at h'
  obtain ⟨hk, hi⟩ := h
  obtain ⟨hk', hi'⟩ := h'
  simp only [Word.size] at ha
  rcases Nat.lt_trichotomy k k' with hlt | rfl | hlt
  · have := R.ends_before hk hk' hlt
    simp only [Word.size] at this
    omega
  · obtain ⟨rfl, rfl⟩ := Prod.mk.inj (Option.some.inj (hk.symm.trans hk'))
    exact ⟨rfl, by omega⟩
  · have := R.ends_before hk' hk hlt
    simp only [Word.size] at this
    omega

end Home

end Residence

/-! ### Memories -/

/-- The record is in use, and every home holds what its variable does. -/
structure Residence.Mirrors (R : Residence) (cells : Cells) (m : Memory) : Prop where
  active : R.layout.Active R.base R.caller R.back m
  cell : ∀ {k i a}, R.Home k i a → m a = cells k i

namespace Layout.Active

variable {l : Layout} {b back : Nat} {caller : Word} {m m' : Memory}

/-- A record stays in use as long as the frame pointer and its header do, but for the result. -/
theorem congr (h : l.Active b caller back m)
    (hframe : m' l.framePointer.toNat = m l.framePointer.toNat)
    (hsame : ∀ k, Record.returnAddress ≤ k → k < Record.header →
      m' (b + k : Nat) = m (b + k : Nat)) :
    l.Active b caller back m' := by
  refine ⟨hframe.trans h.framePointer, ?_, ?_, ?_⟩
  · exact (hsame _ (by decide) (by decide)).trans h.returnAddress
  · exact (hsame _ (by decide) (by decide)).trans h.savedStack
  · exact (hsame _ (by decide) (by decide)).trans h.savedFrame

end Layout.Active

namespace Residence.Mirrors

variable {cells : Cells} {m m' : Memory} {k i lo hi : Nat} {a : Int} {w : Word}

/-- Borrowing cells in which nobody lives changes nothing. -/
theorem of_borrows (h : R.Mirrors cells m) (hm : R.layout.Borrows lo hi m m')
    (hclear : R.Clear lo hi) : R.Mirrors cells m' := by
  have hheader := hclear.header
  refine ⟨h.active.congr hm.framePointer fun k _ hk => ?_, fun ha => ?_⟩
  · exact hm.spares _ (R.free (Nat.le_add_right ..)) (.inl (by omega))
  · exact (hm.spares _ ha.free (ha.outside hclear)).trans (h.cell ha)

theorem of_keeps {n : Nat} (h : R.Mirrors cells m) (hm : R.layout.Keeps n m m') :
    R.Mirrors cells m' := by
  refine ⟨h.active.congr (hm.framePointer R.apart) fun k _ _ => ?_, fun ha => ?_⟩
  · exact hm.of_free (R.free (Nat.le_add_right ..))
  · exact (hm.of_free ha.free).trans (h.cell ha)

/-- A variable takes a value at home. -/
theorem assign (h : R.Mirrors cells m) (ha : R.Home k i a) {n : Nat}
    (hm : R.layout.Keeps n (m.set a w) m') : R.Mirrors (cells.set k i w) m' := by
  obtain ⟨hheld, hframe, -, hothers⟩ := hm.of_set R.apart ha.free
  have hheader := ha.header
  refine ⟨h.active.congr hframe fun j hlo hhi => ?_, fun {k' i' c} hc => ?_⟩
  · exact hothers _ (R.free (Nat.le_add_right ..)) (by simp only [Word.size] at hheader; omega)
  · rw [Cells.set]
    split
    · rename_i heq
      obtain ⟨rfl, rfl⟩ := heq
      cases ha with
      | intro hk hi =>
        cases hc with
        | intro hk' hi' =>
          obtain ⟨rfl, rfl⟩ := Prod.mk.inj (Option.some.inj (hk.symm.trans hk'))
          exact hheld
    · rename_i hne
      refine (hothers c hc.free ?_).trans (h.cell hc)
      rintro rfl
      exact hne (hc.unique ha)

/-- The cell of the result is nobody's home. -/
theorem setResult (h : R.Mirrors cells m) {n : Nat}
    (hm : R.layout.Keeps n (m.set (R.base + Record.returnValue : Nat) w) m') :
    R.Mirrors cells m' := by
  have h0 : Record.returnValue = 0 := rfl
  have h4 : Record.returnAddress = 4 := rfl
  have h16 : Record.header = 16 := rfl
  obtain ⟨-, hframe, -, hothers⟩ := hm.of_set R.apart (R.free (Nat.le_add_right ..))
  refine ⟨h.active.congr hframe fun j hlo hhi => ?_, fun ha => ?_⟩
  · exact hothers _ (R.free (Nat.le_add_right ..)) (by omega)
  · have hheader := ha.header
    refine (hothers _ ha.free ?_).trans (h.cell ha)
    simp only [Word.size] at hheader
    omega

end Residence.Mirrors

/-! ### Names -/

namespace Residence

/-- What a symbol stands for in a running program. -/
inductive Denotes (R : Residence) : Symbol → Entity → Prop
  | storage {x address isGlobal k} {d : VarDecl} :
      R.homes[k]? = some (d, (Symbol.cell x d.ty address isGlobal).place R.base) →
      Denotes R (.cell x d.ty address isGlobal) (d.entity k)
  | function {s} : s.isFunction → Denotes R s .function

/-- The names of a running program stand for what a table knows them as. -/
def Names (R : Residence) (env : Environment) (t : SymbolTable) : Prop :=
  ∀ x entity, env.lookup x = some entity → ∃ s, t.find? x = some s ∧ R.Denotes s entity

end Residence

theorem VarDecl.eq_of_entity_variable : ∀ {d : VarDecl} {k n : Nat},
    d.entity k = .variable n → k = n ∧ d.ty = .int ∧ d.words = 1
  | ⟨_, _, .scalar _⟩, _, _, h => ⟨Entity.variable.inj h, rfl, rfl⟩
  | ⟨_, _, .array _ _ _ _⟩, _, _, h => nomatch h

theorem VarDecl.eq_of_entity_array : ∀ {d : VarDecl} {k n length : Nat},
    d.entity k = .array n length → k = n ∧ d.ty = .arrayInt ∧ d.words = length
  | ⟨_, _, .scalar _⟩, _, _, _, h => nomatch h
  | ⟨_, _, .array _ _ _ _⟩, _, _, _, h => ⟨(Entity.array.inj h).1, rfl, (Entity.array.inj h).2⟩

/-- A variable is known as an integer at its home. -/
theorem Residence.Denotes.of_variable {s : Symbol} {k : Nat} (h : R.Denotes s (.variable k)) :
    s.isFunction = false ∧ s.ty = .int ∧ s.isConstant = false ∧ s.Placed R.layout R.base ∧
      R.Home k 0 (s.place R.base) := by
  generalize hentity : Entity.variable k = entity at h
  cases h with
  | function => cases hentity
  | storage hk =>
    obtain ⟨rfl, hty, hwords⟩ := VarDecl.eq_of_entity_variable hentity.symm
    have hhome : R.Home _ 0 _ := .intro hk (by omega)
    rw [Nat.mul_zero, Nat.add_zero] at hhome
    have hbounds := hhome.bounds
    have hheader := hhome.header
    have hsize := R.bound
    refine ⟨rfl, hty, rfl, ⟨hhome.free, by omega, fun hlocal hzero => ?_, fun hindexed => ?_⟩,
      hhome⟩
    · have hnone : (0 : Word).toNat = 0 := rfl
      rw [Symbol.place, hlocal, if_neg Bool.false_ne_true, hzero, hnone] at hheader
      simp only [Word.size, Record.header] at hheader
      omega
    · rw [hty] at hindexed
      cases hindexed

/-- An array is known as such, and its elements are at home. -/
theorem Residence.Denotes.of_array {s : Symbol} {k length : Nat}
    (h : R.Denotes s (.array k length)) : s.isFunction = false ∧ s.ty = .arrayInt ∧
      ∀ i < length, R.Home k i (s.place R.base + Word.size * i : Nat) := by
  generalize hentity : Entity.array k length = entity at h
  cases h with
  | function => cases hentity
  | storage hk =>
    obtain ⟨rfl, hty, rfl⟩ := VarDecl.eq_of_entity_array hentity.symm
    exact ⟨rfl, hty, fun i hi => .intro hk hi⟩

/-- The address of the next word of storage, in a function whose record begins at `b`. -/
def SymbolTable.frontier (b : Nat) (t : SymbolTable) : Nat :=
  t.function.elim t.dataEnd fun f => b + f.record.size

theorem SymbolTable.frontier_of_isSome {t : SymbolTable} (h : t.function.isSome) (b : Nat) :
    t.frontier b = b + t.recordSize := by
  obtain ⟨f, hf⟩ := Option.isSome_iff_exists.mp h
  rw [frontier, recordSize, hf]
  rfl

namespace Residence.Names

variable {env : Environment} {t t' : SymbolTable}

theorem of_extends (h : R.Names env t) (ht : t.Extends t') : R.Names env t' := by
  intro x entity hx
  obtain ⟨s, hfind, hs⟩ := h x entity hx
  exact ⟨s, (ht.find? x).trans hfind, hs⟩

/-- A name is added that the table knows. -/
theorem cons (h : R.Names env t) {x : String} {s : Symbol} {entity : Entity}
    (hs : R.Denotes s entity) (ht : ∀ y, t'.find? y = if x = y then some s else t.find? y) :
    R.Names ((x, entity) :: env) t' := by
  intro y other hy
  rw [List.lookup_cons] at hy
  rw [ht]
  by_cases hxy : y = x
  · subst hxy
    rw [BEq.rfl] at hy
    rw [if_pos rfl, ← Option.some.inj hy]
    exact ⟨s, rfl, hs⟩
  · rw [beq_eq_false_iff_ne.mpr hxy] at hy
    rw [if_neg (Ne.symm hxy)]
    exact h y other hy

/-- A declared variable is found at the place that storage is taken from. -/
theorem declare {d : VarDecl} {k : Nat} (h : R.Names env t) (hd : d.Declares t t')
    (hhome : R.homes[k]? = some (d, t.frontier R.base)) :
    R.Names ((d.name.lexeme, d.entity k) :: env) t' ∧
      t'.frontier R.base = t.frontier R.base + Word.size * d.words := by
  obtain ⟨-, hstores⟩ := VarDecl.declares_iff.mp hd
  obtain ⟨-, hhi⟩ := R.ordered.bounds _ (List.mem_of_getElem? hhome)
  have hbound := R.bound
  cases hstores with
  | inner hf =>
    rename_i f _ _ _
    have hfrontier : t.frontier R.base = R.base + f.record.size := by
      rw [SymbolTable.frontier, hf]
      rfl
    rw [hfrontier] at hhome hhi ⊢
    have hplace : (Symbol.cell d.name.lexeme d.ty f.record.size false).place R.base =
        R.base + f.record.size := congrArg (R.base + ·) (Word.toNat_ofNat (by omega))
    rw [← hplace] at hhome
    refine ⟨h.cons (.storage hhome) (t.find?_withLocal hf _ _ _), ?_⟩
    have hgrown := SymbolTable.recordSize_stores (VarDecl.declares_iff.mp hd).2 (by rw [hf]; rfl)
    rw [SymbolTable.frontier_of_isSome rfl, hgrown, SymbolTable.recordSize, hf, ← Nat.add_assoc]
    rfl
  | outer hf =>
    have hfrontier : t.frontier R.base = t.dataEnd := by
      rw [SymbolTable.frontier, hf]
      rfl
    rw [hfrontier] at hhome hhi ⊢
    have hplace : (Symbol.cell d.name.lexeme d.ty t.dataEnd true).place R.base = t.dataEnd :=
      Word.toNat_ofNat (by omega)
    have hstorage : R.Denotes (.cell d.name.lexeme d.ty t.dataEnd true) (d.entity k) :=
      .storage (by rw [hplace]; exact hhome)
    refine ⟨h.cons hstorage (SymbolTable.find?_withGlobal hf _ _ _), ?_⟩
    rw [SymbolTable.frontier, SymbolTable.withGlobal, hf]
    rfl

end Residence.Names

/-- Declarations name the homes that lie where storage is taken from. -/
theorem Chain.names {ds : List VarDecl} {t t' : SymbolTable} (h : Chain VarDecl.Declares ds t t')
    {env : Environment} (ht : R.Names env t) {before rest : List (VarDecl × Nat)}
    (hhomes : R.homes = before ++ (VarDecl.layOut (t.frontier R.base) ds ++ rest)) :
    R.Names (env.declare before.length ds) t' := by
  induction h generalizing env before with
  | nil => exact ht
  | cons hd _ ih =>
    rename_i d ds t t₁ t' _
    have hhome : R.homes[before.length]? = some (d, t.frontier R.base) := by
      rw [hhomes, List.getElem?_append_right (Nat.le_refl _), Nat.sub_self]
      rfl
    obtain ⟨ht₁, hfrontier⟩ := ht.declare hd hhome
    have hhomes₁ : R.homes = (before ++ [(d, t.frontier R.base)]) ++
        (VarDecl.layOut (t₁.frontier R.base) ds ++ rest) := by
      rw [hhomes, hfrontier, VarDecl.layOut, List.append_assoc]
      rfl
    have hrest := ih ht₁ hhomes₁
    rw [List.length_append, List.length_singleton] at hrest
    exact hrest

end OnePass
