import OnePass.Proofs.Misspelling.Value
import OnePass.Proofs.Static.Program

/-!
# Tables of two programs

The misspelt program declares what the right one does, so its table holds the same context at every
point. It asks for fewer temporaries: its record is never larger, and storage may stand at another
place there. What fits in the record of the right program fits in its record too. -/

namespace OnePass

/-! ### Outlines -/

/-- The names of a scope and the shapes of what they stand for. -/
def Scope.outline (s : Scope) : List (String × Symbol) := s.symbols.map fun x => (x.name, x.shape)

theorem Scope.outline_insert {s : Scope} {x : Symbol} (h : s.contains x.name = false) :
    (s.insert x).outline = s.outline ++ [(x.name, x.shape)] := by
  rw [outline, symbols_insert h, List.map_append]
  rfl

/-- A cell that is not the first of a record has the shape of any other. -/
theorem Symbol.shape_cell {x y : String} (ty : Ty) {a b : Nat} (ha : 0 < a) (hb : 0 < b)
    (hla : a ≤ addressLimit) (hlb : b ≤ addressLimit) :
    (Symbol.cell x ty a false).shape = (Symbol.cell y ty b false).shape := by
  have hzero : ∀ n, 0 < n → n ≤ addressLimit → BitVec.ofNat 32 n ≠ 0#32 := by
    intro n hn hle heq
    have htoNat := Word.toNat_ofNat (Nat.lt_succ_of_le hle)
    rw [heq, BitVec.toNat_zero] at htoNat
    omega
  simp [Symbol.shape, Symbol.cell, hzero a ha hla, hzero b hb hlb]

namespace SymbolTable

/-- The outlines of the scopes of a table. -/
def outline (t : SymbolTable) : List (List (String × Symbol)) := t.scopes.map Scope.outline

theorem map_shape_find? (t : SymbolTable) (x : String) :
    (t.find? x).map Symbol.shape = t.outline.findSome? (·.lookup x) := by
  rw [SymbolTable.find?, List.map_findSome?, outline, List.findSome?_map]
  congr 1
  funext scope
  exact (scope.lookup_map _ x).symm

theorem outline_withFunction (t : SymbolTable) (f : OpenFunction) :
    (t.withFunction f).outline = f.scopes.map Scope.outline ++ [t.globals.outline] := by
  rw [outline, scopes_eq_innerScopes, List.map_append]
  rfl

/-! ### Two tables -/

/-- A table holds the same context as another, in a record that is not larger. -/
structure Mirrors (Γ : Context) (t t' : SymbolTable) : Prop where
  models : t.Models Γ
  models' : t'.Models Γ
  outline : t'.outline = t.outline
  opened : ∃ f', t'.function = some f' ∧ f'.record.closed = false
  header : Record.header ≤ t'.frameSize
  size : t'.frameSize ≤ t.frameSize

namespace Mirrors

variable {Γ : Context} {t t' t₁ t₁' : SymbolTable} {f : OpenFunction}

/-- A name stands for symbols of the same shape. -/
theorem find? (h : Mirrors Γ t t') {x : String} {s : Symbol} (hx : t.find? x = some s) :
    ∃ s', t'.find? x = some s' ∧ s'.shape = s.shape := by
  have hshape := t'.map_shape_find? x
  rw [h.outline, ← t.map_shape_find? x, hx, Option.map_some, Option.map_eq_some_iff] at hshape
  exact hshape

/-- What phrases leave follows what it did, as long as it has not taken more storage. -/
theorem «extends» (h : Mirrors Γ t t') (ht : t.Extends t₁) (ht' : t'.Extends t₁')
    (hsize : t₁'.frameSize ≤ t₁.frameSize) : Mirrors Γ t₁ t₁' := by
  obtain ⟨f', hf', hopen⟩ := h.opened
  obtain ⟨size, hle, hf₁'⟩ := ht'.function f' hf'
  refine ⟨ht.models h.models, ht'.models h.models', ?_, ⟨_, hf₁', hopen⟩, ?_, hsize⟩
  · rw [SymbolTable.outline, ht'.scopes, SymbolTable.outline, ht.scopes]
    exact h.outline
  · have hheader := h.header
    rw [frameSize_eq hf'] at hheader
    rw [frameSize_eq hf₁']
    exact Nat.le_trans hheader hle

/-- Where a temporary fits on one side it does on the other, and is of the same shape. -/
theorem temporary (h : Mirrors Γ t t') (hf : t.function = some f) (hroom : f.record.HasRoom 1) :
    ∃ f', t'.function = some f' ∧ f'.record.HasRoom 1 ∧
      (t'.withTemporary f').frameSize ≤ (t.withTemporary f).frameSize ∧
      ∀ n n' indexed, (f'.temporary n' indexed).shape = (f.temporary n indexed).shape := by
  obtain ⟨f', hf', hopen⟩ := h.opened
  have hheader := h.header
  have hsize := h.size
  have hfits := hroom.2
  rw [Record.header, frameSize_eq hf'] at hheader
  rw [frameSize_eq hf', frameSize_eq hf] at hsize
  rw [Word.size] at hfits
  refine ⟨f', hf', ⟨hopen, by rw [Word.size]; omega⟩, ?_, fun n n' indexed => ?_⟩
  · rw [frameSize_withTemporary hf', frameSize_withTemporary hf, frameSize_eq hf', frameSize_eq hf]
    omega
  · exact Symbol.shape_cell _ (by omega) (by omega) (by omega) (by omega)

/-! ### Blocks -/

theorem openBlock (h : Mirrors Γ t t') (hf : t.function = some f) :
    ∃ f', t'.function = some f' ∧
      Mirrors (Γ.enter []) (t.withFunction { f with blocks := {} :: f.blocks })
        (t'.withFunction { f' with blocks := {} :: f'.blocks }) := by
  obtain ⟨f', hf', hopen⟩ := h.opened
  have hheader := h.header
  have hsize := h.size
  have houtline := h.outline
  rw [frameSize_eq hf'] at hheader
  rw [frameSize_eq hf', frameSize_eq hf] at hsize
  refine ⟨f', hf', h.models.openBlock hf, h.models'.openBlock hf', ?_, ⟨_, rfl, hopen⟩, hheader,
    hsize⟩
  rw [outline_withFunction, outline_withFunction]
  rw [SymbolTable.outline, SymbolTable.outline, scopes, scopes, hf', hf, List.map_append,
    List.map_append] at houtline
  exact congrArg (List.cons _) houtline

/-- A declaration that fits in a block on one side does on the other. -/
theorem stores {bs : Bindings} (h : Mirrors (Γ.enter bs) t t') {x : String} {ty : Ty} {words : Nat}
    (hty : ty ≠ .void) (hstores : Stores x ty words t t₁) :
    ∃ t₁', Stores x ty words t' t₁' ∧
      Mirrors (Γ.enter (bs ++ [(x, if ty.isReference then .array else .variable)])) t₁ t₁' := by
  obtain ⟨f', hf', hopen'⟩ := h.opened
  have hheader := h.header
  have hsize := h.size
  have houtline := h.outline
  rw [frameSize_eq hf', Record.header] at hheader
  cases hstores with
  | outer hf =>
    have hinner := h.models.inner
    rw [SymbolTable.innerScopes, hf] at hinner
    cases hinner
  | inner hf hopen hfresh hfits =>
    rename_i f
    rw [frameSize_eq hf', frameSize_eq hf] at hsize
    have hroom := Record.fits_iff.mp hfits
    have hfits' : f'.record.fits words := Record.fits_iff.mpr (by omega)
    have hfresh' : f'.current.contains x = false := by
      rw [Scope.contains_eq_false_iff, h.models'.current_bindings hf',
        ← h.models.current_bindings hf, ← Scope.contains_eq_false_iff]
      exact hfresh
    have hshape : (Symbol.cell x ty f'.record.size false).shape =
        (Symbol.cell x ty f.record.size false).shape := by
      rw [declaredLimit] at hroom
      exact Symbol.shape_cell ty (by omega) (by omega) (by rw [addressLimit]; omega)
        (by rw [addressLimit]; omega)
    have hrecord : ∀ g : OpenFunction,
        ((g.grow words).insert (.cell x ty g.record.size false)).record = g.record.grow words := by
      intro g
      rw [OpenFunction.insert]
      split <;> rfl
    refine ⟨_, .inner hf' hopen' hfresh' hfits', h.models.withLocal hf hty hfresh words,
      h.models'.withLocal hf' hty hfresh' words, ?_, ⟨_, rfl, ?_⟩, ?_, ?_⟩
    · rw [SymbolTable.outline, SymbolTable.outline, scopes, scopes, hf', hf] at houtline
      rw [withLocal, withLocal, outline_withFunction, outline_withFunction,
        OpenFunction.scopes_insert, OpenFunction.scopes_insert, List.map_cons, List.map_cons,
        Scope.outline_insert (by exact hfresh'), Scope.outline_insert (by exact hfresh), hshape]
      have hcurrent : ∀ (g : OpenFunction) (s : Scope), (g.scopes ++ [s]).map Scope.outline =
          g.current.outline :: (g.scopes.tail.map Scope.outline ++ [s.outline]) := by
        intro g s
        rw [g.scopes_eq, List.map_append]
        rfl
      rw [hcurrent, hcurrent] at houtline
      obtain ⟨hhead, htail⟩ := List.cons.inj houtline
      rw [List.cons_append, List.cons_append]
      exact congr (congrArg List.cons (congrArg (· ++ _) hhead)) htail
    · rw [hrecord]
      exact hopen'
    · rw [withLocal, frameSize_withFunction, hrecord]
      exact Nat.le_trans hheader (Nat.le_add_right ..)
    · rw [withLocal, withLocal, frameSize_withFunction, frameSize_withFunction, hrecord, hrecord]
      exact Nat.add_le_add_right hsize _

/-- Declarations of a block that fit on one side do on the other. -/
theorem declares : ∀ (ds : List VarDecl) {t t' t₁ : SymbolTable} {bs : Bindings},
    Mirrors (Γ.enter bs) t t' → Chain VarDecl.Declares ds t t₁ →
      ∃ t₁', Chain VarDecl.Declares ds t' t₁' ∧
        Mirrors (Γ.enter (bs ++ ds.map VarDecl.binding)) t₁ t₁'
  | [], t, t', t₁, bs, h, hds => by
    cases hds
    rw [List.map_nil, List.append_nil]
    exact ⟨t', .nil, h⟩
  | d :: ds, t, t', t₁, bs, h, hds => by
    cases hds with
    | cons hd hds =>
      obtain ⟨htyped, hstores⟩ := VarDecl.declares_iff.mp hd
      obtain ⟨mid', hstores', hmid⟩ := h.stores d.ty_ne_void hstores
      rw [← d.binding_eq] at hmid
      obtain ⟨t₁', hds', hlast⟩ := declares ds hmid hds
      rw [List.map_cons, List.append_cons]
      exact ⟨t₁', .cons (VarDecl.declares_iff.mpr ⟨htyped, hstores'⟩) hds', hlast⟩

end Mirrors

end SymbolTable

end OnePass
