import OnePass.Proofs.Static.Rules
import OnePass.Proofs.Translate.Table

/-!
# Tables and contexts

A symbol table of a program without mistakes holds a context: each symbol is what its name is
declared as, scope by scope and in the same order. Its functions can be told apart by their
entries, so that a function is found again by its entry. -/

namespace OnePass

/-! ### Symbols -/

/-- What a symbol is declared as. -/
def Symbol.meaning (s : Symbol) : Meaning :=
  if s.isFunction then
    .function (if s.ty = .void then .void else .int) ((s.args.getD []).map Ty.category)
  else if s.ty.isReference then .array else .variable

/-- A symbol of a declaration without mistakes. -/
structure Symbol.Declared (s : Symbol) : Prop where
  real : s.isPlaceholder = false
  typed : s.isFunction = false → s.ty ≠ .void
  params : ∀ ty ∈ s.args.getD [], ty ≠ .void
  signature : s.isFunction → s.args.isSome

theorem Symbol.declared_cell (name : String) {ty : Ty} (hty : ty ≠ .void) (address : Nat)
    (isGlobal : Bool) : (Symbol.cell name ty address isGlobal).Declared :=
  ⟨rfl, fun _ => hty, nofun, nofun⟩

namespace Symbol

variable {s : Symbol}

theorem Declared.category (h : s.Declared) : s.category = s.meaning.category := by
  rw [Symbol.category, Symbol.meaning]
  cases hfn : s.isFunction with
  | true => rfl
  | false =>
    have hty := h.typed hfn
    cases hs : s.ty <;> simp_all [Ty.category, Ty.isReference, Meaning.category]

theorem isInt_iff (h : s.isPlaceholder = false) : s.isInt ↔ s.category = .int := by
  rw [Symbol.isInt, Symbol.category, h]
  cases s.isFunction <;> cases s.ty <;> decide

theorem isArray_iff (h : s.Declared) : s.IsArray ↔ s.meaning = .array := by
  rw [Symbol.IsArray, Symbol.meaning, h.real]
  cases s.isFunction <;> cases s.ty <;> simp [Ty.isReference]

theorem isCallable_iff (h : s.Declared) :
    s.IsCallable ↔ ∃ result params, s.meaning = .function result params := by
  rw [Symbol.IsCallable, Symbol.meaning, h.real]
  cases s.isFunction <;> cases s.ty.isReference <;> simp

end Symbol

/-! ### Scopes -/

namespace Scope

/-- What a scope says of its names. -/
def bindings (s : Scope) : Bindings := s.symbols.map fun x => (x.name, x.meaning)

theorem lookup_map {α : Type} (s : Scope) (f : Symbol → α) (x : String) :
    (s.symbols.map fun y => (y.name, f y)).lookup x = (s.find? x).map f := by
  rw [find?]
  induction s.symbols with
  | nil => rfl
  | cons y ys ih =>
    rw [List.map_cons, List.lookup_cons, List.find?_cons, BEq.comm (a := x)]
    cases y.name == x with
    | true => rfl
    | false => exact ih

theorem lookup_bindings (s : Scope) (x : String) :
    s.bindings.lookup x = (s.find? x).map Symbol.meaning := s.lookup_map _ x

theorem contains_eq_false_iff (s : Scope) (x : String) :
    s.contains x = false ↔ x ∉ s.bindings.map (·.1) := by
  simp [contains, bindings]

theorem bindings_insert {s : Scope} {x : Symbol} (h : s.contains x.name = false) :
    (s.insert x).bindings = s.bindings ++ [(x.name, x.meaning)] := by
  rw [bindings, symbols_insert h, List.map_append]
  rfl

end Scope

namespace OpenFunction

theorem scopes_eq (f : OpenFunction) : f.scopes = f.current :: f.scopes.tail := by
  rw [scopes, current]
  cases f.blocks <;> rfl

theorem scopes_insert (f : OpenFunction) (x : Symbol) :
    (f.insert x).scopes = f.current.insert x :: f.scopes.tail := by
  rw [scopes, insert, current, scopes]
  cases f.blocks <;> rfl

end OpenFunction

/-! ### Tables -/

namespace SymbolTable

/-- The scopes of the open function, innermost first. -/
def innerScopes (t : SymbolTable) : List Scope := t.function.elim [] OpenFunction.scopes

theorem scopes_eq_innerScopes (t : SymbolTable) : t.scopes = t.innerScopes ++ [t.globals] := by
  rw [scopes, innerScopes]
  cases t.function <;> rfl

/-- A table holds a context. -/
structure Models (t : SymbolTable) (Γ : Context) : Prop where
  file : t.globals.bindings = Γ.file
  inner : t.innerScopes.map Scope.bindings = Γ.inner
  declared : ∀ scope ∈ t.scopes, ∀ s ∈ scope.symbols, s.Declared
  storage : ∀ scope ∈ t.innerScopes, ∀ s ∈ scope.symbols, s.isFunction = false
  builtin : ∃ rest, t.globals.symbols = output :: rest ∧ ∀ s ∈ rest, s.name ≠ outputName
  entries : ∀ s ∈ t.globals.symbols, ∀ s' ∈ t.globals.symbols, s.isFunction → s'.isFunction →
    s.value = s'.value → s = s'

variable {t t' : SymbolTable} {Γ : Context}

theorem Models.initial (dataBase : Word) : (initial dataBase).Models ⟨Context.builtins, []⟩ := by
  refine ⟨rfl, rfl, ?_, nofun, ⟨[], rfl, nofun⟩, ?_⟩
  · intro scope hscope s hs
    obtain rfl := List.mem_singleton.mp hscope
    obtain rfl := List.mem_singleton.mp hs
    exact ⟨rfl, nofun, by decide, fun _ => rfl⟩
  · intro s hs s' hs' _ _ _
    rw [List.mem_singleton.mp hs, List.mem_singleton.mp hs']

theorem Models.find? (h : t.Models Γ) (x : String) :
    (t.find? x).map Symbol.meaning = Γ.find? x := by
  rw [SymbolTable.find?, List.map_findSome?, scopes_eq_innerScopes, Context.find?, ← h.inner,
    ← h.file, ← List.map_singleton (f := Scope.bindings), ← List.map_append, List.findSome?_map]
  congr 1
  funext scope
  exact (scope.lookup_bindings x).symm

/-- A symbol that is found stands in a scope of the table. -/
theorem mem_of_find? {x : String} {s : Symbol} (hs : t.find? x = some s) :
    ∃ scope ∈ t.scopes, s ∈ scope.symbols ∧ s.name = x := by
  obtain ⟨scope, hscope, hfind⟩ := List.exists_of_findSome?_eq_some hs
  exact ⟨scope, hscope, List.mem_of_find?_eq_some hfind, by simpa using List.find?_some hfind⟩

theorem Models.declared_of_find? (h : t.Models Γ) {x : String} {s : Symbol}
    (hs : t.find? x = some s) : s.Declared := by
  obtain ⟨scope, hscope, hmem, -⟩ := mem_of_find? hs
  exact h.declared scope hscope s hmem

/-- Only the file holds functions. -/
theorem Models.function_mem (h : t.Models Γ) {x : String} {s : Symbol} (hs : t.find? x = some s)
    (hfn : s.isFunction) : s ∈ t.globals.symbols ∧ s.name = x := by
  obtain ⟨scope, hscope, hmem, hname⟩ := mem_of_find? hs
  rw [scopes_eq_innerScopes, List.mem_append, List.mem_singleton] at hscope
  rcases hscope with hinner | rfl
  · rw [h.storage scope hinner s hmem] at hfn
    cases hfn
  · exact ⟨hmem, hname⟩

/-- A function is found again by its entry. -/
theorem Models.calleeOf (h : t.Models Γ) {s : Symbol} (hs : s ∈ t.globals.symbols)
    (hfn : s.isFunction) : Gen.calleeOf t s = s := by
  have hinner : t.innerScopes.findSome? (·.functionAt? s.value) = none := by
    rw [List.findSome?_eq_none_iff]
    intro scope hscope
    rw [Scope.functionAt?, List.find?_eq_none]
    intro y hy
    simp [h.storage scope hscope y hy]
  have hfile : t.globals.functionAt? s.value = some s := by
    cases hfind : t.globals.functionAt? s.value with
    | none =>
      have hnone := List.find?_eq_none.mp hfind s hs
      simp [hfn] at hnone
    | some y =>
      have hy := List.find?_some hfind
      simp only [Bool.and_eq_true, beq_iff_eq] at hy
      rw [h.entries y (List.mem_of_find?_eq_some hfind) s hs hy.1 hfn hy.2]
  rw [Gen.calleeOf, functionAt?, scopes_eq_innerScopes, List.findSome?_append, hinner]
  simp [hfile]

/-- The name of the built-in function is its own. -/
theorem Models.eq_output (h : t.Models Γ) {s : Symbol} (hs : s ∈ t.globals.symbols)
    (hname : s.name = outputName) : s = output := by
  obtain ⟨rest, hsymbols, hrest⟩ := h.builtin
  rw [hsymbols, List.mem_cons] at hs
  rcases hs with rfl | hs
  · rfl
  · exact absurd hname (hrest s hs)

/-! ### Operations -/

theorem Extends.innerScopes (h : t.Extends t') : t'.innerScopes = t.innerScopes := by
  have hscopes := h.scopes
  rw [scopes_eq_innerScopes, scopes_eq_innerScopes, h.globals] at hscopes
  exact List.append_cancel_right hscopes

/-- Storage taken for temporaries changes no name. -/
theorem Extends.models (h : t.Extends t') (ht : t.Models Γ) : t'.Models Γ := by
  refine ⟨?_, ?_, ?_, ?_, ?_, ?_⟩
  · rw [h.globals]
    exact ht.file
  · rw [h.innerScopes]
    exact ht.inner
  · rw [h.scopes]
    exact ht.declared
  · rw [h.innerScopes]
    exact ht.storage
  · rw [h.globals]
    exact ht.builtin
  · rw [h.globals]
    exact ht.entries

/-- A table in which the innermost scope of the function has changed. -/
theorem Models.withFunction {f f' : OpenFunction} {bs bs' : Bindings} {scope : Scope}
    (h : t.Models (Γ.enter bs)) (hf : t.function = some f)
    (hscopes : f'.scopes = scope :: f.scopes.tail) (hbindings : scope.bindings = bs')
    (hscope : ∀ s ∈ scope.symbols, s.Declared ∧ s.isFunction = false) :
    (t.withFunction f').Models (Γ.enter bs') := by
  have hinner : t.innerScopes = f.current :: f.scopes.tail := by
    rw [SymbolTable.innerScopes, hf]
    exact f.scopes_eq
  have hnew : (t.withFunction f').innerScopes = scope :: f.scopes.tail := hscopes
  have htail : f.scopes.tail.map Scope.bindings = Γ.inner := by
    have := h.inner
    rw [hinner, List.map_cons] at this
    exact (List.cons.inj this).2
  refine ⟨h.file, ?_, ?_, ?_, h.builtin, h.entries⟩
  · rw [hnew, List.map_cons, hbindings, htail]
    rfl
  · intro scope' hscope'
    rw [scopes_eq_innerScopes, hnew, List.cons_append, List.mem_cons] at hscope'
    rcases hscope' with rfl | hold
    · exact fun s hs => (hscope s hs).1
    · refine h.declared scope' ?_
      rw [scopes_eq_innerScopes, hinner]
      exact List.mem_cons_of_mem _ hold
  · intro scope' hscope'
    rw [hnew, List.mem_cons] at hscope'
    rcases hscope' with rfl | hold
    · exact fun s hs => (hscope s hs).2
    · refine h.storage scope' ?_
      rw [hinner]
      exact List.mem_cons_of_mem _ hold

theorem Models.current_bindings {f : OpenFunction} {bs : Bindings} (h : t.Models (Γ.enter bs))
    (hf : t.function = some f) : f.current.bindings = bs := by
  have hinner := h.inner
  rw [SymbolTable.innerScopes, hf, Option.elim_some, f.scopes_eq, List.map_cons] at hinner
  exact (List.cons.inj hinner).1

theorem Models.withLocal {f : OpenFunction} {bs : Bindings} {x : String} {ty : Ty}
    (h : t.Models (Γ.enter bs)) (hf : t.function = some f) (hty : ty ≠ .void)
    (hfresh : f.current.contains x = false) (words : Nat) :
    (t.withLocal f x ty words).Models
      (Γ.enter (bs ++ [(x, if ty.isReference then .array else .variable)])) := by
  have hinner : t.innerScopes = f.current :: f.scopes.tail := by
    rw [SymbolTable.innerScopes, hf]
    exact f.scopes_eq
  have hbs := h.current_bindings hf
  have hcurrent : f.current ∈ t.innerScopes := by
    rw [hinner]
    exact List.mem_cons_self ..
  refine h.withFunction hf (OpenFunction.scopes_insert _ _) ?_ ?_
  · rw [← hbs]
    exact Scope.bindings_insert hfresh
  · intro s hs
    rw [Scope.symbols_insert (by exact hfresh), List.mem_append, List.mem_singleton] at hs
    rcases hs with hs | rfl
    · refine ⟨h.declared _ ?_ s hs, h.storage _ hcurrent s hs⟩
      rw [scopes_eq_innerScopes]
      exact List.mem_append_left _ hcurrent
    · exact ⟨Symbol.declared_cell _ hty _ _, rfl⟩

theorem Models.openBlock {f : OpenFunction} (h : t.Models Γ) (hf : t.function = some f) :
    (t.withFunction { f with blocks := {} :: f.blocks }).Models (Γ.enter []) := by
  have hinner : t.innerScopes = f.scopes := by rw [SymbolTable.innerScopes, hf]; rfl
  have hnew : (t.withFunction { f with blocks := {} :: f.blocks }).innerScopes =
      {} :: t.innerScopes := by
    rw [hinner]
    rfl
  refine ⟨h.file, ?_, ?_, ?_, h.builtin, h.entries⟩
  · rw [hnew, List.map_cons, h.inner]
    rfl
  · intro scope hscope
    rw [scopes_eq_innerScopes, hnew, List.cons_append, List.mem_cons] at hscope
    rcases hscope with rfl | hold
    · exact nofun
    · refine h.declared scope ?_
      rw [scopes_eq_innerScopes]
      exact hold
  · intro scope hscope
    rw [hnew, List.mem_cons] at hscope
    rcases hscope with rfl | hold
    · exact nofun
    · exact h.storage scope hold

/-- A table between declarations, in which a symbol was added to the file. -/
theorem Models.addFile {file : Bindings} {x : Symbol}
    (h : t.Models ⟨file, []⟩) (hx : x.Declared) (hfresh : t.globals.contains x.name = false)
    (hentry : x.isFunction → ∀ s ∈ t.globals.symbols, s.isFunction → s.value ≠ x.value)
    (hsymbols : t'.globals.symbols = t.globals.symbols ++ [x]) (hnone : t'.function = none) :
    t'.Models ⟨file ++ [(x.name, x.meaning)], []⟩ := by
  have hglobals : ∀ s ∈ t.globals.symbols, s.Declared := by
    refine h.declared t.globals ?_
    rw [scopes_eq_innerScopes]
    exact List.mem_append_right _ (List.mem_singleton_self _)
  have hinner : t'.innerScopes = [] := by rw [SymbolTable.innerScopes, hnone]; rfl
  refine ⟨?_, by rw [hinner]; rfl, ?_, by rw [hinner]; exact nofun, ?_, ?_⟩
  · rw [Scope.bindings, hsymbols, List.map_append, ← Scope.bindings, h.file]
    rfl
  · intro scope hscope s hs
    rw [scopes_eq_innerScopes, hinner, List.nil_append, List.mem_singleton] at hscope
    subst hscope
    rw [hsymbols, List.mem_append, List.mem_singleton] at hs
    rcases hs with hs | rfl
    · exact hglobals s hs
    · exact hx
  · obtain ⟨rest, hrest, hnames⟩ := h.builtin
    refine ⟨rest ++ [x], by rw [hsymbols, hrest]; rfl, ?_⟩
    intro s hs
    rw [List.mem_append, List.mem_singleton] at hs
    rcases hs with hs | rfl
    · exact hnames s hs
    · intro hname
      rw [Scope.contains, hrest, List.any_cons, hname] at hfresh
      simp [output] at hfresh
  · intro s hs s' hs' hfn hfn' hvalue
    rw [hsymbols, List.mem_append, List.mem_singleton] at hs hs'
    rcases hs with hs | rfl <;> rcases hs' with hs' | rfl
    · exact h.entries s hs s' hs' hfn hfn' hvalue
    · exact absurd hvalue (hentry hfn' s hs hfn)
    · exact absurd hvalue.symm (hentry hfn s' hs' hfn')
    · rfl

theorem Models.openFunction {file : Bindings} {f : OpenFunction} (h : t.Models ⟨file, []⟩)
    (hblocks : f.blocks = []) (hnone : t.function = none)
    (houter : ∀ s ∈ f.outer.symbols, s.Declared ∧ s.isFunction = false) :
    (t.withFunction f).Models ⟨file, [f.outer.bindings]⟩ := by
  have hinner : (t.withFunction f).innerScopes = [f.outer] := by
    rw [SymbolTable.innerScopes, SymbolTable.withFunction, Option.elim_some, OpenFunction.scopes,
      hblocks]
    rfl
  have hold : t.innerScopes = [] := by rw [SymbolTable.innerScopes, hnone]; rfl
  refine ⟨h.file, by rw [hinner]; rfl, ?_, ?_, h.builtin, h.entries⟩
  · intro scope hscope
    rw [scopes_eq_innerScopes, hinner, List.singleton_append, List.mem_cons] at hscope
    rcases hscope with rfl | hscope
    · exact fun s hs => (houter s hs).1
    · refine h.declared scope ?_
      rw [scopes_eq_innerScopes, hold]
      exact hscope
  · intro scope hscope s hs
    rw [hinner, List.mem_singleton] at hscope
    subst hscope
    exact (houter s hs).2

theorem Models.closeFunction (h : t.Models Γ) :
    ({ t with function := none } : SymbolTable).Models ⟨Γ.file, []⟩ := by
  refine ⟨h.file, rfl, ?_, nofun, h.builtin, h.entries⟩
  intro scope hscope
  obtain rfl := List.mem_singleton.mp hscope
  refine h.declared t.globals ?_
  rw [scopes_eq_innerScopes]
  exact List.mem_append_right _ (List.mem_singleton_self _)

end SymbolTable

theorem Bindings.distinct_append_singleton {bs : Bindings} {b : String × Meaning} :
    Bindings.Distinct (bs ++ [b]) ↔ bs.Distinct ∧ b.1 ∉ bs.map (·.1) := by
  rw [Bindings.Distinct, List.map_append, List.nodup_append]
  constructor
  · rintro ⟨h, -, hne⟩
    exact ⟨h, fun hmem => hne _ hmem _ (List.mem_singleton_self _) rfl⟩
  · rintro ⟨h, hnew⟩
    refine ⟨h, List.pairwise_singleton _ _, ?_⟩
    rintro a ha b hb rfl
    rw [List.map_singleton, List.mem_singleton] at hb
    exact hnew (hb ▸ ha)

theorem Bindings.Distinct.not_mem {bs bs' : Bindings} {b : String × Meaning}
    (h : Bindings.Distinct (bs ++ [b] ++ bs')) : b.1 ∉ bs.map (·.1) := by
  rw [Bindings.Distinct, List.map_append] at h
  exact (Bindings.distinct_append_singleton.mp (List.nodup_append.mp h).1).2

/-! ### Storage -/

namespace VarDecl

/-- The type of the storage of a declaration. -/
def ty (d : VarDecl) : Ty :=
  match d.extent with
  | .scalar _ => .int
  | .array _ _ _ _ => .arrayInt

/-- The words of storage of a declaration. -/
def words (d : VarDecl) : Nat :=
  match d.extent with
  | .scalar _ => 1
  | .array _ _ _ _ => d.arrayWords

theorem ty_ne_void (d : VarDecl) : d.ty ≠ .void := by
  rw [ty]
  split <;> decide

theorem binding_eq (d : VarDecl) :
    d.binding = (d.name.lexeme, if d.ty.isReference then .array else .variable) := by
  rw [binding, ty]
  cases d.extent <;> rfl

theorem words_le (d : VarDecl) : d.words ≤ d.arrayWords + d.tokens.length := by
  rw [words]
  split
  · exact Nat.le_trans (Nat.le_add_left 1 _) (Nat.le_add_left _ _)
  · exact Nat.le_add_right ..

/-- A declaration that is well typed gets storage as any other name would. -/
theorem declares_iff {d : VarDecl} {t t' : SymbolTable} :
    d.Declares t t' ↔ d.WellTyped ∧ SymbolTable.Stores d.name.lexeme d.ty d.words t t' := by
  constructor
  · intro h
    cases h with
    | scalar hstores => exact ⟨⟨rfl, trivial⟩, hstores⟩
    | array hn hstores =>
      refine ⟨⟨rfl, by simp only [Numeral.InRange, hn]; rfl⟩, ?_⟩
      simp only [words, arrayWords, hn]
      exact hstores
  · rintro ⟨hd, hstores⟩
    obtain ⟨⟨base, line⟩, x, extent⟩ := d
    obtain rfl : base = .int := hd.1
    cases extent with
    | scalar semicolon => exact .scalar hstores
    | array opening n closing semicolon =>
      obtain ⟨w, hw⟩ := Option.isSome_iff_exists.mp hd.2
      simp only [words, arrayWords, hw] at hstores
      exact .array hw hstores

end VarDecl

/-- A declaration in a block adds its binding to those of the block. -/
theorem VarDecl.Declares.models {d : VarDecl} {t t' : SymbolTable} {Γ : Context} {bs : Bindings}
    (h : d.Declares t t') (ht : t.Models (Γ.enter bs)) :
    d.WellTyped ∧ d.binding.1 ∉ bs.map (·.1) ∧ t'.Models (Γ.enter (bs ++ [d.binding])) := by
  obtain ⟨hd, hstores⟩ := VarDecl.declares_iff.mp h
  refine ⟨hd, ?_⟩
  cases hstores with
  | inner hf hopen hfresh hfits =>
    have hbs : _ = bs := ht.current_bindings hf
    refine ⟨?_, ?_⟩
    · rw [← hbs]
      exact (Scope.contains_eq_false_iff _ _).mp hfresh
    · rw [d.binding_eq]
      exact ht.withLocal hf d.ty_ne_void hfresh _
  | outer hf _ _ =>
    have hinner := ht.inner
    rw [SymbolTable.innerScopes, hf] at hinner
    cases hinner

/-- Declarations of a block that get storage are well typed, with distinct names. -/
theorem Chain.models {Γ : Context} : ∀ (ds : List VarDecl) {t t' : SymbolTable} {bs : Bindings},
    Chain VarDecl.Declares ds t t' → t.Models (Γ.enter bs) → bs.Distinct →
      Bindings.Distinct (bs ++ ds.map VarDecl.binding) ∧ (∀ d ∈ ds, d.WellTyped) ∧
        t'.Models (Γ.enter (bs ++ ds.map VarDecl.binding))
  | [], t, t', bs, h, ht, hbs => by
    cases h
    rw [List.map_nil, List.append_nil]
    exact ⟨hbs, nofun, ht⟩
  | d :: ds, t, t', bs, h, ht, hbs => by
    cases h with
    | cons hd hds =>
      obtain ⟨htyped, hnew, ht₁⟩ := hd.models ht
      obtain ⟨hdistinct, hall, ht'⟩ := Chain.models ds hds ht₁
        (Bindings.distinct_append_singleton.mpr ⟨hbs, hnew⟩)
      rw [List.append_assoc] at hdistinct ht'
      exact ⟨hdistinct, List.forall_mem_cons.mpr ⟨htyped, hall⟩, ht'⟩

/-! ### Heads of functions -/

namespace Param

theorem ty_ne_void (p : Param) : p.ty ≠ .void := by
  rw [Param.ty]
  cases p.brackets.isSome <;> decide

theorem isReference_ty (p : Param) : p.ty.isReference = p.brackets.isSome := by
  rw [Param.ty]
  cases p.brackets.isSome <;> rfl

theorem category_ty (p : Param) : p.ty.category = p.meaning.category := by
  rw [Param.ty, Param.meaning]
  cases p.brackets.isSome <;> rfl

end Param

/-- A function whose head has been read. -/
def OpenFunction.head (name : String) (entry : Nat) (ps : List Param) : OpenFunction :=
  { name, entry, registered := true
    params := ps.map Param.ty
    record := ({} : Record).grow ps.length
    outer := ⟨ps.zipIdx.map fun (p, i) =>
      .cell p.name.lexeme p.ty (Record.header + Word.size * i) false⟩ }

namespace SymbolTable

/-- The symbol of a function with some parameters. -/
def headSymbol (name : String) (ty : Ty) (entry : Nat) (ps : List Param) : Symbol :=
  { functionSymbol name ty entry with args := some (ps.map Param.ty) }

/-- The table after the head of a function. -/
def withHead (t : SymbolTable) (name : String) (ty : Ty) (entry : Nat) (ps : List Param) :
    SymbolTable :=
  { t with
    globals := ⟨t.globals.symbols ++ [headSymbol name ty entry ps]⟩
    function := some (.head name entry ps) }

variable {t : SymbolTable} {name : String}

theorem withEntry_eq_withHead (hfresh : t.globals.contains name = false) (ty : Ty) (entry : Nat) :
    t.withEntry name ty entry = t.withHead name ty entry [] := by
  have hglobals : t.globals.insert (functionSymbol name ty entry) =
      ⟨t.globals.symbols ++ [functionSymbol name ty entry]⟩ := by
    rw [Scope.insert, if_neg (by exact ne_true_of_eq_false hfresh)]
  rw [withEntry, hglobals]
  rfl

theorem withParameter_withHead (hfresh : t.globals.contains name = false) (ty : Ty) (entry : Nat)
    (ps : List Param) (p : Param)
    (hnew : (OpenFunction.head name entry ps).outer.contains p.name.lexeme = false) :
    (t.withHead name ty entry ps).withParameter (.head name entry ps) p.name.lexeme p.ty =
      t.withHead name ty entry (ps ++ [p]) := by
  have hglobals : (t.withHead name ty entry ps).addType (.head name entry ps) p.ty =
      ⟨t.globals.symbols ++ [headSymbol name ty entry (ps ++ [p])]⟩ := by
    have hmodify := Scope.modify_last (x := headSymbol name ty entry ps) hfresh
      fun x => { x with args := some (ps.map Param.ty ++ [p.ty]) }
    rw [addType]
    refine Eq.trans hmodify ?_
    rw [headSymbol, headSymbol, List.map_append]
    rfl
  have houter : (OpenFunction.head name entry ps).outer.insert
      (.cell p.name.lexeme p.ty (OpenFunction.head name entry ps).record.size false) =
        (OpenFunction.head name entry (ps ++ [p])).outer := by
    rw [Scope.insert, if_neg (by exact ne_true_of_eq_false hnew), OpenFunction.head,
      OpenFunction.head, List.zipIdx_append]
    simp [Record.grow, Record.header]
  have hrecord : (({} : Record).grow ps.length).grow 1 = ({} : Record).grow (ps ++ [p]).length := by
    simp [Record.grow, Nat.mul_add, Nat.add_assoc]
  have hparams : ps.map Param.ty ++ [p.ty] = (ps ++ [p]).map Param.ty := by simp
  have hfunction : ({ (OpenFunction.head name entry ps).grow 1 with
      params := (OpenFunction.head name entry ps).params ++ [p.ty]
      outer := (OpenFunction.head name entry (ps ++ [p])).outer } : OpenFunction) =
        .head name entry (ps ++ [p]) := by
    simp only [OpenFunction.head, OpenFunction.grow, hrecord, hparams]
  rw [withParameter, hglobals, houter, hfunction]
  rfl

theorem bindings_head (name : String) (entry : Nat) (ps : List Param) :
    (OpenFunction.head name entry ps).outer.bindings = ps.map Param.binding := by
  have hcell : ∀ p : Param, ∀ i, (Symbol.cell p.name.lexeme p.ty i false).meaning = p.meaning := by
    intro p i
    rw [Symbol.meaning, Param.meaning, ← p.isReference_ty]
    rfl
  have hmap : (ps.zipIdx.map Prod.fst).map Param.binding = ps.map Param.binding := by
    rw [List.zipIdx_map_fst]
  rw [← hmap, Scope.bindings, OpenFunction.head, List.map_map, List.map_map]
  refine List.map_congr_left fun x _ => ?_
  exact congrArg (Prod.mk x.1.name.lexeme) (hcell x.1 _)

/-- A table after the head of a function holds the function in the file, and its parameters. -/
theorem Models.withHead {file : Bindings} (h : t.Models ⟨file, []⟩)
    (hfresh : t.globals.contains name = false) (base : BaseType) {entry : Nat}
    (hentry : ∀ s ∈ t.globals.symbols, s.isFunction → s.value ≠ BitVec.ofNat 32 entry)
    (ps : List Param) :
    (t.withHead name base.ty entry ps).Models
      ⟨file ++ [(name, .function base (ps.map (·.meaning.category)))], [ps.map Param.binding]⟩ := by
  let x := headSymbol name base.ty entry ps
  have hmeaning : x.meaning = .function base (ps.map (·.meaning.category)) := by
    have hbase : (if base.ty = .void then BaseType.void else .int) = base := by cases base <;> rfl
    have hparams : (ps.map Param.ty).map Ty.category = ps.map (·.meaning.category) := by
      rw [List.map_map]
      exact List.map_congr_left fun p _ => p.category_ty
    rw [← hparams, ← hbase]
    rfl
  have htypes : ∀ ty ∈ x.args.getD [], ty ≠ .void := by
    intro ty hty
    obtain ⟨p, -, rfl⟩ := List.mem_map.mp hty
    exact p.ty_ne_void
  have hfile : ({ t.withHead name base.ty entry ps with function := none } : SymbolTable).Models _ :=
    h.addFile (x := x) ⟨rfl, nofun, htypes, fun _ => rfl⟩ hfresh (fun _ => hentry) rfl rfl
  have hopen := hfile.openFunction (f := .head name entry ps) rfl rfl ?_
  · rw [bindings_head, hmeaning] at hopen
    exact hopen
  · intro s hs
    obtain ⟨y, -, rfl⟩ := List.mem_map.mp hs
    exact ⟨Symbol.declared_cell _ y.1.ty_ne_void _ _, rfl⟩

end SymbolTable

theorem Param.Adds.withHead {t t' : SymbolTable} {name : String} {ty : Ty} {entry : Nat}
    {ps : List Param} {p : Param} (h : p.Adds (t.withHead name ty entry ps) t')
    (hfresh : t.globals.contains name = false) :
    t' = t.withHead name ty entry (ps ++ [p]) ∧ p.type.base = .int ∧
      p.binding.1 ∉ (ps.map Param.binding).map (·.1) := by
  cases h with
  | intro hbase hf hblocks hroom hnew =>
    obtain rfl := Option.some.inj hf
    refine ⟨SymbolTable.withParameter_withHead hfresh ty entry ps p hnew, hbase, ?_⟩
    rw [Scope.contains_eq_false_iff, SymbolTable.bindings_head] at hnew
    exact hnew

/-- Parameters that get their places are integers or arrays of them, with distinct names. -/
theorem Chain.withHead {t t' : SymbolTable} {name : String} {ty : Ty} {entry : Nat}
    (hfresh : t.globals.contains name = false) : ∀ (ps : List Param) {done : List Param},
    Chain Param.Adds ps (t.withHead name ty entry done) t' →
    Bindings.Distinct (done.map Param.binding) →
      t' = t.withHead name ty entry (done ++ ps) ∧ (∀ p ∈ ps, p.type.base = .int) ∧
        Bindings.Distinct ((done ++ ps).map Param.binding)
  | [], done, h, hdone => by
    cases h
    rw [List.append_nil]
    exact ⟨rfl, nofun, hdone⟩
  | p :: ps, done, h, hdone => by
    cases h with
    | cons hp hps =>
      obtain ⟨rfl, hbase, hnew⟩ := hp.withHead hfresh
      have hdistinct : Bindings.Distinct ((done ++ [p]).map Param.binding) := by
        rw [List.map_append]
        exact Bindings.distinct_append_singleton.mpr ⟨hdone, hnew⟩
      obtain ⟨heq, hall, hrest⟩ := Chain.withHead hfresh ps hps hdistinct
      rw [List.append_assoc, List.singleton_append] at heq hrest
      exact ⟨heq, List.forall_mem_cons.mpr ⟨hbase, hall⟩, hrest⟩

end OnePass
