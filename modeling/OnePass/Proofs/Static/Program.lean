import OnePass.Proofs.Static.Statement
import OnePass.Proofs.Word

/-!
# Checking programs

Declaration by declaration, the table holds the names of the file so far, and each function in it
was entered at a position that has been passed. So a program has a translation if and only if it
is well typed, as long as its storage and its code fit. -/

namespace OnePass

/-! ### Tables between declarations -/

/-- A table between declarations, at a position: it holds the names of a file. -/
structure SymbolTable.Between (t : SymbolTable) (file : Bindings) (pc : Nat) : Prop where
  models : t.Models ⟨file, []⟩
  passed : ∀ s ∈ t.globals.symbols, s.isFunction → s = output ∨ s.value.toNat < pc

namespace SymbolTable.Between

variable {t t' : SymbolTable} {file : Bindings} {pc : Nat}

theorem initial (dataBase : Word) : (SymbolTable.initial dataBase).Between Context.builtins 1 :=
  ⟨.initial dataBase, fun _ hs _ => .inl (List.mem_singleton.mp hs)⟩

theorem mono {pc' : Nat} (h : t.Between file pc) (hle : pc ≤ pc') : t.Between file pc' :=
  ⟨h.models, fun s hs hfn => (h.passed s hs hfn).imp_right fun hlt => Nat.lt_of_lt_of_le hlt hle⟩

theorem function_eq_none (h : t.Between file pc) : t.function = none := by
  have hinner := h.models.inner
  rw [SymbolTable.innerScopes] at hinner
  cases hf : t.function with
  | none => rfl
  | some f =>
    rw [hf, Option.elim_some, f.scopes_eq] at hinner
    cases hinner

theorem contains_eq_false_iff (h : t.Between file pc) (x : String) :
    t.globals.contains x = false ↔ x ∉ file.map (·.1) := by
  rw [Scope.contains_eq_false_iff, h.models.file]

/-- A position that comes now is the entry of no function so far. -/
theorem entry_ne (h : t.Between file pc) (hpc : pc < 2147483648) :
    ∀ s ∈ t.globals.symbols, s.isFunction → s.value ≠ BitVec.ofNat 32 pc := by
  intro s hs hfn hvalue
  have htoNat := Word.toNat_ofNat hpc
  rcases h.passed s hs hfn with rfl | hlt
  · have houtput : output.value.toNat = 4294967295 := rfl
    rw [hvalue, htoNat] at houtput
    omega
  · rw [hvalue, htoNat] at hlt
    exact Nat.lt_irrefl _ hlt

/-- A function that is closed again leaves its binding in the file. -/
theorem closeFunction (h : t.Between file pc) (hpc : pc < 2147483648) {name : String}
    (hfresh : t.globals.contains name = false) (base : BaseType) (ps : List Param)
    (hext : (t.withHead name base.ty pc ps).Extends t') {n : Nat} (hn : 0 < n) :
    ({ t' with function := none } : SymbolTable).Between
      (file ++ [(name, .function base (ps.map (·.meaning.category)))]) (pc + n) := by
  have hhead := h.models.withHead hfresh base (h.entry_ne hpc) ps
  refine ⟨(hext.models hhead).closeFunction, fun s hs hfunction => ?_⟩
  rw [hext.globals] at hs
  rcases List.mem_append.mp hs with hs | hs
  · exact (h.passed s hs hfunction).imp_right fun hlt => Nat.lt_add_right _ hlt
  · obtain rfl := List.mem_singleton.mp hs
    refine .inr (Nat.lt_of_le_of_lt (Nat.le_of_eq ?_) (Nat.lt_add_of_pos_right hn))
    exact Word.toNat_ofNat hpc

end SymbolTable.Between

/-! ### Translations are checked -/

/-- A declaration of storage outside functions adds its binding to the file. -/
theorem VarDecl.Declares.between {d : VarDecl} {t t' : SymbolTable} {file : Bindings} {pc : Nat}
    (h : d.Declares t t') (ht : t.Between file pc) :
    (d.binding.1 ∉ file.map (·.1) ∧ d.WellTyped) ∧ t'.Between (file ++ [d.binding]) pc := by
  obtain ⟨hd, hstores⟩ := VarDecl.declares_iff.mp h
  cases hstores with
  | inner hf =>
    rw [ht.function_eq_none] at hf
    cases hf
  | outer hf hfresh hroom =>
    have hsymbols := Scope.symbols_insert (x := .cell d.name.lexeme d.ty t.dataEnd true) hfresh
    refine ⟨⟨(ht.contains_eq_false_iff _).mp hfresh, hd⟩, ?_, ?_⟩
    · rw [d.binding_eq]
      exact ht.models.addFile (Symbol.declared_cell _ d.ty_ne_void _ _) hfresh nofun hsymbols hf
    · intro s hs hfn
      rw [SymbolTable.withGlobal, hsymbols, List.mem_append, List.mem_singleton] at hs
      rcases hs with hs | rfl
      · exact ht.passed s hs hfn
      · cases hfn

/-- A function with a translation is well typed, and adds its binding to the file. -/
theorem FnDecl.Translates.between {l : Layout} {f : FnDecl} {t t' : SymbolTable}
    {file : Bindings} {pc : Nat} {is : List Instruction} {frame : Frame}
    (h : f.Translates l pc t is t' frame) (ht : t.Between file pc) (hpc : pc < 2147483648) :
    (f.binding.1 ∉ file.map (·.1) ∧ f.WellTyped file) ∧
      t'.Between (file ++ [f.binding]) (pc + is.length) := by
  have hlength := h.length_le.1
  cases h with
  | intro hf hfresh hparams hbody hfn =>
    rw [SymbolTable.withEntry_eq_withHead hfresh] at hparams
    obtain ⟨rfl, hall, hdistinct⟩ := Chain.withHead hfresh _ hparams List.nodup_nil
    rw [List.nil_append] at hbody hdistinct
    have hhead := ht.models.withHead hfresh f.type.base (ht.entry_ne hpc) f.params.toList
    refine ⟨⟨(ht.contains_eq_false_iff _).mp hfresh, ⟨hdistinct, hall⟩, ?_⟩, ?_⟩
    · exact f.body.stmt.wellTyped_of_translates hbody hhead
    · exact ht.closeFunction hpc hfresh f.type.base f.params.toList hbody.extends
        hlength

/-- Declarations with a translation are well typed. -/
theorem Decl.ListTranslates.between {l : Layout} : ∀ (ds : List Decl) {t t' : SymbolTable}
    {file : Bindings} {pc : Nat} {is : List Instruction} {frames : List Frame},
    Decl.ListTranslates l pc t ds is t' frames → t.Between file pc →
    pc + 7 * (ds.flatMap Decl.tokens).length < 2147483648 →
      Decl.ListWellTyped file ds ∧
        ∃ pc' < 2147483648, t'.Between (file ++ ds.map Decl.binding) pc'
  | [], t, t', file, pc, is, frames, h, ht, hpc => by
    cases h
    rw [List.map_nil, List.append_nil]
    exact ⟨trivial, pc, hpc, ht⟩
  | d :: ds, t, t', file, pc, is, frames, h, ht, hpc => by
    rw [List.flatMap_cons, List.length_append] at hpc
    rw [List.map_cons, List.append_cons]
    cases h with
    | var hd hds =>
      obtain ⟨hchecked, ht₁⟩ := hd.between ht
      obtain ⟨hrest, ht'⟩ := Decl.ListTranslates.between ds hds ht₁ (by omega)
      exact ⟨⟨hchecked, hrest⟩, ht'⟩
    | fn hf hds =>
      rename_i f is₁ t₁ frame js frames
      have hlength : is₁.length ≤ 7 * (Decl.fn f).tokens.length := hf.length_le.2
      obtain ⟨hchecked, ht₁⟩ := hf.between ht (by omega)
      obtain ⟨hrest, ht'⟩ := Decl.ListTranslates.between ds hds ht₁ (by omega)
      exact ⟨⟨hchecked, hrest⟩, ht'⟩

/-! ### What is checked has a translation -/

/-- Parameters with distinct names get their places, if these fit. -/
theorem Param.chain_of_wellTyped {t : SymbolTable} {name : String} {ty : Ty} {entry : Nat}
    (hfresh : t.globals.contains name = false) : ∀ (ps : List Param) {done : List Param},
    Bindings.Distinct ((done ++ ps).map Param.binding) → (∀ p ∈ ps, p.type.base = .int) →
    Record.header + 4 * (done ++ ps).length ≤ declaredLimit →
      Chain Param.Adds ps (t.withHead name ty entry done) (t.withHead name ty entry (done ++ ps))
  | [], done, _, _, _ => by
    rw [List.append_nil]
    exact .nil
  | p :: ps, done, hdistinct, hall, hroom => by
    rw [List.append_cons] at hdistinct hroom ⊢
    have hnew : (OpenFunction.head name entry done).outer.contains p.name.lexeme = false := by
      rw [Scope.contains_eq_false_iff, SymbolTable.bindings_head]
      rw [List.map_append, List.map_append] at hdistinct
      exact hdistinct.not_mem
    have hfits : (OpenFunction.head name entry done).record.HasRoom 1 := by
      refine ⟨rfl, ?_⟩
      rw [List.length_append, List.length_append] at hroom
      simp only [OpenFunction.head, Record.grow, declaredLimit, addressLimit, Word.size] at hroom ⊢
      omega
    have hp : p.Adds (t.withHead name ty entry done) _ :=
      .intro (hall p (List.mem_cons_self ..)) rfl rfl hfits hnew
    rw [SymbolTable.withParameter_withHead hfresh ty entry done p hnew] at hp
    exact .cons hp (Param.chain_of_wellTyped hfresh ps hdistinct
      (fun p hp => hall p (List.mem_cons_of_mem _ hp)) hroom)

theorem Params.length_toList_le (ps : Params) : ps.toList.length ≤ ps.tokens.length := by
  have hmore : ∀ ps : List (Nat × Param), ps.length ≤ (ps.flatMap moreTokens).length := by
    intro ps
    induction ps with
    | nil => exact Nat.le_refl _
    | cons p ps ih =>
      rw [List.flatMap_cons, List.length_append, List.length_cons, moreTokens, List.length_cons]
      omega
  cases ps with
  | void line => exact Nat.zero_le _
  | list first more =>
    have hmore := hmore more
    simp only [toList, tokens, Param.tokens, List.length_append, List.length_cons, List.length_map]
    omega

/-- A well-typed function with a new name has a translation, if its storage fits. -/
theorem FnDecl.translates_of_wellTyped {l : Layout} {f : FnDecl} {t : SymbolTable}
    {file : Bindings} {pc : Nat} (h : f.WellTyped file) (hnew : f.binding.1 ∉ file.map (·.1))
    (ht : t.Between file pc) (hpc : pc < 2147483648)
    (hroom : Record.header + 4 * (f.body.stmt.arrayWords + f.tokens.length) ≤ declaredLimit) :
    ∃ is t' frame, f.Translates l pc t is t' frame := by
  obtain ⟨⟨hdistinct, hall⟩, hbody⟩ := h
  have hfresh : t.globals.contains f.name.lexeme = false := (ht.contains_eq_false_iff _).mpr hnew
  have hlength := f.params.length_toList_le
  have htokens : f.params.tokens.length + f.body.stmt.tokens.length ≤ f.tokens.length := by
    simp only [FnDecl.tokens, List.length_append]
    omega
  have hparams : Chain Param.Adds f.params.toList (t.withHead f.name.lexeme f.type.base.ty pc [])
      (t.withHead f.name.lexeme f.type.base.ty pc ([] ++ f.params.toList)) :=
    Param.chain_of_wellTyped hfresh f.params.toList hdistinct hall
      (by rw [List.nil_append]; omega)
  rw [List.nil_append, ← SymbolTable.withEntry_eq_withHead hfresh] at hparams
  have hhead : (t.withHead f.name.lexeme f.type.base.ty pc f.params.toList).Room
      ⟨file ++ [f.binding], [f.params.toList.map Param.binding]⟩
      (f.body.stmt.arrayWords + f.body.stmt.tokens.length) := by
    refine ⟨ht.models.withHead hfresh f.type.base (ht.entry_ne hpc) f.params.toList,
      ⟨_, rfl, rfl⟩, ?_⟩
    have hsize : (t.withHead f.name.lexeme f.type.base.ty pc f.params.toList).frameSize =
        Record.header + 4 * f.params.toList.length := rfl
    omega
  obtain ⟨ps, t₂, hstmt⟩ := f.body.stmt.translates_of_wellTyped
    (pc + (Fragment.prologue l).length + 1) hbody hhead
  obtain ⟨size, -, hfn⟩ := hstmt.extends.function _ rfl
  exact ⟨_, _, _, .intro ht.function_eq_none hfresh hparams hstmt hfn⟩

/-- Functions take none of the data of a program. -/
theorem FnDecl.Translates.dataEnd {l : Layout} {f : FnDecl} {t t' : SymbolTable} {pc : Nat}
    {is : List Instruction} {frame : Frame} (h : f.Translates l pc t is t' frame) :
    t'.dataEnd = t.dataEnd := by
  cases h with
  | intro hf hfresh hparams hbody hfn =>
    rw [SymbolTable.withEntry_eq_withHead hfresh] at hparams
    obtain ⟨rfl, -, -⟩ := Chain.withHead hfresh _ hparams List.nodup_nil
    exact hbody.extends.dataEnd

/-- Well-typed declarations have a translation, if their storage and their code fit. -/
theorem Decl.listTranslates_of_wellTyped {l : Layout} : ∀ (ds : List Decl) {t : SymbolTable}
    {file : Bindings} {pc : Nat}, Decl.ListWellTyped file ds → t.Between file pc →
    pc + 7 * (ds.flatMap Decl.tokens).length < 2147483648 →
    max t.dataEnd Record.header
      + 4 * ((ds.map Decl.arrayWords).sum + (ds.flatMap Decl.tokens).length) ≤ declaredLimit →
      ∃ is t' frames, Decl.ListTranslates l pc t ds is t' frames
  | [], _, _, _, _, _, _, _ => ⟨_, _, _, .nil⟩
  | d :: ds, t, file, pc, h, ht, hpc, hroom => by
    obtain ⟨⟨hnew, hd⟩, hds⟩ := h
    rw [List.flatMap_cons, List.length_append] at hpc hroom
    rw [List.map_cons, List.sum_cons] at hroom
    cases d with
    | var d =>
      have hf := ht.function_eq_none
      have hwords := d.words_le
      have hfresh := (ht.contains_eq_false_iff _).mpr hnew
      simp only [Decl.arrayWords, Decl.tokens] at hroom hpc
      have hstores : SymbolTable.Stores d.name.lexeme d.ty d.words t _ :=
        .outer hf hfresh ((SymbolTable.hasRoom_iff hf).mpr (by rw [Word.size]; omega))
      have hdeclares := VarDecl.declares_iff.mpr ⟨hd, hstores⟩
      obtain ⟨is, t', frames, hrest⟩ := Decl.listTranslates_of_wellTyped ds hds
        (hdeclares.between ht).2 (by omega) (by
          simp only [SymbolTable.withGlobal, Word.size]
          omega)
      exact ⟨_, _, _, .var hdeclares hrest⟩
    | fn f =>
      simp only [Decl.arrayWords, Decl.tokens] at hroom hpc
      obtain ⟨is, t₁, frame, hfn⟩ := FnDecl.translates_of_wellTyped (l := l) hd hnew ht
        (by omega) (by omega)
      have hlength := hfn.length_le.2
      obtain ⟨js, t', frames, hrest⟩ := Decl.listTranslates_of_wellTyped ds hds
        (hfn.between ht (by omega)).2 (by omega) (by rw [hfn.dataEnd]; omega)
      exact ⟨_, _, _, .fn hfn hrest⟩

/-! ### The beginning of a program -/

namespace Bindings

variable {bs : Bindings} {x : String} {m : Meaning}

theorem mem_of_lookup (h : bs.lookup x = some m) : (x, m) ∈ bs := by
  obtain ⟨l₁, l₂, rfl, -⟩ := List.lookup_eq_some_iff.mp h
  exact List.mem_append_right _ (List.mem_cons_self ..)

/-- Where names are distinct, a name stands for each of its bindings. -/
theorem Distinct.lookup_of_mem (h : bs.Distinct) (hmem : (x, m) ∈ bs) : bs.lookup x = some m := by
  obtain ⟨l₁, l₂, rfl⟩ := List.append_of_mem hmem
  rw [List.append_cons] at h
  refine List.lookup_eq_some_iff.mpr ⟨l₁, l₂, rfl, ?_⟩
  rintro ⟨y, m'⟩ hy
  have hne : x ≠ y := by
    rintro rfl
    exact h.not_mem (List.mem_map.mpr ⟨_, hy, rfl⟩)
  simpa using hne

end Bindings

theorem Decl.ListWellTyped.distinct : ∀ (ds : List Decl) {file : Bindings},
    Decl.ListWellTyped file ds → file.Distinct →
      Bindings.Distinct (file ++ ds.map Decl.binding)
  | [], file, _, hfile => by
    rw [List.map_nil, List.append_nil]
    exact hfile
  | d :: ds, file, h, hfile => by
    rw [List.map_cons, List.append_cons]
    exact Decl.ListWellTyped.distinct ds h.2
      (Bindings.distinct_append_singleton.mpr ⟨hfile, h.1.1⟩)

/-- The binding of the function where a program begins. -/
theorem Decl.isMain_iff {d : Decl} : d.IsMain ↔ d.binding = ("main", .function .void []) := by
  cases d with
  | var d =>
    refine iff_of_false id ?_
    rw [Decl.binding, VarDecl.binding]
    cases d.extent <;> exact fun h => by cases (Prod.mk.inj h).2
  | fn f =>
    simp only [Decl.IsMain, FnDecl.IsMain, Decl.binding, FnDecl.binding, Prod.mk.injEq,
      Meaning.function.injEq, List.map_eq_nil_iff]

/-- A function of the program is the one where it begins if it is declared so. -/
theorem Symbol.isMain_iff {s : Symbol} (hs : s.Declared)
    (hentry : s.isFunction → s.value.toNat < 2147483648) :
    Gen.isMain s ↔ s.meaning = .function .void [] := by
  cases hfn : s.isFunction with
  | false =>
    rw [Gen.isMain, Symbol.meaning, hfn]
    refine iff_of_false Bool.false_ne_true ?_
    rw [if_neg Bool.false_ne_true]
    split <;> rintro ⟨⟩
  | true =>
    obtain ⟨args, hargs⟩ := Option.isSome_iff_exists.mp (hs.signature hfn)
    have hvalue : 0 ≤ s.value.toInt := by
      rw [BitVec.toInt_eq_toNat_of_lt (Nat.lt_of_lt_of_le
        (Nat.mul_lt_mul_of_pos_left (hentry hfn) Nat.two_pos) (by decide))]
      exact Int.natCast_nonneg _
    rw [Gen.isMain, Symbol.meaning, hfn, hargs]
    cases s.ty <;> simp [hvalue]

/-- What stands for `main` is the beginning of a program if it is declared so. -/
theorem SymbolTable.Between.isMain_iff {t : SymbolTable} {file : Bindings} {pc : Nat}
    (ht : t.Between file pc) (hpc : pc ≤ 2147483648) {s : Symbol} (hs : t.find? "main" = some s) :
    Gen.isMain s ↔ s.meaning = .function .void [] := by
  refine Symbol.isMain_iff (ht.models.declared_of_find? hs) fun hfn => ?_
  obtain ⟨hmem, hname⟩ := ht.models.function_mem hs hfn
  rcases ht.passed s hmem hfn with rfl | hlt
  · exact absurd hname (by decide)
  · exact Nat.lt_of_lt_of_le hlt hpc

/-- A table of a whole program finds its beginning if the program has one. -/
theorem SymbolTable.Between.main_iff {t : SymbolTable} {ds : List Decl} {pc : Nat}
    (ht : t.Between (Context.builtins ++ ds.map Decl.binding) pc) (hpc : pc < 2147483648)
    (hdistinct : Bindings.Distinct (Context.builtins ++ ds.map Decl.binding)) :
    (∃ main, (t.find? "main").filter Gen.isMain = some main) ↔ ∃ d ∈ ds, d.IsMain := by
  have hfind := ht.models.find? "main"
  have hlookup : Context.find? ⟨Context.builtins ++ ds.map Decl.binding, []⟩ "main" =
      (Context.builtins ++ ds.map Decl.binding).lookup "main" := by
    rw [Context.find?, List.nil_append, List.findSome?_singleton]
  rw [hlookup] at hfind
  constructor
  · rintro ⟨main, hmain⟩
    obtain ⟨hs, hfilter⟩ := Option.filter_eq_some_iff.mp hmain
    rw [hs, Option.map_some, (ht.isMain_iff (Nat.le_of_lt hpc) hs).mp hfilter] at hfind
    have hmem := Bindings.mem_of_lookup hfind.symm
    rw [List.mem_append, List.mem_map] at hmem
    rcases hmem with hbuiltin | ⟨d, hd, hbinding⟩
    · exact absurd hbuiltin (by decide)
    · exact ⟨d, hd, Decl.isMain_iff.mpr hbinding⟩
  · rintro ⟨d, hd, hmain⟩
    have hmem : ("main", Meaning.function .void []) ∈
        Context.builtins ++ ds.map Decl.binding :=
      List.mem_append_right _ (List.mem_map.mpr ⟨d, hd, Decl.isMain_iff.mp hmain⟩)
    rw [hdistinct.lookup_of_mem hmem, Option.map_eq_some_iff] at hfind
    obtain ⟨s, hs, hmeaning⟩ := hfind
    exact ⟨s, Option.filter_eq_some_iff.mpr ⟨hs, (ht.isMain_iff (Nat.le_of_lt hpc) hs).mpr hmeaning⟩⟩

/-- A program whose storage fits has a translation if and only if it is well typed. -/
theorem Program.translates_iff_wellTyped {l : Layout} {p : Program}
    (hroom : max l.dataBase.toNat Record.header + 4 * (p.arrayWords + p.tokens.length) ≤
      declaredLimit) : (∃ is t frames, p.Translates l is t frames) ↔ p.WellTyped := by
  have hpc : 1 + 7 * p.tokens.length < 2147483648 := by
    rw [Record.header, declaredLimit] at hroom
    omega
  constructor
  · rintro ⟨_, t, frames, h⟩
    cases h with
    | intro hdecls hmain =>
      obtain ⟨hchecked, pc, hpc', ht⟩ := Decl.ListTranslates.between p.decls hdecls
        (.initial l.dataBase) hpc
      have hdistinct := Decl.ListWellTyped.distinct p.decls hchecked (by decide)
      exact ⟨hchecked, (ht.main_iff hpc' hdistinct).mp ⟨_, hmain⟩⟩
  · rintro ⟨hchecked, hmain⟩
    obtain ⟨is, t, frames, hdecls⟩ := Decl.listTranslates_of_wellTyped (l := l) p.decls hchecked
      (.initial l.dataBase) hpc hroom
    obtain ⟨-, pc, hpc', ht⟩ := Decl.ListTranslates.between p.decls hdecls
      (.initial l.dataBase) hpc
    have hdistinct := Decl.ListWellTyped.distinct p.decls hchecked (by decide)
    obtain ⟨main, hfind⟩ := (ht.main_iff hpc' hdistinct).mpr hmain
    exact ⟨_, _, _, .intro hdecls hfind⟩

end OnePass
