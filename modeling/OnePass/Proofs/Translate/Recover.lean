import OnePass.Proofs.Generator.Reports
import OnePass.Proofs.Translate.Perform

/-!
# Runs without mistakes are translations

When the steps of a phrase are performed and no diagnostic is made, then or later, the phrase has a
translation. A step that checks something either makes a diagnostic, or stops, or finds what a rule
of the translation asks for. -/

namespace OnePass

open Gen
open Planned (plain settle holes)

namespace SymbolTable

/-- No symbol of a table stands in for a mistake. -/
def Clean (t : SymbolTable) : Prop :=
  ∀ scope ∈ t.scopes, ∀ s ∈ scope.symbols, s.isPlaceholder = false

theorem Clean.find? {t : SymbolTable} (h : t.Clean) {x : String} {s : Symbol}
    (hs : t.find? x = some s) : s.isPlaceholder = false := by
  obtain ⟨scope, hscope, hfind⟩ := List.exists_of_findSome?_eq_some hs
  exact h scope hscope s (List.mem_of_find?_eq_some hfind)

/-- A table of a program without mistakes: the record of its open function can still grow. -/
structure Ready (t : SymbolTable) : Prop where
  clean : t.Clean
  unlocked : ∀ f, t.function = some f → f.record.closed = false

variable {t t' : SymbolTable}

theorem Extends.open {f : OpenFunction} (h : t.Extends t') (hf : t.function = some f) :
    ∃ f', t'.function = some f' := by
  obtain ⟨size, -, hf'⟩ := h.function f hf
  exact ⟨_, hf'⟩

theorem Extends.ready (h : t.Extends t') (ht : t.Ready) : t'.Ready := by
  refine ⟨by rw [Clean, h.scopes]; exact ht.clean, fun f' hf' => ?_⟩
  cases hf : t.function with
  | none =>
    rw [h.outside hf] at hf'
    cases hf'
  | some f =>
    obtain ⟨size, -, hf''⟩ := h.function f hf
    obtain rfl := Option.some.inj (hf'.symm.trans hf'')
    exact ht.unlocked f hf

end SymbolTable

/-! ### What checks have found -/

namespace Gen

variable {g : Generator} {tok : Token} {more : List Step} {stack : List StackValue}
variable {f : OpenFunction} {vl vr : StackValue} {l r : Symbol} {op : BinaryOp}

theorem Succeeds.pushNumber (h : Succeeds (⟨.pushNumber, tok⟩ :: more) g) :
    ∃ w, Word.ofNumeral? tok.lexeme = some w := by
  cases hw : Word.ofNumeral? tok.lexeme with
  | some w => exact ⟨w, rfl⟩
  | none => exact (h.not_reports (performs_pushNumber_range hw)).elim

theorem Succeeds.pushIdentifier (h : Succeeds (⟨.pushIdentifier, tok⟩ :: more) g) :
    ∃ s, g.symbols.find? tok.lexeme = some s := by
  cases hs : g.symbols.find? tok.lexeme with
  | some s => exact ⟨s, rfl⟩
  | none => exact (h.not_reports (performs_pushIdentifier_unknown hs)).elim

theorem Succeeds.computeBinary (h : Succeeds (⟨.computeBinary, tok⟩ :: more) g)
    (hstack : g.stack = vr :: .operator op :: vl :: stack) (hl : vl.operand? = some l)
    (hr : vr.operand? = some r) (hf : g.symbols.function = some f) :
    l.isInt ∧ r.isInt ∧ f.record.HasRoom 1 := by
  by_cases hints : l.isInt ∧ r.isInt
  · refine ⟨hints.1, hints.2, ?_⟩
    by_contra hroom
    exact h.not_stops (stops_computeBinary hstack hl hr hints.1 hints.2 hf hroom)
  · obtain ⟨cause, hmistake⟩ := performs_computeBinary_mistake hstack hl hr hints
    exact (h.not_reports hmistake).elim

theorem Succeeds.assign (h : Succeeds (⟨.assign, tok⟩ :: more) g)
    (hstack : g.stack = vr :: vl :: stack) (hl : vl.operand? = some l)
    (hr : vr.operand? = some r) : l.isInt ∧ r.isInt := by
  by_contra hints
  obtain ⟨cause, hmistake⟩ := performs_assign_mistake hstack hl hr hints
  exact h.not_reports hmistake

theorem Succeeds.indexArray (h : Succeeds (⟨.indexArray, tok⟩ :: more) g)
    (hstack : g.stack = vr :: vl :: stack) (hl : vl.operand? = some l)
    (hr : vr.operand? = some r) (hp : l.isPlaceholder = false)
    (hf : g.symbols.function = some f) : l.IsArray ∧ r.isInt ∧ f.record.HasRoom 1 := by
  by_cases hfits : l.isFunction = false ∧ l.ty.isReference ∧ r.isInt
  · obtain ⟨hlf, hla, hri⟩ := hfits
    refine ⟨⟨hp, hlf, hla⟩, hri, ?_⟩
    by_contra hroom
    exact h.not_stops (stops_indexArray hstack hl hr hp hlf hla hri hf hroom)
  · obtain ⟨cause, hmistake⟩ := performs_indexArray_mistake hstack hl hr hp hfits
    exact (h.not_reports hmistake).elim

/-- A call went well: its target is a function, the arguments match, and there was room for a
    result. -/
theorem Succeeds.call {values : List StackValue} {target : Symbol} {args : List Symbol}
    {counts : List Nat} (h : Succeeds (⟨.call, tok⟩ :: more) g)
    (hslots : 3 ≤ g.layout.scratchSlots.toNat) (hcount : g.argCounts = args.length :: counts)
    (hstack : g.stack = values.reverse ++ .symbol target :: stack)
    (hargs : values.map (·.operand?) = args.map some) (hp : target.isPlaceholder = false)
    (hf : g.symbols.function = some f) :
    Calls g.symbols target values (calleeOf g.symbols target) args ∧
      ((calleeOf g.symbols target).name ≠ outputName → (calleeOf g.symbols target).ty ≠ .void →
        f.record.HasRoom 1) := by
  have hreverse : values.reverse.map (·.operand?) = args.reverse.map some := by
    rw [List.map_reverse, List.map_reverse, hargs]
  have hcount' : g.argCounts = args.reverse.length :: counts := by rw [hcount, List.length_reverse]
  have hfn : target.isFunction := by
    by_contra hnot
    exact h.not_reports (Does.call hcount' hstack hreverse rfl
      (does_callWith_notFunction hp (by simpa using hnot)))
  have hmatch : argumentMistake? (calleeOf g.symbols target) args = none := by
    cases hcause : argumentMistake? (calleeOf g.symbols target) args with
    | none => rfl
    | some cause =>
      rw [← List.reverse_reverse args] at hcause
      exact (h.not_reports (Does.call hcount' hstack hreverse rfl
        (does_callWith_mistake hp hfn hcause))).elim
  refine ⟨⟨⟨hp, hfn⟩, hargs, rfl, hmatch⟩, fun hout hty => ?_⟩
  by_contra hroom
  refine h.not_stops (Stops.call hcount' hstack hreverse rfl ?_)
  rw [List.reverse_reverse]
  refine Stops.callWith hp hfn hmatch ?_
  rw [if_neg hout]
  exact stops_callFunction hslots hty hf hroom

end Gen

/-! ### Expressions -/

/-- The value of an expression is an operand. -/
theorem Expr.Translates.operand {l : Layout} {e : Expr} {pc : Nat} {t t' : SymbolTable}
    {is : List Instruction} {v : StackValue} : e.Translates l pc t is v t' →
      ∃ s, v.operand? = some s
  | .paren he => he.operand
  | .num _ | .name _ | .index .. | .print .. | .callVoid .. | .callValue .. | .binary ..
  | .assign .. => ⟨_, rfl⟩

theorem Args.Translates.operands {l : Layout} {args : Args} {pc : Nat} {t t' : SymbolTable}
    {is : List Instruction} {values : List StackValue} (h : args.Translates l pc t is values t') :
      ∃ ss : List Symbol, values.map (·.operand?) = ss.map some := by
  cases args with
  | none =>
    cases h with
    | none => exact ⟨[], rfl⟩
  | last =>
    cases h with
    | last he =>
      obtain ⟨s, hs⟩ := he.operand
      exact ⟨[s], by simp [hs]⟩
  | more =>
    cases h with
    | more he hrest =>
      obtain ⟨s, hs⟩ := he.operand
      obtain ⟨ss, hss⟩ := hrest.operands
      exact ⟨s :: ss, by simp [hs, hss]⟩
termination_by structural args

mutual

/-- An expression that goes well has a translation. -/
theorem Expr.translates {l : Layout} (hslots : 3 ≤ l.scratchSlots.toNat) (e : Expr) {pc : Nat}
    {t : SymbolTable} {f : OpenFunction} {g : Generator} {more : List Step}
    (h : Succeeds (e.steps ++ more) g) (hg : g.At l pc t) (hready : t.Ready)
    (hf : t.function = some f) : ∃ is v t', e.Translates l pc t is v t' := by
  cases e with
  | num n =>
    obtain ⟨w, hw⟩ := h.pushNumber
    exact ⟨_, _, _, .num hw⟩
  | name x =>
    obtain ⟨-, -, rfl⟩ := hg
    obtain ⟨s, hs⟩ := h.pushIdentifier
    exact ⟨_, _, _, .name hs⟩
  | index x opening i closing =>
    simp only [Expr.steps, List.append_assoc, List.singleton_append] at h
    obtain ⟨rfl, rfl, rfl⟩ := hg
    obtain ⟨a, ha⟩ := h.pushIdentifier
    have h₁ := h.of_cons (performs_pushIdentifier ha)
    obtain ⟨is, v, t₁, hi⟩ := i.translates hslots h₁ ⟨rfl, rfl, rfl⟩ hready hf
    obtain ⟨s, hs⟩ := hi.operand
    obtain ⟨f₁, hf₁⟩ := hi.extends.open hf
    have h₂ := h₁.of_append (hi.performed hslots ⟨rfl, rfl, rfl⟩)
    obtain ⟨harray, hint, hroom⟩ := h₂.indexArray rfl rfl hs (hready.clean.find? ha) hf₁
    exact ⟨_, _, _, .index ha harray hi ⟨hs, hint⟩ hf₁ hroom⟩
  | call x opening args =>
    simp only [Expr.steps, List.append_assoc, List.cons_append, List.nil_append] at h
    obtain ⟨rfl, rfl, rfl⟩ := hg
    obtain ⟨target, htarget⟩ := h.pushIdentifier
    have h₁ : Succeeds (args.steps ++ ⟨.call, x.token⟩ :: more) (g.calling target) :=
      (h.of_cons (performs_pushIdentifier htarget)).of_cons performs_pushArgCount
    obtain ⟨is, values, t₁, hargs⟩ := args.translates hslots h₁ ⟨rfl, rfl, rfl⟩ hready hf rfl
    obtain ⟨ss, hss⟩ := hargs.operands
    obtain ⟨f₁, hf₁⟩ := hargs.extends.open hf
    have h₂ := h₁.of_append (hargs.performed hslots ⟨rfl, rfl, rfl⟩ rfl)
    have hlength : 0 + values.length = ss.length := by
      simpa using congrArg List.length hss
    obtain ⟨hcalls, hroom⟩ := h₂.call hslots (by rw [← hlength]; rfl) rfl hss
      (hready.clean.find? htarget) hf₁
    by_cases hout : (calleeOf t₁ target).name = outputName
    · exact ⟨_, _, _, .print htarget hargs hcalls hout⟩
    by_cases hty : (calleeOf t₁ target).ty = .void
    · exact ⟨_, _, _, .callVoid htarget hargs hcalls hout hty⟩
    · exact ⟨_, _, _, .callValue htarget hargs hcalls hout hty hf₁ (hroom hout hty)⟩
  | paren opening e closing =>
    obtain ⟨is, v, t', he⟩ := e.translates hslots h hg hready hf
    exact ⟨is, v, t', .paren he⟩
  | binary op line e₁ e₂ =>
    simp only [Expr.steps, List.append_assoc, List.singleton_append] at h
    have hop : BinaryOp.ofLexeme? (op.token line).lexeme = some op := by cases op <;> rfl
    obtain ⟨is, v₁, t₁, he₁⟩ := e₁.translates hslots h hg hready hf
    obtain ⟨s₁, hs₁⟩ := he₁.operand
    have hext := he₁.extends
    obtain ⟨f₁, hf₁⟩ := hext.open hf
    have h₁ := (h.of_append (he₁.performed hslots hg)).of_cons (performs_pushOperator hop)
    have hg₁ := (hg.gives is v₁ t₁).withStack (.operator op :: v₁ :: g.stack)
    obtain ⟨js, v₂, t₂, he₂⟩ := e₂.translates hslots h₁ hg₁ (hext.ready hready) hf₁
    obtain ⟨s₂, hs₂⟩ := he₂.operand
    obtain ⟨f₂, hf₂⟩ := he₂.extends.open hf₁
    have h₂ := h₁.of_append (he₂.performed hslots hg₁)
    obtain ⟨hint₁, hint₂, hroom⟩ := h₂.computeBinary rfl hs₁ hs₂ hf₂
    exact ⟨_, _, _, .binary he₁ ⟨hs₁, hint₁⟩ he₂ ⟨hs₂, hint₂⟩ hf₂ hroom⟩
  | assign target line value =>
    simp only [Expr.steps, List.append_assoc, List.singleton_append] at h
    obtain ⟨is, v₁, t₁, he₁⟩ := target.translates hslots h hg hready hf
    obtain ⟨s₁, hs₁⟩ := he₁.operand
    have hext := he₁.extends
    obtain ⟨f₁, hf₁⟩ := hext.open hf
    have h₁ := h.of_append (he₁.performed hslots hg)
    have hg₁ := hg.gives is v₁ t₁
    obtain ⟨js, v₂, t₂, he₂⟩ := value.translates hslots h₁ hg₁ (hext.ready hready) hf₁
    obtain ⟨s₂, hs₂⟩ := he₂.operand
    have h₂ := h₁.of_append (he₂.performed hslots hg₁)
    obtain ⟨hint₁, hint₂⟩ := h₂.assign rfl hs₁ hs₂
    exact ⟨_, _, _, .assign he₁ ⟨hs₁, hint₁⟩ he₂ ⟨hs₂, hint₂⟩⟩

theorem Args.translates {l : Layout} (hslots : 3 ≤ l.scratchSlots.toNat) (args : Args) {pc : Nat}
    {t : SymbolTable} {f : OpenFunction} {g : Generator} {more : List Step} {count : Nat}
    {counts : List Nat} (h : Succeeds (args.steps ++ more) g) (hg : g.At l pc t) (hready : t.Ready)
    (hf : t.function = some f) (hcount : g.argCounts = count :: counts) :
    ∃ is values t', args.Translates l pc t is values t' := by
  cases args with
  | none closing => exact ⟨_, _, _, .none⟩
  | last e closing =>
    simp only [Args.steps, List.append_assoc, List.singleton_append] at h
    obtain ⟨is, v, t', he⟩ := e.translates hslots h hg hready hf
    exact ⟨_, _, _, .last he⟩
  | more e comma rest =>
    simp only [Args.steps, List.append_assoc, List.singleton_append] at h
    obtain ⟨is, v, t₁, he⟩ := e.translates hslots h hg hready hf
    have hext := he.extends
    obtain ⟨f₁, hf₁⟩ := hext.open hf
    have h₁ := (h.of_append (he.performed hslots hg)).of_cons
      (performs_incrementArgCount hcount)
    have hg₁ := hg.gives is v t₁
    obtain ⟨js, vs, t₂, hrest⟩ := rest.translates hslots h₁ ⟨hg₁.layout, hg₁.pc, rfl⟩
      (hext.ready hready) hf₁ rfl
    exact ⟨_, _, _, .more he hrest⟩

end

/-! ### Storage -/

namespace SymbolTable

theorem Clean.insert_cell {scope : Scope} (h : ∀ s ∈ scope.symbols, s.isPlaceholder = false)
    {x : String} (hfresh : scope.contains x = false) (ty : Ty) (address : Nat) (isGlobal : Bool) :
    ∀ s ∈ (scope.insert (.cell x ty address isGlobal)).symbols, s.isPlaceholder = false := by
  rw [Scope.symbols_insert hfresh]
  intro s hs
  rcases List.mem_append.mp hs with hs | hs
  · exact h s hs
  · rw [List.mem_singleton.mp hs]
    rfl

/-- Only cells join a table, so it stays one without mistakes. -/
theorem Stores.ready {x : String} {ty : Ty} {words : Nat} {t t' : SymbolTable}
    (h : Stores x ty words t t') (ht : t.Ready) : t'.Ready := by
  cases h with
  | inner hf hopen hfresh hfits =>
    rename_i f
    have hclean := ht.clean
    rw [Clean, scopes, hf] at hclean
    refine ⟨fun scope hscope => ?_, fun f' hf' => ?_⟩
    · rw [withLocal, withFunction, scopes] at hscope
      simp only [OpenFunction.insert, OpenFunction.grow, OpenFunction.scopes] at hscope hclean
      rw [OpenFunction.current] at hfresh
      cases hblocks : f.blocks with
      | nil =>
        simp only [hblocks, List.nil_append, List.singleton_append, List.mem_cons, List.not_mem_nil,
          or_false, forall_eq_or_imp, forall_eq] at hscope hclean hfresh
        rcases hscope with rfl | rfl
        · exact Clean.insert_cell hclean.1 hfresh _ _ _
        · exact hclean.2
      | cons block rest =>
        simp only [hblocks, List.cons_append, List.mem_cons, forall_eq_or_imp] at hscope hclean hfresh
        rcases hscope with rfl | hscope
        · exact Clean.insert_cell hclean.1 hfresh _ _ _
        · exact hclean.2 scope hscope
    · obtain rfl := Option.some.inj hf'
      cases hblocks : f.blocks <;> simp [OpenFunction.insert, OpenFunction.grow, Record.grow,
        hblocks, hopen]
  | outer hf hfresh hroom =>
    have hclean := ht.clean
    rw [Clean, scopes, hf] at hclean
    refine ⟨fun scope hscope => ?_, fun f' hf' => ?_⟩
    · simp only [withGlobal, scopes, hf, List.mem_singleton, forall_eq] at hscope hclean
      subst hscope
      exact Clean.insert_cell hclean hfresh _ _ _
    · exact absurd (hf.symm.trans hf') (by simp)

/-- Storage that is fresh and fits is given. -/
theorem stores_of_fresh {x : String} {words : Nat} {t : SymbolTable} (ht : t.Ready)
    (hfresh : t.current.contains x = false) (hroom : t.hasRoom words) (ty : Ty) :
    ∃ t', Stores x ty words t t' := by
  cases hf : t.function with
  | none =>
    rw [current, hf] at hfresh
    exact ⟨_, .outer hf hfresh hroom⟩
  | some f =>
    rw [current, hf] at hfresh
    rw [hasRoom, hf] at hroom
    exact ⟨_, .inner hf (ht.unlocked f hf) hfresh hroom⟩

end SymbolTable

theorem VarDecl.Declares.ready {d : VarDecl} {t t' : SymbolTable} (h : d.Declares t t')
    (ht : t.Ready) : t'.Ready := by
  cases h with
  | scalar h => exact h.ready ht
  | array _ h => exact h.ready ht

namespace Gen

theorem reportVoid_void {g : Generator} {x : String} {line : Nat} :
    (g.reportVoid .void x line).diagnostics ≠ #[] := by
  simp [Generator.reportVoid, Generator.report]

/-- A step that declares storage went well: the type has values, and the storage was given. -/
theorem Succeeds.storage {g₀ g : Generator} {step : Step} {more : List Step} {x : String}
    {ty stored : Ty} {words line : Nat} (h : Succeeds (step :: more) g₀)
    (hdo : ∀ {g' n}, Does (declareStorage x stored words line) (g.reportVoid ty x line) 0 () g' n →
      Performs step g₀ g') (ht : g.symbols.Ready) :
    ty ≠ .void ∧ ∃ t', SymbolTable.Stores x stored words g.symbols t' := by
  cases hdup : g.symbols.current.contains x with
  | true =>
    have hmistake : Does (declareStorage x stored words line) (g.reportVoid ty x line) 0 () _ _ :=
      does_declareStorage_duplicate (by rw [g.reportVoid_symbols]; exact hdup)
    exact (h.not_reports (hdo hmistake)).elim
  | false =>
    cases hroom : g.symbols.hasRoom words with
    | false =>
      have hmistake : Does (declareStorage x stored words line) (g.reportVoid ty x line) 0 () _ _ :=
        does_declareStorage_tooLarge (by rw [g.reportVoid_symbols]; exact hdup)
          (by rw [g.reportVoid_symbols]; exact hroom)
      have hempty := (h.of_cons (hdo hmistake)).diagnostics_eq_empty
      simp [Generator.withSymbols, Generator.report] at hempty
    | true =>
      obtain ⟨t', hstores⟩ := SymbolTable.stores_of_fresh ht hdup hroom stored
      obtain ⟨s, hdeclare⟩ := hstores.declare
      refine ⟨fun hvoid => ?_, t', hstores⟩
      subst hvoid
      have hdeclare' : SymbolTable.declare x stored words (g.reportVoid .void x line).symbols =
          .ok s t' := by
        rw [g.reportVoid_symbols]
        exact hdeclare
      exact reportVoid_void (h.of_cons (hdo (does_declareStorage hdeclare'))).diagnostics_eq_empty

end Gen

/-- A declaration that goes well gives its name storage. -/
theorem VarDecl.declares : ∀ (d : VarDecl) {t : SymbolTable} {g : Generator} {more : List Step},
    Succeeds (d.steps ++ more) g → g.symbols = t → t.Ready → ∃ t', d.Declares t t'
  | ⟨⟨base, line⟩, x, extent⟩, t, g, more, h, hg, ht => by
    subst hg
    have hkeyword := (TypeWord.mk base line).ofKeyword?
    let g₁ := g.withStack (.name x.lexeme :: .type base.ty :: g.stack)
    have h₁ : Succeeds (extent.steps x ++ more) g₁ :=
      (h.of_cons (performs_pushType hkeyword)).of_cons performs_pushName
    cases extent with
    | scalar semicolon =>
      have hdo : ∀ {g' n}, Does (declareStorage x.lexeme base.ty.orInt 1 x.line)
          (g.reportVoid base.ty x.lexeme x.line) 0 () g' n →
          Performs ⟨.declareVariable, x.token⟩ g₁ g' := fun hstore => Does.declareVariable rfl hstore
      obtain ⟨hbase, t', hstores⟩ := Succeeds.storage h₁ hdo ht
      cases base with
      | int => exact ⟨t', .scalar hstores⟩
      | void => exact absurd rfl hbase
    | array opening n closing semicolon =>
      obtain ⟨w, hw⟩ := Succeeds.pushNumber h₁
      have hdo : ∀ {g' m}, Does
          (declareStorage x.lexeme base.ty.orInt.arrayOf w.toInt.toNat x.line)
          (g.reportVoid base.ty x.lexeme x.line) 0 () g' m →
          Performs ⟨.declareArray, x.token⟩ (g₁.withStack (.literal w :: g₁.stack)) g' :=
        fun hstore => Does.declareArray rfl rfl hstore
      obtain ⟨hbase, t', hstores⟩ := (h₁.of_cons (performs_pushNumber hw)).storage hdo ht
      cases base with
      | int => exact ⟨t', .array hw hstores⟩
      | void => exact absurd rfl hbase

theorem Chain.ready_declares {ds : List VarDecl} {t t' : SymbolTable}
    (h : Chain VarDecl.Declares ds t t') (ht : t.Ready) : t'.Ready := by
  induction h with
  | nil => exact ht
  | cons hd _ ih => exact ih (hd.ready ht)

theorem VarDecl.declares_chain : ∀ (ds : List VarDecl) {t : SymbolTable} {g : Generator}
    {more : List Step}, Succeeds (ds.flatMap VarDecl.steps ++ more) g → g.symbols = t → t.Ready →
      ∃ t', Chain VarDecl.Declares ds t t'
  | [], t, g, more, h, hg, ht => ⟨t, .nil⟩
  | d :: ds, t, g, more, h, hg, ht => by
    rw [List.flatMap_cons, List.append_assoc] at h
    obtain ⟨t₁, hd⟩ := d.declares h hg ht
    obtain ⟨t₂, hds⟩ := declares_chain ds (h.of_append (hd.performed hg)) rfl (hd.ready ht)
    exact ⟨t₂, .cons hd hds⟩

/-! ### Statements -/

namespace Gen

variable {g : Generator} {tok : Token} {more : List Step} {stack : List StackValue}
variable {v : StackValue} {s : Symbol}

theorem Succeeds.reserveJumpSlot (h : Succeeds (⟨.reserveJumpSlot, tok⟩ :: more) g)
    (hstack : g.stack = v :: stack) (hv : v.operand? = some s) : s.isInt := by
  by_contra hint
  obtain ⟨cause, hmistake⟩ := performs_reserveJumpSlot_mistake hstack hv hint
  exact h.not_reports hmistake

theorem Succeeds.repeatLoop {start : Nat} (h : Succeeds (⟨.jumpBackIfFalse, tok⟩ :: more) g)
    (hstack : g.stack = v :: .label start :: stack) (hv : v.operand? = some s) : s.isInt := by
  by_contra hint
  obtain ⟨cause, hmistake⟩ := performs_repeatLoop_mistake hstack hv hint
  exact h.not_reports hmistake

theorem Succeeds.storeReturnValue (h : Succeeds (⟨.storeReturnValue, tok⟩ :: more) g)
    (hstack : g.stack = v :: stack) (hv : v.operand? = some s) : s.isInt := by
  by_contra hint
  obtain ⟨cause, hmistake⟩ := performs_storeReturnValue_mistake hstack hv hint
  exact h.not_reports hmistake

theorem Succeeds.registerBreak (h : Succeeds (⟨.registerBreak, tok⟩ :: more) g) :
    g.breaks ≠ [] :=
  fun hnone => h.not_reports (performs_registerBreak_outside hnone)

end Gen

/-- A state in which statements of a function are read, in a loop or not. -/
structure Generator.Reading (g : Generator) (l : Layout) (inLoop : Bool) (pc : Nat)
    (t : SymbolTable) : Prop extends g.At l pc t where
  loop : inLoop = true ↔ g.breaks ≠ []
  body : g.body.isSome
  tidy : g.code.Tidy

theorem Generator.Reading.planned {g : Generator} {l : Layout} {inLoop : Bool} {pc : Nat}
    {t : SymbolTable} (h : g.Reading l inLoop pc t) (ps : List Planned) (t' : SymbolTable) :
    (g.planned ps t').Reading l inLoop (pc + ps.length) t' := by
  refine ⟨h.toAt.planned ps t', ?_, ?_, h.tidy.plan ps⟩
  · rw [h.loop]
    simp [Generator.planned]
  · simpa [Generator.planned] using h.body

section
variable {l : Layout} {inLoop : Bool} {pc : Nat} {t : SymbolTable} {f : OpenFunction}
  {g : Generator} {more : List Step} {ps : List Planned} {t' : SymbolTable}

theorem Stmt.Translates.performed_reading (hslots : 3 ≤ l.scratchSlots.toNat) (after : Token)
    {s : Stmt} (h : s.Translates l inLoop pc t ps t') (hg : g.Reading l inLoop pc t) :
    Performed (s.steps after) g (g.planned ps t') :=
  h.performed hslots after hg.toAt hg.loop.1 hg.body hg.tidy

/-- A condition before branches that goes well is a test. -/
theorem Expr.tests_branch {tok : Token} (hslots : 3 ≤ l.scratchSlots.toNat) (e : Expr)
    (h : Succeeds (e.steps ++ (⟨.reserveJumpSlot, tok⟩ :: more)) g) (hg : g.At l pc t)
    (hready : t.Ready) (hf : t.function = some f) : ∃ is c t', e.Tests l pc t is c t' := by
  obtain ⟨is, v, t', he⟩ := e.translates hslots h hg hready hf
  obtain ⟨s, hs⟩ := he.operand
  have hint := (h.of_append (he.performed hslots hg)).reserveJumpSlot rfl hs
  exact ⟨_, _, _, .intro he ⟨hs, hint⟩⟩

/-- The condition of a loop that goes well is a test. -/
theorem Expr.tests_loop {tok : Token} {start : Nat} {stack : List StackValue}
    (hslots : 3 ≤ l.scratchSlots.toNat) (e : Expr)
    (h : Succeeds (e.steps ++ (⟨.jumpBackIfFalse, tok⟩ :: more)) g) (hg : g.At l pc t)
    (hready : t.Ready) (hf : t.function = some f) (hstack : g.stack = .label start :: stack) :
    ∃ is c t', e.Tests l pc t is c t' := by
  obtain ⟨is, v, t', he⟩ := e.translates hslots h hg hready hf
  obtain ⟨s, hs⟩ := he.operand
  have hstack' : (g.gives is v t').stack = v :: .label start :: stack := by
    rw [Generator.gives, hstack]
  have hint := (h.of_append (he.performed hslots hg)).repeatLoop hstack' hs
  exact ⟨_, _, _, .intro he ⟨hs, hint⟩⟩

end

mutual

/-- A statement that goes well has a translation. -/
theorem Stmt.translates {l : Layout} (hslots : 3 ≤ l.scratchSlots.toNat) (s : Stmt) (after : Token)
    {inLoop : Bool} {pc : Nat} {t : SymbolTable} {f : OpenFunction} {g : Generator}
    {more : List Step} (h : Succeeds (s.steps after ++ more) g) (hg : g.Reading l inLoop pc t)
    (hready : t.Ready) (hf : t.function = some f) :
    ∃ ps t', s.Translates l inLoop pc t ps t' := by
  cases s with
  | empty semicolon => exact ⟨_, _, .empty⟩
  | expr e semicolon =>
    simp only [Stmt.steps, List.append_assoc] at h
    obtain ⟨is, v, t', he⟩ := e.translates hslots h hg.toAt hready hf
    exact ⟨_, _, .expr he⟩
  | block opening locals body closing =>
    simp only [Stmt.steps, List.append_assoc, List.singleton_append] at h
    obtain ⟨⟨rfl, rfl, rfl⟩, hloop, hbody, htidy⟩ := hg
    let t₀ := g.symbols.withFunction { f with blocks := {} :: f.blocks }
    have hready₀ : t₀.Ready := by
      refine ⟨fun scope hscope => ?_, fun f' hf' => ?_⟩
      · rcases List.mem_cons.mp hscope with rfl | hscope
        · exact fun s hs => absurd hs List.not_mem_nil
        · refine hready.clean scope ?_
          rw [SymbolTable.scopes, hf]
          exact hscope
      · obtain rfl := Option.some.inj hf'
        exact hready.unlocked f hf
    have h₁ := h.of_cons (performs_scopeUp (SymbolTable.openBlock_eq hf))
    obtain ⟨t₁, hlocals⟩ := VarDecl.declares_chain locals h₁ rfl hready₀
    have hready₁ := hlocals.ready_declares hready₀
    have h₂ := h₁.of_append (hlocals.performed_declares rfl)
    obtain ⟨block, size, -, rfl⟩ := hlocals.inBlock rfl rfl
    obtain ⟨ps, t₂, hstmts⟩ := Stmt.listTranslates hslots body (.symbolAt "\x7d" closing) h₂
      ⟨⟨rfl, rfl, rfl⟩, hloop, hbody, htidy⟩ hready₁ rfl
    obtain ⟨size', -, hf₂⟩ := hstmts.extends.function _ rfl
    exact ⟨_, _, .block hf hlocals hstmts hf₂ rfl⟩
  | leave line semicolon =>
    obtain rfl : inLoop = true := hg.loop.2 (Succeeds.registerBreak h)
    exact ⟨_, _, .leave⟩
  | ifThen line opening cond closing body =>
    simp only [Stmt.steps, List.append_assoc, List.singleton_append] at h
    obtain ⟨is, c, t₁, htest⟩ := cond.tests_branch hslots h hg.toAt hready hf
    have hext := htest.extends
    obtain ⟨f₁, hf₁⟩ := hext.open hf
    have hbranch := htest.performed_branch hslots hg.toAt (.symbolAt ")" closing)
    have h₁ := Succeeds.of_append (by simpa using h) hbranch
    obtain ⟨⟨rfl, rfl, rfl⟩, hloop, hbody, htidy⟩ := hg
    obtain ⟨ps, t₂, hthen⟩ := body.translates hslots after h₁
      ⟨g.at_branching is c t₁, hloop, hbody, htidy.plan _⟩ (hext.ready hready) hf₁
    exact ⟨_, _, .ifThen htest hthen⟩
  | ifElse line opening cond closing body elseLine other =>
    simp only [Stmt.steps, List.append_assoc, List.singleton_append] at h
    obtain ⟨is, c, t₁, htest⟩ := cond.tests_branch hslots h hg.toAt hready hf
    have hext := htest.extends
    obtain ⟨f₁, hf₁⟩ := hext.open hf
    have hbranch := htest.performed_branch hslots hg.toAt (.symbolAt ")" closing)
    have h₁ := Succeeds.of_append (by simpa using h) hbranch
    obtain ⟨⟨rfl, rfl, rfl⟩, hloop, hbody, htidy⟩ := hg
    have hg₁ : (g.branching is c t₁).Reading g.layout inLoop (g.code.pc + is.length + 1) t₁ :=
      ⟨g.at_branching is c t₁, hloop, hbody, htidy.plan _⟩
    obtain ⟨ps, t₂, hthen⟩ := body.translates hslots (.keywordAt "else" elseLine) h₁ hg₁
      (hext.ready hready) hf₁
    have hext₂ := hthen.extends
    obtain ⟨f₂, hf₂⟩ := hext₂.open hf₁
    have hskip := htest.performed_skip hslots ⟨rfl, rfl, rfl⟩ htidy
      (hthen.performed_reading hslots (.keywordAt "else" elseLine) hg₁) (.symbolAt ")" closing)
      (.keywordAt "else" elseLine)
    have h₂ := Succeeds.of_append (by simpa using h) hskip
    let first := plain (is ++ [.jumpIfFalse c (g.code.pc + is.length + 1 + ps.length + 1)]) ++ ps
    have hlength : g.code.pc + first.length = g.code.pc + is.length + 1 + ps.length := by
      simp only [first, List.length_append, Planned.length_plain, List.length_singleton]
      omega
    have hg₂ : (g.skipping first t₂).Reading g.layout inLoop
        (g.code.pc + is.length + 1 + ps.length + 1) t₂ := by
      refine ⟨by rw [← hlength]; exact g.at_skipping first t₂, ?_, ?_, htidy.plan _⟩
      · rw [hloop]
        simp [Generator.skipping, Generator.planned]
      · simpa [Generator.skipping, Generator.planned] using hbody
    obtain ⟨qs, t₃, helse⟩ := other.translates hslots after h₂ hg₂
      (hext₂.ready (hext.ready hready)) hf₂
    exact ⟨_, _, .ifElse htest hthen helse⟩
  | loop line body untilLine opening cond closing =>
    simp only [Stmt.steps, List.append_assoc, List.cons_append, List.nil_append] at h
    obtain ⟨⟨rfl, rfl, rfl⟩, hloop, hbody, htidy⟩ := hg
    have h₁ := (h.of_cons performs_openBreaks).of_cons performs_startLoop
    let g₁ : Generator := { g with
      breaks := [] :: g.breaks
      stack := .label g.code.pc :: g.stack }
    have hg₁ : g₁.Reading g.layout true g.code.pc g.symbols :=
      ⟨⟨rfl, rfl, rfl⟩, by simp [g₁], hbody, htidy⟩
    obtain ⟨ps, t₁, hstmt⟩ := body.translates hslots (.keywordAt "until" untilLine) h₁ hg₁ hready hf
    have hext := hstmt.extends
    obtain ⟨f₁, hf₁⟩ := hext.open hf
    have h₂ := h₁.of_append (hstmt.performed_reading hslots (.keywordAt "until" untilLine) hg₁)
    obtain ⟨is, c, t₂, htest⟩ := cond.tests_loop hslots h₂ (hg₁.planned ps t₁).toAt
      (hext.ready hready) hf₁ rfl
    exact ⟨_, _, .loop hstmt htest⟩
  | «return» => exact ⟨_, _, .return⟩
  | returnValue line e semicolon =>
    simp only [Stmt.steps, List.append_assoc, List.cons_append] at h
    obtain ⟨is, v, t', he⟩ := e.translates hslots h hg.toAt hready hf
    obtain ⟨s, hs⟩ := he.operand
    have hint := (h.of_append (he.performed hslots hg.toAt)).storeReturnValue rfl hs
    exact ⟨_, _, .returnValue he ⟨hs, hint⟩⟩

/-- Statements in a row that go well have a translation. -/
theorem Stmt.listTranslates {l : Layout} (hslots : 3 ≤ l.scratchSlots.toNat) (ss : List Stmt)
    (after : Token) {inLoop : Bool} {pc : Nat} {t : SymbolTable} {f : OpenFunction} {g : Generator}
    {more : List Step} (h : Succeeds (Stmt.listSteps after ss ++ more) g)
    (hg : g.Reading l inLoop pc t) (hready : t.Ready) (hf : t.function = some f) :
    ∃ ps t', Stmt.ListTranslates l inLoop pc t ss ps t' := by
  cases ss with
  | nil => exact ⟨_, _, .nil⟩
  | cons s ss =>
    simp only [Stmt.listSteps, List.append_assoc] at h
    obtain ⟨ps, t₁, hs⟩ := s.translates hslots _ h hg hready hf
    have hext := hs.extends
    obtain ⟨f₁, hf₁⟩ := hext.open hf
    have h₁ := h.of_append (hs.performed_reading hslots _ hg)
    obtain ⟨qs, t₂, hss⟩ := Stmt.listTranslates hslots ss after h₁ (hg.planned ps t₁)
      (hext.ready hready) hf₁
    exact ⟨_, _, .cons hs hss⟩

end

/-! ### Functions -/

/-- A parameter that goes well gets its place. -/
theorem Param.adds : ∀ (p : Param) {t : SymbolTable} {f : OpenFunction} {g : Generator}
    {more : List Step}, Succeeds (p.steps ++ more) g → g.symbols = t → t.function = some f →
      f.blocks = [] → ∃ t', p.Adds t t'
  | ⟨⟨base, line⟩, x, brackets⟩, t, f, g, more, h, hg, hf, hblocks => by
    subst hg
    let p : Param := ⟨⟨base, line⟩, x, brackets⟩
    let g₁ := g.withStack (.name x.lexeme :: .type base.ty :: g.stack)
    have h₁ : Succeeds (⟨p.action, x.token⟩ :: more) g₁ :=
      (h.of_cons (performs_pushType (TypeWord.mk base line).ofKeyword?)).of_cons performs_pushName
    have hdispatch : dispatch p.action x.token = addParameter x.token brackets.isSome := by
      cases brackets <;> rfl
    have hperforms : ∀ {g' : Generator}, Does (addParameter x.token brackets.isSome) g₁ 0 () g' 0 →
        Performs ⟨p.action, x.token⟩ g₁ g' := by
      intro g' hdo
      rw [← hdispatch] at hdo
      exact Does.performs 0 hdo
    have hroom : f.record.HasRoom 1 := by
      by_contra hroom
      obtain ⟨fault, hfault⟩ := Record.allocate_of_not_hasRoom hroom
      refine h₁.not_stops ?_
      rw [hdispatch]
      exact stops_addParameter (g := g₁) rfl (SymbolTable.addParameter_stops hf hblocks hfault)
    have hfresh : f.outer.contains x.lexeme = false := by
      by_contra hdup
      exact h₁.not_reports (hperforms (does_addParameter_duplicate rfl
        (SymbolTable.addParameter_duplicate hf hblocks hroom (by simpa using hdup))))
    cases base with
    | int => exact ⟨_, .intro rfl hf hblocks hroom hfresh⟩
    | void =>
      have h₂ := h₁.of_cons (hperforms (does_addParameter rfl
        (SymbolTable.addParameter_fresh hf hblocks hroom hfresh)))
      exact absurd h₂.diagnostics_eq_empty reportVoid_void

namespace SymbolTable

theorem Clean.modify {scope : Scope} (h : ∀ s ∈ scope.symbols, s.isPlaceholder = false)
    (name : String) (types : List Ty) :
    ∀ s ∈ (scope.modify name fun x => { x with args := some types }).symbols,
      s.isPlaceholder = false := by
  intro s hs
  obtain ⟨y, hy, rfl⟩ := List.mem_map.mp hs
  split
  · exact h y hy
  · exact h y hy

theorem withEntry_ready {t : SymbolTable} {name : String} (ht : t.Ready)
    (hfn : t.function = none) (hfresh : t.globals.contains name = false) (ty : Ty) (entry : Nat) :
    (t.withEntry name ty entry).Ready := by
  have hclean := ht.clean
  rw [Clean, scopes, hfn] at hclean
  refine ⟨fun scope hscope => ?_, fun f' hf' => ?_⟩
  · simp only [withEntry, scopes, OpenFunction.scopes, List.nil_append, List.singleton_append,
      List.mem_cons, List.not_mem_nil, or_false, forall_eq] at hscope hclean
    rcases hscope with rfl | rfl
    · exact fun s hs => absurd hs List.not_mem_nil
    · rw [Scope.symbols_insert hfresh]
      intro s hs
      rcases List.mem_append.mp hs with hs | hs
      · exact hclean s hs
      · rw [List.mem_singleton.mp hs]
        rfl
  · obtain rfl := Option.some.inj hf'
    rfl

end SymbolTable

theorem Param.Adds.ready {p : Param} {t t' : SymbolTable} (h : p.Adds t t') (ht : t.Ready) :
    t'.Ready := by
  cases h with
  | intro hbase hf hblocks hroom hfresh =>
    rename_i f
    have hclean := ht.clean
    simp only [SymbolTable.Clean, SymbolTable.scopes, hf, OpenFunction.scopes, hblocks,
      List.nil_append, List.singleton_append, List.mem_cons, List.not_mem_nil, or_false,
      forall_eq_or_imp, forall_eq] at hclean
    refine ⟨fun scope hscope => ?_, fun f' hf' => ?_⟩
    · simp only [SymbolTable.withParameter, SymbolTable.scopes, OpenFunction.scopes,
        OpenFunction.grow, hblocks, List.nil_append, List.singleton_append, List.mem_cons,
        List.not_mem_nil, or_false] at hscope
      rcases hscope with rfl | rfl
      · exact SymbolTable.Clean.insert_cell hclean.1 hfresh _ _ _
      · rw [SymbolTable.addType]
        split
        · exact SymbolTable.Clean.modify hclean.2 _ _
        · exact hclean.2
    · obtain rfl := Option.some.inj hf'
      exact hroom.1

theorem Chain.ready_adds {ps : List Param} {t t' : SymbolTable} (h : Chain Param.Adds ps t t')
    (ht : t.Ready) : t'.Ready := by
  induction h with
  | nil => exact ht
  | cons hp _ ih => exact ih (hp.ready ht)

theorem Param.adds_chain : ∀ (ps : List Param) {t : SymbolTable} {f : OpenFunction}
    {g : Generator} {more : List Step}, Succeeds (ps.flatMap Param.steps ++ more) g →
      g.symbols = t → t.function = some f → f.blocks = [] →
      ∃ t', Chain Param.Adds ps t t'
  | [], t, f, g, more, h, hg, hf, hblocks => ⟨t, .nil⟩
  | p :: ps, t, f, g, more, h, hg, hf, hblocks => by
    rw [List.flatMap_cons, List.append_assoc] at h
    obtain ⟨t₁, hp⟩ := p.adds h hg hf hblocks
    obtain ⟨f₁, hf₁, hblocks₁, -⟩ := hp.header
    obtain ⟨t₂, hps⟩ := adds_chain ps (h.of_append (hp.performed hg)) rfl hf₁ hblocks₁
    exact ⟨t₂, .cons hp hps⟩

/-- A table is left as it was found when a function ends: ready, and with no function open. -/
theorem FnDecl.Translates.ready {l : Layout} {f : FnDecl} {pc : Nat} {t t' : SymbolTable}
    {is : List Instruction} {frame : Frame} (h : f.Translates l pc t is t' frame)
    (ht : t.Ready) : t'.Ready := by
  cases h with
  | intro hnone hfresh hparams hstmt hfn =>
    rename_i t₁ ps t₂ fn
    have hready₁ := hparams.ready_adds
      (SymbolTable.withEntry_ready ht hnone hfresh f.type.base.ty pc)
    have hready₂ := hstmt.extends.ready hready₁
    refine ⟨fun scope hscope => hready₂.clean scope ?_, fun f' hf' => by cases hf'⟩
    rw [SymbolTable.scopes, hfn]
    exact List.mem_append_right _ hscope

/-- A function that goes well has a translation. -/
theorem FnDecl.translates {l : Layout} (hslots : 3 ≤ l.scratchSlots.toNat) (f : FnDecl) {pc : Nat}
    {t : SymbolTable} {g : Generator} {more : List Step} (h : Succeeds (f.steps ++ more) g)
    (hg : g.At l pc t) (ht : t.Ready) (hnone : t.function = none) (hbody : g.body = none)
    (hbreaks : g.breaks = []) (htidy : g.code.Tidy) :
    ∃ is t' frame, f.Translates l pc t is t' frame := by
  obtain ⟨rfl, rfl, rfl⟩ := hg
  simp only [FnDecl.steps, List.append_assoc] at h
  have hfresh : g.symbols.globals.contains f.name.lexeme = false := by
    by_contra hdup
    have h₁ := (Succeeds.of_cons h (performs_pushType f.type.ofKeyword?)).of_cons performs_pushName
    exact h₁.not_reports (performs_declareFunction_duplicate rfl hbody
      (SymbolTable.openFunction_duplicate hnone (eq_true_of_ne_false hdup) _))
  have h₁ := h.of_append (FnDecl.performed_entry hnone hbody hfresh)
  obtain ⟨t₁, hparams⟩ := Param.adds_chain f.params.toList h₁ rfl rfl rfl
  have hready := hparams.ready_adds
    (SymbolTable.withEntry_ready ht hnone hfresh f.type.base.ty g.code.pc)
  have h₂ := (h₁.of_append (hparams.performed_adds rfl)).of_cons
    (performs_beginFunction_entering hslots _ _ _ _)
  obtain ⟨f₁, hf₁, -⟩ := hparams.header ⟨_, rfl, rfl, rfl⟩
  obtain ⟨ps, t₂, hstmt⟩ : ∃ ps t₂, f.body.stmt.Translates g.layout false _ t₁ ps t₂ :=
    f.body.stmt.translates hslots f.body.close h₂
      ⟨g.at_starting _ _, by simp [Generator.starting, hbreaks], rfl, htidy.plan _⟩ hready hf₁
  obtain ⟨fn, hfn⟩ := hstmt.extends.open hf₁
  exact ⟨_, _, _, .intro hnone hfresh hparams hstmt hfn⟩

/-! ### Programs -/

/-- Declarations that go well have a translation. -/
theorem Decl.listTranslates {l : Layout} (hslots : 3 ≤ l.scratchSlots.toNat) : ∀ (ds : List Decl)
    {pc : Nat} {t : SymbolTable} {g : Generator} {more : List Step},
    Succeeds (ds.flatMap Decl.steps ++ more) g → g.At l pc t → t.Ready → t.function = none →
      g.body = none → g.breaks = [] → g.code.Tidy →
      ∃ is t' frames, Decl.ListTranslates l pc t ds is t' frames
  | [], pc, t, g, more, h, hg, ht, hnone, hbody, hbreaks, htidy => ⟨_, _, _, .nil⟩
  | .var d :: ds, pc, t, g, more, h, hg, ht, hnone, hbody, hbreaks, htidy => by
    rw [List.flatMap_cons, List.append_assoc] at h
    obtain ⟨t₁, hd⟩ := d.declares h hg.symbols ht
    obtain ⟨is, t', frames, hds⟩ := Decl.listTranslates hslots ds
      (h.of_append (hd.performed hg.symbols)) ⟨hg.layout, hg.pc, rfl⟩ (hd.ready ht)
      (hd.outside hnone) hbody hbreaks htidy
    exact ⟨_, _, _, .var hd hds⟩
  | .fn f :: ds, pc, t, g, more, h, hg, ht, hnone, hbody, hbreaks, htidy => by
    rw [List.flatMap_cons, List.append_assoc] at h
    obtain ⟨is, t₁, frame, hf⟩ := f.translates hslots h hg ht hnone hbody hbreaks htidy
    have h₁ := h.of_append (hf.performed hslots hg hbody htidy)
    have hpc : (g.code.append is).pc = pc + is.length := by
      rw [← hg.pc]
      exact Store.pc_append ..
    have htidy₁ : (g.code.append is).Tidy := by
      rw [Store.append_eq_plan]
      exact htidy.plan _
    have hnone₁ : t₁.function = none := by
      cases hf
      rfl
    obtain ⟨js, t', frames, hds⟩ := Decl.listTranslates hslots ds h₁ ⟨hg.layout, hpc, rfl⟩
      (hf.ready ht) hnone₁ hbody hbreaks htidy₁
    exact ⟨_, _, _, .fn hf hds⟩

theorem SymbolTable.initial_ready (dataBase : Word) : (SymbolTable.initial dataBase).Ready := by
  refine ⟨fun scope hscope s hs => ?_, fun f hf => by cases hf⟩
  obtain rfl := List.mem_singleton.mp hscope
  obtain rfl := List.mem_singleton.mp hs
  rfl

/-- A program that goes well has a translation. -/
theorem Program.translates {l : Layout} (hslots : 3 ≤ l.scratchSlots.toNat) (p : Program)
    (stop : Token) (h : Succeeds (p.steps stop) (Generator.initial l)) :
    ∃ is t frames, p.Translates l is t frames := by
  simp only [Program.steps, List.singleton_append] at h
  have h₁ := h.of_cons (performs_beginProgram_initial l _)
  obtain ⟨is, t, frames, hdecls⟩ := Decl.listTranslates hslots p.decls h₁ (l := l)
    ⟨rfl, rfl, rfl⟩ (SymbolTable.initial_ready l.dataBase) rfl rfl rfl (Store.tidy_empty.plan _)
  have h₂ := h₁.of_append (hdecls.performed_begun hslots)
  cases hmain : (t.find? "main").filter isMain with
  | some main => exact ⟨_, _, _, .intro hdecls hmain⟩
  | none =>
    have hfill := Store.fill_plan Store.tidy_empty [] (plain is)
      (show Planned.back.slot = none from rfl) (.jump (Generator.declared l is t frames).code.pc)
    exact (h₂.not_reports (performs_endProgram_noMain (hdecls.outside rfl) rfl hmain hfill)).elim

end OnePass
