import OnePass.Proofs.Static.Bounds

/-!
# Checking expressions

In a table that holds a context, an expression has a translation if and only if it has a category,
as long as its temporaries fit; and its value is of that category. -/

namespace OnePass

/-! ### Arguments -/

theorem Symbol.matchesParameter_iff {s : Symbol} {ty : Ty} (hs : s.isPlaceholder = false)
    (hty : ty ≠ .void) : s.matchesParameter ty ↔ s.category = ty.category := by
  rw [Symbol.matchesParameter, Symbol.category, hs]
  revert hty
  cases s.isFunction <;> cases s.ty <;> cases ty <;> decide

theorem find?_mismatch_eq_none_iff : ∀ (types : List Ty) (args : List Symbol) (k : Nat),
    types.length = args.length → (∀ ty ∈ types, ty ≠ .void) →
    (∀ s ∈ args, s.isPlaceholder = false) →
      ((((types.zip args).zipIdx k).find? fun ((ty, arg), _) => !arg.matchesParameter ty) = none ↔
        args.map Symbol.category = types.map Ty.category)
  | [], [], _, _, _, _ => by simp
  | ty :: types, arg :: args, k, hlength, htypes, hargs => by
    have ih := find?_mismatch_eq_none_iff types args (k + 1) (Nat.succ.inj hlength)
      (fun ty hty => htypes ty (List.mem_cons_of_mem _ hty))
      (fun s hs => hargs s (List.mem_cons_of_mem _ hs))
    have hmatch := Symbol.matchesParameter_iff (hargs arg (List.mem_cons_self ..))
      (htypes ty (List.mem_cons_self ..))
    rw [List.zip_cons_cons, List.zipIdx_cons, List.map_cons, List.map_cons, List.cons.injEq,
      ← hmatch, ← ih, List.find?_cons]
    cases harg : arg.matchesParameter ty <;> simp [harg]

theorem argumentMistake?_eq_none_iff {callee : Symbol} {args : List Symbol}
    (hcallee : callee.Declared) (hargs : ∀ s ∈ args, s.isPlaceholder = false) :
    Gen.argumentMistake? callee args = none ↔
      args.map Symbol.category = (callee.args.getD []).map Ty.category := by
  rw [Gen.argumentMistake?]
  by_cases hlength : (callee.args.getD []).length = args.length
  · rw [if_neg (by simp [hlength]), Option.map_eq_none_iff]
    exact find?_mismatch_eq_none_iff _ _ 0 hlength hcallee.params hargs
  · rw [if_pos (by simpa using hlength)]
    refine iff_of_false nofun fun hmap => hlength ?_
    simpa using (congrArg List.length hmap).symm

section
variable {t : SymbolTable} {Γ : Context} {x : String} {target callee : Symbol}
  {values : List StackValue} {args : List Symbol}

/-- What is called is what the name stands for. -/
theorem Calls.callee_eq (h : Calls t target values callee args) (ht : t.Models Γ)
    (hx : t.find? x = some target) : callee = target := by
  rw [← h.found]
  exact ht.calleeOf (ht.function_mem hx h.callable.2).1 h.callable.2

/-- A call goes well if the name stands for a function that takes such arguments. -/
theorem calls_iff (ht : t.Models Γ) (hx : t.find? x = some target)
    (hoperands : values.map (·.operand?) = args.map some)
    (hargs : ∀ s ∈ args, s.isPlaceholder = false) :
    Calls t target values target args ↔
      target.meaning = .function (if target.ty = .void then .void else .int)
        (args.map Symbol.category) := by
  have hdeclared := ht.declared_of_find? hx
  have hmatch := argumentMistake?_eq_none_iff hdeclared hargs
  constructor
  · intro h
    rw [Symbol.meaning, if_pos h.callable.2, hmatch.mp h.matching]
  · intro h
    have hcallable : target.IsCallable := (Symbol.isCallable_iff hdeclared).mpr ⟨_, _, h⟩
    refine ⟨hcallable, hoperands, ?_, hmatch.mpr ?_⟩
    · exact ht.calleeOf (ht.function_mem hx hcallable.2).1 hcallable.2
    · rw [Symbol.meaning, if_pos hcallable.2] at h
      exact (Meaning.function.inj h).2.symm

/-- The built-in function gives no value. -/
theorem SymbolTable.Models.void_of_output (ht : t.Models Γ) (hx : t.find? x = some target)
    (hfn : target.isFunction) (hname : target.name = outputName) : target.ty = .void := by
  rw [ht.eq_output (ht.function_mem hx hfn).1 hname]
  rfl

end

theorem Expr.category?_call {Γ : Context} {f : Name} {opening : Nat} {args : Args}
    {result : BaseType} {params : List Category}
    (hf : Γ.find? f.lexeme = some (.function result params))
    (hargs : args.categories? Γ = some params) :
    (Expr.call f opening args).category? Γ = some result.category := by
  simp only [Expr.category?, hf, hargs, if_pos]

/-! ### Translations are checked -/

/-- A value that is used as an integer is that of an integer. -/
theorem Expr.isInt_of_category {Γ : Context} {e : Expr} {v : StackValue} {s : Symbol}
    (h : ∃ s, v.operand? = some s ∧ s.isPlaceholder = false ∧ e.category? Γ = some s.category)
    (hv : v.IsInt s) : e.IsInt Γ := by
  obtain ⟨s', hs, hreal, hcategory⟩ := h
  obtain rfl := Option.some.inj (hs.symm.trans hv.1)
  rw [Expr.IsInt, hcategory, (Symbol.isInt_iff hreal).mp hv.2]

mutual

/-- The value of an expression is of the category of the expression. -/
theorem Expr.category_of_translates {l : Layout} {Γ : Context} : ∀ (e : Expr) {pc : Nat}
    {t t' : SymbolTable} {is : List Instruction} {v : StackValue},
    e.Translates l pc t is v t' → t.Models Γ →
      ∃ s, v.operand? = some s ∧ s.isPlaceholder = false ∧ e.category? Γ = some s.category
  | .num n, pc, t, t', is, v, h, ht => by
    cases h with
    | num hn =>
      refine ⟨_, rfl, rfl, if_pos ?_⟩
      rw [Numeral.InRange, hn]
      rfl
  | .name x, pc, t, t', is, v, h, ht => by
    cases h with
    | name hx =>
      have hs := ht.declared_of_find? hx
      refine ⟨_, rfl, hs.real, ?_⟩
      rw [Expr.category?, ← ht.find?, hx, hs.category]
      rfl
  | .index x opening i closing, pc, t, t', is, v, h, ht => by
    cases h with
    | index hx ha hi hv hf hroom =>
      obtain ⟨s, hs, hreal, hcategory⟩ := i.category_of_translates hi ht
      obtain rfl := Option.some.inj (hs.symm.trans hv.1)
      have hmeaning := (Symbol.isArray_iff (ht.declared_of_find? hx)).mp ha
      have hint := (Symbol.isInt_iff hreal).mp hv.2
      refine ⟨_, rfl, rfl, if_pos ⟨?_, ?_⟩⟩
      · rw [← ht.find?, hx, ← hmeaning]
        rfl
      · rw [hcategory, hint]
  | .call x opening args, pc, t, t', is, v, h, ht => by
    have hcall : ∀ {is values t₁ target callee ss}, t.find? x.lexeme = some target →
        args.Translates l pc t is values t₁ → Calls t₁ target values callee ss →
        callee = target ∧ target.isFunction ∧ t₁.Models Γ ∧ t₁.find? x.lexeme = some target ∧
          (Expr.call x opening args).category? Γ =
            some (if target.ty = .void then BaseType.void else .int).category := by
      intro is values t₁ target callee ss hx hargs hcalls
      have hext := hargs.extends
      have ht₁ := hext.models ht
      have hx₁ : t₁.find? x.lexeme = some target := by rw [hext.find?, hx]
      obtain ⟨ss', hoperands, hreal, hcategories⟩ := args.categories_of_translates hargs ht
      obtain rfl : ss = ss' := (List.map_inj_right fun _ _ => Option.some.inj).mp
        (hcalls.operands.symm.trans hoperands)
      obtain rfl := hcalls.callee_eq ht₁ hx₁
      have hmeaning := (calls_iff ht₁ hx₁ hoperands hreal).mp hcalls
      have hfind := ht.find? x.lexeme
      rw [hx, Option.map_some, hmeaning] at hfind
      exact ⟨rfl, hcalls.callable.2, ht₁, hx₁, Expr.category?_call hfind.symm hcategories⟩
    cases h with
    | print hx hargs hcalls hout =>
      obtain ⟨rfl, hfn, ht₁, hx₁, hcategory⟩ := hcall hx hargs hcalls
      refine ⟨_, rfl, rfl, ?_⟩
      rw [hcategory, if_pos (ht₁.void_of_output hx₁ hfn hout)]
      rfl
    | callVoid hx hargs hcalls hout hty =>
      obtain ⟨rfl, -, -, -, hcategory⟩ := hcall hx hargs hcalls
      refine ⟨_, rfl, rfl, ?_⟩
      rw [hcategory, if_pos hty]
      rfl
    | callValue hx hargs hcalls hout hty hf hroom =>
      obtain ⟨rfl, -, -, -, hcategory⟩ := hcall hx hargs hcalls
      refine ⟨_, rfl, rfl, ?_⟩
      rw [hcategory, if_neg hty]
      rfl
  | .paren opening e closing, pc, t, t', is, v, h, ht => by
    cases h with
    | paren he => exact e.category_of_translates he ht
  | .binary op line e₁ e₂, pc, t, t', is, v, h, ht => by
    cases h with
    | binary h₁ hv₁ h₂ hv₂ hf hroom =>
      have hint₁ := Expr.isInt_of_category (e₁.category_of_translates h₁ ht) hv₁
      have hint₂ := Expr.isInt_of_category
        (e₂.category_of_translates h₂ (h₁.extends.models ht)) hv₂
      exact ⟨_, rfl, rfl, if_pos ⟨hint₁, hint₂⟩⟩
  | .assign target line value, pc, t, t', is, v, h, ht => by
    cases h with
    | assign h₁ hv₁ h₂ hv₂ =>
      have hint₁ := Expr.isInt_of_category (target.category_of_translates h₁ ht) hv₁
      have hvalue := value.category_of_translates h₂ (h₁.extends.models ht)
      have hint₂ := Expr.isInt_of_category hvalue hv₂
      obtain ⟨s, hs, hreal, hcategory⟩ := hvalue
      obtain rfl := Option.some.inj (hs.symm.trans hv₂.1)
      refine ⟨s, rfl, hreal, ?_⟩
      rw [Expr.category?, if_pos ⟨hint₁, hint₂⟩, ← hcategory, hint₂]

theorem Args.categories_of_translates {l : Layout} {Γ : Context} : ∀ (args : Args) {pc : Nat}
    {t t' : SymbolTable} {is : List Instruction} {values : List StackValue},
    args.Translates l pc t is values t' → t.Models Γ →
      ∃ ss : List Symbol, values.map (·.operand?) = ss.map some ∧
        (∀ s ∈ ss, s.isPlaceholder = false) ∧ args.categories? Γ = some (ss.map Symbol.category)
  | .none closing, pc, t, t', is, values, h, ht => by
    cases h
    exact ⟨[], rfl, nofun, rfl⟩
  | .last e closing, pc, t, t', is, values, h, ht => by
    cases h with
    | last he =>
      obtain ⟨s, hs, hreal, hcategory⟩ := e.category_of_translates he ht
      refine ⟨[s], by simp [hs], by simpa using hreal, ?_⟩
      rw [Args.categories?, hcategory]
      rfl
  | .more e comma rest, pc, t, t', is, values, h, ht => by
    cases h with
    | more he hrest =>
      obtain ⟨s, hs, hreal, hcategory⟩ := e.category_of_translates he ht
      obtain ⟨ss, hss, hreals, hcategories⟩ :=
        rest.categories_of_translates hrest (he.extends.models ht)
      refine ⟨s :: ss, by simp [hs, hss], List.forall_mem_cons.mpr ⟨hreal, hreals⟩, ?_⟩
      rw [Args.categories?, hcategory, hcategories]
      rfl

end

/-! ### What is checked has a translation -/

/-- A table of a function that holds a context and can take some more words. -/
structure SymbolTable.Room (t : SymbolTable) (Γ : Context) (words : Nat) : Prop where
  models : t.Models Γ
  opened : ∃ f, t.function = some f ∧ f.record.closed = false
  room : t.frameSize + 4 * words ≤ declaredLimit

namespace SymbolTable.Room

variable {t t' : SymbolTable} {Γ : Context} {m n : Nat}

theorem mono (h : t.Room Γ n) (hm : m ≤ n) : t.Room Γ m :=
  ⟨h.models, h.opened, Nat.le_trans (by omega) h.room⟩

/-- What is left after a phrase that took some words. -/
theorem spend (h : t.Room Γ (m + n)) (hext : t.Extends t')
    (hsize : t'.frameSize ≤ t.frameSize + 4 * m) : t'.Room Γ n := by
  obtain ⟨f, hf, hopen⟩ := h.opened
  obtain ⟨size, -, hf'⟩ := hext.function f hf
  have hroom := h.room
  exact ⟨hext.models h.models, ⟨_, hf', hopen⟩, by omega⟩

/-- One more word fits. -/
theorem temporary (h : t.Room Γ n) (hn : 0 < n) :
    ∃ f, t.function = some f ∧ f.record.HasRoom 1 := by
  obtain ⟨f, hf, hopen⟩ := h.opened
  have hroom := h.room
  rw [SymbolTable.frameSize_eq hf] at hroom
  refine ⟨f, hf, hopen, ?_⟩
  rw [Word.size]
  simp only [declaredLimit, addressLimit] at hroom ⊢
  omega

end SymbolTable.Room

theorem Symbol.result_of_meaning {s : Symbol} {result : BaseType} {params : List Category}
    (h : s.meaning = .function result params) :
    result = if s.ty = .void then .void else .int := by
  rw [Symbol.meaning] at h
  split at h
  · exact (Meaning.function.inj h).1.symm
  · split at h <;> cases h

theorem Expr.isInt_value {l : Layout} {Γ : Context} {e : Expr} {pc : Nat} {t t' : SymbolTable}
    {is : List Instruction} {v : StackValue} (h : e.Translates l pc t is v t') (ht : t.Models Γ)
    (hint : e.IsInt Γ) : ∃ s, v.IsInt s := by
  obtain ⟨s, hs, hreal, hcategory⟩ := e.category_of_translates h ht
  refine ⟨s, hs, (Symbol.isInt_iff hreal).mpr ?_⟩
  exact (Option.some.inj (hcategory.symm.trans hint))

mutual

/-- An expression with a category has a translation, if its temporaries fit. -/
theorem Expr.translates_of_category {l : Layout} {Γ : Context} : ∀ (e : Expr) {c : Category}
    (pc : Nat) {t : SymbolTable}, e.category? Γ = some c → t.Room Γ e.tokens.length →
      ∃ is v t', e.Translates l pc t is v t'
  | .num n, c, pc, t, h, ht => by
    rw [Expr.category?] at h
    split at h
    · rename_i hrange
      obtain ⟨w, hw⟩ := Option.isSome_iff_exists.mp hrange
      exact ⟨_, _, _, .num hw⟩
    · cases h
  | .name x, c, pc, t, h, ht => by
    rw [Expr.category?, ← ht.models.find?] at h
    cases hx : t.find? x.lexeme with
    | some s => exact ⟨_, _, _, .name hx⟩
    | none =>
      rw [hx] at h
      cases h
  | .index x opening i closing, c, pc, t, h, ht => by
    have htokens : i.tokens.length + 3 = (Expr.index x opening i closing).tokens.length := by
      simp only [Expr.tokens, List.length_append, List.length_cons, List.length_nil]
      omega
    rw [← htokens] at ht
    rw [Expr.category?] at h
    split at h
    · rename_i hboth
      obtain ⟨hfind, hint⟩ := hboth
      rw [← ht.models.find?, Option.map_eq_some_iff] at hfind
      obtain ⟨a, ha, hmeaning⟩ := hfind
      have harray := (Symbol.isArray_iff (ht.models.declared_of_find? ha)).mpr hmeaning
      obtain ⟨is, v, t₁, hi⟩ := i.translates_of_category pc hint (ht.mono (Nat.le_add_right _ _))
      obtain ⟨s, hs⟩ := Expr.isInt_value hi ht.models hint
      obtain ⟨f, hf, hroom⟩ := (ht.spend hi.extends hi.bounds.2).temporary
        (Nat.succ_pos _)
      exact ⟨_, _, _, .index ha harray hi hs hf hroom⟩
    · cases h
  | .call x opening args, c, pc, t, h, ht => by
    have htokens : args.tokens.length + 2 = (Expr.call x opening args).tokens.length := by
      simp only [Expr.tokens, List.length_append, List.length_cons, List.length_nil]
      omega
    rw [← htokens] at ht
    simp only [Expr.category?] at h
    split at h
    · rename_i result params hfind
      split at h
      · rename_i hparams
        obtain ⟨is, values, t₁, hargs⟩ := args.translates_of_categories (l := l) pc hparams
          (ht.mono (Nat.le_add_right _ _))
        have hext := hargs.extends
        obtain ⟨ss, hoperands, hreal, hcategories⟩ :=
          args.categories_of_translates hargs ht.models
        obtain rfl := Option.some.inj (hcategories.symm.trans hparams)
        rw [← ht.models.find?, Option.map_eq_some_iff] at hfind
        obtain ⟨target, hx, hmeaning⟩ := hfind
        have hx₁ : t₁.find? x.lexeme = some target := by rw [hext.find?, hx]
        obtain rfl := Symbol.result_of_meaning hmeaning
        have hcalls := (calls_iff (hext.models ht.models) hx₁ hoperands hreal).mpr hmeaning
        by_cases hout : target.name = outputName
        · exact ⟨_, _, _, .print hx hargs hcalls hout⟩
        by_cases hty : target.ty = .void
        · exact ⟨_, _, _, .callVoid hx hargs hcalls hout hty⟩
        · obtain ⟨f, hf, hroom⟩ := (ht.spend hext hargs.bounds.2).temporary
            (Nat.succ_pos _)
          exact ⟨_, _, _, .callValue hx hargs hcalls hout hty hf hroom⟩
      · cases h
    · cases h
  | .paren opening e closing, c, pc, t, h, ht => by
    have htokens : e.tokens.length ≤ (Expr.paren opening e closing).tokens.length := by
      simp only [Expr.tokens, List.length_append, List.length_cons, List.length_nil]
      omega
    obtain ⟨is, v, t', he⟩ := e.translates_of_category pc h (ht.mono htokens)
    exact ⟨is, v, t', .paren he⟩
  | .binary op line e₁ e₂, c, pc, t, h, ht => by
    have htokens : e₁.tokens.length + (e₂.tokens.length + 1) =
        (Expr.binary op line e₁ e₂).tokens.length := by
      simp only [Expr.tokens, List.length_append, List.length_cons, List.length_nil]
      omega
    rw [← htokens] at ht
    rw [Expr.category?] at h
    split at h
    · rename_i hboth
      obtain ⟨hint₁, hint₂⟩ := hboth
      obtain ⟨is, v₁, t₁, h₁⟩ := e₁.translates_of_category (l := l) pc hint₁
        (ht.mono (Nat.le_add_right _ _))
      obtain ⟨s₁, hs₁⟩ := Expr.isInt_value h₁ ht.models hint₁
      have ht₁ := ht.spend h₁.extends h₁.bounds.2
      obtain ⟨js, v₂, t₂, h₂⟩ := e₂.translates_of_category (pc + is.length) hint₂
        (ht₁.mono (Nat.le_add_right _ _))
      obtain ⟨s₂, hs₂⟩ := Expr.isInt_value h₂ ht₁.models hint₂
      obtain ⟨f, hf, hroom⟩ := (ht₁.spend h₂.extends h₂.bounds.2).temporary
        (Nat.succ_pos _)
      exact ⟨_, _, _, .binary h₁ hs₁ h₂ hs₂ hf hroom⟩
    · cases h
  | .assign target line value, c, pc, t, h, ht => by
    have htokens : target.tokens.length + (value.tokens.length + 1) =
        (Expr.assign target line value).tokens.length := by
      simp only [Expr.tokens, List.length_append, List.length_cons, List.length_nil]
      omega
    rw [← htokens] at ht
    rw [Expr.category?] at h
    split at h
    · rename_i hboth
      obtain ⟨hint₁, hint₂⟩ := hboth
      obtain ⟨is, v₁, t₁, h₁⟩ := target.translates_of_category (l := l) pc hint₁
        (ht.mono (Nat.le_add_right _ _))
      obtain ⟨s₁, hs₁⟩ := Expr.isInt_value h₁ ht.models hint₁
      have ht₁ := ht.spend h₁.extends h₁.bounds.2
      obtain ⟨js, v₂, t₂, h₂⟩ := value.translates_of_category (pc + is.length) hint₂
        (ht₁.mono (Nat.le_add_right _ _))
      obtain ⟨s₂, hs₂⟩ := Expr.isInt_value h₂ ht₁.models hint₂
      exact ⟨_, _, _, .assign h₁ hs₁ h₂ hs₂⟩
    · cases h

theorem Args.translates_of_categories {l : Layout} {Γ : Context} : ∀ (args : Args)
    {cs : List Category} (pc : Nat) {t : SymbolTable}, args.categories? Γ = some cs →
    t.Room Γ args.tokens.length → ∃ is values t', args.Translates l pc t is values t'
  | .none closing, cs, pc, t, h, ht => ⟨_, _, _, .none⟩
  | .last e closing, cs, pc, t, h, ht => by
    have htokens : e.tokens.length ≤ (Args.last e closing).tokens.length := by
      simp only [Args.tokens, List.length_append]
      omega
    rw [Args.categories?, Option.map_eq_some_iff] at h
    obtain ⟨c, hc, -⟩ := h
    obtain ⟨is, v, t', he⟩ := e.translates_of_category pc hc (ht.mono htokens)
    exact ⟨_, _, _, .last he⟩
  | .more e comma rest, cs, pc, t, h, ht => by
    have htokens : e.tokens.length + (rest.tokens.length + 1) =
        (Args.more e comma rest).tokens.length := by
      simp only [Args.tokens, List.length_append, List.length_cons, List.length_nil]
      omega
    rw [← htokens] at ht
    simp only [Args.categories?] at h
    split at h
    · rename_i c cs' hc hcs
      obtain ⟨is, v, t₁, he⟩ := e.translates_of_category (l := l) pc hc
        (ht.mono (Nat.le_add_right _ _))
      have ht₁ := ht.spend he.extends he.bounds.2
      obtain ⟨js, vs, t₂, hrest⟩ := rest.translates_of_categories (pc + is.length) hcs
        (ht₁.mono (Nat.le_add_right _ _))
      exact ⟨_, _, _, .more he hrest⟩
    · cases h

end

end OnePass
