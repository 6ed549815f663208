import OnePass.Proofs.Static.Expression

/-!
# Checking statements

In a table that holds a context, a statement has a translation if and only if it is well typed, as
long as its storage fits. -/

namespace OnePass

/-! ### Translations are checked -/

theorem Expr.Tests.isInt {l : Layout} {Γ : Context} {e : Expr} {pc : Nat} {t t' : SymbolTable}
    {is : List Instruction} {c : Operand} (h : e.Tests l pc t is c t') (ht : t.Models Γ) :
    e.IsInt Γ := by
  cases h with
  | intro he hv => exact Expr.isInt_of_category (e.category_of_translates he ht) hv

mutual

/-- A statement with a translation is well typed. -/
theorem Stmt.wellTyped_of_translates {l : Layout} {Γ : Context} : ∀ (s : Stmt) {inLoop : Bool}
    {pc : Nat} {t t' : SymbolTable} {ps : List Planned}, s.Translates l inLoop pc t ps t' →
      t.Models Γ → s.WellTyped Γ inLoop
  | .empty _, _, _, _, _, _, _, _ => trivial
  | .expr e _, _, _, _, _, _, h, ht => by
    cases h with
    | expr he =>
      obtain ⟨s, -, -, hcategory⟩ := e.category_of_translates he ht
      rw [Stmt.WellTyped, hcategory]
      rfl
  | .block _ locals body _, _, _, _, _, _, h, ht => by
    cases h with
    | block hf hlocals hbody hf₂ hblocks =>
      obtain ⟨hdistinct, hall, ht₁⟩ := Chain.models locals hlocals (ht.openBlock hf) List.nodup_nil
      exact ⟨⟨hdistinct, hall⟩, Stmt.listWellTyped_of_translates body hbody ht₁⟩
  | .leave _ _, _, _, _, _, _, h, _ => by
    cases h
    rfl
  | .ifThen _ _ _ _ body, _, _, _, _, _, h, ht => by
    cases h with
    | ifThen htest hthen =>
      exact ⟨htest.isInt ht, body.wellTyped_of_translates hthen (htest.extends.models ht)⟩
  | .ifElse _ _ _ _ body _ other, _, _, _, _, _, h, ht => by
    cases h with
    | ifElse htest hthen helse =>
      have ht₁ := htest.extends.models ht
      exact ⟨htest.isInt ht, body.wellTyped_of_translates hthen ht₁,
        other.wellTyped_of_translates helse (hthen.extends.models ht₁)⟩
  | .loop _ body _ _ _ _, _, _, _, _, _, h, ht => by
    cases h with
    | loop hbody htest =>
      exact ⟨body.wellTyped_of_translates hbody ht,
        htest.isInt (hbody.extends.models ht)⟩
  | .return _ _, _, _, _, _, _, _, _ => trivial
  | .returnValue _ e _, _, _, _, _, _, h, ht => by
    cases h with
    | returnValue he hv => exact Expr.isInt_of_category (e.category_of_translates he ht) hv

theorem Stmt.listWellTyped_of_translates {l : Layout} {Γ : Context} : ∀ (ss : List Stmt)
    {inLoop : Bool} {pc : Nat} {t t' : SymbolTable} {ps : List Planned},
    Stmt.ListTranslates l inLoop pc t ss ps t' → t.Models Γ → Stmt.ListWellTyped Γ inLoop ss
  | [], _, _, _, _, _, _, _ => trivial
  | s :: ss, _, _, _, _, _, h, ht => by
    cases h with
    | cons hs hss =>
      exact ⟨s.wellTyped_of_translates hs ht,
        Stmt.listWellTyped_of_translates ss hss (hs.extends.models ht)⟩

end

/-! ### What is checked has a translation -/

theorem Expr.tests_of_isInt {l : Layout} {Γ : Context} (e : Expr) (pc : Nat) {t : SymbolTable}
    (h : e.IsInt Γ) (ht : t.Room Γ e.tokens.length) : ∃ is c t', e.Tests l pc t is c t' := by
  obtain ⟨is, v, t', he⟩ := e.translates_of_category pc h ht
  obtain ⟨s, hs⟩ := Expr.isInt_value he ht.models h
  exact ⟨_, _, _, .intro he hs⟩

/-- A well-typed declaration with a new name gets storage, if that fits. -/
theorem VarDecl.declares_of_wellTyped {Γ : Context} {bs : Bindings} {d : VarDecl} {n : Nat}
    {t : SymbolTable} (h : d.WellTyped) (hnew : d.binding.1 ∉ bs.map (·.1))
    (ht : t.Room (Γ.enter bs) (d.arrayWords + d.tokens.length + n)) :
    ∃ t', d.Declares t t' ∧ t'.Room (Γ.enter (bs ++ [d.binding])) n := by
  obtain ⟨f, hf, hopen⟩ := ht.opened
  have hroom := ht.room
  have hwords := d.words_le
  have hfresh : f.current.contains d.name.lexeme = false := by
    rw [Scope.contains_eq_false_iff, ht.models.current_bindings hf]
    exact hnew
  have hfits : f.record.fits d.words := by
    rw [Record.fits_iff, ← SymbolTable.frameSize_eq hf, Word.size]
    omega
  have hstores : SymbolTable.Stores d.name.lexeme d.ty d.words t _ := .inner hf hopen hfresh hfits
  have hd := VarDecl.declares_iff.mpr ⟨h, hstores⟩
  have hsize := hstores.frameSize_le
  refine ⟨_, hd, (hd.models ht.models).2.2, ⟨_, rfl, ?_⟩, by omega⟩
  rw [OpenFunction.insert]
  split <;> exact hopen

theorem VarDecl.chain_of_wellTyped {Γ : Context} {n : Nat} : ∀ (ds : List VarDecl)
    {bs : Bindings} {t : SymbolTable}, Bindings.Distinct (bs ++ ds.map VarDecl.binding) →
    (∀ d ∈ ds, d.WellTyped) →
    t.Room (Γ.enter bs)
      ((ds.map VarDecl.arrayWords).sum + (ds.flatMap VarDecl.tokens).length + n) →
      ∃ t', Chain VarDecl.Declares ds t t' ∧ t'.Room (Γ.enter (bs ++ ds.map VarDecl.binding)) n
  | [], bs, t, _, _, ht => by
    rw [List.map_nil, List.append_nil]
    exact ⟨t, .nil, ht.mono (Nat.le_add_left ..)⟩
  | d :: ds, bs, t, hdistinct, hall, ht => by
    rw [List.map_cons, List.append_cons] at hdistinct ⊢
    have hd := hall d (List.mem_cons_self ..)
    obtain ⟨t₁, hdeclares, ht₁⟩ := VarDecl.declares_of_wellTyped (n :=
      (ds.map VarDecl.arrayWords).sum + (ds.flatMap VarDecl.tokens).length + n) hd hdistinct.not_mem
      (ht.mono (by
        rw [List.map_cons, List.sum_cons, List.flatMap_cons, List.length_append]
        omega))
    obtain ⟨t', hds, ht'⟩ := chain_of_wellTyped ds hdistinct
      (fun d hd => hall d (List.mem_cons_of_mem _ hd)) ht₁
    exact ⟨t', .cons hdeclares hds, ht'⟩

theorem SymbolTable.Room.openBlock {t : SymbolTable} {Γ : Context} {n : Nat} {f : OpenFunction}
    (h : t.Room Γ n) (hf : t.function = some f) :
    (t.withFunction { f with blocks := {} :: f.blocks }).Room (Γ.enter []) n := by
  obtain ⟨f', hf', hopen⟩ := h.opened
  obtain rfl := Option.some.inj (hf'.symm.trans hf)
  have hroom := h.room
  rw [SymbolTable.frameSize_eq hf] at hroom
  exact ⟨h.models.openBlock hf, ⟨_, rfl, hopen⟩, hroom⟩

mutual

/-- A well-typed statement has a translation, if its storage fits. -/
theorem Stmt.translates_of_wellTyped {l : Layout} {Γ : Context} : ∀ (s : Stmt) {inLoop : Bool}
    (pc : Nat) {t : SymbolTable}, s.WellTyped Γ inLoop →
    t.Room Γ (s.arrayWords + s.tokens.length) → ∃ ps t', s.Translates l inLoop pc t ps t'
  | .empty _, _, _, _, _, _ => ⟨_, _, .empty⟩
  | .expr e semicolon, _, pc, t, h, ht => by
    obtain ⟨c, hc⟩ := Option.isSome_iff_exists.mp h
    have htokens : e.tokens.length ≤ (Stmt.expr e semicolon).arrayWords +
        (Stmt.expr e semicolon).tokens.length := by
      simp only [Stmt.tokens, List.length_append]
      omega
    obtain ⟨is, v, t', he⟩ := e.translates_of_category pc hc (ht.mono htokens)
    exact ⟨_, _, .expr he⟩
  | .block opening locals body closing, _, pc, t, h, ht => by
    obtain ⟨⟨hdistinct, hall⟩, hbody⟩ := h
    have htokens : (locals.map VarDecl.arrayWords).sum + (locals.flatMap VarDecl.tokens).length +
        (Stmt.listArrayWords body + (Stmt.listTokens body).length) ≤
        (Stmt.block opening locals body closing).arrayWords +
          (Stmt.block opening locals body closing).tokens.length := by
      simp only [Stmt.arrayWords, Stmt.tokens, List.length_append]
      omega
    obtain ⟨f, hf, -⟩ := ht.opened
    obtain ⟨t₁, hlocals, ht₁⟩ := VarDecl.chain_of_wellTyped locals hdistinct hall
      ((ht.mono htokens).openBlock hf)
    obtain ⟨ps, t₂, hstmts⟩ := Stmt.listTranslates_of_wellTyped body pc hbody ht₁
    obtain ⟨inner, size, -, rfl⟩ := hlocals.inBlock rfl rfl
    obtain ⟨size', -, hf₂⟩ := hstmts.extends.function _ rfl
    exact ⟨_, _, .block hf hlocals hstmts hf₂ rfl⟩
  | .leave _ _, _, _, _, h, _ => by
    obtain rfl : _ = true := h
    exact ⟨_, _, .leave⟩
  | .ifThen line opening cond closing body, _, pc, t, h, ht => by
    have htokens : cond.tokens.length + (body.arrayWords + body.tokens.length) ≤
        (Stmt.ifThen line opening cond closing body).arrayWords +
          (Stmt.ifThen line opening cond closing body).tokens.length := by
      simp only [Stmt.arrayWords, Stmt.tokens, List.length_append]
      omega
    have ht₀ := ht.mono htokens
    obtain ⟨is, c, t₁, htest⟩ := Expr.tests_of_isInt (l := l) cond pc h.1
      (ht₀.mono (Nat.le_add_right ..))
    obtain ⟨ps, t₂, hbody⟩ := body.translates_of_wellTyped (pc + is.length + 1) h.2
      (ht₀.spend htest.extends htest.bounds.2)
    exact ⟨_, _, .ifThen htest hbody⟩
  | .ifElse line opening cond closing body elseLine other, _, pc, t, h, ht => by
    have htokens : cond.tokens.length + ((body.arrayWords + body.tokens.length) +
        (other.arrayWords + other.tokens.length)) ≤
        (Stmt.ifElse line opening cond closing body elseLine other).arrayWords +
          (Stmt.ifElse line opening cond closing body elseLine other).tokens.length := by
      simp only [Stmt.arrayWords, Stmt.tokens, List.length_append]
      omega
    have ht₀ := ht.mono htokens
    obtain ⟨is, c, t₁, htest⟩ := Expr.tests_of_isInt (l := l) cond pc h.1
      (ht₀.mono (Nat.le_add_right ..))
    have ht₁ := ht₀.spend htest.extends htest.bounds.2
    obtain ⟨ps, t₂, hbody⟩ := body.translates_of_wellTyped (pc + is.length + 1) h.2.1
      (ht₁.mono (Nat.le_add_right ..))
    obtain ⟨qs, t₃, hother⟩ := other.translates_of_wellTyped
      (pc + is.length + 1 + ps.length + 1) h.2.2
      (ht₁.spend hbody.extends hbody.bounds.2)
    exact ⟨_, _, .ifElse htest hbody hother⟩
  | .loop line body untilLine opening cond closing, _, pc, t, h, ht => by
    have htokens : (body.arrayWords + body.tokens.length) + cond.tokens.length ≤
        (Stmt.loop line body untilLine opening cond closing).arrayWords +
          (Stmt.loop line body untilLine opening cond closing).tokens.length := by
      simp only [Stmt.arrayWords, Stmt.tokens, List.length_append]
      omega
    have ht₀ := ht.mono htokens
    obtain ⟨ps, t₁, hbody⟩ := body.translates_of_wellTyped pc h.1 (ht₀.mono (Nat.le_add_right ..))
    obtain ⟨is, c, t₂, htest⟩ := Expr.tests_of_isInt (l := l) cond (pc + ps.length) h.2
      (ht₀.spend hbody.extends hbody.bounds.2)
    exact ⟨_, _, .loop hbody htest⟩
  | .return _ _, _, _, _, _, _ => ⟨_, _, .return⟩
  | .returnValue line e semicolon, _, pc, t, h, ht => by
    have htokens : e.tokens.length ≤ (Stmt.returnValue line e semicolon).arrayWords +
        (Stmt.returnValue line e semicolon).tokens.length := by
      simp only [Stmt.tokens, List.length_append]
      omega
    obtain ⟨is, v, t', he⟩ := e.translates_of_category pc h (ht.mono htokens)
    obtain ⟨s, hs⟩ := Expr.isInt_value he ht.models h
    exact ⟨_, _, .returnValue he hs⟩

theorem Stmt.listTranslates_of_wellTyped {l : Layout} {Γ : Context} : ∀ (ss : List Stmt)
    {inLoop : Bool} (pc : Nat) {t : SymbolTable}, Stmt.ListWellTyped Γ inLoop ss →
    t.Room Γ (Stmt.listArrayWords ss + (Stmt.listTokens ss).length) →
      ∃ ps t', Stmt.ListTranslates l inLoop pc t ss ps t'
  | [], _, _, _, _, _ => ⟨_, _, .nil⟩
  | s :: ss, _, pc, t, h, ht => by
    have htokens : (s.arrayWords + s.tokens.length) +
        (Stmt.listArrayWords ss + (Stmt.listTokens ss).length) ≤
        Stmt.listArrayWords (s :: ss) + (Stmt.listTokens (s :: ss)).length := by
      simp only [Stmt.listArrayWords, Stmt.listTokens, List.length_append]
      omega
    have ht₀ := ht.mono htokens
    obtain ⟨ps, t₁, hs⟩ := s.translates_of_wellTyped pc h.1 (ht₀.mono (Nat.le_add_right ..))
    obtain ⟨qs, t₂, hss⟩ := Stmt.listTranslates_of_wellTyped ss (pc + ps.length) h.2
      (ht₀.spend hs.extends hs.bounds.2)
    exact ⟨_, _, .cons hs hss⟩

end

end OnePass
