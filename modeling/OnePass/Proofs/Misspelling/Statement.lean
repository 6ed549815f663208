import OnePass.Proofs.Misspelling.Expression

/-!
# Misspelt statements

A statement passes the values of its expressions on to branches, loops and returns, all of which
take what passes for an integer. So a misspelt statement reports the new names of its expressions in
their order and leaves the state as the right statement would, with code that is not longer. -/

namespace OnePass

open Gen
open Planned (plain)

/-- A state in which a statement is read in place of another that stands in a loop or not. -/
structure Generator.Trails (g : Generator) (l : Layout) (Γ : Context) (inLoop : Bool)
    (t : SymbolTable) : Prop where
  layout : g.layout = l
  symbols : t.Mirrors Γ g.symbols
  loop : inLoop = true → g.breaks ≠ []
  body : g.body.isSome
  tidy : g.code.Tidy

/-- What the steps of a misspelt statement leave beside what the right one becomes: code that is
    not longer and has no break where the right one has none, and no more storage taken. -/
structure ToleratesPlan (steps : List Step) (g : Generator) (xs : List Name) (ps : List Planned)
    (t : SymbolTable) (ps' : List Planned) (t' : SymbolTable) : Prop where
  performed : Performed steps g ((g.reports xs).planned ps' t')
  «extends» : g.symbols.Extends t'
  size : t'.frameSize ≤ t.frameSize
  length : ps'.length ≤ ps.length
  leave : .leave ∈ ps' → .leave ∈ ps

section
variable {l : Layout} {Γ : Context} {unknown : String → Prop} {inLoop : Bool}
  {t t₁ : SymbolTable} {g : Generator}

theorem Generator.Trails.planned (h : g.Trails l Γ inLoop t) {ps ps' : List Planned}
    {t₁' : SymbolTable} {steps : List Step} {xs : List Name} (ht : t.Extends t₁)
    (hrec : ToleratesPlan steps g xs ps t₁ ps' t₁') :
    ((g.reports xs).planned ps' t₁').Trails l Γ inLoop t₁ := by
  refine ⟨h.layout, h.symbols.extends ht hrec.extends hrec.size, fun hloop => ?_, ?_,
    h.tidy.plan _⟩
  · simpa [Generator.planned, Generator.reports] using h.loop hloop
  · simpa [Generator.planned, Generator.reports] using h.body

/-- What the steps of a misspelt condition leave beside what the right one becomes: an operand to
    test, after code that is not longer. -/
structure ToleratesTest (steps : List Step) (g : Generator) (xs : List Name)
    (is : List Instruction) (t : SymbolTable) (is' : List Instruction) (v' : StackValue)
    (s' : Symbol) (t' : SymbolTable) : Prop where
  performed : Performed steps g ((g.reports xs).gives is' v' t')
  «extends» : g.symbols.Extends t'
  size : t'.frameSize ≤ t.frameSize
  isInt : v'.IsInt s'
  length : (is' ++ (Use.value g.layout 0 s').code).length ≤ is.length

theorem Expr.Misspelt.toleratesTest {e e' : Expr} {xs : List Name} {pc : Nat}
    {is : List Instruction} {c : Operand} (hslots : 3 ≤ l.scratchSlots.toNat)
    (he : e.Misspelt unknown e' xs) (h : e.Tests l pc t is c t₁) (hΓ : Γ.Avoids unknown)
    (hl : g.layout = l) (hg : t.Mirrors Γ g.symbols) :
    ∃ is' v' s' t₁', ToleratesTest e'.steps g xs is t₁ is' v' s' t₁' := by
  subst hl
  cases h with
  | intro htranslates hv =>
    obtain ⟨is', v', t₁', hrec⟩ := he.tolerates hslots hΓ htranslates rfl hg
    obtain ⟨s', hv', hpass⟩ := hrec.value.isInt hv
    refine ⟨is', v', s', t₁', hrec.performed, hrec.extends, hrec.size, hv', ?_⟩
    rw [List.length_append, List.length_append]
    exact Nat.add_le_add hrec.length (Use.length_value_of_passes _ _ _ hpass)

end

/-! ### All statements -/

mutual

/-- A misspelt statement is tolerated. -/
theorem Stmt.Misspelt.tolerates {l : Layout} {unknown : String → Prop}
    (hslots : 3 ≤ l.scratchSlots.toNat) : ∀ {s s' : Stmt} {xs : List Name} (after : Token)
      {inLoop : Bool} {pc : Nat} {t t₁ : SymbolTable} {ps : List Planned} {Γ : Context}
      {g : Generator}, s.Misspelt unknown s' xs → s.Translates l inLoop pc t ps t₁ →
      (∀ x ∈ s.declared, ¬ unknown x) → Γ.Avoids unknown → g.Trails l Γ inLoop t →
        ∃ ps' t₁', ToleratesPlan (s'.steps after) g xs ps t₁ ps' t₁'
  | _, _, _, after, _, _, _, _, _, Γ, g, .empty _, h, hnew, hΓ, hg => by
    cases h with
    | empty =>
      refine ⟨[], g.symbols, ?_, .refl _, hg.symbols.size, Nat.le_refl _, id⟩
      rw [Generator.reports_nil, Generator.planned_of_closed rfl rfl, Store.plan_nil]
      exact .nil
  | _, _, _, after, _, _, _, _, _, Γ, g, .expr he, h, hnew, hΓ, hg => by
    cases h with
    | expr htranslates =>
      obtain ⟨is', v', t₁', hrec⟩ := he.tolerates hslots hΓ htranslates hg.layout hg.symbols
      refine ⟨plain is', t₁', ?_, hrec.extends, hrec.size, ?_,
        fun hmem => absurd hmem (Planned.notMem_plain rfl _)⟩
      · rw [Generator.planned_plain]
        exact .append hrec.performed (.cons (performs_popExpression
          (g := (g.reports _).gives is' v' t₁') rfl) .nil)
      · rw [Planned.length_plain, Planned.length_plain]
        exact hrec.length
  | _, _, _, after, _, _, _, _, _, Γ, g, @Stmt.Misspelt.block _ _ locals _ _ _ closing hbody, h,
      hnew, hΓ, hg => by
    cases h with
    | block hf hlocals hlist hf₂ hblocks =>
      rename_i f t₁ t₂ f₂ block blocks
      obtain ⟨f', hf', hopen⟩ := hg.symbols.openBlock hf
      obtain ⟨t₁', hlocals', ht₁⟩ := hopen.declares locals hlocals
      have hinner : (Γ.enter ([] ++ locals.map VarDecl.binding)).Avoids unknown := by
        refine hΓ.enter fun b hb => ?_
        obtain ⟨d, hd, rfl⟩ := List.mem_map.mp hb
        exact hnew _ (List.mem_append_left _ (List.mem_map.mpr ⟨d, hd, rfl⟩))
      obtain ⟨ps', t₂', hrec⟩ := Stmt.ListMisspelt.tolerates hslots (.symbolAt "\x7d" closing) hbody
        hlist (fun x hx => hnew x (List.mem_append_right _ hx)) hinner
        (g := g.withSymbols t₁') ⟨hg.layout, ht₁, hg.loop, hg.body, hg.tidy⟩
      -- the block of the locals is the one that is closed
      obtain ⟨inner, size, -, hinBlock⟩ := hlocals'.inBlock rfl rfl
      obtain ⟨size', -, hf₂'⟩ := hrec.extends.function _ (by rw [hinBlock]; rfl)
      refine ⟨ps', _, performed_block hf' hlocals' hrec.performed hf₂' rfl _ _,
        extends_block hf' hlocals' hrec.extends hf₂' rfl, ?_, hrec.length, hrec.leave⟩
      have hsize := hrec.size
      rw [SymbolTable.frameSize_eq hf₂', SymbolTable.frameSize_eq hf₂] at hsize
      exact hsize
  | _, _, _, after, _, _, _, _, _, Γ, g, .leave _ _, h, hnew, hΓ, hg => by
    cases h with
    | leave =>
      refine ⟨[.leave], g.symbols, ?_, .refl _, hg.symbols.size, Nat.le_refl _, id⟩
      rw [Generator.reports_nil]
      exact performed_leave (hg.loop rfl) hg.body _
  | _, _, _, after, _, _, _, _, _, Γ, g,
      @Stmt.Misspelt.ifThen _ _ _ _ _ xs closing _ _ ys hcond hbody, h, hnew, hΓ, hg => by
    obtain rfl := hg.layout
    cases h with
    | ifThen htest hthen =>
      obtain ⟨is', v', s', t₁', hrec₁⟩ := hcond.toleratesTest hslots htest hΓ rfl hg.symbols
      have hbranch := performed_branch hrec₁.performed hrec₁.isInt hslots (.symbolAt ")" closing)
      obtain ⟨ps', t₂', hrec₂⟩ := Stmt.Misspelt.tolerates hslots after hbody hthen hnew hΓ
        (g := (g.reports xs).branching _ _ t₁')
        ⟨rfl, hg.symbols.extends htest.extends hrec₁.extends hrec₁.size, hg.loop, hg.body,
          hg.tidy.plan _⟩
      have hbody' : Performed _ _
          ((((g.reports xs).reports ys).branching _ _ t₁').planned ps' t₂') := hrec₂.performed
      have hwhole := performed_ifThen hbranch hbody' hg.tidy after
      rw [Generator.reports_reports] at hwhole
      refine ⟨_, t₂', hwhole, hrec₁.extends.trans hrec₂.extends, hrec₂.size, ?_, ?_⟩
      · have hlength₁ := hrec₁.length
        have hlength₂ := hrec₂.length
        simp only [List.length_append, Planned.length_plain, List.length_singleton,
          Generator.reports_layout] at hlength₁ ⊢
        omega
      · intro hmem
        refine List.mem_append_right _ (hrec₂.leave ?_)
        exact (List.mem_append.mp hmem).resolve_left (Planned.notMem_plain rfl _)
  | _, _, _, after, _, _, _, _, _, Γ, g,
      @Stmt.Misspelt.ifElse _ _ _ _ _ xs closing _ _ ys elseLine _ _ zs hcond hbody hother, h, hnew,
      hΓ, hg => by
    obtain rfl := hg.layout
    cases h with
    | ifElse htest hthen helse =>
      rename_i t₂ qs
      obtain ⟨is', v', s', t₁', hrec₁⟩ := hcond.toleratesTest hslots htest hΓ rfl hg.symbols
      have ht₁ := hg.symbols.extends htest.extends hrec₁.extends hrec₁.size
      have hbranch := performed_branch hrec₁.performed hrec₁.isInt hslots (.symbolAt ")" closing)
      obtain ⟨ps', t₂', hrec₂⟩ := Stmt.Misspelt.tolerates hslots (.keywordAt "else" elseLine) hbody
        hthen (fun x hx => hnew x (List.mem_append_left _ hx)) hΓ
        (g := (g.reports xs).branching _ _ t₁') ⟨rfl, ht₁, hg.loop, hg.body, hg.tidy.plan _⟩
      have hbody' : Performed _ _
          ((((g.reports xs).reports ys).branching _ _ t₁').planned ps' t₂') := hrec₂.performed
      have hskip := performed_skip hbranch hbody' hg.tidy (.keywordAt "else" elseLine)
      obtain ⟨qs', t₃', hrec₃⟩ := Stmt.Misspelt.tolerates hslots after hother helse
        (fun x hx => hnew x (List.mem_append_right _ hx)) hΓ
        (g := ((g.reports xs).reports ys).skipping _ t₂')
        ⟨rfl, ht₁.extends hthen.extends hrec₂.extends hrec₂.size,
          fun hloop => by
            simpa [Generator.skipping, Generator.planned, Generator.reports] using hg.loop hloop,
          by simpa [Generator.skipping, Generator.planned, Generator.reports] using hg.body,
          hg.tidy.plan _⟩
      have hother' : Performed _ _
          (((((g.reports xs).reports ys).reports zs).skipping _ t₂').planned qs' t₃') :=
        hrec₃.performed
      have hwhole := performed_ifElse hskip hother' hg.tidy after
      have hreports : ((g.reports xs).reports ys).reports zs = g.reports (xs ++ ys ++ zs) := by
        simp
      rw [hreports] at hwhole
      refine ⟨_, t₃', hwhole, (hrec₁.extends.trans hrec₂.extends).trans hrec₃.extends, hrec₃.size,
        ?_, ?_⟩
      · have hlength₁ := hrec₁.length
        have hlength₂ := hrec₂.length
        have hlength₃ := hrec₃.length
        simp only [List.length_append, Planned.length_plain, List.length_singleton,
          Generator.reports_layout] at hlength₁ ⊢
        omega
      · have hplain := fun is => Planned.notMem_plain (show Planned.leave.slot = none from rfl) is
        simp only [List.mem_append, hplain, false_or, or_false]
        exact fun hmem => hmem.imp hrec₂.leave hrec₃.leave
  | _, _, _, after, _, _, _, _, _, Γ, g,
      @Stmt.Misspelt.loop _ _ _ _ xs _ _ _ _ ys _ hbody hcond, h, hnew, hΓ, hg => by
    obtain rfl := hg.layout
    cases h with
    | loop hloop htest =>
      obtain ⟨ps', t₁', hrec₁⟩ := Stmt.Misspelt.tolerates hslots _ hbody hloop hnew hΓ
        (g := g.looping) ⟨rfl, hg.symbols, fun _ => List.cons_ne_nil _ _, hg.body, hg.tidy⟩
      obtain ⟨is', v', s', t₂', hrec₂⟩ := hcond.toleratesTest hslots htest hΓ
        (g := (g.reports xs).looping.planned ps' t₁') rfl
        (hg.symbols.extends hloop.extends hrec₁.extends hrec₁.size)
      have hcond' : Performed _ _
          ((((g.reports xs).reports ys).looping.planned ps' t₁').gives is' v' t₂') :=
        hrec₂.performed
      have hwhole := performed_loop hrec₁.performed hcond' hrec₂.isInt hslots hg.tidy
      rw [Generator.reports_reports] at hwhole
      refine ⟨_, t₂', hwhole _ _, hrec₁.extends.trans hrec₂.extends, hrec₂.size, ?_,
        fun hmem => absurd hmem (Planned.notMem_settle rfl _ _)⟩
      have hlength₁ := hrec₁.length
      have hlength₂ := hrec₂.length
      have hlayout : ((g.reports xs).looping.planned ps' t₁').layout = g.layout := rfl
      simp only [List.length_append, List.length_map, Planned.length_plain, List.length_singleton,
        Generator.reports_layout, hlayout] at hlength₂ ⊢
      omega
  | _, _, _, after, _, _, _, _, _, Γ, g, .return _ _, h, hnew, hΓ, hg => by
    cases h with
    | «return» =>
      refine ⟨[.back], g.symbols, ?_, .refl _, hg.symbols.size, Nat.le_refl _, by decide⟩
      rw [Generator.reports_nil]
      exact performed_return hg.body _
  | _, _, _, after, _, _, _, _, _, Γ, g, .returnValue he, h, hnew, hΓ, hg => by
    obtain rfl := hg.layout
    cases h with
    | returnValue htranslates hv =>
      obtain ⟨is', v', t₁', hrec⟩ := he.tolerates hslots hΓ htranslates rfl hg.symbols
      obtain ⟨s', hv', hpass⟩ := hrec.value.isInt hv
      refine ⟨_, t₁', performed_returnValue hrec.performed hv' hg.body hslots _,
        hrec.extends, hrec.size, ?_, ?_⟩
      · have hlength := hrec.length
        have hstore := Fragment.length_storeReturn_of_passes g.layout hpass
        simp only [List.length_append, Planned.length_plain, List.length_singleton,
          Generator.reports_layout]
        omega
      · intro hmem
        rcases List.mem_append.mp hmem with hmem | hmem
        · exact absurd hmem (Planned.notMem_plain rfl _)
        · exact absurd hmem (by decide)

/-- Misspelt statements in a row are tolerated. -/
theorem Stmt.ListMisspelt.tolerates {l : Layout} {unknown : String → Prop}
    (hslots : 3 ≤ l.scratchSlots.toNat) : ∀ {ss ss' : List Stmt} {xs : List Name} (after : Token)
      {inLoop : Bool} {pc : Nat} {t t₁ : SymbolTable} {ps : List Planned} {Γ : Context}
      {g : Generator}, Stmt.ListMisspelt unknown ss ss' xs →
      Stmt.ListTranslates l inLoop pc t ss ps t₁ → (∀ x ∈ Stmt.listDeclared ss, ¬ unknown x) →
      Γ.Avoids unknown → g.Trails l Γ inLoop t →
        ∃ ps' t₁', ToleratesPlan (Stmt.listSteps after ss') g xs ps t₁ ps' t₁'
  | _, _, _, after, _, _, _, _, _, Γ, g, .nil, h, hnew, hΓ, hg => by
    cases h with
    | nil =>
      refine ⟨[], g.symbols, ?_, .refl _, hg.symbols.size, Nat.le_refl _, id⟩
      rw [Generator.reports_nil, Generator.planned_of_closed rfl rfl, Store.plan_nil]
      exact .nil
  | _, _, _, after, _, _, _, _, _, Γ, g, @Stmt.ListMisspelt.cons _ _ _ xs _ _ ys hs hss, h, hnew,
      hΓ, hg => by
    cases h with
    | cons hfirst hrest =>
      obtain ⟨ps', t₁', hrec₁⟩ := Stmt.Misspelt.tolerates hslots _ hs hfirst
        (fun x hx => hnew x (List.mem_append_left _ hx)) hΓ hg
      obtain ⟨qs', t₂', hrec₂⟩ := Stmt.ListMisspelt.tolerates hslots after hss hrest
        (fun x hx => hnew x (List.mem_append_right _ hx)) hΓ
        (hg.planned hfirst.extends hrec₁)
      refine ⟨ps' ++ qs', t₂', ?_, hrec₁.extends.trans hrec₂.extends, hrec₂.size, ?_, ?_⟩
      · have hlast : Performed _ _
            ((((g.reports xs).reports ys).planned ps' t₁').planned qs' t₂') := hrec₂.performed
        rw [Generator.planned_planned, Generator.reports_reports] at hlast
        exact .append hrec₁.performed hlast
      · rw [List.length_append, List.length_append]
        exact Nat.add_le_add hrec₁.length hrec₂.length
      · simp only [List.mem_append]
        exact fun hmem => hmem.imp hrec₁.leave hrec₂.leave

end

end OnePass
