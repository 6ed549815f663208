import OnePass.Proofs.Session.Linear
import OnePass.Proofs.Translate.Compile

/-!
# Accepted programs

A source that compiles without diagnostics is the text of a tree with a translation, whatever the
layout. That the layout has the three scratch cells which translating needs is not an assumption
here: the source has a main function, and the end of a function takes three cells in one step. -/

namespace OnePass

namespace Gen

variable {α β : Type}

/-! ### Scratch cells that an operation takes -/

/-- Where an operation ends well it has taken at least some scratch cells, all from the pool. -/
def Takes (m : Gen α) (cells : Nat) : Prop :=
  ∀ g a g', m g = .ok a g' → g.scratch.used + cells ≤ g'.scratch.used ∧
    (g.scratch.used ≤ g.scratch.slots.toNat → g'.scratch.used ≤ g.scratch.slots.toNat) ∧
    g'.scratch.slots = g.scratch.slots

namespace Takes

theorem pure {a : α} : Takes (pure a) 0 := by
  rintro g _ _ ⟨⟩
  exact ⟨Nat.le_refl _, id, rfl⟩

theorem throw {fault : Fault} {cells : Nat} : Takes (throw fault : Gen α) cells := by
  rintro g _ _ ⟨⟩

theorem bind {m : Gen α} {k : α → Gen β} {n n' : Nat} (hm : Takes m n) (hk : ∀ a, Takes (k a) n') :
    Takes (m >>= k) (n + n') := by
  intro g b g' h
  simp only [Bind.bind, EStateM.bind] at h
  split at h
  · rename_i a g₁ h₁
    obtain ⟨htaken, hfits, hslots⟩ := hm _ _ _ h₁
    obtain ⟨htaken', hfits', hslots'⟩ := hk a _ _ _ h
    rw [hslots] at hfits'
    exact ⟨by omega, fun hg => hfits' (hfits hg), hslots'.trans hslots⟩
  · cases h

theorem next {m : Gen α} {k : α → Gen β} {n : Nat} (hm : Takes m 0) (hk : ∀ a, Takes (k a) n) :
    Takes (m >>= k) n := by
  have h := bind hm hk
  rwa [Nat.zero_add] at h

theorem last {m : Gen α} {k : α → Gen β} {n : Nat} (hm : Takes m n) (hk : ∀ a, Takes (k a) 0) :
    Takes (m >>= k) n := bind hm hk

theorem get {k : Generator → Gen β} {n : Nat} (hk : ∀ g, Takes (k g) n) : Takes (get >>= k) n :=
  next (by rintro g _ _ ⟨⟩; exact ⟨Nat.le_refl _, id, rfl⟩) hk

/-- A change of the state beside its scratch pool. -/
theorem change {f : Generator → Generator} (h : ∀ g, (f g).scratch = g.scratch) :
    Takes (modify f) 0 := by
  rintro g _ _ ⟨⟩
  rw [h]
  exact ⟨Nat.le_refl _, id, rfl⟩

theorem forM {k : α → Gen Unit} (h : ∀ a, Takes (k a) 0) : ∀ as : List α, Takes (as.forM k) 0
  | [] => pure
  | a :: as => next (h a) fun _ => forM h as

theorem log (e : Event) : Takes (log e) 0 := change fun _ => rfl

theorem orFault : ∀ a : Except Fault α, Takes (orFault a) 0
  | .ok _ => pure
  | .error _ => throw

theorem pc : Takes pc 0 := get fun _ => pure

theorem emit (i : Instruction) : Takes (emit i) 0 :=
  next pc fun _ => next (log _) fun _ => change fun _ => rfl

theorem fill (hole : Hole) (i : Instruction) : Takes (fill hole i) 0 :=
  get fun _ => next (orFault _) fun _ => next (log _) fun _ => change fun _ => rfl

theorem demand (r : Request Fault α) : Takes (demand r) 0 :=
  get fun _ => next (change fun _ => rfl) fun _ => orFault _

theorem takeScratch : Takes takeScratch 1 := by
  intro g a g' h
  change (Gen.orFault g.scratch.take >>= _) g = _ at h
  rw [ScratchPool.take] at h
  split at h
  · cases h
    rename_i hused
    exact ⟨Nat.le_refl _, fun _ => hused, rfl⟩
  · cases h

theorem fieldOperand {pointer offset : Word} (h : offset ≠ 0) :
    Takes (fieldOperand pointer offset) 1 := by
  rw [Gen.fieldOperand, if_neg h]
  exact bind takeScratch fun _ => next (emit _) fun _ => pure

theorem emitEpilogue : Takes emitEpilogue 3 :=
  get fun _ => bind (fieldOperand (by decide)) fun _ => next (emit _) fun _ =>
    bind (fieldOperand (by decide)) fun _ => next (emit _) fun _ => bind takeScratch fun _ =>
    next (emit _) fun _ => next (emit _) fun _ => emit _

theorem endFunction : Takes endFunction 3 := by
  refine get fun g => ?_
  split
  · exact throw
  · refine next (change fun _ => rfl) fun _ => next (demand _) fun closed => ?_
    split
    · exact throw
    · exact get fun _ => next (fill _ _) fun _ => next pc fun _ =>
        next (forM (fun _ => fill _ _) _) fun _ => last emitEpilogue fun _ =>
        next (log _) fun _ => change fun _ => rfl

end Takes

/-- A function can end only where there are three scratch cells. -/
theorem three_le_of_endFunction {g g' : Generator} {token : Token}
    (h : perform ⟨.endFunction, token⟩ g = .ok () g') : 3 ≤ g.scratch.slots.toNat := by
  change (Gen.log _ >>= fun _ => Gen.endFunction) { g with scratch := g.scratch.clear } = _ at h
  obtain ⟨htaken, hfits, -⟩ := Takes.next (Takes.log _) (fun _ => Takes.endFunction) _ _ _ h
  have hcells := hfits (Nat.zero_le _)
  simp only [ScratchPool.clear] at htaken hcells
  omega

/-- A run that ends well performed each of its steps, in a state with the pool it began with. -/
theorem exists_performed {layout : Layout} {before after : List Step} {step : Step}
    {g : Generator} (h : (before ++ step :: after).forM perform (.initial layout) = .ok () g) :
    ∃ g₁ g₂, perform step g₁ = .ok () g₂ ∧ g₁.scratch.slots = layout.scratchSlots := by
  have hlands := Steady.forM Steady.perform before [] _ (Generator.Linear.initial layout)
  simp only [List.forM_eq_forM] at h hlands
  simp only [List.forM_append, List.forM_cons, Bind.bind, EStateM.bind] at h
  split at h
  · rename_i g₁ h₁
    rw [h₁] at hlands
    split at h
    · rename_i g₂ h₂
      exact ⟨g₁, g₂, h₂, hlands.2.pool⟩
    · cases h
  · cases h

end Gen

open Gen

/-! ### Programs without functions -/

/-- Declarations of variables make no main function. -/
theorem Chain.filter_isMain {ds : List VarDecl} {t t' : SymbolTable}
    (h : Chain VarDecl.Declares ds t t') (hnone : t.function = none)
    (ht : (t.globals.find? "main").filter isMain = none) :
    t'.function = none ∧ (t'.globals.find? "main").filter isMain = none := by
  have hstores : ∀ {name ty words t t'}, SymbolTable.Stores name ty words t t' →
      t.function = none → (t.globals.find? "main").filter isMain = none →
      (t'.globals.find? "main").filter isMain = none := by
    intro name ty words t t' hs hfn hmain
    cases hs with
    | inner hf => simp [hfn] at hf
    | outer =>
      rw [SymbolTable.withGlobal, Scope.find?_insert]
      split
      · rfl
      · exact hmain
  induction h with
  | nil => exact ⟨hnone, ht⟩
  | cons hd _ ih =>
    refine ih (hd.outside hnone) ?_
    cases hd with
    | scalar hs => exact hstores hs hnone ht
    | array _ hs => exact hstores hs hnone ht

/-- Variables alone are not a program. -/
theorem not_succeeds_of_variables {layout : Layout} {ds : List VarDecl} {first stop : Token} :
    ¬ Succeeds (⟨.beginProgram, first⟩ :: (ds.flatMap VarDecl.steps ++ [⟨.endProgram, stop⟩]))
      (Generator.initial layout) := by
  intro h
  have h₁ := h.of_cons (performs_beginProgram_initial layout _)
  obtain ⟨t, hchain⟩ := VarDecl.declares_chain ds h₁ rfl (SymbolTable.initial_ready _)
  have h₂ := h₁.of_append (hchain.performed_declares rfl)
  obtain ⟨hnone, hmain⟩ := hchain.filter_isMain rfl rfl
  have hfind : (t.find? "main").filter isMain = none := by
    simpa [SymbolTable.find?, SymbolTable.scopes, hnone] using hmain
  have hfill := Store.fill_plan Store.tidy_empty [] []
    (show Planned.back.slot = none from rfl) (.jump (Generator.begun layout).code.pc)
  exact h₂.not_reports (performs_endProgram_noMain hnone rfl hfind hfill)

/-- Declarations hold a function, or else are all of variables. -/
theorem Decl.split_fn (ds : List Decl) :
    (∃ before f after, ds = before ++ .fn f :: after) ∨ ∃ vs : List VarDecl, ds = vs.map .var := by
  induction ds with
  | nil => exact .inr ⟨[], rfl⟩
  | cons d ds ih =>
    cases d with
    | fn f => exact .inl ⟨[], f, ds, rfl⟩
    | var v =>
      rcases ih with ⟨before, f, after, rfl⟩ | ⟨vs, rfl⟩
      · exact .inl ⟨.var v :: before, f, after, rfl⟩
      · exact .inr ⟨v :: vs, rfl⟩

/-- Where there is a function there is a step that ends it. -/
theorem Program.steps_eq_of_fn {p : Program} {before after : List Decl} {f : FnDecl}
    (h : p.decls = before ++ .fn f :: after) (stop : Token) :
    ∃ first token last, p.steps stop = first ++ ⟨.endFunction, token⟩ :: last := by
  obtain ⟨most, token, hsteps⟩ : ∃ most token, f.steps = most ++ [⟨.endFunction, token⟩] :=
    ⟨_, _, rfl⟩
  refine ⟨[⟨.beginProgram, p.tokens.headD stop⟩] ++ before.flatMap Decl.steps ++ most, token,
    after.flatMap Decl.steps ++ [⟨.endProgram, stop⟩], ?_⟩
  simp [Program.steps, h, Decl.steps, hsteps]

/-- A run that ends well, as an equation. -/
theorem Generator.eq_ok_of_run {α : Type} {g g' : Generator} {m : Gen α} {a : α}
    (h : g.run m = (.ok a, g')) : m g = .ok a g' := by
  rw [Generator.run, EStateM.run] at h
  split at h
  · cases h
    assumption
  · cases h

/-- A source that compiles, with diagnostics or without, is the text of a tree. -/
theorem exists_isTextOf_of_compile {layout : Layout} {source : String} {out : Output}
    (hcompile : compile layout source = .ok out) : ∃ p : Program, p.IsTextOf source := by
  obtain ⟨hscan, hparse, -⟩ := compile_eq_ok_iff.mp hcompile
  obtain ⟨p, hp, htokens⟩ := error_parse_eq_none_iff.mp hparse
  exact ⟨p, hscan, hp, htokens⟩

/-- A source that compiles without diagnostics is the text of a tree, for a layout with three
    scratch cells, and the outcome is a translation of the tree. -/
theorem translates_of_compile {layout : Layout} {source : String} {out : Output}
    (hcompile : compile layout source = .ok out) (hdiagnostics : out.diagnostics = []) :
    3 ≤ layout.scratchSlots.toNat ∧ ∃ p is t frames, Program.IsTextOf p source ∧
      p.Translates layout is t frames ∧ out = ⟨is, [], frames⟩ := by
  obtain ⟨p, htext⟩ := exists_isTextOf_of_compile hcompile
  obtain ⟨g, hrun, hout⟩ := (compile_eq_ok_iff_run htext).mp hcompile
  have hempty : g.diagnostics = #[] := by
    have hlist := Generator.output_diagnostics hout
    rw [hdiagnostics] at hlist
    exact Array.toList_eq_nil_iff.mp hlist.symm
  have hslots : 3 ≤ layout.scratchSlots.toNat := by
    rcases Decl.split_fn p.decls with ⟨before, f, after, hdecls⟩ | ⟨vs, hdecls⟩
    · obtain ⟨first, token, last, hsteps⟩ :=
        Program.steps_eq_of_fn hdecls (splitStop (scan source).tokens).2
      have hends := Generator.eq_ok_of_run hrun
      rw [hsteps] at hends
      obtain ⟨g₁, g₂, hstep, hpool⟩ := exists_performed hends
      exact hpool ▸ three_le_of_endFunction hstep
    · have hsucceeds := succeeds_of_run hrun hempty
      rw [Program.steps, hdecls, List.flatMap_map] at hsucceeds
      exact (not_succeeds_of_variables hsucceeds).elim
  obtain ⟨is, t, frames, htranslates, rfl⟩ :=
    (compile_eq_ok_iff_translates hslots htext).mp ⟨hcompile, hdiagnostics⟩
  exact ⟨hslots, p, is, t, frames, htext, htranslates, rfl⟩

end OnePass
