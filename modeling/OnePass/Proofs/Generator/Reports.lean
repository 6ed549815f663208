import OnePass.Proofs.Generator.Invariant

/-!
# Mistakes stay recorded

No operation of the generator takes a diagnostic back. A run that ends without diagnostics
therefore never recorded one, at no step. -/

namespace OnePass

/-- Mistakes that are recorded stay so, in their order. -/
theorem Generator.stable_diagnostics (ds : List Diagnostic) :
    Generator.Stable fun g => ds <+: g.diagnostics.toList where
  similar := by
    rintro g g' ⟨-, -, hsame, -⟩ hg
    rwa [hsame]
  log _ _ _ hg := hg
  report g line cause hg := by
    rw [Generator.report, Array.toList_push]
    exact hg.trans (List.prefix_append _ _)
  request _ _ _ hg := hg
  placeholder _ _ _ hg := hg

namespace Gen

/-- A run that ends without diagnostics began without. -/
theorem Ends.diagnostics_eq_empty {steps : List Step} {g g' : Generator} (h : Ends steps g g')
    (hg' : g'.diagnostics = #[]) : g.diagnostics = #[] := by
  obtain ⟨n, trace, hrun⟩ := h
  have hkept := Preserves.performAll steps _ (Generator.stable_diagnostics g.diagnostics.toList)
    (g.taking n trace) (List.prefix_refl _)
  simp only [Generator.run, EStateM.run, hrun, hg', List.prefix_nil] at hkept
  exact Array.toList_eq_nil_iff.mp hkept

/-! ### Runs without mistakes -/

/-- The steps can be performed from a state, and at the end there are no diagnostics. -/
def Succeeds (steps : List Step) (g : Generator) : Prop :=
  ∃ g', Ends steps g g' ∧ g'.diagnostics = #[]

variable {step : Step} {steps more : List Step} {g g' : Generator}

theorem Succeeds.of_cons (h : Succeeds (step :: steps) g) (hstep : Performs step g g') :
    Succeeds steps g' := by
  obtain ⟨gEnd, hends, hdiag⟩ := h
  exact ⟨gEnd, hends.of_cons hstep, hdiag⟩

theorem Succeeds.of_append (h : Succeeds (steps ++ more) g) (hsteps : Performed steps g g') :
    Succeeds more g' := by
  obtain ⟨gEnd, hends, hdiag⟩ := h
  exact ⟨gEnd, hends.of_append hsteps, hdiag⟩

theorem Succeeds.not_stops (h : Succeeds (step :: steps) g) :
    ¬ Stops (dispatch step.action step.token) g 0 := by
  obtain ⟨gEnd, hends, -⟩ := h
  exact hends.not_stops

theorem Succeeds.diagnostics_eq_empty (h : Succeeds steps g) : g.diagnostics = #[] := by
  obtain ⟨gEnd, hends, hdiag⟩ := h
  exact hends.diagnostics_eq_empty hdiag

/-- No step of a run without diagnostics makes one. -/
theorem Succeeds.not_reports {line : Nat} {cause : Diagnostic.Cause}
    (h : Succeeds (step :: steps) g) : ¬ Performs step g (g'.report line cause) := by
  intro hstep
  have hempty := (h.of_cons hstep).diagnostics_eq_empty
  simp [Generator.report] at hempty

end Gen

end OnePass
