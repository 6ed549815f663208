import OnePass.Proofs.Safety.Compile
import OnePass.Proofs.Translate.Recover

/-!
# Compiling is translating

A text that is scanned without errors and is the text of a tree compiles without diagnostics if and
only if the tree has a translation, and the outcome is that translation. -/

namespace OnePass

open Gen

variable {layout : Layout} {source : String} {p : Program}

/-- The text of a tree: its tokens stand before the first stop mark. -/
structure Program.IsTextOf (p : Program) (source : String) : Prop where
  scanned : (scan source).errors = []
  grammatical : p.Grammatical
  tokens : p.tokens = (scan source).tokens.takeWhile (·.kind != .stop)

/-- A text compiles if it is scanned and parsed without errors and its steps run to the end. -/
theorem compile_eq_ok_iff {out : Output} : compile layout source = .ok out ↔
    (scan source).errors = [] ∧ (parse (scan source).tokens).error = none ∧
      ∃ g, (Generator.initial layout).run ((parse (scan source).tokens).steps.forM perform) =
        (.ok (), g) ∧ g.output = .ok out := by
  cases hscan : (scan source).errors with
  | cons => simp [compile, traceCompile, tokenize, hscan]
  | nil =>
    simp only [compile, traceCompile, tokenize, hscan, Generator.compileParse]
    rcases (Generator.initial layout).run
      ((parse (scan source).tokens).steps.forM perform) with ⟨fault | _, g⟩
    · simp only [reduceCtorEq, Prod.mk.injEq, false_and, exists_false, and_false]
    · cases hparse : (parse (scan source).tokens).error with
      | some error => simp only [reduceCtorEq, false_and, and_false]
      | none => cases hout : g.output <;> simp [hout]

/-- What compiling does with the text of a tree. -/
theorem compile_eq_ok_iff_run (h : p.IsTextOf source) {out : Output} :
    compile layout source = .ok out ↔ ∃ g, (Generator.initial layout).run
      ((p.steps (splitStop (scan source).tokens).2).forM perform) = (.ok (), g) ∧
        g.output = .ok out := by
  rw [compile_eq_ok_iff, parse_of_tree h.grammatical h.tokens]
  simp only [h.scanned, true_and]

/-- What becomes of a text, if so many moves of the parser are enough. -/
def compileWithin? (moves : Nat) (layout : Layout) (source : String) : Option Output :=
  match (scan source).errors, parseWithin? moves (scan source).tokens with
  | [], some ⟨steps, none⟩ =>
    match (Generator.initial layout).run (steps.forM perform) with
    | (.ok (), g) => g.output.toOption
    | (.error _, _) => none
  | _, _ => none

theorem compile_of_within {moves : Nat} {out : Output}
    (h : compileWithin? moves layout source = some out) : compile layout source = .ok out := by
  rw [compileWithin?] at h
  split at h
  · rename_i steps hscanned hparse
    split at h
    · rename_i g hrun
      rw [compile_eq_ok_iff, parse_of_within hparse]
      refine ⟨hscanned, rfl, g, hrun, ?_⟩
      cases hg : g.output with
      | error => rw [hg] at h; cases h
      | ok => rw [hg] at h; exact congrArg _ (Option.some.inj h)
    · cases h
  · cases h

/-- What a program leaves when it has a translation. -/
theorem Program.Translates.output {is : List Instruction} {t : SymbolTable} {frames : List Frame}
    (g : Generator) (hg : g = { Generator.initial layout with
      code := ({} : Store).append is
      symbols := t
      frames := frames.toArray }) (n : Nat) (trace : Array Event) :
    (g.taking n trace).output = .ok ⟨is, [], frames⟩ := by
  subst hg
  have hcode := Store.instructions_append is
  simp only [Generator.output, Generator.taking, Generator.initial, hcode]
  rfl

theorem Generator.output_diagnostics {g : Generator} {out : Output} (h : g.output = .ok out) :
    out.diagnostics = g.diagnostics.toList := by
  simp only [Generator.output, bind, Except.bind, pure, Except.pure] at h
  split at h
  · cases h
  split at h
  · split at h
    · cases h
    · obtain rfl := Except.ok.inj h
      rfl
  · obtain rfl := Except.ok.inj h
    rfl

/-- The run of a program that ends without diagnostics goes well. -/
theorem succeeds_of_run {steps : List Step} {g : Generator}
    (hrun : (Generator.initial layout).run (steps.forM perform) = (.ok (), g))
    (hg : g.diagnostics = #[]) : Succeeds steps (Generator.initial layout) := by
  refine ⟨g, ⟨0, (Generator.initial layout).trace, ?_⟩, hg⟩
  rw [Generator.run, EStateM.run] at hrun
  split at hrun
  · rename_i hok
    obtain ⟨-, rfl⟩ := Prod.mk.inj hrun
    exact hok
  · cases hrun

/-- The text of a tree compiles without diagnostics exactly to the translations of the tree. -/
theorem compile_eq_ok_iff_translates (hslots : 3 ≤ layout.scratchSlots.toNat)
    (h : p.IsTextOf source) {out : Output} :
    (compile layout source = .ok out ∧ out.diagnostics = []) ↔
      ∃ is t frames, p.Translates layout is t frames ∧ out = ⟨is, [], frames⟩ := by
  have hof : ∀ {is t frames}, p.Translates layout is t frames →
      compile layout source = .ok ⟨is, [], frames⟩ := by
    intro is t frames htranslates
    obtain ⟨n, trace, hrun⟩ := (htranslates.performed hslots _).run
    exact (compile_eq_ok_iff_run h).mpr ⟨_, hrun, Program.Translates.output _ rfl n trace⟩
  constructor
  · rintro ⟨hcompile, hdiagnostics⟩
    obtain ⟨g, hrun, hout⟩ := (compile_eq_ok_iff_run h).mp hcompile
    have hempty : g.diagnostics = #[] := by
      have hlist := Generator.output_diagnostics hout
      rw [hdiagnostics] at hlist
      exact Array.toList_eq_nil_iff.mp hlist.symm
    obtain ⟨is, t, frames, htranslates⟩ := p.translates hslots _ (succeeds_of_run hrun hempty)
    refine ⟨is, t, frames, htranslates, ?_⟩
    exact Except.ok.inj (hcompile.symm.trans (hof htranslates))
  · rintro ⟨is, t, frames, htranslates, rfl⟩
    exact ⟨hof htranslates, rfl⟩

end OnePass
