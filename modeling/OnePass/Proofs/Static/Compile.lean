import OnePass.Proofs.Static.Program
import OnePass.Proofs.Translate.Compile

/-!
# Compiling checks the static semantics

The compiler sees a program once, from left to right, and lets placeholders pass after a mistake.
All the same it finds a mistake exactly in the programs that are not well typed. -/

namespace OnePass

/-- The text of a tree with no more words than fit compiles, with diagnostics or without. -/
theorem compile_of_isTextOf {layout : Layout} {source : String} {p : Program}
    (hlayout : layout.flaw? = none) (hslots : 3 ≤ layout.scratchSlots.toNat)
    (h : p.IsTextOf source) (hlen : p.tokens.length ≤ maxWords) :
    ∃ out, compile layout source = .ok out := by
  have hwords : (splitStop (scan source).tokens).1.length ≤ maxWords := by
    rw [splitStop_fst, ← h.tokens]
    exact hlen
  obtain ⟨g, hrun, hsettled⟩ := run_parse hlayout hslots hwords
  rw [parse_of_tree h.grammatical h.tokens] at hrun hsettled
  obtain ⟨out, hout⟩ := (hsettled rfl).output
  exact ⟨out, (compile_eq_ok_iff_run h).mpr ⟨_, hrun, hout⟩⟩

/-- A program whose storage fits compiles, and it compiles without a diagnostic if and only if it
    is well typed. -/
theorem compile_checks_exactly (layout : Layout) (source : String) (p : Program)
    (hlayout : layout.flaw? = none) (hslots : 3 ≤ layout.scratchSlots.toNat)
    (htext : p.IsTextOf source)
    (hroom : max layout.dataBase.toNat 16 + 4 * (p.arrayWords + p.tokens.length) ≤ 1073741824) :
    ∃ out, compile layout source = .ok out ∧ (out.diagnostics = [] ↔ p.WellTyped) := by
  have hlen : p.tokens.length ≤ maxWords := by
    rw [maxWords]
    omega
  obtain ⟨out, hout⟩ := compile_of_isTextOf hlayout hslots htext hlen
  refine ⟨out, hout, ?_⟩
  rw [← Program.translates_iff_wellTyped (l := layout) hroom]
  constructor
  · intro hnone
    obtain ⟨is, t, frames, h, -⟩ := (compile_eq_ok_iff_translates hslots htext).mp ⟨hout, hnone⟩
    exact ⟨is, t, frames, h⟩
  · rintro ⟨is, t, frames, h⟩
    obtain ⟨hcompile, -⟩ := (compile_eq_ok_iff_translates hslots htext).mpr
      ⟨is, t, frames, h, rfl⟩
    rw [Except.ok.inj (hout.symm.trans hcompile)]

/-- A parameter named like its function, and a variable named like the function around it. -/
theorem compile_checks_exactly_shadowing :
    let source := "int f(int f) \x7b return f; \x7d void main(void) \x7b int main; output(f(main)); \x7d"
    let tree : Program := ⟨[
      .fn ⟨⟨.int, 1⟩, ⟨"f", 1⟩, 1, .list ⟨⟨.int, 1⟩, ⟨"f", 1⟩, none⟩ [], 1,
        ⟨1, [], [.returnValue 1 (.name ⟨"f", 1⟩) 1], 1⟩⟩,
      .fn ⟨⟨.void, 1⟩, ⟨"main", 1⟩, 1, .void 1, 1,
        ⟨1, [⟨⟨.int, 1⟩, ⟨"main", 1⟩, .scalar 1⟩],
          [.expr (.call ⟨"output", 1⟩ 1
            (.last (.call ⟨"f", 1⟩ 1 (.last (.name ⟨"main", 1⟩) 1)) 1)) 1], 1⟩⟩]⟩
    tree.IsTextOf source ∧ tree.WellTyped ∧
      ∃ out, compile {} source = .ok out ∧ out.diagnostics = [] := by
  intro source tree
  have htext : tree.IsTextOf source :=
    ⟨by decide +kernel, by
      simp [tree, Program.Grammatical, Decl.Grammatical, Block.stmt, Stmt.Grammatical,
        Stmt.ListGrammatical, Expr.Grammatical, Args.Grammatical], by decide +kernel⟩
  have hchecked : tree.WellTyped := by decide +kernel
  obtain ⟨out, hout, hiff⟩ := compile_checks_exactly {} source tree (by decide) (by decide) htext
    (by decide +kernel)
  exact ⟨htext, hchecked, out, hout, hiff.mpr hchecked⟩

end OnePass
