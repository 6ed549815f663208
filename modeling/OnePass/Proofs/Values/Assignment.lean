import OnePass.Proofs.Values.Expression

/-!
# The value of an assignment

An assignment stores the value that its source has then. What it leaves on the operand stack is not
that value but the source itself: an operator, a call or another assignment around it reads the
source once more, when its own code is run, and finds there what the operands in between have left. -/

namespace OnePass

open Gen
open Machine (Reaches)

/-- An assignment that is read in the body of a function, without mistakes, leaves its source on the
    operand stack. Its code stores what the source is worth in the memory `m` that the code finds, in
    the program that is made in the end. Who resolves the operand gets what the source is worth in
    the memory `m₁` of that later time; that is the value stored if the cells of the source are as
    they were. -/
theorem assignment_operand_reads_source {l : Layout} (hlayout : l.flaw? = none)
    (hslots : 3 ≤ l.scratchSlots.toNat) {before : List Step} {g g' : Generator} {f : OpenFunction}
    (hbefore : Ran before (Generator.initial l) g) (hf : g.symbols.function = some f)
    {target value : Expr} {line : Nat} (hrun : Ran (Expr.assign target line value).steps g g')
    (hempty : g'.diagnostics = #[]) :
    ∃ mid v₁ v₂ dst src, Ran (target.steps ++ value.steps) g mid ∧
      mid.stack = v₂ :: v₁ :: g.stack ∧ v₁.operand? = some dst ∧ v₂.operand? = some src ∧
      g'.stack = .symbol src :: g.stack ∧
      (∀ after gEnd code, Ran after g' gEnd → gEnd.code.instructions = .ok code →
        ∀ b m printed, m l.framePointer.toNat = BitVec.ofNat 32 b → dst.isConstant = false →
          dst.Ready l b 0 0 m → src.Ready l b 0 0 m →
            ∃ m', Reaches code ⟨mid.code.pc, m, printed⟩ ⟨g'.code.pc, m', printed⟩ ∧
              l.Keeps 0 (m.set (dst.target b m) (src.valueIn b m)) m') ∧
      ∀ later n b m m₁, later.layout = l → n < l.scratchSlots.toNat →
        m₁ l.framePointer.toNat = BitVec.ofNat 32 b → src.Ready l b 0 0 m₁ →
          ∃ u : Use, Does (resolveOperand src) later n (some ⟨u.operand, u.code.length⟩)
            (later.resolved u) (n + u.cells) ∧ u.Gives l n m₁ (src.valueIn b m₁) ∧
            ((∀ c ∈ src.cells b m, m₁ c = m c) → u.Gives l n m₁ (src.valueIn b m)) := by
  have hl := Layout.apart_of_flaw? hlayout
  obtain ⟨-, is, v, t', used, trace, ht, hg'⟩ :=
    hbefore.translates hrun hlayout hslots hf hempty
  obtain ⟨mid, hoperands, -⟩ := ran_append.mp hrun
  cases ht with
  | assign h₁ hint₁ h₂ hint₂ =>
    rename_i is v₁ dst t₁ js v₂ src
    have hat : g.At l g.code.pc g.symbols := ⟨hbefore.pool.1, rfl, rfl⟩
    have hperformed : Performed (target.steps ++ value.steps) g
        ((g.gives is v₁ t₁).gives js v₂ t') :=
      (h₁.performed hslots hat).append (h₂.performed hslots (hat.gives is v₁ t₁))
    obtain ⟨used', trace', rfl⟩ := hbefore.eq_of_performed hoperands hperformed
    refine ⟨_, v₁, v₂, dst, src, hoperands, rfl, hint₁.1, hint₂.1, by rw [hg']; rfl, ?_, ?_⟩
    · intro after gEnd code hafter hcode b m printed hframe hc hdst hsrc
      obtain ⟨m', heffects, hkeeps⟩ :=
        hdst.effects?_assign hc hsrc hl (Nat.le_of_succ_le hslots) hframe
      have happended : g'.code = ((g.gives is v₁ t₁).gives js v₂ t').code.append
          (Fragment.assign l dst src) := by
        rw [hg']
        simp only [Generator.taking_code, Generator.gives, Store.append_append]
      rw [happended, Store.pc_append]
      exact ⟨m', Machine.reaches_of_getElem?
        ((hbefore.then hrun).getElem?_appended happended hafter hcode) heffects, hkeeps⟩
    · intro later n b m m₁ hlater hn hframe hsrc
      obtain ⟨u, hdoes, hgives⟩ := hsrc.resolves hl hframe hlater hn
      exact ⟨u, hdoes, hgives, fun hsame => Symbol.valueIn_congr hsame ▸ hgives⟩

/-- Here the source of an assignment is changed by the operand behind it: one is stored, and the sum
    is made with five. -/
theorem assignment_operand_reads_changed_source :
    let l : Layout := {}
    let source := "int a; int b; void main(void) \x7b int x; b = 1; x = (a = b) + (b = 5); " ++
      "output(x); \x7d"
    let a : Expr := .name ⟨"a", 1⟩
    let b : Expr := .name ⟨"b", 1⟩
    let e : Expr := .assign a 1 b
    let set (x : String) (value : Expr) : Expr := .assign (.name ⟨x, 1⟩) 1 value
    let int (x : String) : VarDecl := ⟨⟨.int, 1⟩, ⟨x, 1⟩, .scalar 1⟩
    let sum : Expr := .binary .add 1 (.paren 1 e 1) (.paren 1 (set "b" (.num ⟨"5", 1⟩)) 1)
    let tree : Program := ⟨[.var (int "a"), .var (int "b"), .fn ⟨⟨.void, 1⟩, ⟨"main", 1⟩, 1,
      .void 1, 1, ⟨1, [int "x"], [.expr (set "b" (.num ⟨"1", 1⟩)) 1, .expr (set "x" sum) 1,
        .expr (.call ⟨"output", 1⟩ 1 (.last (.name ⟨"x", 1⟩) 1)) 1], 1⟩⟩]⟩
    let before := (tree.steps (.stopMark 1)).take 20
    let after := (tree.steps (.stopMark 1)).drop (20 + e.steps.length)
    let zero : Memory := fun _ => 0
    let m₁ := (zero.set 200 232).set 228 1
    let m₂ := (m₁.set 224 1).set 228 5
    parse (scan source).tokens = ⟨before ++ e.steps ++ after, none⟩ ∧ l.flaw? = none ∧
      3 ≤ l.scratchSlots.toNat ∧ ∃ g g' gEnd f code src m' u,
        Ran before (.initial l) g ∧ g.symbols.function = some f ∧ Ran e.steps g g' ∧
        g'.diagnostics = #[] ∧ Ran after g' gEnd ∧ gEnd.code.instructions = .ok code ∧
        Reaches code ⟨8, m₁, []⟩ ⟨9, m', []⟩ ∧ m' 224 = 1 ∧ g'.stack = .symbol src :: g.stack ∧
        Does (resolveOperand src) g' 0 (some ⟨u.operand, u.code.length⟩) (g'.resolved u)
          (0 + u.cells) ∧ u.Gives l 0 m₂ 5 ∧
        (Machine.run? code 60 {}).map (·.printed) = some [10] := by
  intro l source a b e set int sum tree before after zero m₁ m₂
  have hl : l.flaw? = none := by decide
  have hslots : 3 ≤ l.scratchSlots.toNat := by decide
  have hfree : ∀ a : Int, 224 ≤ a → l.Free a := fun a => (Layout.apart_of_flaw? hl).free
  have hgrammatical : tree.Grammatical := by
    simp [tree, sum, e, a, b, set, int, Program.Grammatical, Decl.Grammatical, Block.stmt,
      Stmt.Grammatical, Stmt.ListGrammatical, Expr.Grammatical, Args.Grammatical]
    decide
  have htokens : tree.tokens = (scan source).tokens.takeWhile (·.kind != .stop) := by
    decide +kernel
  have hsteps : tree.steps (splitStop (scan source).tokens).2 = before ++ e.steps ++ after := by
    decide +kernel
  have hall : Ran (before ++ e.steps ++ after) (.initial l)
      (stateAfter l (before ++ e.steps ++ after)) := ran_stateAfter (by decide +kernel)
  obtain ⟨g', hboth, hafter⟩ := ran_append.mp hall
  obtain ⟨g, hbefore, hrun⟩ := ran_append.mp hboth
  obtain rfl := stateAfter_eq hbefore
  obtain rfl := stateAfter_eq hboth
  obtain ⟨f, hf⟩ := Option.isSome_iff_exists.mp
    (by decide +kernel : (stateAfter l before).symbols.function.isSome)
  have hempty : (stateAfter l (before ++ e.steps)).diagnostics = #[] := by decide +kernel
  obtain ⟨code, hcode, hprinted⟩ := Option.bind_eq_some_iff.mp (by decide +kernel :
    ((stateAfter l (before ++ e.steps ++ after)).code.instructions.toOption.bind fun code =>
      (Machine.run? code 60 {}).map (·.printed)) = some [10])
  have hcode : (stateAfter l (before ++ e.steps ++ after)).code.instructions = .ok code := by
    cases hresult : (stateAfter l (before ++ e.steps ++ after)).code.instructions with
    | ok code' => rwa [hresult, Except.toOption, Option.some.injEq, ← Except.ok.injEq] at hcode
    | error fault =>
      rw [hresult] at hcode
      cases hcode
  have htwo : (stateAfter l (before ++ (a.steps ++ b.steps))).stack.take 2 =
      [.symbol (.cell "b" .int 228 true), .symbol (.cell "a" .int 224 true)] := by decide +kernel
  have hpc : (stateAfter l (before ++ (a.steps ++ b.steps))).code.pc = 8 := by decide +kernel
  have hpc' : (stateAfter l (before ++ e.steps)).code.pc = 9 := by decide +kernel
  obtain ⟨mid, v₁, v₂, dst, src, hoperands, hstack, hdst, hsrc, hpushed, hstores, hreads⟩ :=
    assignment_operand_reads_source hl hslots hbefore hf hrun hempty
  -- the operands are the two globals
  rw [stateAfter_eq (hbefore.then hoperands)] at htwo hpc
  rw [hstack] at htwo
  obtain ⟨rfl, rfl⟩ : v₂ = _ ∧ v₁ = _ := by simpa using htwo
  obtain rfl := Option.some.inj hdst
  obtain rfl := Option.some.inj hsrc
  have hready : ∀ (x : String) (address : Nat) (m : Memory), 224 ≤ address →
      address < 2147483648 → (Symbol.cell x .int address true).Ready l 232 0 0 m := by
    intro x address m hlo hhi
    have hplace : (Symbol.cell x .int address true).place 232 = address :=
      Word.toNat_ofNat (by omega)
    refine ⟨rfl, rfl, fun _ => ⟨?_, ?_, by rintro ⟨⟩, by rintro ⟨⟩⟩, fun c hc => ?_⟩
    · rw [hplace]
      exact hfree _ (by omega)
    · rwa [hplace]
    · have hcells : (Symbol.cell x .int address true).cells 232 m =
          [((Symbol.cell x .int address true).place 232 : Int)] := rfl
      rw [hcells, hplace, List.mem_singleton] at hc
      subst hc
      exact ⟨hfree _ (by omega), by omega⟩
  obtain ⟨m', hreaches, hkeeps⟩ := hstores _ _ _ hafter hcode 232 m₁ [] rfl rfl
    (hready _ _ _ (by decide) (by decide)) (hready _ _ _ (by decide) (by decide))
  obtain ⟨u, hdoes, hgives, -⟩ := hreads (stateAfter l (before ++ e.steps)) 0 232 m₁ m₂
    (hbefore.then hrun).pool.1 (by decide) rfl (hready _ _ _ (by decide) (by decide))
  rw [hpc, hpc'] at hreaches
  refine ⟨by rw [parse_of_tree hgrammatical htokens, hsteps], hl, hslots, _, _, _, f, code, _, m',
    u, hbefore, hf, hrun, hempty, hafter, hcode, hreaches, ?_, hpushed, hdoes, hgives, hprinted⟩
  exact hkeeps.of_free (hfree 224 (by decide))

end OnePass
