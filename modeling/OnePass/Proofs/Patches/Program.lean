import OnePass.Proofs.Generator.Declaration
import OnePass.Proofs.Patches.Targets
import OnePass.Proofs.Safety.Compile

/-!
# Where the jumps of a program lead

At the end of a function its returns are filled with where the code has got to, and the epilogue is
written right there. No loop is open between declarations, so a break that stands in no loop of its
function finds none. With `Stmt.patched` that gives the jumps of a whole program, whether it has
mistakes or not. -/

namespace OnePass

open Gen

section
variable (l : Layout) (code : Nat → Option Instruction)

/-- The jumps of a function lead where they should: its returns to the epilogue, which stands right
    after the code of the body. -/
def FnDecl.Patched (before : List Step) (f : FnDecl) : Prop :=
  let start := before ++ ([⟨.pushType, f.type.token⟩, ⟨.pushName, f.name.token⟩,
    ⟨.declareFunction, f.name.token⟩] ++ f.params.steps ++ [⟨.beginFunction, f.name.token⟩])
  let ret := pcAfter l (start ++ f.body.stmt.steps f.body.close)
  f.body.stmt.Patched l code ret f.body.close none start ∧
    (∀ k i, (Fragment.epilogue l)[k]? = some i → code (ret + k) = some i) ∧
    pcAfter l (before ++ f.steps) = ret + (Fragment.epilogue l).length

/-- The jumps of some declarations lead where they should; variables have no code. -/
def Decl.ListPatched (before : List Step) : List Decl → Prop
  | [] => True
  | .var d :: ds =>
    pcAfter l (before ++ d.steps) = pcAfter l before ∧ ListPatched (before ++ d.steps) ds
  | .fn f :: ds => f.Patched l code before ∧ ListPatched (before ++ f.steps) ds

/-- The jumps of a program that ends at a stop mark lead where they should. -/
def Program.Patched (stop : Token) (p : Program) : Prop :=
  Decl.ListPatched l code [⟨.beginProgram, p.tokens.headD stop⟩] p.decls

end

/-! ### Open loops -/

/-- A property that looks at the open loops only. -/
def Generator.OfLoops (I : Generator → Prop) : Prop :=
  ∀ {g g' : Generator}, g'.breaks = g.breaks → I g → I g'

theorem Generator.OfLoops.lasting {I : Generator → Prop} (h : OfLoops I) : Lasting true I where
  scratch g _ _ hg := h (g := g) rfl hg
  emit _ g _ hg := h (g := g) rfl hg
  log g _ _ hg := h (g := g) rfl hg
  report g _ _ hg := h (g := g) rfl hg
  request g _ _ hg := h (g := g) rfl hg
  placeholder g _ _ hg := h (g := g) rfl hg

namespace Gen

/-- An operation leaves the open loops alone. -/
abbrev Unlooping {α : Type} (m : Gen α) : Prop := Preserves Generator.OfLoops m

namespace Unlooping

theorem of_calm {α : Type} {m : Gen α} (h : Calm true m) : Unlooping m :=
  fun I hI => h I (Generator.OfLoops.lasting hI)

theorem change {f : Generator → Generator} (h : ∀ g, (f g).breaks = g.breaks) :
    Unlooping (modify f) := fun _ hI g hg => hI (h g) hg

theorem reserve : Unlooping reserve :=
  .get fun _ => .bind (change fun _ => rfl) fun _ => .bind (of_calm (.log _ rfl)) fun _ => .pure

theorem pop : Unlooping pop := by
  refine .get fun g => ?_
  split
  · exact .throw
  · exact .bind (change fun _ => rfl) fun _ => .pure

theorem popName : Unlooping popName := by
  refine .bind pop fun value => ?_
  split
  · exact .pure
  · exact .throw

theorem popType : Unlooping popType := by
  refine .bind pop fun value => ?_
  split
  · exact .pure
  · exact .throw

theorem declareFunction (t : Token) : Unlooping (declareFunction t) := by
  refine .bind popName fun _ => .bind popType fun _ => .get fun _ => .ite .throw <|
    .bind .pc fun _ => .bind (of_calm (.request .openFunction)) fun outcome => ?_
  split
  · exact .bind (of_calm (.log _ rfl)) fun _ => change fun _ => rfl
  · exact .bind (of_calm (.reportRejected _ _)) fun _ => .bind (of_calm (.log _ rfl)) fun _ =>
      change fun _ => rfl

theorem beginFunction : Unlooping beginFunction :=
  .get fun _ => .ite .throw <| .get fun _ => .bind (of_calm (.fieldOperand _ _)) fun _ =>
    .bind (of_calm (.emit _)) fun _ => .bind (of_calm (.fieldOperand _ _)) fun _ =>
    .bind (of_calm (.emit _)) fun _ => .bind (of_calm (.emit _)) fun _ =>
    .bind reserve fun _ => change fun _ => rfl

theorem beginProgram : Unlooping beginProgram :=
  .get fun _ => .ite .throw <| .bind reserve fun _ => change fun _ => rfl

end Unlooping

theorem Ran.breaks_eq {action : Action} {t : Token} {g g' : Generator}
    (h : Ran [⟨action, t⟩] g g') (hkeeps : Unlooping (Gen.dispatch action t)) :
    g'.breaks = g.breaks := by
  have hperform : Unlooping (perform ⟨action, t⟩) :=
    .bind (Unlooping.of_calm .clearScratch) fun _ => .get fun _ =>
      .bind (Unlooping.of_calm (.log _ rfl)) fun _ => hkeeps
  have hend := hperform (fun g' => g'.breaks = g.breaks) (fun hsame hg => hsame.trans hg) g rfl
  rwa [Generator.run, EStateM.run, ran_one.mp h] at hend

end Gen

/-! ### The end of a function -/

section
variable {l : Layout} {steps : List Step} {g g' : Generator}

theorem Gen.demand_ok {α : Type} {r : Request Fault α} {a : α} (h : demand r g = .ok a g') :
    ∃ symbols trace, g' = { g with symbols, trace } := by
  have hrun : orFault (r.run g.symbols).1 (g.after r) = .ok a g' := h
  cases hout : (r.run g.symbols).1 with
  | ok b =>
    rw [hout] at hrun
    cases hrun
    exact ⟨_, _, rfl⟩
  | error fault =>
    rw [hout] at hrun
    cases hrun

/-- The slots of returns are in the code. -/
theorem Generator.Linear.lt_of_mem_returns (hg : g.Linear []) {body : Body}
    (h : g.body = some body) : ∀ hole ∈ body.returns, hole.pc < g.code.pc := by
  intro hole hmem
  refine hg.ledger.lt_of_pending (hg.waiting hole.pc ?_)
  have hnoted : hole ∈ body.holes := List.mem_append_right _ hmem
  simp only [Generator.holes, h, Option.map_some, Option.getD_some, List.nil_append,
    List.map_append, List.mem_append, List.mem_map]
  exact .inl (.inr ⟨hole, hnoted, rfl⟩)

/-- The end of a function fills its returns with where the epilogue starts. -/
theorem Gen.Ran.endFunction {t : Token} (hslots : 3 ≤ l.scratchSlots.toNat)
    (hbefore : Ran steps (Generator.initial l) g) (h : Ran [⟨.endFunction, t⟩] g g') :
    ∃ (body : Body) (code : Store), g.body = some body ∧ g'.breaks = g.breaks ∧
      code.pc = g.code.pc ∧
      (∀ hole ∈ body.returns, g'.code.get? hole.pc = some (.jump g.code.pc)) ∧
      g'.code = code.append (Fragment.epilogue l) := by
  obtain ⟨trace, hrun⟩ := hbefore.taking h
  obtain ⟨_, _, hget, hrun⟩ := bind_ok hrun
  cases hget
  cases hbody : g.body with
  | none =>
    rw [Generator.taking_body, hbody] at hrun
    cases hrun
  | some body =>
    rw [Generator.taking_body, hbody] at hrun
    obtain ⟨_, _, hnone, hrun⟩ := bind_ok hrun
    cases hnone
    obtain ⟨closed, _, hclosed, hrun⟩ := bind_ok hrun
    obtain ⟨symbols, trace, rfl⟩ := demand_ok hclosed
    cases hprologue : body.prologue with
    | none =>
      simp only [hprologue] at hrun
      cases hrun
    | some prologue =>
      simp only [hprologue] at hrun
      obtain ⟨_, _, hget, hrun⟩ := bind_ok hrun
      cases hget
      obtain ⟨_, _, hfilled, hrun⟩ := bind_ok hrun
      obtain ⟨code, trace, hfill, rfl⟩ := fill_ok hfilled
      obtain ⟨_, _, hpc, hrun⟩ := bind_ok hrun
      cases hpc
      obtain ⟨_, _, hreturns, hrun⟩ := bind_ok hrun
      obtain ⟨code', trace, hall, rfl⟩ := fillAll_ok hreturns
      have hpc : code.pc = g.code.pc := Store.pc_fill hfill
      -- What is left is the epilogue, from a state that has still all scratch cells free.
      let last : Generator := { g with body := none, symbols, code := code' }
      obtain ⟨n, hepilogue⟩ := does_emitEpilogue (g := last) (by rw [hbefore.pool.1]; exact hslots)
      obtain ⟨trace, hepilogue⟩ := hepilogue trace
      obtain ⟨_, _, hemitted, hrun⟩ := bind_ok hrun
      cases hepilogue.symm.trans hemitted
      cases hrun
      have hpc' : code'.pc = g.code.pc := (Store.pc_fillAll hall).trans hpc
      have hlt := hbefore.linear.lt_of_mem_returns hbody
      have hlead := (Store.get?_fillAll hall (by rw [hpc]; exact hlt)).2
      refine ⟨body, code', rfl, rfl, hpc', fun hole hmem => ?_, ?_⟩
      · refine (Store.get?_append code' (Fragment.epilogue g.layout) hole.pc).trans ?_
        rw [if_pos (by rw [hpc']; exact hlt hole hmem), hlead hole hmem, ← hpc]
      · rw [← hbefore.pool.1]
        rfl

end

/-! ### Functions and programs -/

section
variable {l : Layout} {code : Nat → Option Instruction} {before : List Step} {g g' : Generator}

theorem Param.trades (p : Param) (h : Ran p.steps g g') : g.Trades false 0 0 g' := by
  obtain ⟨g₁, htype, hrest⟩ := ran_cons.mp h
  obtain ⟨g₂, hname, hadd⟩ := ran_cons.mp hrest
  have htyped : g.Trades false 0 1 g₁ := (ran_one.mpr htype).trades (.pushType _)
  have hnamed : g₁.Trades false 0 1 g₂ := (ran_one.mpr hname).trades (.push _)
  refine (htyped.puts hnamed).spends (hadd.trades ?_)
  rw [Param.action]
  split
  · exact .addParameter _ _
  · exact .addParameter _ _

theorem Param.listTrades : ∀ (ps : List Param) {g g' : Generator},
    Ran (ps.flatMap Param.steps) g g' → g.Trades false 0 0 g'
  | [], g, _, h => by
    rw [ran_nil.mp h]
    exact .refl g
  | p :: ps, _, _, h => by
    obtain ⟨mid, hp, hps⟩ := ran_append.mp h
    exact (p.trades hp).calm (Param.listTrades ps hps)

/-- No loop is open where the body of a function starts if none is before the function. -/
theorem FnDecl.breaks_head (f : FnDecl) (h : Ran ([⟨.pushType, f.type.token⟩,
    ⟨.pushName, f.name.token⟩, ⟨.declareFunction, f.name.token⟩] ++ f.params.steps
      ++ [⟨.beginFunction, f.name.token⟩]) g g') : g'.breaks = g.breaks := by
  obtain ⟨g₄, hfront, hbegin⟩ := ran_append.mp h
  obtain ⟨g₃, hnamed, hparams⟩ := ran_append.mp hfront
  obtain ⟨g₁, htype, hrest⟩ := ran_cons.mp hnamed
  obtain ⟨g₂, hname, hdeclare⟩ := ran_cons.mp hrest
  have htyped : g.Trades false 0 1 g₁ := (ran_one.mpr htype).trades (.pushType _)
  have hnamed : g₁.Trades false 0 1 g₂ := (ran_one.mpr hname).trades (.push _)
  rw [hbegin.breaks_eq .beginFunction, (Param.listTrades _ hparams).breaks,
    hdeclare.breaks_eq (.declareFunction _), hnamed.breaks, htyped.breaks]

theorem FnDecl.patched (f : FnDecl) (hslots : 3 ≤ l.scratchSlots.toNat)
    (hbefore : Ran before (Generator.initial l) g) (hbreaks : g.breaks = [])
    (hrun : Ran f.steps g g') (hcode : ∀ pc i, g'.code.get? pc = some i → code pc = some i) :
    g'.breaks = [] ∧ f.Patched l code before := by
  obtain ⟨g₂, hfront, hend⟩ := ran_append.mp hrun
  obtain ⟨g₁, hhead, hbody⟩ := ran_append.mp hfront
  have hstart := hbefore.then hhead
  have hstop := hstart.then hbody
  obtain ⟨body, code', hopen, hkept, hpc, hreturns, hcode'⟩ := Ran.endFunction hslots hstop hend
  obtain ⟨more, hmore⟩ := (f.body.stmt.adds _ hbody).breaks
  have hnone : g₂.breaks = [] := by
    rw [hmore, f.breaks_head hhead, hbreaks]
    rfl
  have hgrows := (Ran.grows hstop.linear hend).2
  have hleads : g₂.Leads code g₂.code.pc none := {
    written := fun pc i hi => hcode pc i (hgrows.written pc i hi)
    breaks := hnone
    returns := ⟨body, hopen, fun hole hmem => hcode _ _ (hreturns hole hmem)⟩ }
  refine ⟨hkept.trans hnone, ?_⟩
  rw [FnDecl.Patched, pcAfter_eq hstop, pcAfter_eq (hbefore.then hrun), hcode', Store.pc_append,
    hpc]
  refine ⟨f.body.stmt.patched _ none hstart hbody hleads, fun k i hi => hcode _ _ ?_, rfl⟩
  rw [hcode', Store.get?_append, hpc, if_neg (by omega), Nat.add_sub_cancel_left, hi]

theorem Decl.listPatched (hslots : 3 ≤ l.scratchSlots.toNat) : ∀ (ds : List Decl)
    {before : List Step} {g g' : Generator}, Ran before (Generator.initial l) g →
      g.breaks = [] → Ran (ds.flatMap Decl.steps) g g' →
      (∀ pc i, g'.code.get? pc = some i → code pc = some i) → Decl.ListPatched l code before ds
  | [], _, _, _, _, _, _, _ => trivial
  | .var d :: ds, _, _, _, hbefore, hbreaks, hrun, hcode => by
    obtain ⟨mid, hd, hds⟩ := ran_append.mp hrun
    have htrades := d.trades hd
    have hmid := hbefore.then hd
    refine ⟨?_, Decl.listPatched hslots ds hmid (htrades.breaks.trans hbreaks) hds hcode⟩
    exact (pcAfter_eq hmid).trans (by rw [htrades.code_eq, pcAfter_eq hbefore])
  | .fn f :: ds, _, _, _, hbefore, hbreaks, hrun, hcode => by
    obtain ⟨mid, hf, hds⟩ := ran_append.mp hrun
    have hmid := hbefore.then hf
    obtain ⟨hnone, hpatched⟩ := f.patched hslots hbefore hbreaks hf fun pc i hi =>
      hcode pc i ((Ran.grows hmid.linear hds).2.written pc i hi)
    exact ⟨hpatched, Decl.listPatched hslots ds hmid hnone hds hcode⟩

theorem Program.patched (p : Program) (hslots : 3 ≤ l.scratchSlots.toNat) {stop : Token}
    (hrun : Ran (p.steps stop) (Generator.initial l) g) : p.Patched l g.code.get? stop := by
  obtain ⟨g₂, hfront, hend⟩ := ran_append.mp hrun
  obtain ⟨g₁, hbegin, hdecls⟩ := ran_append.mp hfront
  refine Decl.listPatched hslots p.decls hbegin ?_ hdecls
    (Ran.grows (hbegin.then hdecls).linear hend).2.written
  exact hbegin.breaks_eq .beginProgram

end

theorem ran_of_compileParse {l : Layout} {parse : Parse} {g : Generator}
    (h : (Generator.initial l).compileParse parse = (.ok (), g)) :
    Ran parse.steps (Generator.initial l) g := by
  rw [Generator.compileParse, Generator.run, EStateM.run] at h
  rw [Ran]
  cases hrun : parse.steps.forM perform (Generator.initial l) with
  | error fault g' =>
    rw [hrun] at h
    cases h
  | ok a g' =>
    rw [hrun] at h
    cases herror : parse.error with
    | none =>
      simp only [herror] at h
      cases h
      rfl
    | some error =>
      simp only [herror] at h
      cases h

/-- For every program that the grammar builds, whether it has mistakes or not, the jumps in the code
    that the parser leaves lead where they should. -/
theorem parse_patches_jumps {l : Layout} (hlayout : l.flaw? = none)
    (hslots : 3 ≤ l.scratchSlots.toNat) {tokens : List Token} {p : Program} (hp : p.Grammatical)
    (htokens : p.tokens = tokens.takeWhile (·.kind != .stop)) :
    (p.tokens.length ≤ maxWords →
      ∃ g, (Generator.initial l).compileParse (parse tokens) = (.ok (), g)) ∧
    ∀ g, (Generator.initial l).compileParse (parse tokens) = (.ok (), g) →
      p.Patched l g.code.get? (splitStop tokens).2 := by
  have hparse := parse_of_tree hp htokens
  constructor
  · intro hlen
    rw [htokens, ← splitStop_fst] at hlen
    obtain ⟨g, hrun, -⟩ := run_parse hlayout hslots hlen
    exact ⟨g, compileParse_of_none hrun (by rw [hparse])⟩
  · intro g hcompile
    rw [hparse] at hcompile
    exact p.patched hslots (ran_of_compileParse hcompile)

/-- A function with a loop in a loop, a branch in each, a return in the inner one, and a break after
    both that stands in no loop. -/
theorem parse_patches_jumps_nested :
    let l : Layout := {}
    let source := "int f(int n) \x7b repeat \x7b if (n == 3) break;\n" ++
      "repeat if (n < 9) return n; else break; until (n) \x7d until (n < 5) break; \x7d"
    let tree : Program := ⟨[.fn ⟨⟨.int, 1⟩, ⟨"f", 1⟩, 1, .list ⟨⟨.int, 1⟩, ⟨"n", 1⟩, none⟩ [], 1,
      ⟨1, [], [.loop 1 (.block 1 []
        [.ifThen 1 1 (.binary .eq 1 (.name ⟨"n", 1⟩) (.num ⟨"3", 1⟩)) 1 (.leave 1 1),
        .loop 2 (.ifElse 2 2 (.binary .lt 2 (.name ⟨"n", 2⟩) (.num ⟨"9", 2⟩)) 2
          (.returnValue 2 (.name ⟨"n", 2⟩) 2) 2 (.leave 2 2)) 2 2 (.name ⟨"n", 2⟩) 2] 2)
        2 2 (.binary .lt 2 (.name ⟨"n", 2⟩) (.num ⟨"5", 2⟩)) 2, .leave 2 2], 2⟩⟩]⟩
    l.flaw? = none ∧ 3 ≤ l.scratchSlots.toNat ∧ tree.Grammatical ∧
      tree.tokens = (scan source).tokens.takeWhile (·.kind != .stop) ∧
      ∃ g, (Generator.initial l).compileParse (parse (scan source).tokens) = (.ok (), g) ∧
        tree.Patched l g.code.get? (splitStop (scan source).tokens).2 := by
  intro l source tree
  have hl : l.flaw? = none := by decide
  have hslots : 3 ≤ l.scratchSlots.toNat := by decide
  have hp : tree.Grammatical := by
    simp [tree, Program.Grammatical, Decl.Grammatical, Block.stmt, Stmt.Grammatical,
      Stmt.ListGrammatical, Stmt.endsOpen, Expr.Grammatical, Expr.level, BinaryOp.leftLevel,
      BinaryOp.rightLevel, Precedence.rank]
  have htokens : tree.tokens = (scan source).tokens.takeWhile (·.kind != .stop) := by
    decide +kernel
  have hlen : tree.tokens.length ≤ maxWords := by decide +kernel
  clear_value l source tree
  obtain ⟨hends, hpatched⟩ := parse_patches_jumps hl hslots hp htokens
  obtain ⟨g, hg⟩ := hends hlen
  exact ⟨hl, hslots, hp, htokens, g, hg, hpatched g hg⟩

end OnePass
