import OnePass.Proofs.Patches.Statements
import OnePass.Proofs.Session.Linear

/-!
# Where the jumps of a statement lead

A statement takes the positions from where the code has got to when its first step is performed up
to where it has got to after its last. `Stmt.Patched` says where the jumps in that range lead:

    if (e) s            the jump after `e` leads to the end of `s`
    if (e) s else s'    the jump after `e` leads to the start of `s'`, right before which a jump
                        leads to the end of `s'`
    repeat s until (e)  the last instruction leads to the start of the loop
    break               leads to the end of the innermost loop; outside of loops it is a mistake
    return              leads to the end of the body of the function, where its epilogue starts -/

namespace OnePass

open Gen
open Token (symbolAt keywordAt)

/-- The state of a generator that has performed some steps from the start. -/
def stateAfter (l : Layout) (steps : List Step) : Generator :=
  ((Generator.initial l).run (steps.forM perform)).2

/-- The position that the code has got to by then. -/
def pcAfter (l : Layout) (steps : List Step) : Nat := (stateAfter l steps).code.pc

section
variable (l : Layout) (code : Nat → Option Instruction) (ret : Nat)

mutual

/-- The jumps of a statement lead where they should in some code: `before` are the steps before the
    statement, `exit` is the end of the innermost loop around it, and `ret` is where the epilogue of
    the function starts. The parts of the statement take ranges inside its own, one after the
    other. -/
def Stmt.Patched (after : Token) (exit : Option Nat) (before : List Step) : Stmt → Prop
  | .empty _ => True
  | .expr e semicolon =>
    pcAfter l before ≤ pcAfter l (before ++ (Stmt.expr e semicolon).steps after)
  | .block opening locals body closing =>
    let start := before ++ ([⟨.scopeUp, symbolAt "\x7b" opening⟩] ++ locals.flatMap VarDecl.steps)
    let stop := start ++ Stmt.listSteps (symbolAt "\x7d" closing) body
    pcAfter l start = pcAfter l before ∧
      pcAfter l (before ++ (Stmt.block opening locals body closing).steps after) = pcAfter l stop ∧
      Stmt.ListPatched (symbolAt "\x7d" closing) exit start body
  | .leave line semicolon =>
    let stop := before ++ (Stmt.leave line semicolon).steps after
    match exit with
    | some exit =>
      code (pcAfter l before) = some (.jump exit) ∧ pcAfter l stop = pcAfter l before + 1
    | none =>
      pcAfter l stop = pcAfter l before ∧ (stateAfter l stop).diagnostics =
        (stateAfter l before).diagnostics.push ⟨line, .breakOutsideLoop⟩
  | .ifThen line opening cond closing body =>
    let start := before ++ (cond.steps ++ [⟨.reserveJumpSlot, symbolAt ")" closing⟩])
    let stop := pcAfter l (start ++ body.steps after)
    (∃ test c, pcAfter l before ≤ test ∧ pcAfter l start = test + 1 ∧
      code test = some (.jumpIfFalse c stop)) ∧
      pcAfter l (before ++ (Stmt.ifThen line opening cond closing body).steps after) = stop ∧
      body.Patched after exit start
  | .ifElse line opening cond closing body elseLine other =>
    let start := before ++ (cond.steps ++ [⟨.reserveJumpSlot, symbolAt ")" closing⟩])
    let skip := start ++ body.steps (keywordAt "else" elseLine)
    let second := skip ++ [⟨.emitCondJumpAndReserveNext, keywordAt "else" elseLine⟩]
    let stop := pcAfter l (second ++ other.steps after)
    (∃ test c, pcAfter l before ≤ test ∧ pcAfter l start = test + 1 ∧
      code test = some (.jumpIfFalse c (pcAfter l second))) ∧
      code (pcAfter l skip) = some (.jump stop) ∧ pcAfter l second = pcAfter l skip + 1 ∧
      pcAfter l (before ++
        (Stmt.ifElse line opening cond closing body elseLine other).steps after) = stop ∧
      body.Patched (keywordAt "else" elseLine) exit start ∧ other.Patched after exit second
  | .loop line body untilLine opening cond closing =>
    let start := before ++ [⟨.pushBreakScope, keywordAt "repeat" line⟩,
      ⟨.labelHere, keywordAt "repeat" line⟩]
    let stop := pcAfter l (before ++
      (Stmt.loop line body untilLine opening cond closing).steps after)
    pcAfter l start = pcAfter l before ∧
      (∃ test c, pcAfter l (start ++ body.steps (keywordAt "until" untilLine)) ≤ test ∧
        stop = test + 1 ∧ code test = some (.jumpIfFalse c (pcAfter l before))) ∧
      body.Patched (keywordAt "until" untilLine) (some stop) start
  | .return line semicolon =>
    code (pcAfter l before) = some (.jump ret) ∧
      pcAfter l (before ++ (Stmt.return line semicolon).steps after) = pcAfter l before + 1
  | .returnValue line e semicolon =>
    let mark := before ++ (e.steps ++ [⟨.storeReturnValue, keywordAt "return" line⟩])
    pcAfter l before ≤ pcAfter l mark ∧ code (pcAfter l mark) = some (.jump ret) ∧
      pcAfter l (before ++ (Stmt.returnValue line e semicolon).steps after) = pcAfter l mark + 1

/-- The jumps of some statements lead where they should. -/
def Stmt.ListPatched (after : Token) (exit : Option Nat) (before : List Step) : List Stmt → Prop
  | [] => True
  | s :: ss =>
    s.Patched ((Stmt.listTokens ss).headD after) exit before ∧
      Stmt.ListPatched after exit (before ++ s.steps ((Stmt.listTokens ss).headD after)) ss

end

end

/-! ### Runs from the start -/

section
variable {l : Layout} {before steps : List Step} {g g' : Generator}

theorem stateAfter_eq (h : Ran steps (Generator.initial l) g) : stateAfter l steps = g := by
  rw [stateAfter, Generator.run, EStateM.run, h]

theorem ran_stateAfter (h : ((Generator.initial l).run (steps.forM perform)).1.isOk) :
    Ran steps (Generator.initial l) (stateAfter l steps) := by
  rw [stateAfter, Generator.run, EStateM.run, Ran]
  rw [Generator.run, EStateM.run] at h
  cases hrun : steps.forM perform (Generator.initial l) with
  | ok a g => rfl
  | error fault g =>
    rw [hrun] at h
    cases h

theorem pcAfter_eq (h : Ran steps (Generator.initial l) g) : pcAfter l steps = g.code.pc := by
  rw [pcAfter, stateAfter_eq h]

theorem Gen.Ran.then (h : Ran before (Generator.initial l) g) (h' : Ran steps g g') :
    Ran (before ++ steps) (Generator.initial l) g' := ran_append.mpr ⟨g, h, h'⟩

/-- Steps keep a state linear, and what is written. -/
theorem Gen.Ran.grows (hg : g.Linear []) (h : Ran steps g g') : g'.Linear [] ∧ g.Grows g' := by
  induction steps generalizing g with
  | nil =>
    rw [ran_nil.mp h]
    exact ⟨hg, .refl g⟩
  | cons step steps ih =>
    obtain ⟨mid, hstep, hrest⟩ := ran_cons.mp h
    have hlands := Steady.perform step [] g hg
    rw [hstep] at hlands
    obtain ⟨hlast, hgrows⟩ := ih hlands.1 hrest
    exact ⟨hlast, hlands.2.trans hgrows⟩

theorem Gen.Ran.linear (h : Ran steps (Generator.initial l) g) : g.Linear [] :=
  (Ran.grows (.initial l) h).1

/-- What is written at some time stands in the program that is made in the end. -/
theorem Gen.Ran.getElem?_instructions (hbefore : Ran before (Generator.initial l) g)
    (h : Ran steps g g') {code : List Instruction} (hcode : g'.code.instructions = .ok code)
    {pc : Nat} {i : Instruction} (hi : g.code.get? pc = some i) : code[pc]? = some i := by
  have hledger := (hbefore.then h).linear.ledger
  have hsound : g'.code.Sound := fun pc hpc => (hledger.pending pc).mpr hpc
  exact hsound.getElem?_instructions hcode ((Ran.grows hbefore.linear h).2.written pc i hi)

end

/-! ### What is noted leads where it should -/

/-- What is written is in the code, and the slots that are noted with the innermost loop and with
    the function lead to the ends of those. -/
structure Generator.Leads (code : Nat → Option Instruction) (ret : Nat) (exit : Option Nat)
    (g : Generator) : Prop where
  written : ∀ pc i, g.code.get? pc = some i → code pc = some i
  breaks : match exit with
    | none => g.breaks = []
    | some stop => ∃ holes rest, g.breaks = holes :: rest ∧
        ∀ hole ∈ holes, code hole.pc = some (.jump stop)
  returns : ∃ body, g.body = some body ∧ ∀ hole ∈ body.returns, code hole.pc = some (.jump ret)

section
variable {l : Layout} {code : Nat → Option Instruction} {ret : Nat} {exit : Option Nat}

/-- The slots that are noted with a loop are in the code. -/
theorem Generator.Linear.lt_of_mem_breaks {g : Generator} (hg : g.Linear []) {holes : List Hole}
    (h : holes ∈ g.breaks) : ∀ hole ∈ holes, hole.pc < g.code.pc := by
  intro hole hmem
  refine hg.ledger.lt_of_pending (hg.waiting hole.pc ?_)
  have hflat : hole ∈ g.breaks.flatten := List.mem_flatten.mpr ⟨holes, h, hmem⟩
  simp only [Generator.holes, List.nil_append, List.map_append, List.mem_append, List.mem_map]
  exact .inl (.inl (.inr ⟨hole, hflat, rfl⟩))

/-- What leads where it should in the end does so before. -/
theorem Generator.Leads.back {g g' : Generator} (h : g'.Leads code ret exit) (hnotes : g.Notes g')
    (hgrows : g.Grows g') : g.Leads code ret exit where
  written pc i hi := h.written pc i (hgrows.written pc i hi)
  breaks := by
    obtain ⟨more, hmore⟩ := hnotes.breaks
    have hbreaks := h.breaks
    cases exit with
    | none =>
      cases hold : g.breaks with
      | nil => rfl
      | cons holes rest =>
        rw [hbreaks, hold] at hmore
        cases hmore
    | some stop =>
      obtain ⟨holes, rest, hnew, hlead⟩ := hbreaks
      cases hold : g.breaks with
      | nil =>
        rw [hnew, hold] at hmore
        cases hmore
      | cons holes' rest' =>
        rw [hnew, hold, addBreaks, List.cons.injEq] at hmore
        refine ⟨holes', rest', rfl, fun hole hmem => hlead hole ?_⟩
        rw [hmore.1]
        exact List.mem_append_left _ hmem
  returns := by
    obtain ⟨body, hbody, hlead⟩ := h.returns
    obtain ⟨more, hmore⟩ := hnotes.body
    cases hold : g.body with
    | none =>
      rw [hbody, hold] at hmore
      cases hmore
    | some body' =>
      rw [hbody, hold, Option.map_some, Option.some.injEq] at hmore
      refine ⟨body', rfl, fun hole hmem => hlead hole ?_⟩
      rw [hmore]
      exact List.mem_append_left _ hmem

/-- A return leads where those of its function do. -/
theorem Generator.Leads.of_markReturn {g g' : Generator} {t : Token} (h : g'.Leads code ret exit)
    (hrun : Ran [⟨.markReturn, t⟩] g g') :
    code g.code.pc = some (.jump ret) ∧ g'.code.pc = g.code.pc + 1 := by
  obtain ⟨-, -, -, -, hcode, body, -, hbody⟩ := hrun.markReturn
  obtain ⟨body', hbody', hlead⟩ := h.returns
  rw [hbody, Option.some.injEq] at hbody'
  refine ⟨hlead ⟨_⟩ ?_, by rw [hcode, Store.pc_reserve]⟩
  rw [← hbody']
  exact List.mem_append_right _ (List.mem_singleton_self _)

mutual

theorem Stmt.patched : ∀ (s : Stmt) (after : Token) (exit : Option Nat) {before : List Step}
    {g g' : Generator}, Ran before (Generator.initial l) g → Ran (s.steps after) g g' →
      g'.Leads code ret exit → s.Patched l code ret after exit before
  | .empty _, _, _, _, _, _, _, _, _ => trivial
  | .expr e semicolon, after, _, _, _, _, hbefore, hrun, _ => by
    rw [Stmt.Patched, pcAfter_eq hbefore, pcAfter_eq (hbefore.then hrun)]
    exact ((Stmt.expr e semicolon).adds after hrun).pc
  | .block _ locals body _, after, exit, _, _, _, hbefore, hrun, hleads => by
    obtain ⟨g₃, hfront, hclose⟩ := ran_append.mp hrun
    obtain ⟨g₂, hhead, hbody⟩ := ran_append.mp hfront
    obtain ⟨g₁, hopen, hlocals⟩ := ran_append.mp hhead
    have hopened : Generator.Trades false 0 0 _ g₁ := hopen.trades (.of_calm (.demand .openBlock))
    have hclosed : Generator.Trades false 0 0 g₃ _ :=
      hclose.trades (.of_calm (.demand .closeBlock))
    have hstart := hbefore.then hhead
    have hstop := hstart.then hbody
    rw [Stmt.Patched, pcAfter_eq hbefore, pcAfter_eq hstart, pcAfter_eq hstop,
      pcAfter_eq (hbefore.then hrun), (VarDecl.listTrades locals hlocals).code_eq, hopened.code_eq,
      hclosed.code_eq]
    exact ⟨rfl, rfl, Stmt.listPatched body _ exit hstart hbody
      (hleads.back hclosed.notes (Ran.grows hstop.linear hclose).2)⟩
  | .leave _ _, after, exit, _, _, _, hbefore, hrun, hleads => by
    have hstop := hbefore.then hrun
    obtain ⟨-, -, -, -, hcases⟩ := Ran.registerBreak hrun
    have hbreaks := hleads.breaks
    cases exit with
    | none =>
      rcases hcases with ⟨-, -, hcode, hreported⟩ | ⟨holes, rest, -, hnew, -⟩
      · rw [Stmt.Patched, pcAfter_eq hbefore, pcAfter_eq hstop, stateAfter_eq hbefore,
          stateAfter_eq hstop, hcode]
        exact ⟨rfl, hreported⟩
      · rw [hbreaks] at hnew
        cases hnew
    | some exit =>
      obtain ⟨all, others, hall, hlead⟩ := hbreaks
      rcases hcases with ⟨-, hnone, -⟩ | ⟨holes, rest, -, hnew, hcode, -⟩
      · rw [hall] at hnone
        cases hnone
      · rw [hall, List.cons.injEq] at hnew
        rw [Stmt.Patched, pcAfter_eq hbefore, pcAfter_eq hstop, hcode, Store.pc_reserve]
        refine ⟨hlead ⟨_⟩ ?_, rfl⟩
        rw [hnew.1]
        exact List.mem_append_right _ (List.mem_singleton_self _)
  | .ifThen _ _ cond _ body, after, exit, _, _, _, hbefore, hrun, hleads => by
    obtain ⟨g₃, hfront, hend⟩ := ran_append.mp hrun
    obtain ⟨g₂, hhead, hbody⟩ := ran_append.mp hfront
    obtain ⟨g₁, hcond, htest⟩ := ran_append.mp hhead
    have hadds := body.adds after hbody
    obtain ⟨-, test, c, hle, hpc, hfill⟩ := Ran.ifThen (cond.trades hcond) htest hadds hend
    have hstart := hbefore.then hhead
    have hstop := hstart.then hbody
    rw [Stmt.Patched, pcAfter_eq hbefore, pcAfter_eq hstart, pcAfter_eq hstop,
      pcAfter_eq (hbefore.then hrun), Store.pc_fill hfill]
    refine ⟨⟨test, c, hle, hpc, hleads.written test _ ?_⟩, rfl, body.patched after exit hstart hbody
      (hleads.back hend.notes_endBranch (Ran.grows hstop.linear hend).2)⟩
    rw [Store.get?_fill hfill (by have := hadds.pc; simp only; omega), if_pos rfl]
  | .ifElse _ _ cond _ body _ other, after, exit, _, _, _, hbefore, hrun, hleads => by
    obtain ⟨g₅, hfront, hend⟩ := ran_append.mp hrun
    obtain ⟨g₄, hfront, hother⟩ := ran_append.mp hfront
    obtain ⟨g₃, hfront, helse⟩ := ran_append.mp hfront
    obtain ⟨g₂, hhead, hbody⟩ := ran_append.mp hfront
    obtain ⟨g₁, hcond, htest⟩ := ran_append.mp hhead
    have hadds := body.adds _ hbody
    have hadds' := other.adds after hother
    obtain ⟨-, hpc', hfill', test, c, hle, hpc, hfill⟩ :=
      Ran.ifElse (cond.trades hcond) htest hadds helse hadds' hend
    have hstart := hbefore.then hhead
    have hskip := hstart.then hbody
    have hsecond := hskip.then helse
    have hstop := hsecond.then hother
    -- From the end backwards: what leads where it should after the second statement does so before
    -- it, and then also after the first.
    have hleads₅ := hleads.back hend.notes_endElse (Ran.grows hstop.linear hend).2
    have hleads₄ := hleads₅.back hadds'.toNotes (Ran.grows hsecond.linear hother).2
    have hleads₃ := hleads₄.back helse.notes_startElse (Ran.grows hskip.linear helse).2
    rw [Stmt.Patched, pcAfter_eq hbefore, pcAfter_eq hstart, pcAfter_eq hskip, pcAfter_eq hsecond,
      pcAfter_eq hstop, pcAfter_eq (hbefore.then hrun), Store.pc_fill hfill']
    have hin := hadds.pc
    have hin' := hadds'.pc
    refine ⟨⟨test, c, hle, hpc, hleads₄.written test _ ?_⟩, hleads.written _ _ ?_, hpc', rfl,
      body.patched _ exit hstart hbody hleads₃, other.patched after exit hsecond hother hleads₅⟩
    · rw [Store.get?_fill hfill (by rw [Store.pc_reserve]; simp only; omega), if_pos rfl]
    · rw [Store.get?_fill hfill' (by simp only; omega), if_pos rfl]
  | .loop _ body _ _ cond _, after, exit, _, _, g', hbefore, hrun, hleads => by
    obtain ⟨g₃, hfront, hend⟩ := ran_append.mp hrun
    obtain ⟨g₂, hfront, hcond⟩ := ran_append.mp hfront
    obtain ⟨g₁, hhead, hbody⟩ := ran_append.mp hfront
    obtain ⟨g₄, hrepeat, hclose⟩ := ran_cons.mp hend
    have hstart := hbefore.then hhead
    have hinner := hstart.then hbody
    have htested := (hinner.then hcond).then (ran_one.mpr hrepeat)
    obtain ⟨-, hcode, hfunction, ⟨holes, hholes, hholes', hfill⟩, test, c, hle, hpc, hjump⟩ :=
      Ran.loop hhead (body.adds _ hbody) (cond.trades hcond) (ran_one.mpr hrepeat) hclose
    have hfilled := (Store.get?_fillAll hfill
      (htested.linear.lt_of_mem_breaks (by rw [hholes']; exact List.mem_cons_self))).2
    have hkept := (Ran.grows htested.linear hclose).2.written
    have hgrows := (Ran.grows hinner.linear (ran_append.mpr ⟨g₃, hcond, hend⟩)).2
    -- For the body the loop is the innermost one, and its breaks have all been filled.
    have hleads₂ : g₂.Leads code ret (some g'.code.pc) := {
      written := fun pc i hi => hleads.written pc i (hgrows.written pc i hi)
      breaks := ⟨holes, _, hholes, fun hole hmem => hleads.written _ _
        (by rw [hfilled hole hmem, Store.pc_fillAll hfill])⟩
      returns := hfunction ▸ hleads.returns }
    rw [Stmt.Patched, pcAfter_eq hbefore, pcAfter_eq hstart, pcAfter_eq hinner,
      pcAfter_eq (hbefore.then hrun), hcode]
    refine ⟨rfl, ⟨test, c, hle, ?_, hleads.written test _ (hkept test _ hjump)⟩,
      body.patched _ _ hstart hbody hleads₂⟩
    rw [Store.pc_fillAll hfill, hpc]
  | .return _ _, after, _, _, _, _, hbefore, hrun, hleads => by
    obtain ⟨hjump, hpc⟩ := hleads.of_markReturn hrun
    rw [Stmt.Patched, pcAfter_eq hbefore, pcAfter_eq (hbefore.then hrun)]
    exact ⟨hjump, hpc⟩
  | .returnValue _ e _, after, _, _, _, _, hbefore, hrun, hleads => by
    obtain ⟨g₁, he, hrest⟩ := ran_append.mp hrun
    obtain ⟨g₂, hstore, hmark⟩ := ran_cons.mp hrest
    have hstored := (e.trades he).spends ((ran_one.mpr hstore).trades (.storeReturnValue _))
    obtain ⟨hjump, hpc⟩ := hleads.of_markReturn hmark
    rw [Stmt.Patched, pcAfter_eq hbefore, pcAfter_eq (hbefore.then hrun),
      pcAfter_eq (hbefore.then (ran_append.mpr ⟨g₁, he, ran_one.mpr hstore⟩))]
    exact ⟨hstored.pc_le, hjump, hpc⟩

theorem Stmt.listPatched : ∀ (ss : List Stmt) (after : Token) (exit : Option Nat)
    {before : List Step} {g g' : Generator}, Ran before (Generator.initial l) g →
      Ran (Stmt.listSteps after ss) g g' → g'.Leads code ret exit →
      Stmt.ListPatched l code ret after exit before ss
  | [], _, _, _, _, _, _, _, _ => trivial
  | s :: ss, after, exit, _, _, _, hbefore, hrun, hleads => by
    obtain ⟨g₁, hs, hss⟩ := ran_append.mp hrun
    have hmid := hbefore.then hs
    refine ⟨s.patched _ exit hbefore hs (hleads.back (Stmt.listAdds ss after hss).toNotes
      (Ran.grows hmid.linear hss).2), Stmt.listPatched ss after exit hmid hss hleads⟩

end

end

end OnePass
