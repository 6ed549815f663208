import OnePass.Proofs.Patches.Effects

/-!
# What statements leave behind

A jump forward is a slot that waits. The slots of branches are on the operand stack, those of breaks
and returns are noted with their loop and their function. A statement that was performed has taken
all branches off the stack again that it put there, and has added to what the loop and the function
around it note; only a loop of its own it has closed. -/

namespace OnePass

/-- The breaks of open loops, with some more of the innermost. -/
def addBreaks (more : List Hole) : List (List Hole) → List (List Hole)
  | [] => []
  | holes :: rest => (holes ++ more) :: rest

@[simp] theorem addBreaks_nil (breaks : List (List Hole)) : addBreaks [] breaks = breaks := by
  cases breaks with
  | nil => rfl
  | cons holes rest => rw [addBreaks, List.append_nil]

@[simp] theorem addBreaks_addBreaks (more more' : List Hole) (breaks : List (List Hole)) :
    addBreaks more' (addBreaks more breaks) = addBreaks (more ++ more') breaks := by
  cases breaks with
  | nil => rfl
  | cons holes rest => rw [addBreaks, addBreaks, addBreaks, List.append_assoc]

/-- The function at hand, with some more returns. -/
def Body.addReturns (more : List Hole) (body : Body) : Body :=
  { body with returns := body.returns ++ more }

theorem Body.map_addReturns_nil (body : Option Body) : body.map (addReturns []) = body := by
  cases body with
  | none => rfl
  | some body => rw [Option.map_some, addReturns, List.append_nil]

theorem Body.map_addReturns_map (more more' : List Hole) (body : Option Body) :
    (body.map (addReturns more)).map (addReturns more') =
      body.map (addReturns (more ++ more')) := by
  cases body with
  | none => rfl
  | some body => simp [addReturns]

/-- More breaks and returns are noted, and there may be more code. -/
structure Generator.Notes (g g' : Generator) : Prop where
  argCounts : g'.argCounts = g.argCounts
  start : g'.start = g.start
  pc : g.code.pc ≤ g'.code.pc
  breaks : ∃ more, g'.breaks = addBreaks more g.breaks
  body : ∃ more, g'.body = g.body.map (Body.addReturns more)

/-- What a statement leaves: beside that, the operand stack as it was. -/
structure Generator.Adds (g g' : Generator) : Prop extends g.Notes g' where
  stack : g'.stack = g.stack

namespace Generator

variable {writes : Bool} {m n : Nat} {g g' g'' : Generator}

theorem Notes.trans (h : g.Notes g') (h' : g'.Notes g'') : g.Notes g'' := by
  obtain ⟨more, hbreaks⟩ := h.breaks
  obtain ⟨more', hbreaks'⟩ := h'.breaks
  obtain ⟨returns, hbody⟩ := h.body
  obtain ⟨returns', hbody'⟩ := h'.body
  exact {
    argCounts := h'.argCounts.trans h.argCounts
    start := h'.start.trans h.start
    pc := Nat.le_trans h.pc h'.pc
    breaks := ⟨more ++ more', by rw [hbreaks', hbreaks, addBreaks_addBreaks]⟩
    body := ⟨returns ++ returns', by rw [hbody', hbody, Body.map_addReturns_map]⟩ }

theorem Level.notes (h : g.Level g') (hpc : g.code.pc ≤ g'.code.pc) : g.Notes g' :=
  ⟨h.argCounts, h.start, hpc, ⟨[], by rw [h.breaks, addBreaks_nil]⟩, [],
    by rw [h.body, Body.map_addReturns_nil]⟩

theorem Trades.notes (h : g.Trades writes m n g') : g.Notes g' := h.toLevel.notes h.pc_le

theorem Adds.refl (g : Generator) : g.Adds g := ⟨(Level.refl g).notes (Nat.le_refl _), rfl⟩

theorem Adds.trans (h : g.Adds g') (h' : g'.Adds g'') : g.Adds g'' :=
  ⟨h.toNotes.trans h'.toNotes, h'.stack.trans h.stack⟩

theorem Trades.adds (h : g.Trades writes 0 0 g') : g.Adds g' := ⟨h.notes, h.stack_eq⟩

end Generator

namespace Gen

variable {g g' : Generator} {t : Token}

/-! ### Slots -/

theorem pop_ok {v : StackValue} (h : pop g = .ok v g') :
    ∃ rest, g.stack = v :: rest ∧ g' = { g with stack := rest } := by
  cases hstack : g.stack with
  | nil =>
    simp only [pop, Bind.bind, EStateM.bind, MonadState.get, getThe, MonadStateOf.get, EStateM.get,
      hstack] at h
    cases h
  | cons w rest =>
    simp only [pop, Bind.bind, EStateM.bind, MonadState.get, getThe, MonadStateOf.get, EStateM.get,
      hstack] at h
    cases h
    exact ⟨rest, rfl, rfl⟩

theorem popBranch_ok {hole : Hole} {cond : Operand} (h : popBranch g = .ok (hole, cond) g') :
    ∃ rest, g.stack = .branch hole cond :: rest ∧ g' = { g with stack := rest } := by
  obtain ⟨v, g₁, hpop, hrest⟩ := bind_ok h
  obtain ⟨rest, hstack, rfl⟩ := pop_ok hpop
  split at hrest
  · cases hrest
    exact ⟨rest, hstack, rfl⟩
  · cases hrest

theorem popSlot_ok {hole : Hole} (h : popSlot g = .ok hole g') :
    ∃ rest, g.stack = .slot hole :: rest ∧ g' = { g with stack := rest } := by
  obtain ⟨v, g₁, hpop, hrest⟩ := bind_ok h
  obtain ⟨rest, hstack, rfl⟩ := pop_ok hpop
  split at hrest
  · cases hrest
    exact ⟨rest, hstack, rfl⟩
  · cases hrest

theorem popLabel_ok {pc : Nat} (h : popLabel g = .ok pc g') :
    ∃ rest, g.stack = .label pc :: rest ∧ g' = { g with stack := rest } := by
  obtain ⟨v, g₁, hpop, hrest⟩ := bind_ok h
  obtain ⟨rest, hstack, rfl⟩ := pop_ok hpop
  split at hrest
  · cases hrest
    exact ⟨rest, hstack, rfl⟩
  · cases hrest

theorem fill_ok {hole : Hole} {i : Instruction} (h : fill hole i g = .ok () g') :
    ∃ code trace, g.code.fill hole i = .ok code ∧ g' = { g with code, trace } := by
  cases hfill : g.code.fill hole i with
  | ok code =>
    simp only [fill, Bind.bind, EStateM.bind, MonadState.get, getThe, MonadStateOf.get, EStateM.get,
      hfill] at h
    cases h
    exact ⟨code, _, rfl, rfl⟩
  | error fault =>
    simp only [fill, Bind.bind, EStateM.bind, MonadState.get, getThe, MonadStateOf.get, EStateM.get,
      hfill] at h
    cases h

theorem fillAll_ok {i : Instruction} : ∀ {holes : List Hole} {g : Generator},
    holes.forM (fun hole => fill hole i) g = .ok () g' →
      ∃ code trace, g.code.fillAll i holes = .ok code ∧ g' = { g with code, trace }
  | [], g, h => by
    cases h
    exact ⟨_, _, rfl, rfl⟩
  | hole :: holes, g, h => by
    obtain ⟨_, g₁, hfill, hrest⟩ := bind_ok h
    obtain ⟨code, trace, hcode, rfl⟩ := fill_ok hfill
    obtain ⟨code', trace', hall, rfl⟩ := fillAll_ok hrest
    refine ⟨code', trace', ?_, rfl⟩
    simp only [Store.fillAll, bind, Except.bind, hcode]
    exact hall

/-! ### Branches -/

/-- The slot of a branch stands right after the code for its condition. -/
theorem Ran.reserveBranch (h : Ran [⟨.reserveJumpSlot, t⟩] g g') :
    ∃ v rest cond is, g.stack = v :: rest ∧ g.Level g' ∧
      g'.stack = .branch ⟨(g.code.append is).pc⟩ cond :: rest ∧
      g'.code = (g.code.append is).reserve.2 := by
  obtain ⟨scratch, trace, hrun⟩ := h.dispatch
  obtain ⟨cond, g₁, hcond, hrest⟩ := bind_ok hrun
  have htrades := Trading.conditionOperand t _ _ _ hcond
  obtain ⟨old, new, rest, hold, hnew, hstack, hstack'⟩ := htrades.stack
  obtain ⟨v, rfl⟩ := List.length_eq_one_iff.mp hold
  obtain ⟨is, his, -⟩ := htrades.code
  cases hrest
  rw [List.eq_nil_of_length_eq_zero hnew] at hstack'
  refine ⟨v, rest, cond, is, hstack, { htrades.toLevel with }, ?_, ?_⟩
  · simp only [hstack', his, List.nil_append]
  · exact congrArg (fun s : Store => s.reserve.2) his

theorem Ran.startElse (h : Ran [⟨.emitCondJumpAndReserveNext, t⟩] g g') :
    ∃ hole cond rest, g.stack = .branch hole cond :: rest ∧ g.Level g' ∧
      g'.stack = .slot ⟨g.code.pc⟩ :: rest ∧
      g.code.reserve.2.fill hole (.jumpIfFalse cond (g.code.pc + 1)) = .ok g'.code := by
  obtain ⟨scratch, trace, hrun⟩ := h.dispatch
  obtain ⟨⟨hole, cond⟩, g₁, hpop, hrest⟩ := bind_ok hrun
  obtain ⟨rest, hstack, rfl⟩ := popBranch_ok hpop
  obtain ⟨skip, g₂, hreserve, hrest⟩ := bind_ok hrest
  cases hreserve
  obtain ⟨pc, g₃, hpc, hrest⟩ := bind_ok hrest
  cases hpc
  obtain ⟨_, g₄, hfill, hpush⟩ := bind_ok hrest
  obtain ⟨code, trace', hcode, rfl⟩ := fill_ok hfill
  cases hpush
  refine ⟨hole, cond, rest, hstack, ⟨rfl, rfl, rfl, rfl⟩, rfl, ?_⟩
  rw [← Store.pc_reserve]
  exact hcode

theorem Ran.endElse (h : Ran [⟨.patchJumpToHere, t⟩] g g') :
    ∃ hole, g.stack = .slot hole :: g'.stack ∧ g.Level g' ∧
      g.code.fill hole (.jump g.code.pc) = .ok g'.code := by
  obtain ⟨scratch, trace, hrun⟩ := h.dispatch
  obtain ⟨hole, g₁, hpop, hrest⟩ := bind_ok hrun
  obtain ⟨rest, hstack, rfl⟩ := popSlot_ok hpop
  obtain ⟨pc, g₂, hpc, hrest⟩ := bind_ok hrest
  cases hpc
  obtain ⟨code, trace', hcode, rfl⟩ := fill_ok hrest
  exact ⟨hole, hstack, ⟨rfl, rfl, rfl, rfl⟩, hcode⟩

theorem Ran.endBranch (h : Ran [⟨.patchCondJumpToHere, t⟩] g g') :
    ∃ hole cond, g.stack = .branch hole cond :: g'.stack ∧ g.Level g' ∧
      g.code.fill hole (.jumpIfFalse cond g.code.pc) = .ok g'.code := by
  obtain ⟨scratch, trace, hrun⟩ := h.dispatch
  obtain ⟨⟨hole, cond⟩, g₁, hpop, hrest⟩ := bind_ok hrun
  obtain ⟨rest, hstack, rfl⟩ := popBranch_ok hpop
  obtain ⟨pc, g₂, hpc, hrest⟩ := bind_ok hrest
  cases hpc
  obtain ⟨code, trace', hcode, rfl⟩ := fill_ok hrest
  exact ⟨hole, cond, hstack, ⟨rfl, rfl, rfl, rfl⟩, hcode⟩

/-! ### Loops -/

/-- A loop opens its breaks and notes where it starts. -/
theorem Ran.startLoop {t' : Token} (h : Ran [⟨.pushBreakScope, t⟩, ⟨.labelHere, t'⟩] g g') :
    g'.stack = .label g.code.pc :: g.stack ∧ g'.code = g.code ∧ g'.argCounts = g.argCounts ∧
      g'.breaks = [] :: g.breaks ∧ g'.body = g.body ∧ g'.start = g.start := by
  obtain ⟨g₁, hopen, hlabel⟩ := ran_cons.mp h
  cases hopen
  cases ran_one.mp hlabel
  exact ⟨rfl, rfl, rfl, rfl, rfl, rfl⟩

/-- The jump back is the last instruction. -/
theorem Ran.repeatLoop (h : Ran [⟨.jumpBackIfFalse, t⟩] g g') :
    ∃ v pc cond is, g.stack = v :: .label pc :: g'.stack ∧ g.Level g' ∧
      g'.code = (g.code.append is).emit (.jumpIfFalse cond pc) := by
  obtain ⟨scratch, trace, hrun⟩ := h.dispatch
  obtain ⟨cond, g₁, hcond, hrest⟩ := bind_ok hrun
  have htrades := Trading.conditionOperand t _ _ _ hcond
  obtain ⟨old, new, rest, hold, hnew, hstack, hstack'⟩ := htrades.stack
  obtain ⟨v, rfl⟩ := List.length_eq_one_iff.mp hold
  obtain ⟨is, his, -⟩ := htrades.code
  obtain ⟨pc, g₂, hpop, hemit⟩ := bind_ok hrest
  obtain ⟨rest', hlabel, rfl⟩ := popLabel_ok hpop
  cases hemit
  rw [List.eq_nil_of_length_eq_zero hnew, List.nil_append, hlabel] at hstack'
  refine ⟨v, pc, cond, is, ?_, { htrades.toLevel with }, ?_⟩
  · rw [hstack']
    exact hstack
  · exact congrArg (Store.emit · _) his

/-- At the end of a loop its breaks are filled. -/
theorem Ran.closeBreaks (h : Ran [⟨.closeBreakScope, t⟩] g g') :
    ∃ holes, g.breaks = holes :: g'.breaks ∧ g'.stack = g.stack ∧ g'.argCounts = g.argCounts ∧
      g'.body = g.body ∧ g'.start = g.start ∧
      g.code.fillAll (.jump g.code.pc) holes = .ok g'.code := by
  obtain ⟨scratch, trace, hrun⟩ := h.dispatch
  cases hbreaks : g.breaks with
  | nil =>
    simp only [Gen.dispatch, Gen.closeBreaks, Bind.bind, EStateM.bind, MonadState.get, getThe,
      MonadStateOf.get, EStateM.get, hbreaks] at hrun
    cases hrun
  | cons holes rest =>
    simp only [Gen.dispatch, Gen.closeBreaks, Bind.bind, EStateM.bind, MonadState.get, getThe,
      MonadStateOf.get, EStateM.get, hbreaks] at hrun
    obtain ⟨code, trace', hall, rfl⟩ := fillAll_ok hrun
    exact ⟨holes, rfl, rfl, rfl, rfl, rfl, hall⟩

/-- A break in a loop is a slot that is noted with the innermost one; outside of loops it is a
    mistake. -/
theorem Ran.registerBreak (h : Ran [⟨.registerBreak, t⟩] g g') :
    g'.stack = g.stack ∧ g'.argCounts = g.argCounts ∧ g'.body = g.body ∧ g'.start = g.start ∧
      (g.breaks = [] ∧ g'.breaks = [] ∧ g'.code = g.code ∧
        g'.diagnostics = g.diagnostics.push ⟨t.line, .breakOutsideLoop⟩ ∨
      ∃ holes rest, g.breaks = holes :: rest ∧ g'.breaks = (holes ++ [⟨g.code.pc⟩]) :: rest ∧
        g'.code = g.code.reserve.2 ∧ g'.diagnostics = g.diagnostics) := by
  obtain ⟨scratch, trace, hrun⟩ := h.dispatch
  cases hbreaks : g.breaks with
  | nil =>
    simp only [Gen.dispatch, Gen.registerBreak, Bind.bind, EStateM.bind, MonadState.get, getThe,
      MonadStateOf.get, EStateM.get, hbreaks] at hrun
    cases hrun
    exact ⟨rfl, rfl, rfl, rfl, .inl ⟨rfl, rfl, rfl, rfl⟩⟩
  | cons holes rest =>
    simp only [Gen.dispatch, Gen.registerBreak, Bind.bind, EStateM.bind, MonadState.get, getThe,
      MonadStateOf.get, EStateM.get, hbreaks] at hrun
    cases hrun
    exact ⟨rfl, rfl, rfl, rfl, .inr ⟨holes, rest, rfl, rfl, rfl, rfl⟩⟩

/-! ### Returns -/

/-- A return is a slot that is noted with the function. -/
theorem Ran.markReturn (h : Ran [⟨.markReturn, t⟩] g g') :
    g'.stack = g.stack ∧ g'.argCounts = g.argCounts ∧ g'.breaks = g.breaks ∧ g'.start = g.start ∧
      g'.code = g.code.reserve.2 ∧
      ∃ body, g.body = some body ∧ g'.body = some (body.addReturns [⟨g.code.pc⟩]) := by
  obtain ⟨scratch, trace, hrun⟩ := h.dispatch
  cases hbody : g.body with
  | none =>
    simp only [Gen.dispatch, Gen.markReturn, Bind.bind, EStateM.bind, MonadState.get, getThe,
      MonadStateOf.get, EStateM.get, hbody] at hrun
    cases hrun
  | some body =>
    simp only [Gen.dispatch, Gen.markReturn, Bind.bind, EStateM.bind, MonadState.get, getThe,
      MonadStateOf.get, EStateM.get, hbody] at hrun
    cases hrun
    exact ⟨rfl, rfl, rfl, rfl, rfl, body, rfl, rfl⟩

end Gen

open Gen

/-! ### Trees -/

/-- A declaration in a block leaves the stack as it was, and no code. -/
theorem VarDecl.trades (d : VarDecl) {g g' : Generator} (h : Ran d.steps g g') :
    g.Trades false 0 0 g' := by
  obtain ⟨g₂, hfront, hextent⟩ := ran_append.mp h
  obtain ⟨g₁, htype, hname⟩ := ran_cons.mp hfront
  have htyped : g.Trades false 0 1 g₁ := (ran_one.mpr htype).trades (.pushType _)
  have hnamed : g₁.Trades false 0 1 g₂ := hname.trades (.push _)
  revert hextent
  cases d.extent with
  | scalar _ =>
    exact fun hextent => (htyped.puts hnamed).spends (hextent.trades (.declareVariable _))
  | array _ size _ _ =>
    intro hextent
    obtain ⟨g₃, hsize, hdeclare⟩ := ran_cons.mp hextent
    have hsized : g₂.Trades false 0 1 g₃ := (ran_one.mpr hsize).trades (.pushNumber _)
    exact ((htyped.puts hnamed).puts hsized).spends (hdeclare.trades (.declareArray _))

theorem VarDecl.listTrades : ∀ (ds : List VarDecl) {g g' : Generator},
    Ran (ds.flatMap VarDecl.steps) g g' → g.Trades false 0 0 g'
  | [], g, _, h => by
    rw [ran_nil.mp h]
    exact .refl g
  | d :: ds, _, _, h => by
    rw [List.flatMap_cons] at h
    obtain ⟨g₁, hd, hds⟩ := ran_append.mp h
    exact (d.trades hd).calm (VarDecl.listTrades ds hds)

section
variable {t t₁ t₂ t₃ : Token} {g g₁ g₂ g₃ g₄ g₅ g' : Generator}

/-- The condition of a statement leaves a branch on the stack, whose slot stands right before what
    it guards. -/
theorem Gen.Ran.branch (h : Ran [⟨.reserveJumpSlot, t⟩] g₁ g₂) (hcond : g.Trades true 0 1 g₁) :
    ∃ test c, g.Notes g₂ ∧ g₂.stack = .branch ⟨test⟩ c :: g.stack ∧ g.code.pc ≤ test ∧
      g₂.code.pc = test + 1 := by
  obtain ⟨v, rest, c, is, hstack, hlevel, hstack', hcode⟩ := h.reserveBranch
  obtain ⟨w, hw⟩ := hcond.exists_stack_eq
  have hle := hcond.pc_le
  have hpc : g₂.code.pc = (g₁.code.append is).pc + 1 := by rw [hcode, Store.pc_reserve]
  have happend := Store.pc_append g₁.code is
  rw [hw, List.cons.injEq] at hstack
  refine ⟨(g₁.code.append is).pc, c, hcond.notes.trans (hlevel.notes ?_), hstack.2 ▸ hstack', ?_,
    hpc⟩
  · omega
  · omega

theorem Gen.Ran.notes_endBranch (h : Ran [⟨.patchCondJumpToHere, t⟩] g g') : g.Notes g' := by
  obtain ⟨hole, c, -, hlevel, hfill⟩ := h.endBranch
  exact hlevel.notes (Nat.le_of_eq (Store.pc_fill hfill).symm)

theorem Gen.Ran.notes_endElse (h : Ran [⟨.patchJumpToHere, t⟩] g g') : g.Notes g' := by
  obtain ⟨hole, -, hlevel, hfill⟩ := h.endElse
  exact hlevel.notes (Nat.le_of_eq (Store.pc_fill hfill).symm)

theorem Gen.Ran.notes_startElse (h : Ran [⟨.emitCondJumpAndReserveNext, t⟩] g g') :
    g.Notes g' := by
  obtain ⟨hole, c, rest, -, hlevel, -, hfill⟩ := h.startElse
  refine hlevel.notes ?_
  rw [Store.pc_fill hfill, Store.pc_reserve]
  exact Nat.le_succ _

/-- The jump over a statement is filled at its end. -/
theorem Gen.Ran.ifThen (hcond : g.Trades true 0 1 g₁) (htest : Ran [⟨.reserveJumpSlot, t⟩] g₁ g₂)
    (hbody : g₂.Adds g₃) (hend : Ran [⟨.patchCondJumpToHere, t₁⟩] g₃ g') :
    g.Adds g' ∧ ∃ test c, g.code.pc ≤ test ∧ g₂.code.pc = test + 1 ∧
      g₃.code.fill ⟨test⟩ (.jumpIfFalse c g₃.code.pc) = .ok g'.code := by
  obtain ⟨test, c, hnotes, hbranch, hle, hpc⟩ := htest.branch hcond
  obtain ⟨hole, c', hpopped, -, hfill⟩ := hend.endBranch
  rw [hbody.stack, hbranch, List.cons.injEq, StackValue.branch.injEq] at hpopped
  obtain ⟨⟨rfl, rfl⟩, hstack⟩ := hpopped
  exact ⟨⟨(hnotes.trans hbody.toNotes).trans hend.notes_endBranch, hstack.symm⟩, test, c, hle, hpc,
    hfill⟩

/-- The jump over the first of two statements leads past the jump over the second, which is filled
    at the end. -/
theorem Gen.Ran.ifElse (hcond : g.Trades true 0 1 g₁) (htest : Ran [⟨.reserveJumpSlot, t⟩] g₁ g₂)
    (hbody : g₂.Adds g₃) (helse : Ran [⟨.emitCondJumpAndReserveNext, t₁⟩] g₃ g₄)
    (hother : g₄.Adds g₅) (hend : Ran [⟨.patchJumpToHere, t₂⟩] g₅ g') :
    g.Adds g' ∧ g₄.code.pc = g₃.code.pc + 1 ∧
      g₅.code.fill ⟨g₃.code.pc⟩ (.jump g₅.code.pc) = .ok g'.code ∧
      ∃ test c, g.code.pc ≤ test ∧ g₂.code.pc = test + 1 ∧
        g₃.code.reserve.2.fill ⟨test⟩ (.jumpIfFalse c g₄.code.pc) = .ok g₄.code := by
  obtain ⟨test, c, hnotes, hbranch, hle, hpc⟩ := htest.branch hcond
  obtain ⟨hole, c', rest, hpopped, -, hslot, hfill⟩ := helse.startElse
  obtain ⟨hole', hpopped', -, hfill'⟩ := hend.endElse
  have hpc' : g₄.code.pc = g₃.code.pc + 1 := by rw [Store.pc_fill hfill, Store.pc_reserve]
  rw [hbody.stack, hbranch, List.cons.injEq, StackValue.branch.injEq] at hpopped
  rw [hother.stack, hslot, List.cons.injEq, StackValue.slot.injEq] at hpopped'
  obtain ⟨⟨rfl, rfl⟩, rfl⟩ := hpopped
  obtain ⟨rfl, hstack⟩ := hpopped'
  refine ⟨⟨(((hnotes.trans hbody.toNotes).trans helse.notes_startElse).trans
    hother.toNotes).trans hend.notes_endElse, hstack.symm⟩, hpc', hfill', test, c, hle, hpc, ?_⟩
  rw [hpc']
  exact hfill

/-- The jump at the end of a loop leads back to its start, and all breaks of the loop are filled
    right after it. -/
theorem Gen.Ran.loop (hstart : Ran [⟨.pushBreakScope, t⟩, ⟨.labelHere, t₁⟩] g g₁)
    (hbody : g₁.Adds g₂) (hcond : g₂.Trades true 0 1 g₃)
    (hrepeat : Ran [⟨.jumpBackIfFalse, t₂⟩] g₃ g₄) (hclose : Ran [⟨.closeBreakScope, t₃⟩] g₄ g') :
    g.Adds g' ∧ g₁.code = g.code ∧ g'.body = g₂.body ∧
      (∃ holes, g₂.breaks = holes :: g.breaks ∧ g₄.breaks = holes :: g.breaks ∧
        g₄.code.fillAll (.jump g₄.code.pc) holes = .ok g'.code) ∧
      ∃ test c, g₂.code.pc ≤ test ∧ g₄.code.pc = test + 1 ∧
        g₄.code.get? test = some (.jumpIfFalse c g.code.pc) := by
  obtain ⟨hlabel, hcode, hcounts, hopened, hfunction, hprogram⟩ := hstart.startLoop
  obtain ⟨v, pc, c, is, hpopped, hlevel, hjump⟩ := hrepeat.repeatLoop
  obtain ⟨holes, hholes, hstack, hcounts', hfunction', hprogram', hfill⟩ := hclose.closeBreaks
  obtain ⟨w, hw⟩ := hcond.exists_stack_eq
  obtain ⟨more, hmore⟩ := hbody.breaks
  have hle := hcond.pc_le
  have hinner := hbody.pc
  have hpc : g₄.code.pc = (g₃.code.append is).pc + 1 := by rw [hjump, Store.pc_emit]
  have happend := Store.pc_append g₃.code is
  have hpc' : g'.code.pc = g₄.code.pc := Store.pc_fillAll hfill
  -- The breaks of the loop are those of its body.
  rw [hopened, addBreaks, List.nil_append] at hmore
  have hbreaks : g₄.breaks = more :: g.breaks := by rw [hlevel.breaks, hcond.breaks, hmore]
  rw [hbreaks, List.cons.injEq] at hholes
  obtain ⟨rfl, hsame⟩ := hholes
  rw [hw, hbody.stack, hlabel, List.cons.injEq, List.cons.injEq, StackValue.label.injEq] at hpopped
  obtain ⟨-, rfl, hstack'⟩ := hpopped
  rw [hcode] at hinner
  have hbody' : g'.body = g₂.body := by rw [hfunction', hlevel.body, hcond.body]
  refine ⟨⟨⟨?_, ?_, ?_, ⟨[], by rw [← hsame, addBreaks_nil]⟩, ?_⟩, ?_⟩, hcode, hbody',
    ⟨more, hmore, hbreaks, hfill⟩, (g₃.code.append is).pc, c, ?_, hpc, ?_⟩
  · rw [hcounts', hlevel.argCounts, hcond.argCounts, hbody.argCounts, hcounts]
  · rw [hprogram', hlevel.start, hcond.start, hbody.start, hprogram]
  · omega
  · obtain ⟨returns, hreturns⟩ := hbody.body
    exact ⟨returns, by rw [hbody', hreturns, hfunction]⟩
  · rw [hstack, hstack']
  · omega
  · rw [hjump, Store.get?_emit, if_pos rfl]

end

theorem Gen.Ran.adds_markReturn {t : Token} {g g' : Generator} (h : Ran [⟨.markReturn, t⟩] g g') :
    g.Adds g' := by
  obtain ⟨hstack, hcounts, hbreaks, hstart, hcode, body, hbody, hbody'⟩ := h.markReturn
  refine ⟨⟨hcounts, hstart, ?_, ⟨[], by rw [hbreaks, addBreaks_nil]⟩, [⟨g.code.pc⟩],
    by rw [hbody, hbody']; rfl⟩, hstack⟩
  rw [hcode, Store.pc_reserve]
  exact Nat.le_succ _

mutual

theorem Stmt.adds : ∀ (s : Stmt) (after : Token) {g g' : Generator},
    Ran (s.steps after) g g' → g.Adds g'
  | .empty _, _, g, _, h => by
    rw [ran_nil.mp h]
    exact .refl g
  | .expr e _, _, _, _, h => by
    obtain ⟨g₁, he, hpop⟩ := ran_append.mp h
    exact ((e.trades he).spends (hpop.trades .popExpression)).adds
  | .block _ locals body _, _, _, _, h => by
    obtain ⟨g₃, hfront, hclose⟩ := ran_append.mp h
    obtain ⟨g₂, hhead, hbody⟩ := ran_append.mp hfront
    obtain ⟨g₁, hopen, hlocals⟩ := ran_append.mp hhead
    have hopened : Generator.Trades true 0 0 _ g₁ := hopen.trades (.of_calm (.demand .openBlock))
    have hclosed : Generator.Trades true 0 0 g₃ _ := hclose.trades (.of_calm (.demand .closeBlock))
    exact ((hopened.adds.trans (VarDecl.listTrades locals hlocals).adds).trans
      (Stmt.listAdds body _ hbody)).trans hclosed.adds
  | .leave _ _, _, g, _, h => by
    obtain ⟨hstack, hcounts, hbody, hstart, hcases⟩ := h.registerBreak
    have hsame : ∃ more, _ = g.body.map (Body.addReturns more) :=
      ⟨[], hbody.trans (Body.map_addReturns_nil _).symm⟩
    rcases hcases with ⟨hnone, hnone', hcode, -⟩ | ⟨holes, rest, hold, hnew, hcode, -⟩
    · refine ⟨⟨hcounts, hstart, ?_, ⟨[], by rw [hnone, hnone']; rfl⟩, hsame⟩, hstack⟩
      exact Nat.le_of_eq (congrArg Store.pc hcode.symm)
    · refine ⟨⟨hcounts, hstart, ?_, ⟨[⟨g.code.pc⟩], by rw [hold, hnew]; rfl⟩, hsame⟩, hstack⟩
      rw [hcode, Store.pc_reserve]
      exact Nat.le_succ _
  | .ifThen _ _ cond _ body, after, _, _, h => by
    obtain ⟨g₃, hfront, hend⟩ := ran_append.mp h
    obtain ⟨g₂, hhead, hbody⟩ := ran_append.mp hfront
    obtain ⟨g₁, hcond, htest⟩ := ran_append.mp hhead
    exact (Ran.ifThen (cond.trades hcond) htest (body.adds after hbody) hend).1
  | .ifElse _ _ cond _ body _ other, after, _, _, h => by
    obtain ⟨g₅, hfront, hend⟩ := ran_append.mp h
    obtain ⟨g₄, hfront, hother⟩ := ran_append.mp hfront
    obtain ⟨g₃, hfront, helse⟩ := ran_append.mp hfront
    obtain ⟨g₂, hhead, hbody⟩ := ran_append.mp hfront
    obtain ⟨g₁, hcond, htest⟩ := ran_append.mp hhead
    exact (Ran.ifElse (cond.trades hcond) htest (body.adds _ hbody) helse (other.adds after hother)
      hend).1
  | .loop _ body _ _ cond _, _, _, _, h => by
    obtain ⟨g₃, hfront, hend⟩ := ran_append.mp h
    obtain ⟨g₂, hfront, hcond⟩ := ran_append.mp hfront
    obtain ⟨g₁, hstart, hbody⟩ := ran_append.mp hfront
    obtain ⟨g₄, hrepeat, hclose⟩ := ran_cons.mp hend
    exact (Ran.loop hstart (body.adds _ hbody) (cond.trades hcond) (ran_one.mpr hrepeat) hclose).1
  | .return _ _, _, _, _, h => h.adds_markReturn
  | .returnValue _ e _, _, g, _, h => by
    obtain ⟨g₁, he, hrest⟩ := ran_append.mp h
    obtain ⟨g₂, hstore, hmark⟩ := ran_cons.mp hrest
    have hstored := (e.trades he).spends ((ran_one.mpr hstore).trades (.storeReturnValue _))
    exact hstored.adds.trans hmark.adds_markReturn

theorem Stmt.listAdds : ∀ (ss : List Stmt) (after : Token) {g g' : Generator},
    Ran (Stmt.listSteps after ss) g g' → g.Adds g'
  | [], _, g, _, h => by
    rw [ran_nil.mp h]
    exact .refl g
  | s :: ss, after, _, _, h => by
    obtain ⟨g₁, hs, hss⟩ := ran_append.mp h
    exact (s.adds _ hs).trans (Stmt.listAdds ss after hss)

end

end OnePass
