import OnePass.Proofs.Generator.Walk
import OnePass.Proofs.Session.Handles

/-!
# Backpatching is linear

Every action, begun in a linear state, leaves a linear state, also where it fails. Whatever actions
are performed in whatever order, slots are therefore filled at most once, what is written stays, and
the code is whole just if every slot that was reserved has been filled. -/

namespace OnePass

theorem Event.isQuiet_of_not_isCode {e : Event} (h : e.isCode = false) : e.IsQuiet := by
  cases e with
  | emitted pc i => cases h
  | reserved pc => cases h
  | filled pc i => cases h
  | _ => exact ⟨rfl, rfl, rfl⟩

theorem StackValue.hole?_of_not_isOpen {v : StackValue} (h : v.isOpen = false) :
    v.hole? = none := by
  cases v with
  | slot hole => cases h
  | branch hole cond => cases h
  | _ => rfl

theorem Fault.not_isSlot_of_isOrdinary {fault : Fault} (h : fault.isOrdinary = true) :
    ¬ fault.IsSlot := by
  rintro ⟨pc, rfl⟩
  cases h

namespace Generator

/-- Slots pass between parts of a state and what is loose; code and trace stay. -/
theorem Linear.shift {g g' : Generator} {before after : List Nat} (hg : g.Linear before)
    (hcode : g'.code = g.code) (htrace : g'.trace = g.trace)
    (hperm : (after ++ g'.holes).Perm (before ++ g.holes)) : g'.Linear after :=
  hg.move (hg.ledger.congr hcode (by rw [writes, htrace, writes])
    (by rw [reservations, htrace, reservations]) (by rw [patches, htrace, patches])) hcode hperm

/-- Slots that are neither held nor loose any more are dropped. -/
theorem Linear.shrink {g g' : Generator} {before after : List Nat} (dropped : List Nat)
    (hg : g.Linear before) (hcode : g'.code = g.code) (htrace : g'.trace = g.trace)
    (hperm : (dropped ++ after ++ g'.holes).Perm (before ++ g.holes)) : g'.Linear after :=
  (hg.shift hcode htrace hperm).drop

/-- Events that are not about the store change no ledger. -/
theorem Alike.events (g : Generator) (symbols : SymbolTable) {events : List Event}
    (h : ∀ e ∈ events, e.IsQuiet) :
    g.Alike { g with symbols, trace := g.trace ++ events } := by
  have hwrite : events.filterMap Event.write? = [] :=
    List.filterMap_eq_nil_iff.mpr fun e he => (h e he).1
  have hreservation : events.filterMap Event.reservation? = [] :=
    List.filterMap_eq_nil_iff.mpr fun e he => (h e he).2.1
  have hpatch : events.filterMap Event.patch? = [] :=
    List.filterMap_eq_nil_iff.mpr fun e he => (h e he).2.2
  refine ⟨rfl, rfl, rfl, ?_, ?_, ?_⟩
  · simp [Generator.writes, hwrite]
  · simp [Generator.reservations, hreservation]
  · simp [Generator.patches, hpatch]

/-- A request changes no ledger, whatever comes of it. -/
theorem Alike.request (g : Generator) {ε α : Type} {blames : ε → Prop} {r : Request ε α}
    (h : r.Proper blames) :
    g.Alike { g with
      symbols := (r.run g.symbols).2.1, trace := g.trace ++ (r.run g.symbols).2.2 } := by
  refine .events g _ fun e he => Event.isQuiet_of_not_isCode ?_
  revert he
  simp only [Request.run, EStateM.run]
  cases r.operation g.symbols with
  | ok a t' => exact h.quiet _ e
  | error e' t' => exact h.quiet _ e

end Generator

/-- The position of the slot of a value on the stack. -/
def StackValue.loose (v : StackValue) : List Nat := v.hole?.toList.map (·.pc)

namespace Gen

open Generator

variable {α β : Type}

/-! ### The store -/

theorem Steady.log {e : Event} (h : e.IsQuiet) : Steady (log e) := by
  refine .change fun g => ?_
  obtain ⟨hwrite, hreservation, hpatch⟩ := h
  refine ⟨rfl, rfl, rfl, ?_, ?_, ?_⟩
  · rw [writes, filterMap_push, hwrite, writes]
    simp
  · rw [reservations, filterMap_push, hreservation, reservations]
    simp
  · rw [patches, filterMap_push, hpatch, patches]
    simp

theorem Steady.pc : Steady pc := get fun _ => pure

theorem Steady.emit (i : Instruction) : Steady (emit i) := by
  intro loose g hg
  refine ⟨⟨hg.ledger.emit i, hg.distinct, hg.waiting⟩, rfl, fun pc j hj => ?_⟩
  have hlt : pc < g.code.pc := hg.ledger.lt_of_write ((hg.ledger.written pc j).mpr hj)
  have hget := Store.get?_emit g.code i pc
  rw [if_neg (Nat.ne_of_lt hlt), hj] at hget
  exact hget

/-- A reserved slot is loose. -/
theorem Handles.reserve {loose : List Nat} :
    Handles reserve loose fun hole => hole.pc :: loose := by
  intro g hg
  have hnew : g.code.pc ∉ loose ++ g.holes := fun hpc =>
    Nat.lt_irrefl _ (hg.ledger.lt_of_pending (hg.waiting _ hpc))
  refine ⟨⟨hg.ledger.reserve, List.nodup_cons.mpr ⟨hnew, hg.distinct⟩, fun pc hpc => ?_⟩, rfl,
    fun pc i hi => (Store.get?_reserve g.code pc).trans hi⟩
  rcases List.mem_cons.mp hpc with rfl | hpc
  · exact List.mem_append_right _ (List.mem_singleton.mpr rfl)
  · exact List.mem_append_left _ (hg.waiting pc hpc)

/-- A loose slot can be filled, and is then used up. -/
theorem Handles.fill {hole : Hole} {i : Instruction} {loose : List Nat} :
    Handles (fill hole i) (hole.pc :: loose) fun _ => loose := by
  refine .get fun g hg => ?_
  have hpc : hole.pc ∈ g.code.pending := hg.waiting _ (List.mem_cons_self ..)
  obtain ⟨hnew, hdistinct⟩ := List.nodup_cons.mp hg.distinct
  have hfill : g.code.fill hole i = .ok _ := if_pos hpc
  rw [hfill]
  refine ⟨⟨hg.ledger.fill hpc i, hdistinct, fun pc hmem => ?_⟩, rfl, fun pc j hj => ?_⟩
  · have hne : pc ≠ hole.pc := fun heq => hnew (heq ▸ hmem)
    exact (List.mem_erase_of_ne hne).mpr (hg.waiting pc (List.mem_cons_of_mem _ hmem))
  · have hne : hole.pc ≠ pc := by
      rintro rfl
      rw [hg.ledger.get?_of_pending hpc] at hj
      cases hj
    change (g.code.slots.setIfInBounds hole.pc (some i))[pc]?.join = some j
    rw [Array.getElem?_setIfInBounds_ne hne]
    exact hj

theorem Handles.fillAll (i : Instruction) {loose : List Nat} : ∀ holes : List Hole,
    Handles (holes.forM fun hole => Gen.fill hole i) (holes.map (·.pc) ++ loose) fun _ => loose
  | [] => .pure
  | _ :: holes => Handles.fill.bind fun _ => Handles.fillAll i holes

theorem Steady.takeScratch : Steady takeScratch := by
  intro loose
  refine .get fun g hg => ?_
  rw [ScratchPool.take]
  split
  · exact ⟨hg.alike ⟨rfl, rfl, rfl, rfl, rfl, rfl⟩, rfl, fun _ _ h => h⟩
  · exact ⟨hg.dropAll, .refl g, by rintro ⟨_, ⟨⟩⟩⟩

theorem Steady.clearScratch : Steady clearScratch :=
  change fun _ => ⟨rfl, rfl, rfl, rfl, rfl, rfl⟩

/-! ### The operand stack -/

/-- The slot of a value that is put on the stack is not loose any more. -/
theorem Handles.push (v : StackValue) {loose : List Nat} :
    Handles (push v) (v.loose ++ loose) fun _ => loose := by
  refine (Steady.log ⟨rfl, rfl, rfl⟩ _).bind fun _ g hg =>
    ⟨hg.shift rfl rfl ?_, rfl, fun _ _ h => h⟩
  cases hv : v.hole? with
  | none => simp [holes, StackValue.loose, hv]
  | some hole => simp [holes, StackValue.loose, hv]

theorem Steady.push {v : StackValue} (h : v.hole? = none) : Steady (push v) := by
  intro loose
  have hpush := @Handles.push v loose
  rwa [StackValue.loose, h] at hpush

/-- The slot of a value that is taken off the stack is loose. -/
theorem Handles.pop {loose : List Nat} : Handles pop loose fun v => v.loose ++ loose := by
  refine .get fun g hg => ?_
  cases hstack : g.stack with
  | nil => exact ⟨hg.dropAll, .refl g, by rintro ⟨_, ⟨⟩⟩⟩
  | cons v stack =>
    refine ⟨hg.shift rfl rfl ?_, rfl, fun _ _ h => h⟩
    cases hv : v.hole? with
    | none => simp [holes, StackValue.loose, hv, hstack]
    | some hole => simpa [holes, StackValue.loose, hv, hstack] using List.perm_middle.symm

theorem Steady.pop : Steady pop := fun _ => Handles.pop.drop

theorem Handles.popSlot {loose : List Nat} :
    Handles popSlot loose fun hole => hole.pc :: loose := by
  refine Handles.pop.bind fun v => ?_
  cases v with
  | slot hole => exact fun g hg => ⟨hg, .refl g⟩
  | _ => exact .throw (by rintro ⟨_, ⟨⟩⟩)

theorem Handles.popBranch {loose : List Nat} :
    Handles popBranch loose fun branch => branch.1.pc :: loose := by
  refine Handles.pop.bind fun v => ?_
  cases v with
  | branch hole cond => exact fun g hg => ⟨hg, .refl g⟩
  | _ => exact .throw (by rintro ⟨_, ⟨⟩⟩)

/-! ### The symbol table and diagnostics -/

theorem Steady.request {r : Request SymbolError α} (h : r.Proper SymbolError.IsForeign)
    {k : Except SymbolError α → Gen β}
    (hk : ∀ outcome, (∀ e, outcome = .error e → ¬ e.IsForeign) → Steady (k outcome)) :
    Steady (request r >>= k) := by
  intro loose g hg
  have halike := Alike.request g h
  exact (hk _ (fun _ he => h.spares.run he) loose _ (hg.alike halike)).trans halike.grows

theorem Steady.orFault {a : Except Fault α}
    (h : ∀ fault, a = .error fault → ¬ fault.IsForeign) : Steady (orFault a) := by
  cases a with
  | ok a => exact pure
  | error fault => exact throw fun hslot => h fault rfl hslot.isForeign

theorem Steady.demand {r : Request Fault α} (h : r.Proper Fault.IsForeign) :
    Steady (demand r) := by
  intro loose g hg
  have halike := Alike.request g h
  exact (Steady.orFault (fun _ he => h.spares.run he) loose _ (hg.alike halike)).trans halike.grows

namespace Steady

theorem report (line : Nat) (cause : Diagnostic.Cause) : Steady (report line cause) :=
  bind (log ⟨rfl, rfl, rfl⟩) fun _ => change fun _ => ⟨rfl, rfl, rfl, rfl, rfl, rfl⟩

/-- Slots stay where they are as long as an operation has nothing to do with them. -/
theorem stackRules (line : Nat) : StackRules (@fun _ _ _ m => Steady m) line where
  pure := pure
  throw h := throw (Fault.not_isSlot_of_isOrdinary h)
  bind := bind
  get := get
  mono h _ _ := h
  log _ he := log (Event.isQuiet_of_not_isCode he)
  report := report _ _
  request hr hk := request hr hk
  demand := demand
  placeholder := bind (report _ _) fun _ => change fun _ => ⟨rfl, rfl, rfl, rfl, rfl, rfl⟩
  emit := emit _
  takeScratch _ := takeScratch
  clearScratch := clearScratch
  push hv := push (StackValue.hole?_of_not_isOpen hv)
  pop := pop
  count := change fun _ => ⟨rfl, rfl, rfl, rfl, rfl, rfl⟩

/-! ### Slots -/

theorem reserveBranch (t : Token) : Steady (reserveBranch t) :=
  fun loose => ((stackRules t.line).conditionOperand loose).bind fun _ =>
    Handles.reserve.bind fun _ => (log ⟨rfl, rfl, rfl⟩ _).bind fun _ => Handles.push _

theorem startElse : Steady startElse :=
  fun _ => Handles.popBranch.bind fun _ => Handles.reserve.bind fun _ => (pc _).bind fun _ =>
    (Handles.fill.perm (.swap ..)).bind fun _ => Handles.push _

theorem endElse : Steady endElse :=
  fun _ => Handles.popSlot.bind fun _ => (pc _).bind fun _ => Handles.fill

theorem endBranch : Steady endBranch :=
  fun _ => Handles.popBranch.bind fun _ => (pc _).bind fun _ => Handles.fill

theorem registerBreak (t : Token) : Steady (registerBreak t) := by
  intro loose
  refine .get fun g hg => ?_
  cases hbreaks : g.breaks with
  | nil => exact report _ _ loose g hg
  | cons holes rest =>
    obtain ⟨hlinear, hgrows⟩ := Handles.reserve g hg
    refine ⟨hlinear.shift rfl rfl (List.perm_iff_count.mpr fun pc => ?_), hgrows.pool,
      hgrows.written⟩
    simp [Generator.holes, hbreaks, List.count_append, List.count_cons]
    omega

theorem closeBreaks : Steady closeBreaks := by
  intro loose
  refine .get fun g hg => ?_
  cases hbreaks : g.breaks with
  | nil => exact ⟨hg.dropAll, .refl g, by rintro ⟨_, ⟨⟩⟩⟩
  | cons holes rest =>
    have hloose : Linear { g with breaks := rest } (holes.map (·.pc) ++ loose) := by
      refine hg.shift rfl rfl (List.perm_iff_count.mpr fun pc => ?_)
      simp [Generator.holes, hbreaks, List.count_append]
      omega
    exact Handles.change hloose ⟨rfl, fun _ _ h => h⟩ <| (pc _).bind fun _ =>
      (log ⟨rfl, rfl, rfl⟩ _).bind fun _ => Handles.fillAll _ holes

theorem markReturn : Steady markReturn := by
  intro loose
  refine .get fun g hg => ?_
  cases hbody : g.body with
  | none => exact ⟨hg.dropAll, .refl g, by rintro ⟨_, ⟨⟩⟩⟩
  | some body =>
    obtain ⟨hlinear, hgrows⟩ := Handles.reserve g hg
    refine ⟨hlinear.shift rfl rfl (List.perm_iff_count.mpr fun pc => ?_), hgrows.pool,
      hgrows.written⟩
    simp [Generator.holes, Body.holes, hbody, List.count_append, List.count_cons]
    omega

theorem declareFunction (t : Token) : Steady (declareFunction t) := by
  have hopen : ∀ (ty : Ty) (name : String) (entry : Nat), Steady (do
      Gen.log (.functionDeclared ty name entry)
      modify fun g => { g with body := some { name } }) := by
    refine fun ty name entry => bind (log ⟨rfl, rfl, rfl⟩) fun _ loose g hg =>
      ⟨hg.shrink (((g.body.map Body.holes).getD []).map (·.pc)) rfl rfl
        (List.perm_iff_count.mpr fun pc => ?_), rfl, fun _ _ h => h⟩
    simp [Generator.holes, Body.holes, List.count_append]
    omega
  have hrules := stackRules t.line
  refine bind (hrules.popName (n := 0)) fun _ => bind (hrules.popType (n := 0)) fun _ =>
    get fun _ => ite (throw (by rintro ⟨_, ⟨⟩⟩)) <| bind pc fun _ =>
    request (.openFunction _ _ _) fun outcome hspares => ?_
  split
  · exact hopen _ _ _
  · exact bind (hrules.reportRejected (n := 0) (hspares _ rfl)) fun _ => hopen _ _ _

theorem beginFunction : Steady beginFunction := by
  have hstore : ∀ hole : Hole, ∀ loose, Handles
      (modify fun g => { g with body := g.body.map ({ · with prologue := some hole }) })
      (hole.pc :: loose) fun _ => loose := by
    intro hole loose g hg
    refine ⟨?_, rfl, fun _ _ h => h⟩
    cases hbody : g.body with
    | none =>
      refine hg.shrink [hole.pc] rfl rfl (List.perm_iff_count.mpr fun pc => ?_)
      simp [Generator.holes, hbody]
    | some body =>
      refine hg.shrink (body.prologue.toList.map (·.pc)) rfl rfl
        (List.perm_iff_count.mpr fun pc => ?_)
      simp [Generator.holes, Body.holes, hbody, List.count_append, List.count_cons]
      omega
  have hfield : ∀ pointer offset, Steady (Gen.fieldOperand pointer offset) :=
    fun _ _ => (stackRules 0).fieldOperand _ _ (by decide : 0 < 3)
  exact get fun _ => ite (throw (by rintro ⟨_, ⟨⟩⟩)) <| get fun _ =>
    bind (hfield _ _) fun _ => bind (emit _) fun _ => bind (hfield _ _) fun _ =>
    bind (emit _) fun _ => bind (emit _) fun _ loose => Handles.reserve.bind fun hole =>
    hstore hole loose

theorem endFunction : Steady endFunction := by
  intro loose
  refine .get fun g hg => ?_
  cases hbody : g.body with
  | none => exact ⟨hg.dropAll, .refl g, by rintro ⟨_, ⟨⟩⟩⟩
  | some body =>
    have hloose : Linear { g with body := none } (body.holes.map (·.pc) ++ loose) := by
      refine hg.shift rfl rfl (List.perm_iff_count.mpr fun pc => ?_)
      simp [Generator.holes, hbody, List.count_append]
      omega
    refine Handles.change hloose ⟨rfl, fun _ _ h => h⟩ <|
      (demand .closeFunction _).bind fun closed => ?_
    cases hprologue : body.prologue with
    | none => exact .throw (by rintro ⟨_, ⟨⟩⟩)
    | some prologue =>
      have hframe : Steady (do
          Gen.log (.frameClosed closed.frame)
          modify fun g => { g with frames := g.frames.push closed.frame }) :=
        bind (log ⟨rfl, rfl, rfl⟩) fun _ => change fun _ => ⟨rfl, rfl, rfl, rfl, rfl, rfl⟩
      rw [Body.holes, hprologue]
      exact .read fun _ => Handles.fill.bind fun _ => (pc _).bind fun _ =>
        (Handles.fillAll _ body.returns).bind fun _ => ((stackRules 0).emitEpilogue _).bind fun _ =>
        hframe _

theorem beginProgram : Steady beginProgram := by
  refine get fun _ => ite (throw (by rintro ⟨_, ⟨⟩⟩)) fun loose =>
    Handles.reserve.bind fun hole g hg => ⟨hg.shrink (g.start.toList.map (·.pc)) rfl rfl
      (List.perm_iff_count.mpr fun pc => ?_), rfl, fun _ _ h => h⟩
  simp [Generator.holes, List.count_append, List.count_cons]
  omega

theorem endProgram (t : Token) : Steady (endProgram t) := by
  intro loose
  have hend : ∀ (start : Hole) (stub : Nat), Handles (do
      Gen.fill start (.jump stub)
      let g ← MonadState.get
      Gen.log (.generated g.code.pc g.diagnostics.size g.symbols.dataEnd)) (start.pc :: loose)
      fun _ => loose :=
    fun _ _ => Handles.fill.bind fun _ => get (fun _ => log ⟨rfl, rfl, rfl⟩) _
  refine .read fun g => ?_
  cases g.symbols.functionName? with
  | some name => exact .throw (by rintro ⟨_, ⟨⟩⟩)
  | none =>
    refine .get fun g hg => ?_
    cases hstart : g.start with
    | none => exact ⟨hg.dropAll, .refl g, by rintro ⟨_, ⟨⟩⟩⟩
    | some start =>
      have hloose : Linear { g with start := none } (start.pc :: loose) := by
        refine hg.shift rfl rfl (List.perm_iff_count.mpr fun pc => ?_)
        simp [Generator.holes, hstart, List.count_append, List.count_cons]
        omega
      refine Handles.change hloose ⟨rfl, fun _ _ h => h⟩ <| (pc _).bind fun stub =>
        .read fun g' => ?_
      cases (g'.symbols.find? "main").filter isMain with
      | some main =>
        exact ((stackRules t.line).emitStart _ (by decide : 0 < 3) _).bind fun _ => hend start stub
      | none => exact (report _ _ _).bind fun _ => hend start stub

theorem dispatch (t : Token) (action : Action) : Steady (dispatch action t) := by
  cases hslots : action.usesSlots with
  | false => exact (stackRules t.line).dispatch hslots
  | true =>
    match action with
    | .beginProgram => exact beginProgram
    | .endProgram => exact endProgram t
    | .declareFunction => exact declareFunction t
    | .reserveJumpSlot => exact reserveBranch t
    | .emitCondJumpAndReserveNext => exact startElse
    | .patchJumpToHere => exact endElse
    | .patchCondJumpToHere => exact endBranch
    | .pushBreakScope => exact change fun _ => ⟨rfl, rfl, rfl, rfl, rfl, rfl⟩
    | .registerBreak => exact registerBreak t
    | .closeBreakScope => exact closeBreaks
    | .beginFunction => exact beginFunction
    | .endFunction => exact endFunction
    | .markReturn => exact markReturn

theorem perform (step : Step) : Steady (perform step) :=
  bind clearScratch fun _ => get fun _ => bind (log ⟨rfl, rfl, rfl⟩) fun _ =>
    dispatch step.token step.action

end Steady

end Gen

/-! ### Sessions -/

namespace Generator

/-- Performs actions given by their names one after the other, each whatever became of those before
    it. -/
def session (g : Generator) (calls : List (String × Token)) : Generator :=
  calls.foldl (fun g call => (g.performNamed call.1 call.2).2) g

/-- One call keeps a state linear and what is written, and never fails over a slot. -/
theorem Linear.performNamed {g : Generator} (hg : g.Linear []) (name : String) (token : Token) :
    (g.performNamed name token).2.Linear [] ∧ g.Grows (g.performNamed name token).2 ∧
      ∀ pc, (g.performNamed name token).1 ≠ .error (.fault (.slotNotPending pc)) := by
  simp only [Generator.performNamed]
  cases Action.ofName? name with
  | none => exact ⟨hg, .refl g, by rintro pc ⟨⟩⟩
  | some action =>
    have hlands := Gen.Steady.perform ⟨action, token⟩ [] g hg
    simp only [run, EStateM.run]
    cases hrun : Gen.perform ⟨action, token⟩ g with
    | ok a g' =>
      rw [hrun] at hlands
      exact ⟨hlands.1, hlands.2, by rintro pc ⟨⟩⟩
    | error fault g' =>
      rw [hrun] at hlands
      refine ⟨hlands.1, hlands.2.1, ?_⟩
      rintro pc ⟨⟩
      exact hlands.2.2 ⟨pc, rfl⟩

/-- A whole session keeps a state linear and what is written. -/
theorem Linear.session {g : Generator} (hg : g.Linear []) (calls : List (String × Token)) :
    (g.session calls).Linear [] ∧ g.Grows (g.session calls) := by
  induction calls generalizing g with
  | nil => exact ⟨hg, .refl g⟩
  | cons call calls ih =>
    obtain ⟨hlinear, hgrows, -⟩ := hg.performNamed call.1 call.2
    obtain ⟨hlast, hrest⟩ := ih hlinear
    exact ⟨hlast, hgrows.trans hrest⟩

end Generator

/-- Whatever actions are performed at whatever tokens, in whatever order, and whichever of them
    fail: the slots that the generator holds are all different and wait in the store; no action
    fails because a slot does not wait; every position is written at most once, holds what was
    written, and never changes afterwards; and the code is whole just if every slot ever reserved
    has been filled. -/
theorem session_fills_slots_once (layout : Layout) (calls : List (String × Token)) :
    let g := (Generator.initial layout).session calls
    (g.holes.Nodup ∧ ∀ pc ∈ g.holes, pc ∈ g.code.pending ∧ g.code.slots[pc]? = some none) ∧
      (∀ name token pc,
        (g.performNamed name token).1 ≠ .error (.fault (.slotNotPending pc))) ∧
      (g.writes.map (·.1)).Nodup ∧
      (∀ pc i, (pc, i) ∈ g.writes ↔ g.code.get? pc = some i) ∧
      (∀ more pc i, g.code.get? pc = some i → (g.session more).code.get? pc = some i) ∧
      ((∃ is, g.code.instructions = .ok is) ↔ ∀ pc ∈ g.reservations, pc ∈ g.patches) := by
  intro g
  have hg : g.Linear [] := ((Generator.Linear.initial layout).session calls).1
  refine ⟨⟨hg.distinct, fun pc hpc => ?_⟩, fun name token => (hg.performNamed name token).2.2,
    hg.ledger.once, hg.ledger.written, fun more => (hg.session more).2.written,
    hg.ledger.instructions_iff⟩
  have hpending := hg.waiting pc hpc
  exact ⟨hpending, (hg.ledger.pending pc).mp hpending⟩

end OnePass
