import OnePass.Proofs.Generator.Operand

/-!
# What the steps of statements do

Jumps forward are slots in the store. A step that fills some is described by the store it leaves,
under the condition that the slots wait. -/

namespace OnePass

/-- The code that stores the value of a return. -/
def Fragment.storeReturn (l : Layout) (value : Symbol) : List Instruction :=
  let a := Use.value l 0 value
  let b := Use.field l a.cells l.framePointer (BitVec.ofNat 32 Record.returnValue)
  a.code ++ b.code ++ [.assign a.operand b.operand]

namespace Gen

variable {g : Generator} {n : Nat} {t : Token} {stack : List StackValue} {code : Store}
  {v : StackValue} {s : Symbol} {hole : Hole} {cond : Operand}

theorem does_fillAll {i : Instruction} : ∀ {holes : List Hole} {g : Generator} {code : Store},
    g.code.fillAll i holes = .ok code →
      Does (holes.forM fun hole => fill hole i) g n () (g.withCode code) n
  | [], g, code, h => by
    obtain rfl := Except.ok.inj h
    exact .pure
  | hole :: holes, g, code, h => by
    simp only [Store.fillAll, bind, Except.bind] at h
    split at h
    · cases h
    · rename_i next hfill
      have hrest : (g.withCode next).code.fillAll i holes = .ok code := h
      exact (does_fill hfill).bind (does_fillAll hrest)

/-! ### Conditions -/

theorem does_conditionOperand (hstack : g.stack = v :: stack) (hv : v.operand? = some s)
    (hint : s.isInt) (hslots : 3 ≤ g.layout.scratchSlots.toNat) :
    Does (conditionOperand t) g 0 (Use.value g.layout 0 s).operand
      ((g.withStack stack).resolved (Use.value g.layout 0 s))
      (0 + (Use.value g.layout 0 s).cells) := by
  have h0 : 0 < g.layout.scratchSlots.toNat := by omega
  refine (does_popSymbol hstack hv).bind ?_
  refine (does_checkInts (by simp [hint]) _).bind (.ite_neg (by decide) ?_)
  exact does_valueOperand s (by exact h0)

theorem does_conditionOperand_mistake (hstack : g.stack = v :: stack) (hv : v.operand? = some s)
    (h : ¬ s.isInt) : ∃ cause, Does (conditionOperand t) g n (.immediate 0)
      ((g.withStack stack).report t.line cause) n := by
  obtain ⟨cause, hcheck⟩ := does_checkInts_false (g := g.withStack stack) (n := n) [s]
    (by simpa using h) t.line
  exact ⟨cause, (does_popSymbol hstack hv).bind (hcheck.bind (.ite_pos rfl .pure))⟩

theorem performs_reserveJumpSlot (hstack : g.stack = v :: stack) (hv : v.operand? = some s)
    (hint : s.isInt) (hslots : 3 ≤ g.layout.scratchSlots.toNat) :
    Performs ⟨.reserveJumpSlot, t⟩ g
      { g with
        stack := .branch ⟨g.code.pc + (Use.value g.layout 0 s).code.length⟩
          (Use.value g.layout 0 s).operand :: stack
        code := (g.code.append (Use.value g.layout 0 s).code).reserve.2 } := by
  refine Does.performs (0 + (Use.value g.layout 0 s).cells) ?_
  refine (does_conditionOperand hstack hv hint hslots).bind (does_reserve.bind
    ((does_log _).bind ((does_push _).congr ?_)))
  simp [Generator.withStack, Generator.withCode, Generator.resolved, Store.reserve]

theorem performs_reserveJumpSlot_mistake (hstack : g.stack = v :: stack)
    (hv : v.operand? = some s) (h : ¬ s.isInt) :
    ∃ cause, Performs ⟨.reserveJumpSlot, t⟩ g
      (({ g with
        stack := .branch ⟨g.code.pc⟩ (.immediate 0) :: stack
        code := g.code.reserve.2 } : Generator).report t.line cause) := by
  obtain ⟨cause, hcond⟩ := does_conditionOperand_mistake (n := 0) (t := t) hstack hv h
  exact ⟨cause, Does.performs 0 (hcond.bind (does_reserve.bind
    ((does_log _).bind (does_push _))))⟩

/-! ### Branches -/

theorem performs_startElse (hstack : g.stack = .branch hole cond :: stack)
    (hfill : g.code.reserve.2.fill hole (.jumpIfFalse cond (g.code.pc + 1)) = .ok code) :
    Performs ⟨.emitCondJumpAndReserveNext, t⟩ g
      { g with stack := .slot ⟨g.code.pc⟩ :: stack, code } := by
  refine Does.performs 0 ((does_popBranch hstack).bind (does_reserve.bind (does_pc.bind ?_)))
  have hpc : ((g.withStack stack).withCode g.code.reserve.2).code.pc = g.code.pc + 1 :=
    Store.pc_reserve ..
  have hgoal : ((g.withStack stack).withCode g.code.reserve.2).code.fill hole
      (.jumpIfFalse cond ((g.withStack stack).withCode g.code.reserve.2).code.pc) = .ok code := by
    rw [hpc]
    exact hfill
  exact (does_fill hgoal).bind (does_push _)

theorem performs_endElse (hstack : g.stack = .slot hole :: stack)
    (hfill : g.code.fill hole (.jump g.code.pc) = .ok code) :
    Performs ⟨.patchJumpToHere, t⟩ g { g with stack, code } :=
  Does.performs 0 ((does_popSlot hstack).bind (does_pc.bind (does_fill (by exact hfill))))

theorem performs_endBranch (hstack : g.stack = .branch hole cond :: stack)
    (hfill : g.code.fill hole (.jumpIfFalse cond g.code.pc) = .ok code) :
    Performs ⟨.patchCondJumpToHere, t⟩ g { g with stack, code } :=
  Does.performs 0 ((does_popBranch hstack).bind (does_pc.bind (does_fill (by exact hfill))))

/-! ### Loops -/

theorem performs_startLoop :
    Performs ⟨.labelHere, t⟩ g { g with stack := .label g.code.pc :: g.stack } :=
  Does.performs 0 (does_pc.bind (does_push _))

theorem performs_repeatLoop {start : Nat} (hstack : g.stack = v :: .label start :: stack)
    (hv : v.operand? = some s) (hint : s.isInt) (hslots : 3 ≤ g.layout.scratchSlots.toNat) :
    Performs ⟨.jumpBackIfFalse, t⟩ g
      { g with
        stack
        code := g.code.append ((Use.value g.layout 0 s).code
          ++ [.jumpIfFalse (Use.value g.layout 0 s).operand start]) } := by
  refine Does.performs (0 + (Use.value g.layout 0 s).cells) ?_
  refine (does_conditionOperand hstack hv hint hslots).bind ((does_popLabel rfl).bind
    ((does_emit _).congr ?_))
  simp [Generator.withStack, Generator.withCode, Generator.resolved]

theorem performs_repeatLoop_mistake {start : Nat} (hstack : g.stack = v :: .label start :: stack)
    (hv : v.operand? = some s) (h : ¬ s.isInt) :
    ∃ cause, Performs ⟨.jumpBackIfFalse, t⟩ g
      (({ g with
        stack
        code := g.code.append [.jumpIfFalse (.immediate 0) start] } : Generator).report t.line
          cause) := by
  obtain ⟨cause, hcond⟩ := does_conditionOperand_mistake (n := 0) (t := t) hstack hv h
  exact ⟨cause, Does.performs 0 (hcond.bind ((does_popLabel rfl).bind (does_emit _)))⟩

theorem performs_openBreaks :
    Performs ⟨.pushBreakScope, t⟩ g { g with breaks := [] :: g.breaks } :=
  Does.performs 0 (.modify fun _ => rfl)

theorem performs_registerBreak {holes : List Hole} {rest : List (List Hole)}
    (h : g.breaks = holes :: rest) :
    Performs ⟨.registerBreak, t⟩ g
      { g with breaks := (holes ++ [⟨g.code.pc⟩]) :: rest, code := g.code.reserve.2 } := by
  refine Does.performs 0 (.get fun trace => ?_)
  rw [Generator.taking_breaks, h]
  exact does_reserve.bind (.modify fun _ => rfl)

theorem performs_registerBreak_outside (h : g.breaks = []) :
    Performs ⟨.registerBreak, t⟩ g (g.report t.line .breakOutsideLoop) := by
  refine Does.performs 0 (.get fun trace => ?_)
  rw [Generator.taking_breaks, h]
  exact does_report _ _

theorem performs_closeBreaks {holes : List Hole} {rest : List (List Hole)}
    (h : g.breaks = holes :: rest) (hfill : g.code.fillAll (.jump g.code.pc) holes = .ok code) :
    Performs ⟨.closeBreakScope, t⟩ g { g with breaks := rest, code } := by
  refine Does.performs 0 (.get fun trace => ?_)
  rw [Generator.taking_breaks, h]
  have hclose : Does (modify fun g => { g with breaks := rest }) g 0 ()
      { g with breaks := rest } 0 := .modify fun _ => rfl
  exact hclose.bind (does_pc.bind ((does_log _).bind (does_fillAll (by exact hfill))))

/-! ### Returns -/

theorem performs_storeReturnValue (hstack : g.stack = v :: stack) (hv : v.operand? = some s)
    (hint : s.isInt) (hslots : 3 ≤ g.layout.scratchSlots.toNat) :
    Performs ⟨.storeReturnValue, t⟩ g
      { g with stack, code := g.code.append (Fragment.storeReturn g.layout s) } := by
  let a := Use.value g.layout 0 s
  let b := Use.field g.layout (0 + a.cells) g.layout.framePointer
    (BitVec.ofNat 32 Record.returnValue)
  have ha : a.cells ≤ 1 := Use.value_cells_le ..
  have h0 : 0 < g.layout.scratchSlots.toNat := by omega
  have h1 : 0 + a.cells < g.layout.scratchSlots.toNat := by omega
  refine Does.performs (0 + a.cells + b.cells) ?_
  refine (does_popSymbol hstack hv).bind ?_
  refine (does_checkInts (by simp [hint]) _).bind (.ite_neg (by decide) ?_)
  refine (does_valueOperand s (by exact h0)).bind (.get fun trace => ?_)
  refine (does_fieldOperand _ _ (by exact h1)).bind ((does_emit _).congr ?_)
  simp [Generator.withStack, Generator.withCode, Generator.resolved, Fragment.storeReturn]

theorem performs_storeReturnValue_mistake (hstack : g.stack = v :: stack)
    (hv : v.operand? = some s) (h : ¬ s.isInt) :
    ∃ cause, Performs ⟨.storeReturnValue, t⟩ g ((g.withStack stack).report t.line cause) := by
  obtain ⟨cause, hcheck⟩ := does_checkInts_false (g := g.withStack stack) (n := 0) [s]
    (by simpa using h) t.line
  exact ⟨cause, Does.performs 0 ((does_popSymbol hstack hv).bind (hcheck.bind
    (.ite_pos rfl .pure)))⟩

theorem performs_markReturn {body : Body} (h : g.body = some body) :
    Performs ⟨.markReturn, t⟩ g
      { g with
        body := some { body with returns := body.returns ++ [⟨g.code.pc⟩] }
        code := g.code.reserve.2 } := by
  refine Does.performs 0 (.get fun trace => ?_)
  rw [Generator.taking_body, h]
  exact does_reserve.bind (.modify fun _ => rfl)

end Gen

end OnePass
