import OnePass.Proofs.Safety.Shape

/-!
# Steps and what they hold

`Step.Turns` lists, for each step but the last of a program, what it takes off and puts on the list
of things held. A step that has such a rule is performed without a fault, and leaves a state that
fits the list after it. -/

namespace OnePass

/-- The words that an action may take from the record of a function. -/
def Action.words : Action → Nat
  | .computeBinary | .indexArray | .call | .addParameter | .addArrayParameter => 1
  | _ => 0

/-- What a step takes off the list of things held and what it puts there. -/
inductive Step.Turns : Step → List Held → List Held → Prop
  | beginProgram {t} : Turns ⟨.beginProgram, t⟩ [] [.program]
  | pushType {t ty held} : t.kind = .keyword → Ty.ofKeyword? t.lexeme = some ty →
      Turns ⟨.pushType, t⟩ held (.type :: held)
  | pushName {t held} : t.kind = .id → Turns ⟨.pushName, t⟩ held (.name :: held)
  | declareVariable {t held} : Turns ⟨.declareVariable, t⟩ (.name :: .type :: held) held
  | declareArray {t held} : Turns ⟨.declareArray, t⟩ (.number :: .name :: .type :: held) held
  | declareFunction {t} :
      Turns ⟨.declareFunction, t⟩ [.name, .type, .program] [.header, .program]
  | addParameter {t held} :
      Turns ⟨.addParameter, t⟩ (.name :: .type :: .header :: held) (.header :: held)
  | addArrayParameter {t held} :
      Turns ⟨.addArrayParameter, t⟩ (.name :: .type :: .header :: held) (.header :: held)
  | beginFunction {t} : Turns ⟨.beginFunction, t⟩ [.header, .program] [.body, .program]
  | endFunction {t} : Turns ⟨.endFunction, t⟩ [.body, .program] [.program]
  | scopeUp {t held} : Inside held → Turns ⟨.scopeUp, t⟩ held (.block :: held)
  | scopeDown {t held} : Inside held → Turns ⟨.scopeDown, t⟩ (.block :: held) held
  | pushIdentifier {t held} : t.kind = .id →
      Turns ⟨.pushIdentifier, t⟩ held (.named t :: held)
  | pushNumber {t held} : t.kind = .num → Turns ⟨.pushNumber, t⟩ held (.number :: held)
  | pushOperator {t op held} : t.kind = .symbol → BinaryOp.ofLexeme? t.lexeme = some op →
      Turns ⟨.pushOperator, t⟩ held (.operator :: held)
  | computeBinary {t held} : Inside held →
      Turns ⟨.computeBinary, t⟩ (.operand :: .operator :: .operand :: held) (.operand :: held)
  | assign {t held} : Turns ⟨.assign, t⟩ (.operand :: .operand :: held) (.operand :: held)
  | indexArray {t held} : Inside held →
      Turns ⟨.indexArray, t⟩ (.operand :: .named t :: held) (.operand :: held)
  | popExpression {t held} : Turns ⟨.popExpression, t⟩ (.operand :: held) held
  | pushArgCount {t x held} : Turns ⟨.pushArgCount, t⟩ (.named x :: held) (.call x :: held)
  | incrementArgCount {t x held} :
      Turns ⟨.incrementArgCount, t⟩ (.operand :: .call x :: held) (.call x :: held)
  | call {t held} : Inside held → Turns ⟨.call, t⟩ (.call t :: held) (.operand :: held)
  | reserveJumpSlot {t held} : Turns ⟨.reserveJumpSlot, t⟩ (.operand :: held) (.branch :: held)
  | startElse {t held} :
      Turns ⟨.emitCondJumpAndReserveNext, t⟩ (.branch :: held) (.slot :: held)
  | endElse {t held} : Turns ⟨.patchJumpToHere, t⟩ (.slot :: held) held
  | endBranch {t held} : Turns ⟨.patchCondJumpToHere, t⟩ (.branch :: held) held
  | openBreaks {t held} : Turns ⟨.pushBreakScope, t⟩ held (.breaks :: held)
  | startLoop {t held} : Turns ⟨.labelHere, t⟩ held (.label :: held)
  | repeatLoop {t held} : Turns ⟨.jumpBackIfFalse, t⟩ (.operand :: .label :: held) held
  | closeBreaks {t held} : Turns ⟨.closeBreakScope, t⟩ (.breaks :: held) held
  | registerBreak {t held} : Turns ⟨.registerBreak, t⟩ held held
  | storeReturnValue {t held} : Turns ⟨.storeReturnValue, t⟩ (.operand :: held) held
  | markReturn {t held} : Inside held → Turns ⟨.markReturn, t⟩ held held

namespace Fits

open Gen

variable {held : List Held} {k : Nat} {g : Generator} {t : Token}

/-- In a body there is an open function whose record takes words. -/
theorem function_of_inside (hg : Fits held k g) (hin : Inside held) :
    ∃ f, g.symbols.function = some f ∧ f.record.closed = false := by
  obtain ⟨blocks, hphase⟩ := hin
  have h := hg.place
  rw [hphase] at h
  obtain ⟨-, b, f, -, -, hf, -, hopen⟩ := h
  exact ⟨f, hf, hopen⟩

/-- In a body there is room for a word that is set aside for it. -/
theorem hasRoom_of_inside (hg : Fits held (k + 1) g) (hin : Inside held) :
    ∃ f, g.symbols.function = some f ∧ f.record.HasRoom 1 := by
  obtain ⟨f, hf, hopen⟩ := hg.function_of_inside hin
  have hroom := hg.room
  rw [hf] at hroom
  exact ⟨f, hf, hroom.hasRoom hopen⟩

/-- A step is performed, and the state after it fits. -/
def Leads (g : Generator) (step : Step) (held : List Held) (k : Nat) : Prop :=
  ∃ g', Performs step g g' ∧ Fits held k g'

/-! ### Operands -/

/-- A value without a slot is put on the stack. -/
theorem push {v : StackValue} {h : Held} (hg : Fits held k g)
    (hstacked : Stacked (h :: held) (v :: g.stack) g.argCounts g.breaks)
    (hphase : phase (h :: held) = phase held) (hv : v.hole? = none) :
    Fits (h :: held) k { g with stack := v :: g.stack } := by
  refine move 0 [] hg hstacked hphase ⟨rfl, rfl, rfl, rfl⟩ ?_ rfl (.refl _)
  simp [Generator.holes, hv]

theorem pushOperand (hg : Fits held k g) (s : Symbol) :
    Fits (.operand :: held) k { g with stack := .symbol s :: g.stack } :=
  hg.push (.operand rfl hg.stacked) rfl rfl

theorem pushNamed (hg : Fits held k g) (x : Token) (s : Symbol) :
    Fits (.named x :: held) k { g with stack := .symbol s :: g.stack } :=
  hg.push (.named s hg.stacked) rfl rfl

/-- Operands come off the stack. -/
theorem dropOperand {v : StackValue} {s : Symbol} {stack : List StackValue}
    (hg : Fits (.operand :: held) k g) (hstack : g.stack = v :: stack)
    (hv : v.operand? = some s) (hs : Stacked held stack g.argCounts g.breaks) :
    Fits held k (g.withStack stack) := by
  refine move 0 [] hg hs rfl ⟨rfl, rfl, rfl, rfl⟩ ?_ rfl (.refl _)
  simp [Generator.holes, Generator.withStack, hstack, StackValue.hole?_of_operand? hv]

theorem pushIdentifier (hg : Fits held k g) :
    Leads g ⟨.pushIdentifier, t⟩ (.named t :: held) k := by
  cases h : g.symbols.find? t.lexeme with
  | some s => exact ⟨_, performs_pushIdentifier h, hg.pushNamed t s⟩
  | none =>
    exact ⟨_, performs_pushIdentifier_unknown h,
      (hg.pushNamed t (.placeholder t.lexeme)).report t.line (.notDefined t.lexeme)⟩

theorem pushNumber (hg : Fits held k g) : Leads g ⟨.pushNumber, t⟩ (.number :: held) k := by
  have hpush : ∀ value, Fits (.number :: held) k { g with stack := .literal value :: g.stack } :=
    fun value => hg.push (.number value hg.stacked) rfl rfl
  cases h : Word.ofNumeral? t.lexeme with
  | some value => exact ⟨_, performs_pushNumber h, hpush value⟩
  | none =>
    exact ⟨_, performs_pushNumber_range h, (hpush 0).report t.line (.literalRange t.lexeme)⟩

theorem popExpression (hg : Fits (.operand :: held) k g) :
    Leads g ⟨.popExpression, t⟩ held k := by
  obtain ⟨v, s, rest, hstack, hv, hs⟩ := hg.stacked.operand_inv
  exact ⟨_, performs_popExpression hstack, hg.dropOperand hstack hv hs⟩

/-! ### Operations -/

/-- Operands come off the stack and a result takes their place. -/
theorem result {held₀ : List Held} {rest : List StackValue} (hg : Fits held₀ k g)
    (hs : Stacked held rest g.argCounts g.breaks) (hphase : phase held = phase held₀)
    (hholes : g.stack.filterMap StackValue.hole? = rest.filterMap StackValue.hole?) (s : Symbol) :
    Fits (.operand :: held) k (g.withStack (.symbol s :: rest)) := by
  refine move 0 [] hg (.operand rfl hs) hphase ⟨rfl, rfl, rfl, rfl⟩ ?_ rfl (.refl _)
  simp [Generator.holes, Generator.withStack, List.filterMap_cons, hholes]

/-- The same where the result is a temporary that code computes. -/
theorem temporary {held₀ : List Held} {rest : List StackValue} {f : OpenFunction}
    (hg : Fits held₀ (k + 1) g) (hs : Stacked held rest g.argCounts g.breaks)
    (hphase : phase held = phase held₀)
    (hholes : g.stack.filterMap StackValue.hole? = rest.filterMap StackValue.hole?)
    (hf : g.symbols.function = some f) (s : Symbol) (is : List Instruction) :
    Fits (.operand :: held) k
      { g with
        stack := .symbol s :: rest
        symbols := g.symbols.withTemporary f
        code := g.code.append is } := by
  refine move 1 is hg (.operand rfl hs) hphase ⟨rfl, rfl, rfl, rfl⟩ ?_ rfl (.withTemporary hf)
  simp [Generator.holes, List.filterMap_cons, hholes]

theorem computeBinary (hin : Inside held)
    (hg : Fits (.operand :: .operator :: .operand :: held) (k + 1) g) :
    Leads g ⟨.computeBinary, t⟩ (.operand :: held) k := by
  obtain ⟨vr, r, _, hstack, hr, hs₁⟩ := hg.stacked.operand_inv
  obtain ⟨op, _, rfl, hs₂⟩ := hs₁.operator_inv
  obtain ⟨vl, l, rest, rfl, hl, hs⟩ := hs₂.operand_inv
  have hholes : g.stack.filterMap StackValue.hole? = rest.filterMap StackValue.hole? := by
    simp [hstack, List.filterMap_cons, StackValue.hole?_of_operand? hr,
      StackValue.hole?_of_operand? hl]
  by_cases hints : l.isInt ∧ r.isInt
  · obtain ⟨f, hf, hroom⟩ := hasRoom_of_inside hg hin
    exact ⟨_, performs_computeBinary hstack hl hr hints.1 hints.2 hf hroom hg.slots,
      hg.temporary hs rfl hholes hf _ _⟩
  · obtain ⟨cause, hperforms⟩ := performs_computeBinary_mistake hstack hl hr hints
    exact ⟨_, hperforms, ((hg.mono (Nat.le_succ k)).result hs rfl hholes _).report _ _⟩

theorem assign (hg : Fits (.operand :: .operand :: held) k g) :
    Leads g ⟨.assign, t⟩ (.operand :: held) k := by
  obtain ⟨vr, r, _, hstack, hr, hs₁⟩ := hg.stacked.operand_inv
  obtain ⟨vl, l, rest, rfl, hl, hs⟩ := hs₁.operand_inv
  have hholes : g.stack.filterMap StackValue.hole? = rest.filterMap StackValue.hole? := by
    simp [hstack, StackValue.hole?_of_operand? hr, StackValue.hole?_of_operand? hl]
  by_cases hints : l.isInt ∧ r.isInt
  · refine ⟨_, performs_assign hstack hl hr hints.1 hints.2 hg.slots, ?_⟩
    refine move 0 _ hg (.operand rfl hs) rfl ⟨rfl, rfl, rfl, rfl⟩ ?_ rfl (.refl _)
    simp [Generator.holes, List.filterMap_cons, hholes]
  · obtain ⟨cause, hperforms⟩ := performs_assign_mistake hstack hl hr hints
    exact ⟨_, hperforms, (hg.result hs rfl hholes _).report _ _⟩

theorem indexArray (hin : Inside held) (hg : Fits (.operand :: .named t :: held) (k + 1) g) :
    Leads g ⟨.indexArray, t⟩ (.operand :: held) k := by
  obtain ⟨vr, r, _, hstack, hr, hs₁⟩ := hg.stacked.operand_inv
  obtain ⟨l, rest, rfl, hs⟩ := hs₁.named_inv
  have hl : (StackValue.symbol l).operand? = some l := rfl
  have hholes : g.stack.filterMap StackValue.hole? = rest.filterMap StackValue.hole? := by
    simp [hstack, List.filterMap_cons, StackValue.hole?_of_operand? hr]
  have hresult := fun s => (hg.mono (Nat.le_succ k)).result hs rfl hholes s
  cases hp : l.isPlaceholder with
  | true => exact ⟨_, performs_indexArray_placeholder hstack hl hr hp, hresult _⟩
  | false =>
    by_cases hok : l.isFunction = false ∧ l.ty.isReference ∧ r.isInt
    · obtain ⟨f, hf, hroom⟩ := hasRoom_of_inside hg hin
      exact ⟨_, performs_indexArray hstack hl hr hp hok.1 hok.2.1 hok.2.2 hf hroom hg.slots,
        hg.temporary hs rfl hholes hf _ _⟩
    · obtain ⟨cause, hperforms⟩ := performs_indexArray_mistake hstack hl hr hp hok
      exact ⟨_, hperforms, (hresult _).report _ _⟩

/-! ### Calls -/

theorem pushArgCount {x : Token} (hg : Fits (.named x :: held) k g) :
    Leads g ⟨.pushArgCount, t⟩ (.call x :: held) k := by
  obtain ⟨s, rest, hstack, hs⟩ := hg.stacked.named_inv
  refine ⟨_, performs_pushArgCount, ?_⟩
  refine move 0 [] hg ?_ rfl ⟨rfl, rfl, rfl, rfl⟩ rfl rfl (.refl _)
  have hnone : ([] : List StackValue).map (·.operand?) = ([] : List Symbol).map some := rfl
  have hcall := Stacked.call (x := x) s hnone hs
  rw [List.nil_append, ← hstack] at hcall
  exact hcall

theorem incrementArgCount {x : Token} (hg : Fits (.operand :: .call x :: held) k g) :
    Leads g ⟨.incrementArgCount, t⟩ (.call x :: held) k := by
  obtain ⟨v, s, _, hstack, hv, hs₁⟩ := hg.stacked.operand_inv
  obtain ⟨values, args, target, rest, counts, rfl, hcounts, hargs, hs⟩ := hs₁.call_inv
  refine ⟨_, performs_incrementArgCount hcounts, ?_⟩
  refine move 0 [] hg ?_ rfl ⟨rfl, rfl, rfl, rfl⟩ rfl rfl (.refl _)
  have hall : (v :: values).map (·.operand?) = (s :: args).map some := by simp [hv, hargs]
  have hcall := Stacked.call (x := x) target hall hs
  rw [List.cons_append, ← hstack] at hcall
  exact hcall

/-- A result takes its place on the stack after some code. -/
theorem pushAfter (hg : Fits held k g) (s : Symbol) (is : List Instruction) :
    Fits (.operand :: held) k
      { g with stack := .symbol s :: g.stack, code := g.code.append is } := by
  refine move 0 is hg (.operand rfl hg.stacked) rfl ⟨rfl, rfl, rfl, rfl⟩ ?_ rfl (.refl _)
  simp [Generator.holes, List.filterMap_cons]

/-- The call of a function leaves its result. -/
theorem callFunction (hin : Inside held) (hg : Fits held (k + 1) g) (callee : Symbol)
    (args : List Symbol) : ∃ g' n, Does (Gen.callFunction callee args) g 0 () g' n ∧
      Fits (.operand :: held) k g' := by
  by_cases hty : callee.ty = .void
  · obtain ⟨n, hdo⟩ := does_callFunction_void hg.slots hty
    exact ⟨_, n, hdo, (hg.mono (Nat.le_succ k)).pushAfter _ _⟩
  · obtain ⟨f, hf, hroom⟩ := hasRoom_of_inside hg hin
    obtain ⟨n, hdo⟩ := does_callFunction_value hg.slots hty hf hroom
    exact ⟨_, n, hdo, hg.temporary hg.stacked rfl rfl hf _ _⟩

/-- A call whose target and arguments came off the stack leaves its result. -/
theorem callWith (hin : Inside held) (hg : Fits held (k + 1) g) (target : Symbol)
    (args : List Symbol) : ∃ g' n, Does (Gen.callWith t target args) g 0 () g' n ∧
      Fits (.operand :: held) k g' := by
  have hsmall : Fits held k g := hg.mono (Nat.le_succ k)
  cases hp : target.isPlaceholder with
  | true => exact ⟨_, 0, does_callWith_placeholder hp, hsmall.pushOperand _⟩
  | false =>
    cases hfn : target.isFunction with
    | false =>
      exact ⟨_, 0, does_callWith_notFunction hp hfn, (hsmall.pushOperand _).report _ _⟩
    | true =>
      cases hm : argumentMistake? (calleeOf g.symbols target) args with
      | some cause =>
        exact ⟨_, 0, does_callWith_mistake hp hfn hm, (hsmall.pushOperand _).report _ _⟩
      | none =>
        by_cases hname : (calleeOf g.symbols target).name = outputName
        · obtain ⟨n, hdo⟩ := does_callOutput (s := calleeOf g.symbols target) hg.slots
          exact ⟨_, n, .callWith hp hfn hm (.ite_pos hname hdo), hsmall.pushAfter _ _⟩
        · obtain ⟨g', n, hdo, hfits⟩ := callFunction hin hg (calleeOf g.symbols target) args
          exact ⟨g', n, .callWith hp hfn hm (.ite_neg hname hdo), hfits⟩

theorem call (hin : Inside held) (hg : Fits (.call t :: held) (k + 1) g) :
    Leads g ⟨.call, t⟩ (.operand :: held) k := by
  obtain ⟨values, args, s, rest, counts, hstack, hcounts, hargs, hs⟩ := hg.stacked.call_inv
  have hpopped : Fits held (k + 1) { g with argCounts := counts, stack := rest } := by
    refine move 0 [] hg hs rfl ⟨rfl, rfl, rfl, rfl⟩ ?_ rfl (.refl _)
    simp [Generator.holes, hstack, List.filterMap_cons, filterMap_hole?_operands hargs]
  obtain ⟨g', n, hdo, hfits⟩ := callWith hin hpopped s args.reverse
  exact ⟨g', Does.call hcounts hstack hargs rfl hdo, hfits⟩

/-! ### Branches and loops -/

/-- A condition comes off the stack, and a slot is reserved that depends on it. -/
theorem branch {v : StackValue} {s : Symbol} {rest : List StackValue} (cond : Operand)
    (is : List Instruction) (hg : Fits (.operand :: held) k g) (hstack : g.stack = v :: rest)
    (hv : v.operand? = some s) (hs : Stacked held rest g.argCounts g.breaks) :
    Fits (.branch :: held) k
      { g with
        stack := .branch ⟨g.code.pc + is.length⟩ cond :: rest
        code := (g.code.append is).reserve.2 } where
  stacked := .branch _ _ hs
  place := hg.place
  waits := by
    have hwaits : g.holes.Perm (g.code.append is).pending := by
      rw [Store.pending_append]
      exact hg.waits
    have hnew := Store.reserve_perm hwaits
    rw [Store.pc_append] at hnew
    simpa [Generator.holes, hstack, List.filterMap_cons, StackValue.hole?_of_operand? hv]
      using hnew
  sound := (hg.sound.append is).reserve
  slots := hg.slots
  data := hg.data
  room := hg.room
  frames := hg.frames

theorem reserveJumpSlot (hg : Fits (.operand :: held) k g) :
    Leads g ⟨.reserveJumpSlot, t⟩ (.branch :: held) k := by
  obtain ⟨v, s, rest, hstack, hv, hs⟩ := hg.stacked.operand_inv
  by_cases hint : s.isInt
  · exact ⟨_, performs_reserveJumpSlot hstack hv hint hg.slots, hg.branch _ _ hstack hv hs⟩
  · obtain ⟨cause, hperforms⟩ := performs_reserveJumpSlot_mistake hstack hv hint
    exact ⟨_, hperforms, (hg.branch (.immediate 0) [] hstack hv hs).report _ _⟩

theorem startElse (hg : Fits (.branch :: held) k g) :
    Leads g ⟨.emitCondJumpAndReserveNext, t⟩ (.slot :: held) k := by
  obtain ⟨hole, cond, rest, hstack, hs⟩ := hg.stacked.branch_inv
  have hwaits := Store.reserve_perm hg.waits
  rw [Generator.holes, hstack] at hwaits
  obtain ⟨code, hfill, hrest, hsound⟩ := Store.fill_of_perm (.jumpIfFalse cond (g.code.pc + 1))
    hg.sound.reserve ((List.Perm.swap _ _ _).trans hwaits)
  exact ⟨_, performs_startElse hstack hfill,
    { stacked := .slot _ hs, place := hg.place, waits := hrest, sound := hsound,
      slots := hg.slots, data := hg.data, room := hg.room, frames := hg.frames }⟩

theorem endElse (hg : Fits (.slot :: held) k g) : Leads g ⟨.patchJumpToHere, t⟩ held k := by
  obtain ⟨hole, rest, hstack, hs⟩ := hg.stacked.slot_inv
  have hwaits := hg.waits
  rw [Generator.holes, hstack] at hwaits
  obtain ⟨code, hfill, hrest, hsound⟩ := Store.fill_of_perm (.jump g.code.pc) hg.sound hwaits
  exact ⟨_, performs_endElse hstack hfill,
    { stacked := hs, place := hg.place, waits := hrest, sound := hsound,
      slots := hg.slots, data := hg.data, room := hg.room, frames := hg.frames }⟩

theorem endBranch (hg : Fits (.branch :: held) k g) :
    Leads g ⟨.patchCondJumpToHere, t⟩ held k := by
  obtain ⟨hole, cond, rest, hstack, hs⟩ := hg.stacked.branch_inv
  have hwaits := hg.waits
  rw [Generator.holes, hstack] at hwaits
  obtain ⟨code, hfill, hrest, hsound⟩ :=
    Store.fill_of_perm (.jumpIfFalse cond g.code.pc) hg.sound hwaits
  exact ⟨_, performs_endBranch hstack hfill,
    { stacked := hs, place := hg.place, waits := hrest, sound := hsound,
      slots := hg.slots, data := hg.data, room := hg.room, frames := hg.frames }⟩

theorem openBreaks (hg : Fits held k g) : Leads g ⟨.pushBreakScope, t⟩ (.breaks :: held) k :=
  ⟨_, performs_openBreaks, move 0 [] hg (.breaks [] hg.stacked) rfl ⟨rfl, rfl, rfl, rfl⟩ rfl rfl
    (.refl _)⟩

theorem startLoop (hg : Fits held k g) : Leads g ⟨.labelHere, t⟩ (.label :: held) k :=
  ⟨_, performs_startLoop, hg.push (.label _ hg.stacked) rfl rfl⟩

theorem repeatLoop (hg : Fits (.operand :: .label :: held) k g) :
    Leads g ⟨.jumpBackIfFalse, t⟩ held k := by
  obtain ⟨v, s, _, hstack, hv, hs₁⟩ := hg.stacked.operand_inv
  obtain ⟨start, rest, rfl, hs⟩ := hs₁.label_inv
  have hjump : ∀ is, Fits held k { g with stack := rest, code := g.code.append is } := by
    intro is
    refine move 0 is hg hs rfl ⟨rfl, rfl, rfl, rfl⟩ ?_ rfl (.refl _)
    simp [Generator.holes, hstack, List.filterMap_cons, StackValue.hole?_of_operand? hv]
  by_cases hint : s.isInt
  · exact ⟨_, performs_repeatLoop hstack hv hint hg.slots, hjump _⟩
  · obtain ⟨cause, hperforms⟩ := performs_repeatLoop_mistake hstack hv hint
    exact ⟨_, hperforms, (hjump _).report _ _⟩

theorem closeBreaks (hg : Fits (.breaks :: held) k g) :
    Leads g ⟨.closeBreakScope, t⟩ held k := by
  obtain ⟨holes, rest, hbreaks, hs⟩ := hg.stacked.breaks_inv
  have hwaits : (holes.map (·.pc) ++ ({ g with breaks := rest } : Generator).holes).Perm
      g.code.pending := by
    refine List.Perm.trans (List.perm_iff_count.mpr fun pc => ?_) hg.waits
    simp only [Generator.holes, hbreaks, List.flatten_cons, List.map_append, List.count_append]
    omega
  obtain ⟨code, hfill, hrest, hsound⟩ := Store.fillAll_of_perm (.jump g.code.pc) hg.sound hwaits
  exact ⟨_, performs_closeBreaks hbreaks hfill,
    { stacked := hs, place := hg.place, waits := hrest, sound := hsound,
      slots := hg.slots, data := hg.data, room := hg.room, frames := hg.frames }⟩

theorem registerBreak (hg : Fits held k g) : Leads g ⟨.registerBreak, t⟩ held k := by
  cases hbreaks : g.breaks with
  | nil => exact ⟨_, performs_registerBreak_outside hbreaks, hg.report _ _⟩
  | cons holes rest =>
    refine ⟨_, performs_registerBreak hbreaks, ?_⟩
    have hnew := Store.reserve_perm hg.waits
    refine { place := hg.place, sound := hg.sound.reserve, slots := hg.slots, data := hg.data,
             room := hg.room, frames := hg.frames, stacked := ?_, waits := ?_ }
    · have hs := hg.stacked
      rw [hbreaks] at hs
      exact hs.addBreak _
    · refine List.Perm.trans (List.perm_iff_count.mpr fun pc => ?_) hnew
      simp only [Generator.holes, hbreaks, List.flatten_cons, List.map_append, List.count_append,
        List.map_cons, List.map_nil, List.count_cons, List.count_nil]
      omega

/-! ### Returns -/

theorem storeReturnValue (hg : Fits (.operand :: held) k g) :
    Leads g ⟨.storeReturnValue, t⟩ held k := by
  obtain ⟨v, s, rest, hstack, hv, hs⟩ := hg.stacked.operand_inv
  have hdrop := hg.dropOperand hstack hv hs
  by_cases hint : s.isInt
  · refine ⟨_, performs_storeReturnValue hstack hv hint hg.slots, ?_⟩
    exact move 0 _ hdrop hs rfl ⟨rfl, rfl, rfl, rfl⟩ rfl rfl (.refl _)
  · obtain ⟨cause, hperforms⟩ := performs_storeReturnValue_mistake hstack hv hint
    exact ⟨_, hperforms, hdrop.report _ _⟩

theorem markReturn (hin : Inside held) (hg : Fits held k g) :
    Leads g ⟨.markReturn, t⟩ held k := by
  obtain ⟨blocks, hphase⟩ := hin
  have hplace := hg.place
  rw [hphase] at hplace
  obtain ⟨hstart, b, f, hb, hprologue, hf, hblocks, hopen⟩ := hplace
  refine ⟨_, performs_markReturn hb, ?_⟩
  refine { stacked := hg.stacked, sound := hg.sound.reserve, slots := hg.slots, data := hg.data,
           room := hg.room, frames := hg.frames, place := ?_, waits := ?_ }
  · rw [hphase]
    exact ⟨hstart, _, f, rfl, hprologue, hf, hblocks, hopen⟩
  · refine List.Perm.trans (List.perm_iff_count.mpr fun pc => ?_) (Store.reserve_perm hg.waits)
    simp only [Generator.holes, hb, Option.map_some, Option.getD_some, Body.holes,
      List.map_append, List.count_append, List.map_cons, List.map_nil, List.count_cons,
      List.count_nil]
    omega

/-! ### Declarations -/

theorem pushType {ty : Ty} (hg : Fits held k g) (h : Ty.ofKeyword? t.lexeme = some ty) :
    Leads g ⟨.pushType, t⟩ (.type :: held) k :=
  ⟨_, performs_pushType h, hg.push (.type ty hg.stacked) rfl rfl⟩

theorem pushName (hg : Fits held k g) : Leads g ⟨.pushName, t⟩ (.name :: held) k :=
  ⟨_, performs_pushName, hg.push (.name _ hg.stacked) rfl rfl⟩

theorem pushOperator {op : BinaryOp} (hg : Fits held k g)
    (h : BinaryOp.ofLexeme? t.lexeme = some op) :
    Leads g ⟨.pushOperator, t⟩ (.operator :: held) k :=
  ⟨_, performs_pushOperator h, hg.push (.operator op hg.stacked) rfl rfl⟩

/-- The record of an open function is not closed yet. -/
theorem record_open {f : OpenFunction} (hg : Fits held k g) (hf : g.symbols.function = some f) :
    f.record.closed = false := by
  have hplace := hg.place
  rw [hf] at hplace
  cases hp : phase held with
  | before =>
    rw [hp] at hplace
    cases hplace.2.2
  | outside =>
    rw [hp] at hplace
    cases hplace.2.2
  | header =>
    rw [hp] at hplace
    obtain ⟨-, b, f', -, -, -, hf', -, hopen⟩ := hplace
    obtain rfl := Option.some.inj hf'
    exact hopen
  | body blocks =>
    rw [hp] at hplace
    obtain ⟨-, b, f', -, -, hf', -, hopen⟩ := hplace
    obtain rfl := Option.some.inj hf'
    exact hopen

/-- Another table takes the place of the one at hand. -/
theorem withSymbols {symbols : SymbolTable} (taken : Nat) (hg : Fits held (k + taken) g)
    (h : g.symbols.Follows taken symbols) : Fits held k (g.withSymbols symbols) :=
  move taken [] hg hg.stacked rfl ⟨rfl, rfl, rfl, rfl⟩ rfl rfl h

/-- Storage is declared, or its declaration is reported. -/
theorem declareStorage (hg : Fits held k g) (x : String) (ty : Ty) (words line : Nat) :
    ∃ g', Does (Gen.declareStorage x ty words line) g 0 () g' 0 ∧ Fits held k g' := by
  cases hdup : g.symbols.current.contains x with
  | true => exact ⟨_, does_declareStorage_duplicate hdup, hg.report _ _⟩
  | false =>
    cases hroom : g.symbols.hasRoom words with
    | false =>
      exact ⟨_, does_declareStorage_tooLarge hdup hroom,
        withSymbols 0 (hg.report line (.tooLarge x)) (.insert _ _)⟩
    | true =>
      cases hf : g.symbols.function with
      | none =>
        exact ⟨_, does_declareStorage (SymbolTable.declare_global hf hdup hroom),
          withSymbols 0 hg (.declareGlobal hf hroom)⟩
      | some f =>
        exact ⟨_, does_declareStorage (SymbolTable.declare_local hf (hg.record_open hf) hdup hroom),
          withSymbols 0 hg (.declareLocal hf hroom)⟩

theorem reportVoid (hg : Fits held k g) (ty : Ty) (x : String) (line : Nat) :
    Fits held k (g.reportVoid ty x line) := by
  rw [Generator.reportVoid]
  split
  · exact hg.report _ _
  · exact hg

/-- The name and the type of a declaration come off the stack. -/
theorem dropDeclared {x : String} {ty : Ty} {rest : List StackValue}
    (hg : Fits (.name :: .type :: held) k g) (hstack : g.stack = .name x :: .type ty :: rest)
    (hs : Stacked held rest g.argCounts g.breaks) : Fits held k (g.withStack rest) := by
  refine move 0 [] hg hs rfl ⟨rfl, rfl, rfl, rfl⟩ ?_ rfl (.refl _)
  simp [Generator.holes, Generator.withStack, hstack, List.filterMap_cons]

theorem declareVariable (hg : Fits (.name :: .type :: held) k g) :
    Leads g ⟨.declareVariable, t⟩ held k := by
  obtain ⟨x, _, hstack, hs₁⟩ := hg.stacked.name_inv
  obtain ⟨ty, rest, rfl, hs⟩ := hs₁.type_inv
  have hdrop := (hg.dropDeclared hstack hs).reportVoid ty x t.line
  obtain ⟨g', hdo, hfits⟩ := hdrop.declareStorage x ty.orInt 1 t.line
  exact ⟨g', Does.declareVariable hstack hdo, hfits⟩

theorem declareArray (hg : Fits (.number :: .name :: .type :: held) k g) :
    Leads g ⟨.declareArray, t⟩ held k := by
  obtain ⟨size, _, hstack, hs₁⟩ := hg.stacked.number_inv
  obtain ⟨x, _, rfl, hs₂⟩ := hs₁.name_inv
  obtain ⟨ty, rest, rfl, hs⟩ := hs₂.type_inv
  have hdrop := ((hg.operand_of_number.dropOperand hstack rfl hs₁).dropDeclared rfl hs).reportVoid
    ty x t.line
  obtain ⟨g', hdo, hfits⟩ := hdrop.declareStorage x ty.orInt.arrayOf size.toInt.toNat t.line
  exact ⟨g', Does.declareArray hstack rfl hdo, hfits⟩

theorem addParameter (byReference : Bool) (hg : Fits (.name :: .type :: .header :: held) (k + 1) g) :
    ∃ g', Does (Gen.addParameter t byReference) g 0 () g' 0 ∧ Fits (.header :: held) k g' := by
  obtain ⟨x, _, hstack, hs₁⟩ := hg.stacked.name_inv
  obtain ⟨ty, rest, rfl, hs⟩ := hs₁.type_inv
  have hdrop := (hg.dropDeclared hstack hs).reportVoid ty x t.line
  obtain ⟨-, b, f, -, -, -, hf, hblocks, hopen⟩ := hg.place
  have hroom : f.record.HasRoom 1 := by
    have hr := hg.room
    rw [hf] at hr
    exact hr.hasRoom hopen
  have hempty : f.blocks = [] := List.length_eq_zero_iff.mp hblocks
  have hfollows : ∀ globals params outer, g.symbols.Follows 1
      { g.symbols with globals, function := some { f.grow 1 with params, outer } } := by
    intro globals params outer
    refine ⟨id, fun h => ?_, fun f' hf' => ?_⟩
    · rw [hf] at h
      cases h
    · obtain rfl := Option.some.inj (hf.symm.trans hf')
      exact ⟨_, rfl, rfl, rfl, .inl (Nat.le_refl _)⟩
  cases hdup : f.outer.contains x with
  | false =>
    refine ⟨_, does_addParameter hstack (SymbolTable.addParameter_fresh hf hempty hroom hdup),
      withSymbols 1 hdrop ?_⟩
    rw [Generator.reportVoid_symbols]
    exact hfollows _ _ _
  | true =>
    refine ⟨_, does_addParameter_duplicate hstack
      (SymbolTable.addParameter_duplicate hf hempty hroom hdup),
      report (withSymbols 1 hdrop ?_) _ _⟩
    rw [Generator.reportVoid_symbols]
    exact hfollows _ _ _

/-! ### Functions -/

theorem declareFunction (hg : Fits [.name, .type, .program] k g) :
    Leads g ⟨.declareFunction, t⟩ [.header, .program] k := by
  obtain ⟨x, _, hstack, hs₁⟩ := hg.stacked.name_inv
  obtain ⟨ty, rest, rfl, hs⟩ := hs₁.type_inv
  obtain ⟨hstart, hbody, hf⟩ := hg.place
  have hopened : ∀ globals registered, Fits [.header, .program] k
      { g with
        stack := rest
        symbols := { g.symbols with
          globals, function := some { name := x, entry := g.code.pc, registered } }
        body := some { name := x } } := by
    intro globals registered
    refine { stacked := .header hs, sound := hg.sound, slots := hg.slots, data := hg.data,
             frames := hg.frames, place := ?_, waits := ?_, room := ?_ }
    · exact ⟨hstart, _, _, rfl, rfl, rfl, rfl, rfl, rfl⟩
    · have hwaits := hg.waits
      simp only [Generator.holes, hstack, hbody] at hwaits ⊢
      simpa [List.filterMap_cons, Body.holes] using hwaits
    · refine ⟨hg.room.1, fun f' hf' => ?_⟩
      obtain rfl := Option.some.inj hf'
      have hk := hg.room.1
      simp only [Word.size, declaredLimit, maxWords, Record.header] at hk ⊢
      omega
  cases hdup : g.symbols.globals.contains x with
  | false =>
    exact ⟨_, performs_declareFunction hstack hbody
      (SymbolTable.openFunction_fresh hf hdup g.code.pc), hopened _ _⟩
  | true =>
    exact ⟨_, performs_declareFunction_duplicate hstack hbody
      (SymbolTable.openFunction_duplicate hf hdup g.code.pc), (hopened _ _).report _ _⟩

theorem beginFunction (hg : Fits [.header, .program] k g) :
    Leads g ⟨.beginFunction, t⟩ [.body, .program] k := by
  obtain ⟨hstart, b, f, hb, hprologue, hreturns, hf, hblocks, hopen⟩ := hg.place
  refine ⟨_, performs_beginFunction hb hg.slots, ?_⟩
  refine { stacked := .body hg.stacked.header_inv, sound := (hg.sound.append _).reserve,
           slots := hg.slots, data := hg.data, room := hg.room, frames := hg.frames,
           place := ⟨hstart, _, f, rfl, rfl, hf, hblocks, hopen⟩, waits := ?_ }
  have hwaits : g.holes.Perm (g.code.append (Fragment.prologue g.layout)).pending := by
    rw [Store.pending_append]
    exact hg.waits
  have hnew := Store.reserve_perm hwaits
  rw [Store.pc_append] at hnew
  refine List.Perm.trans (List.perm_iff_count.mpr fun pc => ?_) hnew
  simp only [Generator.holes, hb, Option.map_some, Option.getD_some, Body.holes, hprologue,
    Option.toList_none, Option.toList_some, List.map_append, List.count_append, List.map_cons,
    List.map_nil, List.count_cons, List.count_nil]
  omega

theorem endFunction (hg : Fits [.body, .program] k g) :
    Leads g ⟨.endFunction, t⟩ [.program] k := by
  obtain ⟨hstart, b, f, hb, hprologue, hf, hblocks, hopen⟩ := hg.place
  obtain ⟨hole, hhole⟩ := Option.isSome_iff_exists.mp hprologue
  have hwaits : (hole.pc :: (b.returns.map (·.pc) ++ ({ g with body := none } : Generator).holes)).Perm
      g.code.pending := by
    refine List.Perm.trans (List.perm_iff_count.mpr fun pc => ?_) hg.waits
    simp only [Generator.holes, hb, Option.map_some, Option.map_none, Option.getD_some,
      Option.getD_none, Body.holes, hhole, Option.toList_some, List.map_append,
      List.count_append, List.map_cons, List.map_nil, List.count_cons, List.count_nil]
    omega
  obtain ⟨code, hfill, hrest, hsound⟩ :=
    Store.fill_of_perm (Fragment.moveStack g.layout f.record.size) hg.sound hwaits
  obtain ⟨code', hreturns, hrest', hsound'⟩ :=
    Store.fillAll_of_perm (.jump g.code.pc) hsound hrest
  refine ⟨_, performs_endFunction hb hhole hf (List.length_eq_zero_iff.mp hblocks) hopen hfill
    hreturns hg.slots, ?_⟩
  refine { stacked := hg.stacked.body_inv, sound := hsound'.append _, slots := hg.slots,
           data := hg.data, place := ⟨hstart, rfl, rfl⟩, waits := ?_, room := ?_, frames := ?_ }
  · rw [Store.pending_append]
    exact hrest'
  · exact ⟨hg.room.1, fun f' hf' => by cases hf'⟩
  · intro frame hframe
    rcases Array.mem_push.mp hframe with hold | rfl
    · exact hg.frames frame hold
    · have hroom := hg.room.2 f hf
      simp only [OpenFunction.frame, Word.size, declaredLimit, maxWords, addressLimit] at hroom ⊢
      omega

theorem scopeUp (hin : Inside held) (hg : Fits held k g) :
    Leads g ⟨.scopeUp, t⟩ (.block :: held) k := by
  obtain ⟨blocks, hphase⟩ := hin
  have hplace := hg.place
  rw [hphase] at hplace
  obtain ⟨hstart, b, f, hb, hprologue, hf, hblocks, hopen⟩ := hplace
  refine ⟨_, performs_scopeUp (SymbolTable.openBlock_eq hf), ?_⟩
  refine { hg with stacked := .block hg.stacked, place := ?_, room := ?_ }
  · rw [phase, hphase]
    exact ⟨hstart, b, _, hb, hprologue, rfl, by simpa using hblocks, hopen⟩
  · refine ⟨hg.room.1, fun f' hf' => ?_⟩
    obtain rfl := Option.some.inj hf'
    exact hg.room.2 f hf

theorem scopeDown (hin : Inside held) (hg : Fits (.block :: held) k g) :
    Leads g ⟨.scopeDown, t⟩ held k := by
  obtain ⟨blocks, hphase⟩ := hin
  have hplace := hg.place
  rw [phase, hphase] at hplace
  obtain ⟨hstart, b, f, hb, hprologue, hf, hblocks, hopen⟩ := hplace
  obtain ⟨block, rest, hcons⟩ := List.exists_cons_of_length_eq_add_one hblocks
  refine ⟨_, performs_scopeDown (SymbolTable.closeBlock_eq hf hcons), ?_⟩
  refine { hg with stacked := hg.stacked.block_inv, place := ?_, room := ?_ }
  · rw [hphase]
    exact ⟨hstart, b, _, hb, hprologue, rfl, by simpa [hcons] using hblocks, hopen⟩
  · refine ⟨hg.room.1, fun f' hf' => ?_⟩
    obtain rfl := Option.some.inj hf'
    exact hg.room.2 f hf

/-! ### Programs -/

theorem beginProgram (hg : Fits [] k g) : Leads g ⟨.beginProgram, t⟩ [.program] k := by
  obtain ⟨hstart, hbody, hf⟩ := hg.place
  refine ⟨_, performs_beginProgram hstart, ?_⟩
  refine { hg with stacked := .program hg.stacked, sound := hg.sound.reserve,
                   place := ⟨rfl, hbody, hf⟩, waits := ?_ }
  refine List.Perm.trans (List.perm_iff_count.mpr fun pc => ?_) (Store.reserve_perm hg.waits)
  simp only [Generator.holes, hstart, Option.toList_none, Option.toList_some, List.map_append,
    List.count_append, List.map_cons, List.map_nil, List.count_cons, List.count_nil]
  omega

theorem endProgram (hg : Fits [.program] k g) : Leads g ⟨.endProgram, t⟩ [] k := by
  obtain ⟨hsome, hbody, hf⟩ := hg.place
  obtain ⟨hole, hstart⟩ := Option.isSome_iff_exists.mp hsome
  have hfilled : ∀ is, ∃ code, (g.code.append is).fill hole (.jump g.code.pc) = .ok code ∧
      Fits [] k { g with start := none, code } := by
    intro is
    have hwaits : (hole.pc :: ({ g with start := none } : Generator).holes).Perm
        (g.code.append is).pending := by
      rw [Store.pending_append]
      refine List.Perm.trans (List.perm_iff_count.mpr fun pc => ?_) hg.waits
      simp only [Generator.holes, hstart, Option.toList_none, Option.toList_some,
        List.map_append, List.count_append, List.map_cons, List.map_nil, List.count_cons,
        List.count_nil]
      omega
    obtain ⟨code, hfill, hrest, hsound⟩ :=
      Store.fill_of_perm (.jump g.code.pc) (hg.sound.append is) hwaits
    exact ⟨code, hfill, { hg with
      stacked := hg.stacked.program_inv, sound := hsound, waits := hrest
      place := ⟨rfl, hbody, hf⟩ }⟩
  cases hmain : (g.symbols.find? "main").filter isMain with
  | some main =>
    obtain ⟨code, hfill, hfits⟩ :=
      hfilled (Fragment.start g.layout g.symbols.dataEnd g.code.pc main.value)
    exact ⟨_, performs_endProgram hf hstart hmain hfill hg.slots, hfits⟩
  | none =>
    obtain ⟨code, hfill, hfits⟩ := hfilled []
    exact ⟨_, performs_endProgram_noMain hf hstart hmain hfill, hfits.report _ _⟩

end Fits

/-- A step that has a rule is performed, and the state after it fits. -/
theorem Step.Turns.leads {step : Step} {held held' : List Held} {k : Nat} {g : Generator}
    (h : step.Turns held held') (hg : Fits held (k + step.action.words) g) :
    Fits.Leads g step held' k := by
  cases h with
  | beginProgram => exact hg.beginProgram
  | pushType _ hty => exact hg.pushType hty
  | pushName => exact hg.pushName
  | declareVariable => exact hg.declareVariable
  | declareArray => exact hg.declareArray
  | declareFunction => exact hg.declareFunction
  | addParameter =>
    obtain ⟨g', hdo, hfits⟩ := Fits.addParameter false hg
    exact ⟨g', Gen.Does.performs 0 hdo, hfits⟩
  | addArrayParameter =>
    obtain ⟨g', hdo, hfits⟩ := Fits.addParameter true hg
    exact ⟨g', Gen.Does.performs 0 hdo, hfits⟩
  | beginFunction => exact hg.beginFunction
  | endFunction => exact hg.endFunction
  | scopeUp hin => exact hg.scopeUp hin
  | scopeDown hin => exact hg.scopeDown hin
  | pushIdentifier => exact hg.pushIdentifier
  | pushNumber => exact hg.pushNumber
  | pushOperator _ hop => exact hg.pushOperator hop
  | computeBinary hin => exact Fits.computeBinary hin hg
  | assign => exact hg.assign
  | indexArray hin => exact Fits.indexArray hin hg
  | popExpression => exact hg.popExpression
  | pushArgCount => exact hg.pushArgCount
  | incrementArgCount => exact hg.incrementArgCount
  | call hin => exact Fits.call hin hg
  | reserveJumpSlot => exact hg.reserveJumpSlot
  | startElse => exact hg.startElse
  | endElse => exact hg.endElse
  | endBranch => exact hg.endBranch
  | openBreaks => exact hg.openBreaks
  | startLoop => exact hg.startLoop
  | repeatLoop => exact hg.repeatLoop
  | closeBreaks => exact hg.closeBreaks
  | registerBreak => exact hg.registerBreak
  | storeReturnValue => exact hg.storeReturnValue
  | markReturn hin => exact hg.markReturn hin

end OnePass
