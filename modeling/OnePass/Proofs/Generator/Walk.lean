import OnePass.Proofs.Symbol.Faults

/-!
# Judging every action

Much of what is known of actions holds of the few operations they are put together from, and is
handed on by the way they are put together. Such a judgement `J n n' m` may also follow the scratch
cells: begun with at most `n` of them taken, `m` ends with at most `n'` of them taken.

The rules that a judgement has to obey come in four layers: for what is logged, reported and asked of
the symbol table; for code and scratch cells; for the operand stack; and for slots. Each layer is
enough for the operations that use no more of the state. What comes of all four is
`SlotRules.dispatch`: the judgement holds of every action, with three cells at most. -/

namespace OnePass

/-! ### What operations have in common -/

/-- The event tells of storage, or of a function that is opened. -/
def Event.isStorage : Event → Bool
  | .declared _ _ | .parameterAdded _ | .functionOpened _ _ => true
  | _ => false

/-- The event tells of the store. -/
def Event.isCode : Event → Bool
  | .emitted _ _ | .reserved _ | .filled _ _ => true
  | _ => false

/-- The fault is neither that cells ran out nor that a slot does not wait. -/
def Fault.isOrdinary : Fault → Bool
  | .scratchExhausted _ | .slotNotPending _ => false
  | _ => true

/-- The symbol table knows of no cells and no slots. -/
theorem Fault.isOrdinary_of_not_isForeign {fault : Fault} (h : ¬ fault.IsForeign) :
    fault.isOrdinary = true := by
  cases fault with
  | scratchExhausted cells => exact absurd rfl h
  | slotNotPending pc => exact absurd rfl h
  | _ => rfl

/-- The value has a slot to fill. -/
def StackValue.isOpen : StackValue → Bool
  | .slot _ | .branch _ _ => true
  | _ => false

/-- The actions that never find a mistake. -/
def Action.isSilent : Action → Bool
  | .beginProgram | .pushType | .pushName | .scopeUp | .scopeDown | .pushOperator | .popExpression
  | .emitCondJumpAndReserveNext | .patchJumpToHere | .patchCondJumpToHere | .labelHere
  | .pushBreakScope | .closeBreakScope | .beginFunction | .endFunction | .markReturn
  | .pushArgCount | .incrementArgCount => true
  | _ => false

/-- The actions that have to do with slots, or with where they are kept. -/
def Action.usesSlots : Action → Bool
  | .beginProgram | .endProgram | .declareFunction | .reserveJumpSlot
  | .emitCondJumpAndReserveNext | .patchJumpToHere | .patchCondJumpToHere | .pushBreakScope
  | .registerBreak | .closeBreakScope | .beginFunction | .endFunction | .markReturn => true
  | _ => false

/-! ### Requests -/

/-- The requests that the generator makes at any time. What is no array has one word. -/
inductive Request.Known : {ε α : Type} → Request ε α → Prop
  | declare {x ty words} : words = 1 ∨ (∃ element : Ty, ty = element.arrayOf) →
      Known (.declare x ty words)
  | openFunction {x ty entry} : Known (.openFunction x ty entry)
  | addParameter {x ty} : Known (.addParameter x ty)
  | openBlock : Known .openBlock
  | closeBlock : Known .closeBlock
  | newTemporary {indexed} : Known (.newTemporary indexed)
  | closeFunction : Known .closeFunction

namespace Request

/-- Such a request writes no event about the store, and is spared some failures. -/
structure Proper {ε α : Type} (blames : ε → Prop) (r : Request ε α) : Prop where
  known : r.Known
  quiet : ∀ outcome, ∀ e ∈ r.events outcome, e.isCode = false
  spares : TableM.Spares blames r.operation

variable {ε α : Type}

theorem quiet_onSuccess {event : α → Event} (h : ∀ a, (event a).isCode = false) :
    ∀ outcome : Except ε α, ∀ e ∈ onSuccess event outcome, e.isCode = false
  | .ok a, e, he => by
    obtain rfl := List.mem_singleton.mp he
    exact h a
  | .error _, e, he => by cases he

namespace Proper

theorem declare {ty : Ty} {words : Nat} (h : words = 1 ∨ ∃ element : Ty, ty = element.arrayOf)
    (name : String) : Proper SymbolError.IsForeign (.declare name ty words) :=
  ⟨.declare h, quiet_onSuccess fun _ => rfl, .declare name ty words⟩

theorem addParameter (name : String) (ty : Ty) :
    Proper SymbolError.IsForeign (.addParameter name ty) :=
  ⟨.addParameter, quiet_onSuccess fun _ => rfl, .addParameter name ty⟩

theorem openFunction (name : String) (ty : Ty) (entry : Nat) :
    Proper SymbolError.IsForeign (.openFunction name ty entry) := by
  refine ⟨.openFunction, fun outcome e he => ?_, .openFunction name ty entry⟩
  simp only [Request.openFunction] at he
  split at he
  · cases he
  · obtain rfl := List.mem_singleton.mp he
    rfl

theorem newTemporary (indexed : Bool) : Proper Fault.IsForeign (.newTemporary indexed) :=
  ⟨.newTemporary, quiet_onSuccess fun _ => rfl, .newTemporary indexed⟩

theorem closeFunction : Proper Fault.IsForeign .closeFunction :=
  ⟨.closeFunction, quiet_onSuccess fun _ => rfl, .closeFunction⟩

theorem openBlock : Proper Fault.IsForeign .openBlock :=
  ⟨.openBlock, fun _ _ he => (nomatch he), .openBlock⟩

theorem closeBlock : Proper Fault.IsForeign .closeBlock :=
  ⟨.closeBlock, fun _ _ he => (nomatch he), .closeBlock⟩

end Proper

end Request

namespace Gen

variable {α β : Type} {line n n' : Nat}

/-! ### Mistakes and the symbol table -/

/-- A judgement can be put together, and holds of what is logged, reported at a line, and asked of
    the symbol table. -/
structure Rules (J : {α : Type} → Nat → Nat → Gen α → Prop) (line : Nat) : Prop where
  pure {α : Type} {n : Nat} {a : α} : J n n (pure a)
  throw {α : Type} {n n' : Nat} {fault : Fault} : fault.isOrdinary = true →
    J n n' (throw fault : Gen α)
  bind {α β : Type} {n k n' : Nat} {m : Gen α} {f : α → Gen β} : J n k m →
    (∀ a, J k n' (f a)) → J n n' (m >>= f)
  get {β : Type} {n n' : Nat} {f : Generator → Gen β} : (∀ g, J n n' (f g)) → J n n' (get >>= f)
  /-- Fewer cells may be taken before, and more may be allowed after. -/
  mono {α : Type} {n n' k k' : Nat} {m : Gen α} : J n n' m → k ≤ n → n' ≤ k' → J k k' m
  log {n : Nat} {e : Event} : e.isStorage = false → e.isCode = false → J n n (log e)
  report {n : Nat} {cause : Diagnostic.Cause} : J n n (report line cause)
  request {α β : Type} {n n' : Nat} {r : Request SymbolError α}
    {f : Except SymbolError α → Gen β} : r.Proper SymbolError.IsForeign →
    (∀ outcome, (∀ e, outcome = .error e → ¬ e.IsForeign) → J n n' (f outcome)) →
    J n n' (request r >>= f)
  demand {α : Type} {n : Nat} {r : Request Fault α} : r.Proper Fault.IsForeign → J n n (demand r)
  /-- A placeholder is put into the table only after a mistake was recorded. -/
  placeholder {n : Nat} {cause : Diagnostic.Cause} {x : String} :
    J n n (do Gen.report line cause; Gen.demand (.declarePlaceholder x))

variable {J : {α : Type} → Nat → Nat → Gen α → Prop}

namespace Rules

theorem ite (_ : Rules J line) {c : Prop} [Decidable c] {m₁ m₂ : Gen α} (h₁ : J n n' m₁)
    (h₂ : J n n' m₂) : J n n' (if c then m₁ else m₂) := by
  split
  · exact h₁
  · exact h₂

variable (h : Rules J line)

include h

theorem upTo {m : Gen α} {k : Nat} (hm : J n n' m) (hk : n' ≤ k) : J n k m :=
  h.mono hm n.le_refl hk

theorem forM {f : α → Gen Unit} (hf : ∀ a, J n n (f a)) : ∀ as : List α, J n n (as.forM f)
  | [] => h.pure
  | a :: as => h.bind (hf a) fun _ => forM hf as

theorem pc : J n n pc := h.get fun _ => h.pure

theorem reportRejected : ∀ {e : SymbolError}, ¬ e.IsForeign → J n n (reportRejected line e)
  | .duplicate _, _ => h.report
  | .tooLarge _, _ => h.report
  | .fault fault, hown =>
    h.throw (Fault.isOrdinary_of_not_isForeign fun hforeign => hown ⟨fault, rfl, hforeign⟩)

theorem checkInts (operands : List Symbol) : J n n (checkInts operands line) := by
  rw [Gen.checkInts]
  split
  · exact h.bind h.report fun _ => h.pure
  · exact h.pure

theorem checkNotVoid (ty : Ty) (name : String) : J n n (checkNotVoid ty name line) :=
  h.ite (h.bind h.report fun _ => h.pure) h.pure

theorem declareStorage (name : String) {ty : Ty} {words : Nat}
    (hwords : words = 1 ∨ ∃ element : Ty, ty = element.arrayOf) :
    J n n (declareStorage name ty words line) := by
  refine h.request (.declare hwords name) fun outcome hown => ?_
  split
  · exact h.pure
  · exact h.placeholder
  · exact h.reportRejected (hown _ rfl)

end Rules

/-! ### Code

Whatever a symbol is, its operand takes at most one cell. -/

/-- A judgement holds also of what appends code and takes scratch cells. -/
structure CodeRules (J : {α : Type} → Nat → Nat → Gen α → Prop) (line : Nat) : Prop
    extends Rules J line where
  emit {n : Nat} {i : Instruction} : J n n (emit i)
  takeScratch {n : Nat} : n < 3 → J n (n + 1) takeScratch
  clearScratch {n : Nat} : J n 0 clearScratch

namespace CodeRules

variable (h : CodeRules J line)

include h

theorem fieldOperand (pointer offset : Word) (hn : n < 3) :
    J n (n + 1) (fieldOperand pointer offset) :=
  h.ite (h.upTo h.pure n.le_succ) <| h.bind (h.takeScratch hn) fun _ => h.bind h.emit fun _ => h.pure

theorem cellOperand (s : Symbol) (hn : n < 3) : J n (n + 1) (cellOperand s) :=
  h.ite (h.upTo h.pure n.le_succ) (h.get fun _ => h.fieldOperand _ _ hn)

theorem throughCell : ∀ operand : Operand, J n n (throughCell operand)
  | .indirect _ => h.bind h.emit fun _ => h.pure
  | .direct _ => h.pure
  | .immediate _ => h.throw rfl

theorem scalarOperand (s : Symbol) (hn : n < 3) : J n (n + 1) (scalarOperand s) :=
  h.ite (h.upTo h.pure n.le_succ)
    (h.bind (h.cellOperand s hn) fun _ => h.ite (h.throughCell _) h.pure)

theorem baseOperand (s : Symbol) (hn : n < 3) : J n (n + 1) (baseOperand s) := by
  have harray : J n (n + 1) (do
      if s.isGlobal then return Operand.immediate s.value
      let scratch ← Gen.takeScratch
      Gen.emit (.add (.direct (← MonadState.get).layout.framePointer) (.immediate s.value)
        (.direct scratch))
      return .direct scratch) :=
    h.ite (h.upTo h.pure n.le_succ)
      (h.bind (h.takeScratch hn) fun _ => h.get fun _ => h.bind h.emit fun _ => h.pure)
  rw [Gen.baseOperand]
  split
  · exact harray
  · exact harray
  · exact h.cellOperand s hn

theorem valueOperand (s : Symbol) (hn : n < 3) : J n (n + 1) (valueOperand s) :=
  h.bind (h.ite (h.upTo h.pure n.le_succ) (h.bind h.pc fun _ =>
    h.bind (h.scalarOperand s hn) fun _ => h.bind h.pc fun _ =>
    h.bind (h.log rfl rfl) fun _ => h.pure)) fun _ => h.pure

theorem resolveReference (s : Symbol) (hn : n < 3) : J n (n + 1) (resolveReference s) :=
  h.ite (h.upTo h.pure n.le_succ) (h.bind h.pc fun _ => h.bind (h.baseOperand s hn) fun _ =>
    h.bind h.pc fun _ => h.bind (h.log rfl rfl) fun _ => h.pure)

/-- The cells of one argument are given back before the next. -/
theorem passArgument (parameter : Ty) (arg : Symbol) (index : Nat) :
    J n 2 (passArgument parameter arg index) := by
  have hplace : ∀ value, J 1 2 (do
      let place ← headerOperand (← MonadState.get).layout.stackPointer
        (Record.header + Word.size * index)
      Gen.emit (.assign value place)) :=
    fun _ => h.get fun _ => h.bind (h.fieldOperand _ _ (by decide)) fun _ => h.emit
  refine h.bind h.clearScratch fun _ => ?_
  split
  · exact h.bind (h.resolveReference _ (by decide)) fun _ => h.bind h.pure hplace
  · exact h.bind (h.valueOperand _ (by decide)) hplace

theorem jumpToCallee (entry : Word) (hn : n < 3) : J n (n + 1) (jumpToCallee entry) :=
  h.get fun _ => h.bind (h.fieldOperand _ _ hn) fun _ => h.bind h.pc fun _ =>
    h.bind h.emit fun _ => h.bind h.emit fun _ => h.pure

/-- Two saved pointers and the return address are reached through a cell each. -/
theorem emitEpilogue : J 0 3 emitEpilogue :=
  h.get fun _ => h.bind (h.fieldOperand _ _ (by decide)) fun _ => h.bind h.emit fun _ =>
    h.bind (h.fieldOperand _ _ (by decide)) fun _ => h.bind h.emit fun _ =>
    h.bind (h.takeScratch (by decide)) fun _ => h.bind h.emit fun _ => h.bind h.emit fun _ => h.emit

theorem emitStart (entry : Word) (hn : n < 3) : J n (n + 1) (emitStart entry) :=
  h.get fun _ => h.get fun _ => h.bind h.emit fun _ => h.bind h.emit fun _ =>
    h.bind (h.fieldOperand _ _ hn) fun _ => h.bind h.pc fun _ => h.bind h.emit fun _ => h.emit

end CodeRules

/-! ### The operand stack -/

/-- A judgement holds also of what puts values without a slot on the stack, takes values off it, and
    counts arguments. -/
structure StackRules (J : {α : Type} → Nat → Nat → Gen α → Prop) (line : Nat) : Prop
    extends CodeRules J line where
  push {n : Nat} {value : StackValue} : value.isOpen = false → J n n (push value)
  pop {n : Nat} : J n n pop
  count {n : Nat} {counts : Generator → List Nat} :
    J n n (modify fun g => { g with argCounts := counts g })

namespace StackRules

section
variable (h : StackRules J line)

include h

theorem popSymbol : J n n popSymbol := by
  refine h.bind h.pop fun value => ?_
  split
  · exact h.pure
  · exact h.pure
  · exact h.throw rfl

theorem popName : J n n popName := by
  refine h.bind h.pop fun value => ?_
  split
  · exact h.pure
  · exact h.throw rfl

theorem popType : J n n popType := by
  refine h.bind h.pop fun value => ?_
  split
  · exact h.pure
  · exact h.throw rfl

theorem popOperator : J n n popOperator := by
  refine h.bind h.pop fun value => ?_
  split
  · exact h.pure
  · exact h.throw rfl

theorem popLabel : J n n popLabel := by
  refine h.bind h.pop fun value => ?_
  split
  · exact h.pure
  · exact h.throw rfl

theorem popSymbols : ∀ count, J n n (popSymbols count)
  | 0 => h.pure
  | count + 1 => h.bind h.popSymbol fun _ => h.bind (popSymbols count) fun _ => h.pure

theorem pushOperator (t : Token) : J n n (pushOperator t) := by
  rw [Gen.pushOperator]
  split
  · exact h.push rfl
  · exact h.throw rfl

theorem pushType (t : Token) : J n n (pushType t) := by
  rw [Gen.pushType]
  split
  · exact h.push rfl
  · exact h.throw rfl

theorem startLoop : J n n startLoop := h.bind h.pc fun _ => h.push rfl

theorem incrementArgCount : J n n incrementArgCount := by
  refine h.get fun g => ?_
  split
  · exact h.throw rfl
  · exact h.count

theorem popArgCount : J n n popArgCount := by
  refine h.get fun g => ?_
  split
  · exact h.throw rfl
  · exact h.bind h.count fun _ => h.pure

/-- What stands for the value of a mistake is put on the stack. -/
theorem pushPlaceholder (name : String) :
    J n n (do pushSymbol (.placeholder name); (return () : Gen Unit)) :=
  h.bind (h.push rfl) fun _ => h.pure

theorem callFunction (callee : Symbol) (args : List Symbol) : J 2 1 (callFunction callee args) :=
  h.bind (h.forM (fun _ => h.passArgument _ _ _) _) fun _ => h.bind h.clearScratch fun _ =>
    h.bind (h.jumpToCallee _ (by decide)) fun _ => h.bind (h.log rfl rfl) fun _ =>
    h.ite (h.bind (h.push rfl) fun _ => h.pure) <| h.bind h.clearScratch fun _ =>
    h.bind (h.demand (.newTemporary _)) fun _ => h.bind (h.valueOperand _ (by decide)) fun _ =>
    h.get fun _ => h.bind h.emit fun _ => h.push rfl

theorem callOutput (callee : Symbol) : ∀ args : List Symbol, J 0 1 (callOutput callee args)
  | [] => h.upTo (h.bind h.pure fun _ => h.bind h.emit fun _ => h.push rfl) (Nat.zero_le 1)
  | _ :: _ => h.bind (h.valueOperand _ (by decide)) fun _ => h.bind h.emit fun _ => h.push rfl

/-- A silent action reports nothing, at whatever line. -/
theorem dispatch_silent (t : Token) : ∀ {action : Action}, action.isSilent = true →
    action.usesSlots = false → J 0 3 (dispatch action t)
  | .pushType, _, _ => h.upTo (h.pushType t) (Nat.zero_le 3)
  | .pushName, _, _ => h.upTo (h.push rfl) (Nat.zero_le 3)
  | .scopeUp, _, _ => h.upTo (h.demand .openBlock) (Nat.zero_le 3)
  | .scopeDown, _, _ => h.upTo (h.demand .closeBlock) (Nat.zero_le 3)
  | .pushOperator, _, _ => h.upTo (h.pushOperator t) (Nat.zero_le 3)
  | .popExpression, _, _ => h.upTo (h.bind h.pop fun _ => h.pure) (Nat.zero_le 3)
  | .labelHere, _, _ => h.upTo h.startLoop (Nat.zero_le 3)
  | .pushArgCount, _, _ => h.upTo h.count (Nat.zero_le 3)
  | .incrementArgCount, _, _ => h.upTo h.incrementArgCount (Nat.zero_le 3)

end

variable {t : Token} (h : StackRules J t.line)

include h

theorem pushIdentifier : J n n (pushIdentifier t) := by
  refine h.get fun g => ?_
  split
  · exact h.push rfl
  · exact h.bind h.report fun _ => h.push rfl

theorem pushNumber : J n n (pushNumber t) := by
  rw [Gen.pushNumber]
  split
  · exact h.push rfl
  · exact h.bind h.report fun _ => h.push rfl

/-- Both operands and the result may be in the frame. -/
theorem computeBinary : J 0 3 (computeBinary t) :=
  h.bind h.popSymbol fun _ => h.bind h.popOperator fun _ => h.bind h.popSymbol fun _ =>
    h.bind (h.checkInts _) fun _ => h.ite (h.upTo (h.pushPlaceholder _) (Nat.zero_le 3)) <|
    h.bind (h.demand (.newTemporary _)) fun _ => h.bind (h.valueOperand _ (by decide)) fun _ =>
    h.bind (h.valueOperand _ (by decide)) fun _ => h.bind (h.valueOperand _ (by decide)) fun _ =>
    h.bind h.emit fun _ => h.push rfl

theorem assign : J 0 2 (assign t) :=
  h.bind h.popSymbol fun _ => h.bind h.popSymbol fun _ => h.bind (h.checkInts _) fun _ =>
    h.ite (h.upTo (h.pushPlaceholder _) (Nat.zero_le 2)) <|
    h.bind (h.valueOperand _ (by decide)) fun _ => h.bind (h.valueOperand _ (by decide)) fun _ =>
    h.bind h.emit fun _ => h.push rfl

/-- The index, the temporary for the address and the base of the array may be in the frame. -/
theorem indexArray : J 0 3 (indexArray t) := by
  have hplaceholder := fun x => h.upTo (h.pushPlaceholder x) (Nat.zero_le 3)
  refine h.bind h.popSymbol fun _ => h.bind h.popSymbol fun _ => h.ite (hplaceholder _) <|
    h.ite (h.bind h.report fun _ => hplaceholder _) <| h.bind (h.checkInts _) fun _ =>
    h.ite (hplaceholder _) <| h.bind (h.demand (.newTemporary _)) fun _ =>
    h.bind (h.valueOperand _ (by decide)) fun _ => h.bind (h.cellOperand _ (by decide)) fun _ =>
    h.bind h.emit fun _ => h.bind (h.resolveReference _ (by decide)) fun base => ?_
  split
  · exact h.throw rfl
  · exact h.bind h.emit fun _ => h.push rfl

theorem call : J 0 1 (call t) := by
  have hplaceholder := fun x => h.upTo (h.pushPlaceholder x) (Nat.zero_le 1)
  refine h.bind h.popArgCount fun _ => h.bind (h.popSymbols _) fun _ => h.bind h.popSymbol fun _ =>
    h.ite (hplaceholder _) <| h.ite (h.bind h.report fun _ => hplaceholder _) <|
    h.get fun g => ?_
  dsimp only
  split
  · exact h.bind h.report fun _ => h.upTo (h.push rfl) (Nat.zero_le 1)
  · exact h.ite (h.callOutput _ _) (h.mono (h.callFunction _ _) (Nat.zero_le 2) (Nat.le_refl 1))

theorem conditionOperand : J 0 1 (conditionOperand t) :=
  h.bind h.popSymbol fun _ => h.bind (h.checkInts _) fun _ =>
    h.ite (h.upTo h.pure (Nat.zero_le 1)) (h.valueOperand _ (by decide))

theorem repeatLoop : J 0 1 (repeatLoop t) :=
  h.bind h.conditionOperand fun _ => h.bind h.popLabel fun _ => h.emit

theorem storeReturnValue : J 0 2 (storeReturnValue t) :=
  h.bind h.popSymbol fun _ => h.bind (h.checkInts _) fun _ =>
    h.ite (h.upTo h.pure (Nat.zero_le 2)) <| h.bind (h.valueOperand _ (by decide)) fun _ =>
    h.get fun _ => h.bind (h.fieldOperand _ _ (by decide)) fun _ => h.emit

theorem declareVariable : J n n (declareVariable t) :=
  h.bind h.popName fun _ => h.bind h.popType fun _ => h.bind (h.checkNotVoid _ _) fun _ =>
    h.declareStorage _ (.inl rfl)

theorem declareArray : J n n (declareArray t) :=
  h.bind h.popSymbol fun _ => h.bind h.popName fun _ => h.bind h.popType fun _ =>
    h.bind (h.checkNotVoid _ _) fun _ => h.declareStorage _ (.inr ⟨_, rfl⟩)

theorem addParameter (byReference : Bool) : J n n (addParameter t byReference) := by
  refine h.bind h.popName fun _ => h.bind h.popType fun _ => h.bind (h.checkNotVoid _ _) fun _ =>
    h.request (.addParameter _ _) fun outcome hown => ?_
  split
  · exact h.pure
  · exact h.reportRejected (hown _ rfl)

theorem dispatch {action : Action} (hslots : action.usesSlots = false) :
    J 0 3 (dispatch action t) := by
  cases hsilent : action.isSilent with
  | true => exact h.dispatch_silent t hsilent hslots
  | false =>
    match action with
    | .declareVariable => exact h.upTo h.declareVariable (Nat.zero_le 3)
    | .declareArray => exact h.upTo h.declareArray (Nat.zero_le 3)
    | .addParameter => exact h.upTo (h.addParameter _) (Nat.zero_le 3)
    | .addArrayParameter => exact h.upTo (h.addParameter _) (Nat.zero_le 3)
    | .pushIdentifier => exact h.upTo h.pushIdentifier (Nat.zero_le 3)
    | .pushNumber => exact h.upTo h.pushNumber (Nat.zero_le 3)
    | .computeBinary => exact h.computeBinary
    | .assign => exact h.upTo h.assign (by decide)
    | .indexArray => exact h.indexArray
    | .jumpBackIfFalse => exact h.upTo h.repeatLoop (by decide)
    | .storeReturnValue => exact h.upTo h.storeReturnValue (by decide)
    | .call => exact h.upTo h.call (by decide)

end StackRules

/-! ### Slots -/

/-- A judgement holds also of what reserves and fills slots, and keeps track of them. -/
structure SlotRules (J : {α : Type} → Nat → Nat → Gen α → Prop) (line : Nat) : Prop
    extends StackRules J line where
  reserve {n : Nat} : J n n reserve
  fill {n : Nat} {hole : Hole} {i : Instruction} : J n n (fill hole i)
  pushOpen {n : Nat} {value : StackValue} : J n n (Gen.push value)
  change {n : Nat} {f : Generator → Generator} : (∀ g : Generator, (f g).layout = g.layout ∧
    (f g).symbols = g.symbols ∧ (f g).diagnostics = g.diagnostics ∧ (f g).trace = g.trace ∧
    (f g).scratch = g.scratch) → J n n (modify f)

namespace SlotRules

section
variable (h : SlotRules J line)

include h

theorem popSlot : J n n popSlot := by
  refine h.bind h.pop fun value => ?_
  split
  · exact h.pure
  · exact h.throw rfl

theorem popBranch : J n n popBranch := by
  refine h.bind h.pop fun value => ?_
  split
  · exact h.pure
  · exact h.throw rfl

theorem startElse : J n n startElse :=
  h.bind h.popBranch fun _ => h.bind h.reserve fun _ => h.bind h.pc fun _ =>
    h.bind h.fill fun _ => h.pushOpen

theorem endElse : J n n endElse := h.bind h.popSlot fun _ => h.bind h.pc fun _ => h.fill

theorem endBranch : J n n endBranch := h.bind h.popBranch fun _ => h.bind h.pc fun _ => h.fill

theorem closeBreaks : J n n closeBreaks := by
  refine h.get fun g => ?_
  split
  · exact h.throw rfl
  · exact h.bind (h.change fun _ => ⟨rfl, rfl, rfl, rfl, rfl⟩) fun _ => h.bind h.pc fun _ =>
      h.bind (h.log rfl rfl) fun _ => h.forM (fun _ => h.fill) _

theorem markReturn : J n n markReturn := by
  refine h.get fun g => ?_
  split
  · exact h.throw rfl
  · exact h.bind h.reserve fun _ => h.change fun _ => ⟨rfl, rfl, rfl, rfl, rfl⟩

theorem beginProgram : J n n beginProgram :=
  h.get fun _ => h.ite (h.throw rfl) <| h.bind h.reserve fun _ =>
    h.change fun _ => ⟨rfl, rfl, rfl, rfl, rfl⟩

theorem beginFunction : J 0 2 beginFunction :=
  h.get fun _ => h.ite (h.throw rfl) <| h.get fun _ =>
    h.bind (h.fieldOperand _ _ (by decide)) fun _ => h.bind h.emit fun _ =>
    h.bind (h.fieldOperand _ _ (by decide)) fun _ => h.bind h.emit fun _ =>
    h.bind h.emit fun _ => h.bind h.reserve fun _ => h.change fun _ => ⟨rfl, rfl, rfl, rfl, rfl⟩

theorem endFunction : J 0 3 endFunction := by
  refine h.get fun g => ?_
  split
  · exact h.throw rfl
  · refine h.bind (h.change fun _ => ⟨rfl, rfl, rfl, rfl, rfl⟩) fun _ =>
      h.bind (h.demand .closeFunction) fun closed => ?_
    split
    · exact h.throw rfl
    · exact h.get fun _ => h.bind h.fill fun _ => h.bind h.pc fun _ =>
        h.bind (h.forM (fun _ => h.fill) _) fun _ => h.bind h.emitEpilogue fun _ =>
        h.bind (h.log rfl rfl) fun _ => h.change fun _ => ⟨rfl, rfl, rfl, rfl, rfl⟩

theorem dispatch_silent (t : Token) {action : Action} (hsilent : action.isSilent = true) :
    J 0 3 (dispatch action t) := by
  cases hslots : action.usesSlots with
  | false => exact h.toStackRules.dispatch_silent t hsilent hslots
  | true =>
    match action with
    | .beginProgram => exact h.upTo h.beginProgram (Nat.zero_le 3)
    | .emitCondJumpAndReserveNext => exact h.upTo h.startElse (Nat.zero_le 3)
    | .patchJumpToHere => exact h.upTo h.endElse (Nat.zero_le 3)
    | .patchCondJumpToHere => exact h.upTo h.endBranch (Nat.zero_le 3)
    | .pushBreakScope =>
      exact h.upTo (h.change fun _ => ⟨rfl, rfl, rfl, rfl, rfl⟩) (Nat.zero_le 3)
    | .closeBreakScope => exact h.upTo h.closeBreaks (Nat.zero_le 3)
    | .beginFunction => exact h.upTo h.beginFunction (by decide)
    | .endFunction => exact h.endFunction
    | .markReturn => exact h.upTo h.markReturn (Nat.zero_le 3)

/-- A step starts with all cells free, however many an earlier one took. -/
theorem perform_silent {step : Step} (hsilent : step.action.isSilent = true) :
    J n 3 (perform step) :=
  h.bind h.clearScratch fun _ => h.get fun _ => h.bind (h.log rfl rfl) fun _ =>
    h.dispatch_silent step.token hsilent

end

variable {t : Token} (h : SlotRules J t.line)

include h

theorem reserveBranch : J 0 1 (reserveBranch t) :=
  h.bind h.conditionOperand fun _ => h.bind h.reserve fun _ => h.bind (h.log rfl rfl) fun _ =>
    h.pushOpen

theorem registerBreak : J n n (registerBreak t) := by
  refine h.get fun g => ?_
  split
  · exact h.report
  · exact h.bind h.reserve fun _ => h.change fun _ => ⟨rfl, rfl, rfl, rfl, rfl⟩

theorem declareFunction : J n n (declareFunction t) := by
  refine h.bind h.popName fun _ => h.bind h.popType fun _ => h.get fun _ => h.ite (h.throw rfl) <|
    h.bind h.pc fun _ => h.request (.openFunction _ _ _) fun outcome hown => ?_
  split
  · exact h.bind (h.log rfl rfl) fun _ => h.change fun _ => ⟨rfl, rfl, rfl, rfl, rfl⟩
  · exact h.bind (h.reportRejected (hown _ rfl)) fun _ => h.bind (h.log rfl rfl) fun _ =>
      h.change fun _ => ⟨rfl, rfl, rfl, rfl, rfl⟩

theorem endProgram : J 0 1 (endProgram t) := by
  have hend : ∀ start stub, J 1 1 (do
      Gen.fill start (.jump stub)
      let g ← MonadState.get
      Gen.log (.generated g.code.pc g.diagnostics.size g.symbols.dataEnd)) :=
    fun _ _ => h.bind h.fill fun _ => h.get fun _ => h.log rfl rfl
  refine h.get fun g => ?_
  split
  · exact h.throw rfl
  · refine h.get fun g => ?_
    split
    · exact h.throw rfl
    · refine h.bind (h.change fun _ => ⟨rfl, rfl, rfl, rfl, rfl⟩) fun _ => h.bind h.pc fun _ =>
        h.get fun g => ?_
      split
      · exact h.bind (h.emitStart _ (by decide)) fun _ => hend _ _
      · exact h.bind (h.mono h.report (Nat.zero_le 1) (Nat.le_refl 1)) fun _ => hend _ _

/-- Three cells are enough for every action, and every action reports at the line of its token. -/
theorem dispatch (action : Action) : J 0 3 (dispatch action t) := by
  cases hslots : action.usesSlots with
  | false => exact h.toStackRules.dispatch hslots
  | true =>
    cases hsilent : action.isSilent with
    | true => exact h.dispatch_silent t hsilent
    | false =>
      match action with
      | .endProgram => exact h.upTo h.endProgram (by decide)
      | .declareFunction => exact h.upTo h.declareFunction (Nat.zero_le 3)
      | .reserveJumpSlot => exact h.upTo h.reserveBranch (by decide)
      | .registerBreak => exact h.upTo h.registerBreak (Nat.zero_le 3)

omit h in
/-- A step starts with all cells free, however many an earlier one took. -/
theorem perform {step : Step} (h : SlotRules J step.token.line) : J n 3 (perform step) :=
  h.bind h.clearScratch fun _ => h.get fun _ => h.bind (h.log rfl rfl) fun _ =>
    h.dispatch step.action

end SlotRules

end Gen

end OnePass
