import OnePass.Proofs.Code.Store
import OnePass.Proofs.Generator.Invariant
import OnePass.Proofs.Grammar.Tree

/-!
# What steps leave on the operand stack

What a step that was performed has done to the operand stack, whether the program has mistakes or
not: an expression leaves one value there, a declaration nothing, and neither touches the loops and
the function around it. Code is appended at its end only, so what was there before stays. -/

namespace OnePass

namespace Generator

/-- Calls, loops, the function and the program that are open stay as they are. -/
structure Level (g g' : Generator) : Prop where
  argCounts : g'.argCounts = g.argCounts
  breaks : g'.breaks = g.breaks
  body : g'.body = g.body
  start : g'.start = g.start

theorem Level.refl (g : Generator) : g.Level g := ⟨rfl, rfl, rfl, rfl⟩

theorem Level.trans {g g' g'' : Generator} (h : g.Level g') (h' : g'.Level g'') : g.Level g'' :=
  ⟨h'.argCounts.trans h.argCounts, h'.breaks.trans h.breaks, h'.body.trans h.body,
    h'.start.trans h.start⟩

/-- So many values are taken off the operand stack and so many are put there instead; code may be
    appended. -/
structure Trades (writes : Bool) (taken put : Nat) (g g' : Generator) : Prop
    extends g.Level g' where
  stack : ∃ old new rest, old.length = taken ∧ new.length = put ∧ g.stack = old ++ rest ∧
    g'.stack = new ++ rest
  code : ∃ is, g'.code = g.code.append is ∧ (writes = false → is = [])

namespace Trades

variable {writes : Bool} {m n k : Nat} {g g' g'' : Generator}

theorem refl (g : Generator) : g.Trades writes 0 0 g :=
  ⟨.refl g, ⟨[], [], g.stack, rfl, rfl, rfl, rfl⟩, [], rfl, fun _ => rfl⟩

theorem code_trans (h : g.Trades writes m n g') {m' n' : Nat} (h' : g'.Trades writes m' n' g'') :
    ∃ is, g''.code = g.code.append is ∧ (writes = false → is = []) := by
  obtain ⟨is, his, hnone⟩ := h.code
  obtain ⟨js, hjs, hnone'⟩ := h'.code
  refine ⟨is ++ js, by rw [hjs, his, Store.append_append], fun hw => ?_⟩
  rw [hnone hw, hnone' hw]
  rfl

theorem pc_le (h : g.Trades writes m n g') : g.code.pc ≤ g'.code.pc := by
  obtain ⟨is, his, -⟩ := h.code
  rw [his, Store.pc_append]
  exact Nat.le_add_right _ _

theorem code_eq (h : g.Trades false m n g') : g'.code = g.code := by
  obtain ⟨is, his, hnone⟩ := h.code
  rw [his, hnone rfl, Store.append_nil]

theorem stack_eq (h : g.Trades writes 0 0 g') : g'.stack = g.stack := by
  obtain ⟨old, new, rest, hold, hnew, hs, hs'⟩ := h.stack
  rw [hs, hs', List.eq_nil_of_length_eq_zero hold, List.eq_nil_of_length_eq_zero hnew]

theorem exists_stack_eq (h : g.Trades writes 0 1 g') : ∃ v, g'.stack = v :: g.stack := by
  obtain ⟨old, new, rest, hold, hnew, hs, hs'⟩ := h.stack
  obtain ⟨v, rfl⟩ := List.length_eq_one_iff.mp hnew
  rw [hs, hs', List.eq_nil_of_length_eq_zero hold]
  exact ⟨v, rfl⟩

/-- What takes values off comes first. -/
theorem takes (h : g.Trades writes m 0 g') (h' : g'.Trades writes n k g'') :
    g.Trades writes (n + m) k g'' := by
  refine ⟨h.toLevel.trans h'.toLevel, ?_, h.code_trans h'⟩
  obtain ⟨old, new, rest, hold, hnew, hs, hs'⟩ := h.stack
  obtain ⟨old', new', rest', hold', hnew', ht, ht'⟩ := h'.stack
  refine ⟨old ++ old', new', rest', by rw [List.length_append]; omega, hnew', ?_, ht'⟩
  rw [List.eq_nil_of_length_eq_zero hnew, List.nil_append, ht] at hs'
  rw [hs, ← hs', List.append_assoc]

/-- What leaves the stack alone may come last. -/
theorem calm (h : g.Trades writes m n g') (h' : g'.Trades writes 0 0 g'') :
    g.Trades writes m n g'' := by
  refine ⟨h.toLevel.trans h'.toLevel, ?_, h.code_trans h'⟩
  rw [h'.stack_eq]
  exact h.stack

/-- One value is put on another. -/
theorem puts (h : g.Trades writes 0 m g') (h' : g'.Trades writes 0 n g'') :
    g.Trades writes 0 (n + m) g'' := by
  refine ⟨h.toLevel.trans h'.toLevel, ?_, h.code_trans h'⟩
  obtain ⟨old, new, rest, hold, hnew, hs, hs'⟩ := h.stack
  obtain ⟨old', new', rest', hold', hnew', ht, ht'⟩ := h'.stack
  refine ⟨[], new' ++ new, rest, rfl, by rw [List.length_append]; omega, ?_, ?_⟩
  · rw [hs, List.eq_nil_of_length_eq_zero hold]
  · rw [List.eq_nil_of_length_eq_zero hold', List.nil_append, hs'] at ht
    rw [ht', ← ht, List.append_assoc]

/-- What was put on the stack is taken off again. -/
theorem spends (h : g.Trades writes 0 m g') (h' : g'.Trades writes m n g'') :
    g.Trades writes 0 n g'' := by
  refine ⟨h.toLevel.trans h'.toLevel, ?_, h.code_trans h'⟩
  obtain ⟨old, new, rest, hold, hnew, hs, hs'⟩ := h.stack
  obtain ⟨old', new', rest', hold', hnew', ht, ht'⟩ := h'.stack
  have hsame := List.append_inj (hs'.symm.trans ht) (hnew.trans hold'.symm)
  refine ⟨[], new', rest, rfl, hnew', ?_, hsame.2 ▸ ht'⟩
  rw [hs, List.eq_nil_of_length_eq_zero hold]

end Trades

end Generator

namespace Gen

open Generator

variable {α β : Type} {writes : Bool} {m n k : Nat}

/-- What is known of an operation made of two that ends well. -/
theorem bind_ok {m : Gen α} {f : α → Gen β} {g g'' : Generator} {b : β}
    (h : (m >>= f) g = .ok b g'') : ∃ a g', m g = .ok a g' ∧ f a g' = .ok b g'' := by
  simp only [Bind.bind, EStateM.bind] at h
  split at h
  · exact ⟨_, _, ‹_›, h⟩
  · cases h

/-- An operation that ends well trades so many values for so many. -/
def Trading (writes : Bool) (taken put : Nat) (m : Gen α) : Prop :=
  ∀ g a g', m g = .ok a g' → g.Trades writes taken put g'

namespace Trading

/-! ### Composition -/

theorem of_calm {m : Gen α} (h : Calm writes m) : Trading writes 0 0 m := by
  intro g a g' hrun
  have hlast : Lasting writes (g.Trades writes 0 0) := by
    refine ⟨fun g' _ _ h => { h with }, fun hw g' i h => { h with code := ?_ },
      fun g' _ _ h => { h with }, fun g' _ _ h => { h with }, fun g' _ _ h => { h with },
      fun g' _ _ h => { h with }⟩
    obtain ⟨is, his, -⟩ := h.code
    refine ⟨is ++ [i], by rw [his, Store.emit_append], fun hno => ?_⟩
    rw [hw] at hno
    cases hno
  have hend := h _ hlast g (.refl g)
  rwa [Generator.run, EStateM.run, hrun] at hend

theorem throw {fault : Fault} : Trading writes m n (throw fault : Gen α) := by
  intro g a g' h
  cases h

theorem pure {a : α} : Trading writes 0 0 (pure a) := by
  rintro g _ _ ⟨⟩
  exact .refl g

theorem takes {p : Gen α} {f : α → Gen β} (hp : Trading writes m 0 p)
    (hf : ∀ a, Trading writes n k (f a)) : Trading writes (n + m) k (p >>= f) := by
  intro g b g'' h
  obtain ⟨a, g', hrun, hrest⟩ := bind_ok h
  exact (hp g a g' hrun).takes (hf a g' b g'' hrest)

/-- An operation that leaves the stack alone may come first. -/
theorem calm {p : Gen α} {f : α → Gen β} (hp : Calm writes p) (hf : ∀ a, Trading writes n k (f a)) :
    Trading writes n k (p >>= f) := takes (of_calm hp) hf

theorem last {p : Gen α} {f : α → Gen β} (hp : Trading writes m n p)
    (hf : ∀ a, Trading writes 0 0 (f a)) : Trading writes m n (p >>= f) := by
  intro g b g'' h
  obtain ⟨a, g', hrun, hrest⟩ := bind_ok h
  exact (hp g a g' hrun).calm (hf a g' b g'' hrest)

theorem get {f : Generator → Gen β} (h : ∀ g, Trading writes m n (f g)) :
    Trading writes m n (MonadState.get >>= f) := fun g b g' hrun => h g g b g' hrun

theorem ite {c : Prop} [Decidable c] {p q : Gen α} (hp : Trading writes m n p)
    (hq : Trading writes m n q) : Trading writes m n (if c then p else q) := by
  split
  · exact hp
  · exact hq

/-! ### The operand stack -/

theorem push (v : StackValue) : Trading writes 0 1 (push v) := by
  rintro g _ _ ⟨⟩
  exact ⟨⟨rfl, rfl, rfl, rfl⟩, ⟨[], [v], g.stack, rfl, rfl, rfl, rfl⟩, [], rfl, fun _ => rfl⟩

theorem pop : Trading writes 1 0 pop := by
  intro g v g' h
  cases hstack : g.stack with
  | nil =>
    simp only [Gen.pop, Bind.bind, EStateM.bind, MonadState.get, getThe, MonadStateOf.get,
      EStateM.get, hstack] at h
    cases h
  | cons w rest =>
    simp only [Gen.pop, Bind.bind, EStateM.bind, MonadState.get, getThe, MonadStateOf.get,
      EStateM.get, hstack] at h
    cases h
    exact ⟨⟨rfl, rfl, rfl, rfl⟩, ⟨[v], [], rest, rfl, rfl, hstack, rfl⟩, [], rfl, fun _ => rfl⟩

theorem popSymbol : Trading writes 1 0 popSymbol := by
  refine last pop fun v => ?_
  split
  · exact pure
  · exact pure
  · exact throw

theorem popName : Trading writes 1 0 popName := by
  refine last pop fun v => ?_
  split
  · exact pure
  · exact throw

theorem popType : Trading writes 1 0 popType := by
  refine last pop fun v => ?_
  split
  · exact pure
  · exact throw

theorem popOperator : Trading writes 1 0 popOperator := by
  refine last pop fun v => ?_
  split
  · exact pure
  · exact throw

theorem popSymbols : ∀ count, Trading writes count 0 (popSymbols count)
  | 0 => pure
  | count + 1 => takes popSymbol fun _ => last (popSymbols count) fun _ => pure

/-! ### Expressions -/

/-- A placeholder is put on the stack. -/
theorem pushAndReturn (s : Symbol) :
    Trading writes 0 1 (do pushSymbol s; (return () : Gen Unit)) := last (push _) fun _ => pure

variable (t : Token)

theorem pushIdentifier : Trading writes 0 1 (pushIdentifier t) := by
  refine get fun g => ?_
  split
  · exact push _
  · exact calm (.report _ _) fun _ => push _

theorem pushNumber : Trading writes 0 1 (pushNumber t) := by
  rw [Gen.pushNumber]
  split
  · exact push _
  · exact calm (.report _ _) fun _ => push _

theorem pushOperator : Trading writes 0 1 (pushOperator t) := by
  rw [Gen.pushOperator]
  split
  · exact push _
  · exact throw

theorem computeBinary : Trading true 3 1 (computeBinary t) :=
  takes (n := 2) popSymbol fun _ => takes (n := 1) popOperator fun _ =>
    takes (n := 0) popSymbol fun _ => calm (.checkInts _ _) fun _ => ite (pushAndReturn _) <|
    calm (.demand .newTemporary) fun _ => calm (.valueOperand _) fun _ =>
    calm (.valueOperand _) fun _ => calm (.valueOperand _) fun _ => calm (.emit _) fun _ => push _

theorem assign : Trading true 2 1 (assign t) :=
  takes (n := 1) popSymbol fun _ => takes (n := 0) popSymbol fun _ =>
    calm (.checkInts _ _) fun _ => ite (pushAndReturn _) <| calm (.valueOperand _) fun _ =>
    calm (.valueOperand _) fun _ => calm (.emit _) fun _ => push _

theorem indexArray : Trading true 2 1 (indexArray t) := by
  refine takes (n := 1) popSymbol fun _ => takes (n := 0) popSymbol fun _ =>
    ite (pushAndReturn _) <| ite (calm (.report _ _) fun _ => pushAndReturn _) <|
    calm (.checkInts _ _) fun _ => ite (pushAndReturn _) <| calm (.demand .newTemporary) fun _ =>
    calm (.valueOperand _) fun _ => calm (.cellOperand _) fun _ => calm (.emit _) fun _ =>
    calm (.resolveReference _) fun base => ?_
  split
  · exact throw
  · exact calm (.emit _) fun _ => push _

theorem callFunction (callee : Symbol) (args : List Symbol) :
    Trading true 0 1 (callFunction callee args) :=
  calm (.forM (fun _ => .passArgument _ _ _) _) fun _ => calm .clearScratch fun _ =>
    calm (.jumpToCallee _) fun _ => calm (.log _ rfl) fun _ => ite (pushAndReturn _) <|
    calm .clearScratch fun _ => calm (.demand .newTemporary) fun _ =>
    calm (.valueOperand _) fun _ => get fun _ => calm (.emit _) fun _ => push _

theorem callOutput (callee : Symbol) : ∀ args : List Symbol,
    Trading true 0 1 (callOutput callee args)
  | [] => calm .pure fun _ => calm (.emit _) fun _ => push _
  | _ :: _ => calm (.valueOperand _) fun _ => calm (.emit _) fun _ => push _

/-! ### Statements and declarations -/

theorem popExpression : Trading writes 1 0 (do let _ ← Gen.pop : Gen Unit) :=
  last pop fun _ => pure

theorem conditionOperand : Trading true 1 0 (conditionOperand t) :=
  takes (n := 0) popSymbol fun _ => calm (.checkInts _ _) fun _ =>
    ite pure (of_calm (.valueOperand _))

theorem storeReturnValue : Trading true 1 0 (storeReturnValue t) :=
  takes (n := 0) popSymbol fun _ => calm (.checkInts _ _) fun _ => ite pure <|
    calm (.valueOperand _) fun _ => get fun _ => calm (.fieldOperand _ _) fun _ =>
    of_calm (.emit _)

theorem pushType : Trading writes 0 1 (pushType t) := by
  rw [Gen.pushType]
  split
  · exact push _
  · exact throw

theorem declareVariable : Trading writes 2 0 (declareVariable t) :=
  takes (n := 1) popName fun _ => takes (n := 0) popType fun _ =>
    calm (.checkNotVoid _ _ _) fun _ => of_calm (.declareStorage _ (.inl rfl) _)

theorem declareArray : Trading writes 3 0 (declareArray t) :=
  takes (n := 2) popSymbol fun _ => takes (n := 1) popName fun _ => takes (n := 0) popType fun _ =>
    calm (.checkNotVoid _ _ _) fun _ => of_calm (.declareStorage _ (.inr ⟨_, rfl⟩) _)

theorem addParameter (byReference : Bool) : Trading writes 2 0 (addParameter t byReference) := by
  refine takes (n := 1) popName fun _ => takes (n := 0) popType fun _ =>
    calm (.checkNotVoid _ _ _) fun _ => calm (.request .addParameter) fun outcome => ?_
  split
  · exact pure
  · exact of_calm (.reportRejected _ _)

theorem perform {step : Step} (h : Trading writes m n (dispatch step.action step.token)) :
    Trading writes m n (perform step) :=
  calm .clearScratch fun _ => get fun _ => calm (.log _ rfl) fun _ => h

end Trading

/-! ### Runs of steps -/

/-- Steps were performed, one after the other, and the last of them left a state. -/
def Ran (steps : List Step) (g g' : Generator) : Prop := steps.forM perform g = .ok () g'

section
variable {step : Step} {steps more : List Step} {g g' : Generator}

theorem ran_nil : Ran [] g g' ↔ g' = g := by
  rw [Ran, List.forM_eq_forM, List.forM_nil]
  constructor
  · rintro ⟨⟩
    rfl
  · rintro rfl
    rfl

theorem ran_append : Ran (steps ++ more) g g' ↔ ∃ mid, Ran steps g mid ∧ Ran more mid g' := by
  simp only [Ran, List.forM_eq_forM, List.forM_append]
  constructor
  · intro h
    obtain ⟨_, mid, hmid, hrest⟩ := bind_ok h
    exact ⟨mid, hmid, hrest⟩
  · rintro ⟨mid, hmid, hrest⟩
    simp only [Bind.bind, EStateM.bind, hmid, hrest]

theorem ran_one : Ran [step] g g' ↔ perform step g = .ok () g' := by
  rw [Ran, List.forM_eq_forM, List.forM_cons, List.forM_nil, bind_pure_unit]

theorem ran_cons : Ran (step :: steps) g g' ↔ ∃ mid, perform step g = .ok () mid ∧
    Ran steps mid g' := by
  rw [← List.singleton_append, ran_append]
  simp only [ran_one]

/-- What a step does is what its action does, with all scratch cells free. -/
theorem Ran.dispatch {action : Action} {t : Token} (h : Ran [⟨action, t⟩] g g') :
    ∃ scratch trace, dispatch action t { g with scratch, trace } = .ok () g' :=
  ⟨_, _, ran_one.mp h⟩

theorem Ran.trades {action : Action} {t : Token} (h : Ran [⟨action, t⟩] g g')
    (htrades : Trading writes m n (Gen.dispatch action t)) : g.Trades writes m n g' :=
  Trading.perform htrades _ _ _ (ran_one.mp h)

end

/-! ### Runs from the start -/

section
variable {l : Layout} {steps : List Step} {g g' : Generator}

/-- The pool that a step starts with has the cells of the layout, and all of them are free. -/
theorem Ran.pool (h : Ran steps (Generator.initial l) g) :
    g.layout = l ∧ g.scratch.clear = ScratchPool.ofLayout l := by
  have hstable : Generator.Stable fun g =>
      g.layout = l ∧ g.scratch.clear = ScratchPool.ofLayout l := by
    refine ⟨?_, fun _ _ _ h => h, fun _ _ _ h => h, fun _ _ _ h => h, fun _ _ _ h => h⟩
    rintro g g' ⟨hlayout, -, -, -, hscratch⟩ ⟨hl, hpool⟩
    exact ⟨hlayout.trans hl, hscratch.trans hpool⟩
  have hend := Preserves.performAll steps _ hstable (Generator.initial l) ⟨rfl, rfl⟩
  rwa [Generator.run, EStateM.run, h] at hend

/-- A state is known by how many scratch cells are taken, and by its trace. -/
theorem Ran.eq_taking (h : Ran steps (Generator.initial l) g) :
    g.taking g.scratch.used g.trace = g := by
  obtain ⟨hlayout, hpool⟩ := h.pool
  have hscratch : { ScratchPool.ofLayout g.layout with used := g.scratch.used } = g.scratch := by
    rw [hlayout, ← hpool]
    rfl
  rw [Generator.taking, hscratch]

/-- A step starts with all scratch cells free. -/
theorem Ran.taking {action : Action} {t : Token} (hbefore : Ran steps (Generator.initial l) g)
    (h : Ran [⟨action, t⟩] g g') :
    ∃ trace, Gen.dispatch action t (g.taking 0 trace) = .ok () g' := by
  rw [← hbefore.eq_taking] at h
  exact ⟨_, ran_one.mp h⟩

theorem Ran.ends {more : List Step} (hbefore : Ran steps (Generator.initial l) g)
    (h : Ran more g g') : Ends more g g' :=
  ⟨g.scratch.used, g.trace, by rw [hbefore.eq_taking]; exact h⟩

/-- What is known about steps that were performed. -/
theorem Ran.eq_of_performed {more : List Step} {g₁ : Generator}
    (hbefore : Ran steps (Generator.initial l) g) (h : Ran more g g')
    (hmore : Performed more g g₁) : ∃ n trace, g' = g₁.taking n trace := by
  obtain ⟨n, trace, hrun⟩ := hmore g.scratch.used g.trace
  rw [hbefore.eq_taking, show more.forM perform g = .ok () g' from h] at hrun
  cases hrun
  exact ⟨n, trace, rfl⟩

end

/-! ### Calls -/

theorem incrementArgCount_ok {g g' : Generator} (h : incrementArgCount g = .ok () g') :
    ∃ count rest, g.argCounts = count :: rest ∧
      g' = { g with argCounts := (count + 1) :: rest } := by
  cases hcounts : g.argCounts with
  | nil =>
    simp only [incrementArgCount, Bind.bind, EStateM.bind, MonadState.get, getThe, MonadStateOf.get,
      EStateM.get, hcounts] at h
    cases h
  | cons count rest =>
    simp only [incrementArgCount, Bind.bind, EStateM.bind, MonadState.get, getThe, MonadStateOf.get,
      EStateM.get, hcounts] at h
    cases h
    exact ⟨count, rest, rfl, rfl⟩

theorem popArgCount_ok {g g' : Generator} {count : Nat} (h : popArgCount g = .ok count g') :
    ∃ rest, g.argCounts = count :: rest ∧ g' = { g with argCounts := rest } := by
  cases hcounts : g.argCounts with
  | nil =>
    simp only [popArgCount, Bind.bind, EStateM.bind, MonadState.get, getThe, MonadStateOf.get,
      EStateM.get, hcounts] at h
    cases h
  | cons count rest =>
    simp only [popArgCount, Bind.bind, EStateM.bind, MonadState.get, getThe, MonadStateOf.get,
      EStateM.get, hcounts] at h
    cases h
    exact ⟨rest, rfl, rfl⟩

/-- A call takes its arguments and what is called off the stack, by the number that was counted. -/
theorem call_ok {t : Token} {g g' : Generator} (h : call t g = .ok () g') :
    ∃ count rest, g.argCounts = count :: rest ∧
      ({ g with argCounts := rest } : Generator).Trades true (count + 1) 1 g' := by
  obtain ⟨count, _, hcount, h⟩ := bind_ok h
  obtain ⟨rest, hcounts, rfl⟩ := popArgCount_ok hcount
  refine ⟨count, rest, hcounts, ?_⟩
  rw [Nat.add_comm]
  refine (?_ : Trading true (1 + count) 1 _) _ _ _ h
  refine .takes (.popSymbols count) fun _ => .takes (n := 0) .popSymbol fun _ =>
    .ite (.pushAndReturn _) <| .ite (.calm (.report _ _) fun _ => .pushAndReturn _) <|
    .get fun g => ?_
  dsimp only
  split
  · exact .calm (.report _ _) fun _ => .push _
  · exact .ite (.callOutput _ _) (.callFunction _ _)

end Gen

/-! ### Trees -/

open Gen

/-- Arguments are put on the stack one after the other, and counted. -/
structure Generator.Counts (g g' : Generator) : Prop where
  breaks : g'.breaks = g.breaks
  body : g'.body = g.body
  start : g'.start = g.start
  code : ∃ is, g'.code = g.code.append is
  args : ∃ values, g'.stack = values ++ g.stack ∧ ∀ count rest, g.argCounts = count :: rest →
    g'.argCounts = (count + values.length) :: rest

theorem Generator.Counts.refl (g : Generator) : g.Counts g :=
  ⟨rfl, rfl, rfl, ⟨[], rfl⟩, [], rfl, fun _ _ h => h⟩

theorem Generator.Counts.trans {g g' g'' : Generator} (h : g.Counts g') (h' : g'.Counts g'') :
    g.Counts g'' := by
  refine ⟨h'.breaks.trans h.breaks, h'.body.trans h.body, h'.start.trans h.start, ?_, ?_⟩
  · obtain ⟨is, his⟩ := h.code
    obtain ⟨js, hjs⟩ := h'.code
    exact ⟨is ++ js, by rw [hjs, his, Store.append_append]⟩
  · obtain ⟨values, hstack, hcount⟩ := h.args
    obtain ⟨values', hstack', hcount'⟩ := h'.args
    refine ⟨values' ++ values, by rw [hstack', hstack, List.append_assoc], ?_⟩
    intro count rest hcounts
    rw [hcount' _ _ (hcount count rest hcounts), List.length_append]
    congr 1
    omega

/-- An argument is counted after it was put on the stack. -/
theorem Gen.counts_argument {t : Token} {g mid g' : Generator} (h : g.Trades true 0 1 mid)
    (hcount : Ran [⟨.incrementArgCount, t⟩] mid g') : g.Counts g' := by
  obtain ⟨scratch, trace, hrun⟩ := hcount.dispatch
  obtain ⟨count, rest, hcounts, rfl⟩ := incrementArgCount_ok hrun
  obtain ⟨is, his, -⟩ := h.code
  obtain ⟨v, hv⟩ := h.exists_stack_eq
  refine ⟨h.breaks, h.body, h.start, ⟨is, his⟩, [v], hv, fun count' rest' hcounts' => ?_⟩
  rw [← h.argCounts, hcounts] at hcounts'
  cases hcounts'
  rfl

/-- A call leaves one value in place of what is called and its arguments. -/
theorem Gen.trades_call {t t' : Token} {g g₁ g₂ g₃ g' : Generator} (hcallee : g.Trades true 0 1 g₁)
    (hcount : Ran [⟨.pushArgCount, t⟩] g₁ g₂) (hargs : g₂.Counts g₃)
    (hcall : Ran [⟨.call, t'⟩] g₃ g') : g.Trades true 0 1 g' := by
  obtain ⟨scratch, trace, hrun⟩ := hcount.dispatch
  cases hrun
  obtain ⟨scratch, trace, hrun⟩ := hcall.dispatch
  obtain ⟨count, rest, hcounts, hend⟩ := call_ok hrun
  obtain ⟨values, hstack, hvalues⟩ := hargs.args
  obtain ⟨is, his⟩ := hargs.code
  have hsame := hvalues 0 g₁.argCounts rfl
  rw [hcounts, List.cons.injEq] at hsame
  -- The arguments alone trade nothing for themselves once their number is off again.
  have hmid : g₁.Trades true 0 count { g₃ with argCounts := rest, scratch, trace } := by
    refine ⟨⟨hsame.2, hargs.breaks, hargs.body, hargs.start⟩, ⟨[], values, g₁.stack, rfl, ?_, rfl,
      hstack⟩, is, his, nofun⟩
    rw [hsame.1, Nat.zero_add]
  exact (hcallee.puts hmid).spends hend

mutual

/-- An expression leaves one value. -/
theorem Expr.trades : ∀ (e : Expr) {g g' : Generator}, Ran e.steps g g' → g.Trades true 0 1 g'
  | .num _, _, _, h => h.trades (.pushNumber _)
  | .name _, _, _, h => h.trades (.pushIdentifier _)
  | .index _ _ i _, _, _, h => by
    obtain ⟨g₂, hfront, hindex⟩ := ran_append.mp h
    obtain ⟨g₁, hname, hi⟩ := ran_append.mp hfront
    have hbase : Generator.Trades true 0 1 _ g₁ := hname.trades (.pushIdentifier _)
    exact (hbase.puts (i.trades hi)).spends (hindex.trades (.indexArray _))
  | .call f opening args, g, g', h => by
    obtain ⟨g₃, hfront, hcall⟩ := ran_append.mp h
    obtain ⟨g₂, hhead, hargs⟩ := ran_append.mp hfront
    obtain ⟨g₁, hname, hcount⟩ := ran_cons.mp hhead
    have hcallee : Generator.Trades true 0 1 g g₁ := (ran_one.mpr hname).trades (.pushIdentifier _)
    exact trades_call hcallee hcount (args.counts hargs) hcall
  | .paren _ e _, _, _, h => e.trades h
  | .binary _ _ a b, _, _, h => by
    obtain ⟨g₃, hfront, hcompute⟩ := ran_append.mp h
    obtain ⟨g₂, hmid, hb⟩ := ran_append.mp hfront
    obtain ⟨g₁, ha, hop⟩ := ran_append.mp hmid
    have hoperator : Generator.Trades true 0 1 g₁ g₂ := hop.trades (.pushOperator _)
    exact (((a.trades ha).puts hoperator).puts (b.trades hb)).spends
      (hcompute.trades (.computeBinary _))
  | .assign target _ value, _, _, h => by
    obtain ⟨g₂, hfront, hassign⟩ := ran_append.mp h
    obtain ⟨g₁, htarget, hvalue⟩ := ran_append.mp hfront
    exact ((target.trades htarget).puts (value.trades hvalue)).spends (hassign.trades (.assign _))

/-- So does each of some arguments. -/
theorem Args.counts : ∀ (args : Args) {g g' : Generator}, Ran args.steps g g' → g.Counts g'
  | .none _, g, _, h => ran_nil.mp h ▸ .refl g
  | .last e _, _, _, h => by
    obtain ⟨g₁, he, hcount⟩ := ran_append.mp h
    exact counts_argument (e.trades he) hcount
  | .more e _ rest, _, _, h => by
    obtain ⟨g₂, hfront, hrest⟩ := ran_append.mp h
    obtain ⟨g₁, he, hcount⟩ := ran_append.mp hfront
    exact (counts_argument (e.trades he) hcount).trans (rest.counts hrest)

end

end OnePass
