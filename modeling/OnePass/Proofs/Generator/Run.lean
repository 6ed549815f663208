import Mathlib
import OnePass.Generator.Apply

/-!
# What operations of the generator do

No operation looks at the trace, and none relies on the scratch cells that an earlier step took.
`Does` says what an operation gives and how it changes the rest of the state, with the number of
scratch cells taken before and after; `Performs` says it for a whole step, which starts with all
cells free. -/

namespace OnePass

/-- The state with a number of scratch cells taken, and a trace. -/
def Generator.taking (g : Generator) (taken : Nat) (trace : Array Event) : Generator :=
  { g with scratch := { ScratchPool.ofLayout g.layout with used := taken }, trace }

section
variable (g : Generator) (n : Nat) (trace : Array Event)

@[simp] theorem Generator.taking_layout : (g.taking n trace).layout = g.layout := rfl
@[simp] theorem Generator.taking_symbols : (g.taking n trace).symbols = g.symbols := rfl
@[simp] theorem Generator.taking_code : (g.taking n trace).code = g.code := rfl
@[simp] theorem Generator.taking_stack : (g.taking n trace).stack = g.stack := rfl
@[simp] theorem Generator.taking_argCounts : (g.taking n trace).argCounts = g.argCounts := rfl
@[simp] theorem Generator.taking_breaks : (g.taking n trace).breaks = g.breaks := rfl
@[simp] theorem Generator.taking_body : (g.taking n trace).body = g.body := rfl
@[simp] theorem Generator.taking_start : (g.taking n trace).start = g.start := rfl

end

namespace Generator

/-- The state with another operand stack. -/
def withStack (g : Generator) (stack : List StackValue) : Generator := { g with stack }

/-- The state with other code. -/
def withCode (g : Generator) (code : Store) : Generator := { g with code }

/-- The state with another symbol table. -/
def withSymbols (g : Generator) (symbols : SymbolTable) : Generator := { g with symbols }

/-- The state with a mistake recorded. -/
def report (g : Generator) (line : Nat) (cause : Diagnostic.Cause) : Generator :=
  { g with diagnostics := g.diagnostics.push ⟨line, cause⟩ }

end Generator

/-- The operand that a value on the stack stands for. -/
def StackValue.operand? : StackValue → Option Symbol
  | .symbol s => some s
  | .literal value => some (.constant value)
  | _ => none

namespace Gen

variable {α β : Type} {m : Gen α} {k : α → Gen β} {a : α} {b : β} {g g' g'' : Generator}
  {n n' n'' : Nat}

/-- An operation, begun with some scratch cells taken, gives a value and leaves a state. -/
def Does (m : Gen α) (g : Generator) (n : Nat) (a : α) (g' : Generator) (n' : Nat) : Prop :=
  ∀ trace, ∃ trace', m (g.taking n trace) = .ok a (g'.taking n' trace')

/-- An operation, begun with some scratch cells taken, ends in a fault. -/
def Stops (m : Gen α) (g : Generator) (n : Nat) : Prop :=
  ∀ trace, ∃ fault g', m (g.taking n trace) = .error fault g'

/-! ### Composition -/

theorem Does.pure : Does (pure a) g n a g n := fun trace => ⟨trace, rfl⟩

theorem Does.congr (h : Does m g n a g' n') (he : g' = g'') : Does m g n a g'' n' := he ▸ h

theorem Does.bind (h : Does m g n a g' n') (hk : Does (k a) g' n' b g'' n'') :
    Does (m >>= k) g n b g'' n'' := by
  intro trace
  obtain ⟨trace', hm⟩ := h trace
  obtain ⟨trace'', ha⟩ := hk trace'
  exact ⟨trace'', by simp only [Bind.bind, EStateM.bind, hm, ha]⟩

/-- What is read from the state is read from it whatever its trace. -/
theorem Does.get {k : Generator → Gen β} (h : ∀ trace, Does (k (g.taking n trace)) g n b g' n') :
    Does (get >>= k) g n b g' n' := fun trace => h trace trace

theorem Does.modify {f : Generator → Generator}
    (h : ∀ trace, f (g.taking n trace) = g'.taking n' trace) :
    Does (modify f) g n () g' n' := fun trace => ⟨trace, congrArg _ (h trace)⟩

theorem Does.ite_pos {c : Prop} [Decidable c] {m₁ m₂ : Gen α} (hc : c) (h : Does m₁ g n a g' n') :
    Does (if c then m₁ else m₂) g n a g' n' := by rwa [if_pos hc]

theorem Does.ite_neg {c : Prop} [Decidable c] {m₁ m₂ : Gen α} (hc : ¬ c)
    (h : Does m₂ g n a g' n') : Does (if c then m₁ else m₂) g n a g' n' := by rwa [if_neg hc]

theorem Stops.bind (h : Stops m g n) : Stops (m >>= k) g n := by
  intro trace
  obtain ⟨fault, g', hm⟩ := h trace
  exact ⟨fault, g', by simp only [Bind.bind, EStateM.bind, hm]⟩

theorem Does.stops (h : Does m g n a g' n') (hk : Stops (k a) g' n') : Stops (m >>= k) g n := by
  intro trace
  obtain ⟨trace', hm⟩ := h trace
  obtain ⟨fault, g'', ha⟩ := hk trace'
  exact ⟨fault, g'', by simp only [Bind.bind, EStateM.bind, hm, ha]⟩

theorem Stops.ite_neg {c : Prop} [Decidable c] {m₁ m₂ : Gen α} (hc : ¬ c) (h : Stops m₂ g n) :
    Stops (if c then m₁ else m₂) g n := by rwa [if_neg hc]

theorem Stops.get {k : Generator → Gen β} (h : ∀ trace, Stops (k (g.taking n trace)) g n) :
    Stops (get >>= k) g n := fun trace => h trace trace

theorem Stops.throw {fault : Fault} : Stops (throw fault : Gen α) g n :=
  fun _ => ⟨fault, _, rfl⟩

/-! ### Code -/

theorem does_log (e : Event) : Does (log e) g n () g n := fun _ => ⟨_, rfl⟩

theorem does_pc : Does pc g n g.code.pc g n := fun trace => ⟨trace, rfl⟩

theorem does_emit (i : Instruction) :
    Does (emit i) g n () (g.withCode (g.code.emit i)) n := fun _ => ⟨_, rfl⟩

theorem does_reserve :
    Does reserve g n g.code.reserve.1 (g.withCode g.code.reserve.2) n := fun _ => ⟨_, rfl⟩

theorem does_fill {hole : Hole} {i : Instruction} {code : Store}
    (h : g.code.fill hole i = .ok code) : Does (fill hole i) g n () (g.withCode code) n := by
  refine .get fun trace => ?_
  rw [Generator.taking_code, h]
  exact fun _ => ⟨_, rfl⟩

theorem does_takeScratch (h : n < g.layout.scratchSlots.toNat) :
    Does takeScratch g n (g.layout.scratchBase + BitVec.ofNat 32 (Word.size * n)) g (n + 1) := by
  refine .get fun trace => ?_
  have htake : (g.taking n trace).scratch.take =
      .ok (g.layout.scratchBase + BitVec.ofNat 32 (Word.size * n),
        { ScratchPool.ofLayout g.layout with used := n + 1 }) := if_pos h
  rw [htake]
  exact fun _ => ⟨_, rfl⟩

theorem does_clearScratch : Does clearScratch g n () g 0 := fun trace => ⟨trace, rfl⟩

/-! ### The operand stack -/

theorem does_push (value : StackValue) :
    Does (push value) g n () (g.withStack (value :: g.stack)) n := fun _ => ⟨_, rfl⟩

theorem does_pop {value : StackValue} {stack : List StackValue} (h : g.stack = value :: stack) :
    Does pop g n value (g.withStack stack) n := by
  refine .get fun trace => ?_
  rw [Generator.taking_stack, h]
  exact fun _ => ⟨_, rfl⟩

section
variable {stack : List StackValue}

theorem does_popSymbol {value : StackValue} {s : Symbol} (h : g.stack = value :: stack)
    (hs : value.operand? = some s) : Does popSymbol g n s (g.withStack stack) n := by
  refine (does_pop h).bind ?_
  cases value with
  | symbol x =>
    obtain rfl := Option.some.inj hs
    exact .pure
  | literal x =>
    obtain rfl := Option.some.inj hs
    exact .pure
  | _ => cases hs

theorem does_popName {x : String} (h : g.stack = .name x :: stack) :
    Does popName g n x (g.withStack stack) n := (does_pop h).bind .pure

theorem does_popType {ty : Ty} (h : g.stack = .type ty :: stack) :
    Does popType g n ty (g.withStack stack) n := (does_pop h).bind .pure

theorem does_popOperator {op : BinaryOp} (h : g.stack = .operator op :: stack) :
    Does popOperator g n op (g.withStack stack) n := (does_pop h).bind .pure

theorem does_popLabel {pc : Nat} (h : g.stack = .label pc :: stack) :
    Does popLabel g n pc (g.withStack stack) n := (does_pop h).bind .pure

theorem does_popSlot {hole : Hole} (h : g.stack = .slot hole :: stack) :
    Does popSlot g n hole (g.withStack stack) n := (does_pop h).bind .pure

theorem does_popBranch {hole : Hole} {cond : Operand} (h : g.stack = .branch hole cond :: stack) :
    Does popBranch g n (hole, cond) (g.withStack stack) n := (does_pop h).bind .pure

/-- Operands come off the stack in the order in which they were put there. -/
theorem does_popSymbols : ∀ {values : List StackValue} {args : List Symbol} {g : Generator},
    g.stack = values ++ stack → values.map (·.operand?) = args.map some →
      Does (popSymbols args.length) g n args.reverse (g.withStack stack) n
  | [], [], g, hstack, _ => by
    obtain rfl : g.stack = stack := hstack
    exact .pure
  | value :: values, arg :: args, g, hstack, hargs => by
    obtain ⟨harg, hrest⟩ := List.cons.inj hargs
    refine (does_popSymbol hstack harg).bind ?_
    rw [List.reverse_cons]
    exact (does_popSymbols rfl hrest).bind .pure
  | [], _ :: _, _, _, hargs => by cases hargs
  | _ :: _, [], _, _, hargs => by cases hargs

end

/-! ### The symbol table -/

section
variable {t : SymbolTable} {ε : Type} {e : ε}

theorem run_request_ok {r : Request ε α} (h : r.operation g.symbols = .ok a t) (trace : Array Event) :
    r.run (g.taking n trace).symbols = (.ok a, t, r.events (.ok a)) := by
  simp only [Request.run, EStateM.run, Generator.taking_symbols, h]

theorem run_request_error {r : Request ε α} (h : r.operation g.symbols = .error e t)
    (trace : Array Event) :
    r.run (g.taking n trace).symbols = (.error e, t, r.events (.error e)) := by
  simp only [Request.run, EStateM.run, Generator.taking_symbols, h]

theorem does_request {r : Request SymbolError α} (h : r.operation g.symbols = .ok a t) :
    Does (request r) g n (.ok a) (g.withSymbols t) n := by
  refine .get fun trace => ?_
  rw [run_request_ok h]
  exact fun _ => ⟨_, rfl⟩

theorem does_request_error {r : Request SymbolError α} {e : SymbolError}
    (h : r.operation g.symbols = .error e t) :
    Does (request r) g n (.error e) (g.withSymbols t) n := by
  refine .get fun trace => ?_
  rw [run_request_error h]
  exact fun _ => ⟨_, rfl⟩

theorem does_demand {r : Request Fault α} (h : r.operation g.symbols = .ok a t) :
    Does (demand r) g n a (g.withSymbols t) n := by
  refine .get fun trace => ?_
  rw [run_request_ok h]
  exact fun _ => ⟨_, rfl⟩

theorem stops_demand {r : Request Fault α} {fault : Fault}
    (h : r.operation g.symbols = .error fault t) : Stops (demand r) g n := by
  refine .get fun trace => ?_
  rw [run_request_error h]
  exact fun _ => ⟨_, _, rfl⟩

end

/-! ### Diagnostics -/

theorem does_report (line : Nat) (cause : Diagnostic.Cause) :
    Does (report line cause) g n () (g.report line cause) n :=
  fun _ => ⟨_, rfl⟩

/-- Operands that are all integers pass. -/
theorem does_checkInts {operands : List Symbol} (h : ∀ s ∈ operands, s.isInt) (line : Nat) :
    Does (checkInts operands line) g n true g n := by
  have hfind : operands.find? (!·.isInt) = none := by simpa using h
  rw [checkInts, hfind]
  exact .pure

/-- Of operands that are not all integers one is reported. -/
theorem does_checkInts_false (operands : List Symbol) (h : ¬ ∀ s ∈ operands, s.isInt)
    (line : Nat) : ∃ cause, Does (checkInts operands line) g n false
      (g.report line cause) n := by
  cases hfind : operands.find? (!·.isInt) with
  | none => exact absurd (by simpa using hfind) h
  | some bad =>
    refine ⟨.operandType bad.category, ?_⟩
    rw [checkInts, hfind]
    exact (does_report line _).bind .pure

/-! ### Steps -/

/-- A step takes a state to another, whatever is left of earlier steps. -/
def Performs (step : Step) (g g' : Generator) : Prop :=
  ∀ n trace, ∃ n' trace', perform step (g.taking n trace) = .ok () (g'.taking n' trace')

/-- A step starts with all scratch cells free. -/
theorem Does.performs {step : Step} (n : Nat)
    (h : Does (dispatch step.action step.token) g 0 () g' n) : Performs step g g' := by
  intro used trace
  have hperform : Does (perform step) g used () g' n :=
    does_clearScratch.bind (.get fun _ => (does_log _).bind h)
  exact ⟨n, hperform trace⟩

theorem Stops.performs {step : Step} (h : Stops (dispatch step.action step.token) g 0) (n : Nat) :
    Stops (perform step) g n :=
  does_clearScratch.stops (.get fun _ => (does_log _).stops h)

/-- Some steps take a state to another, whatever is left of earlier steps. -/
def Performed (steps : List Step) (g g' : Generator) : Prop :=
  ∀ n trace, ∃ n' trace', steps.forM perform (g.taking n trace) = .ok () (g'.taking n' trace')

theorem Performed.nil : Performed [] g g := fun n trace => ⟨n, trace, rfl⟩

theorem Performed.cons {step : Step} {steps : List Step} (h : Performs step g g')
    (hs : Performed steps g' g'') : Performed (step :: steps) g g'' := by
  intro n trace
  obtain ⟨n', trace', hstep⟩ := h n trace
  obtain ⟨n'', trace'', hsteps⟩ := hs n' trace'
  exact ⟨n'', trace'', by
    simp only [List.forM_eq_forM, List.forM_cons, Bind.bind, EStateM.bind, hstep, ← hsteps]⟩

theorem Performed.append {steps more : List Step} (h : Performed steps g g')
    (hm : Performed more g' g'') : Performed (steps ++ more) g g'' := by
  intro n trace
  obtain ⟨n', trace', hsteps⟩ := h n trace
  obtain ⟨n'', trace'', hmore⟩ := hm n' trace'
  refine ⟨n'', trace'', ?_⟩
  rw [List.forM_eq_forM] at hsteps hmore ⊢
  simp only [List.forM_append, Bind.bind, EStateM.bind, hsteps, hmore]

/-- A run of some steps, begun in a state, ended well in another. -/
def Ends (steps : List Step) (g g' : Generator) : Prop :=
  ∃ n trace, steps.forM perform (g.taking n trace) = .ok () g'

/-- A run goes on from where its first step leads. -/
theorem Ends.of_cons {step : Step} {steps : List Step} (h : Ends (step :: steps) g g'')
    (hstep : Performs step g g') : Ends steps g' g'' := by
  obtain ⟨n, trace, hrun⟩ := h
  obtain ⟨n', trace', hs⟩ := hstep n trace
  simp only [List.forM_eq_forM, List.forM_cons, Bind.bind, EStateM.bind, hs] at hrun
  exact ⟨n', trace', hrun⟩

theorem Ends.of_append {steps more : List Step} (h : Ends (steps ++ more) g g'')
    (hsteps : Performed steps g g') : Ends more g' g'' := by
  obtain ⟨n, trace, hrun⟩ := h
  obtain ⟨n', trace', hs⟩ := hsteps n trace
  rw [List.forM_eq_forM] at hrun hs
  simp only [List.forM_append, Bind.bind, EStateM.bind, hs] at hrun
  exact ⟨n', trace', hrun⟩

/-- A run that ends well has no step that stops it. -/
theorem Ends.not_stops {step : Step} {steps : List Step} (h : Ends (step :: steps) g g') :
    ¬ Stops (dispatch step.action step.token) g 0 := by
  intro hstops
  obtain ⟨n, trace, hrun⟩ := h
  obtain ⟨fault, s, hs⟩ := hstops.performs n trace
  simp only [List.forM_eq_forM, List.forM_cons, Bind.bind, EStateM.bind, hs] at hrun
  cases hrun

end Gen

end OnePass
