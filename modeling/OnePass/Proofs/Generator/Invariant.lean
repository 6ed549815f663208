import OnePass.Proofs.Generator.Run
import OnePass.Proofs.Generator.Walk

/-!
# What no operation of the generator can break

A property of generators is stable if it outlives what an operation can do that bears on it: the
requests that are made of the symbol table, the mistakes that are recorded, and the events that are
logged beside those of the table. Everything else an operation changes, the code and the operand
stack for instance, a stable property does not look at. A stable property that holds before a run
holds after it, whether the run ends well or in a fault.

Operations that only find out about operands and write code for them are calm: they also keep
properties of the operand stack, of open loops and functions, and of code that is only appended
to. -/

namespace OnePass

namespace Generator

/-- The state after a request. -/
def after {ε α : Type} (g : Generator) (r : Request ε α) : Generator :=
  { g with symbols := (r.run g.symbols).2.1, trace := g.trace ++ (r.run g.symbols).2.2 }

/-- Two states agree on all that stable properties look at; of the scratch pool that is which cells
    it has, not how many of them are taken. -/
def Similar (g g' : Generator) : Prop :=
  g'.layout = g.layout ∧ g'.symbols = g.symbols ∧ g'.diagnostics = g.diagnostics ∧
    g'.trace = g.trace ∧ g'.scratch.clear = g.scratch.clear

/-- A property that no operation can break. A placeholder is put into the table only after a mistake
    was recorded. -/
structure Stable (I : Generator → Prop) : Prop where
  similar : ∀ {g g' : Generator}, g.Similar g' → I g → I g'
  log : ∀ (g : Generator) (e : Event), e.isStorage = false → I g →
    I { g with trace := g.trace.push e }
  report : ∀ (g : Generator) (line : Nat) (cause : Diagnostic.Cause), I g → I (g.report line cause)
  request : ∀ {ε α : Type} (g : Generator) {r : Request ε α}, r.Known → I g → I (g.after r)
  placeholder : ∀ (g : Generator) (x : String), g.diagnostics ≠ #[] → I g →
    I (g.after (.declarePlaceholder x))

/-- A property that no calm operation can break; some such operations write code. -/
structure Lasting (writes : Bool) (I : Generator → Prop) : Prop where
  scratch : ∀ (g : Generator) (scratch : ScratchPool), scratch.clear = g.scratch.clear → I g →
    I { g with scratch }
  emit : writes = true → ∀ (g : Generator) (i : Instruction), I g →
    I { g with code := g.code.emit i }
  log : ∀ (g : Generator) (e : Event), e.isStorage = false → I g →
    I { g with trace := g.trace.push e }
  report : ∀ (g : Generator) (line : Nat) (cause : Diagnostic.Cause), I g → I (g.report line cause)
  request : ∀ {ε α : Type} (g : Generator) {r : Request ε α}, r.Known → I g → I (g.after r)
  placeholder : ∀ (g : Generator) (x : String), g.diagnostics ≠ #[] → I g →
    I (g.after (.declarePlaceholder x))

theorem Stable.lasting {I : Generator → Prop} (h : Stable I) : Lasting true I where
  scratch g _ hsame hg := h.similar (g := g) ⟨rfl, rfl, rfl, rfl, hsame⟩ hg
  emit _ g _ hg := h.similar (g := g) ⟨rfl, rfl, rfl, rfl, rfl⟩ hg
  log := h.log
  report := h.report
  request := h.request
  placeholder := h.placeholder

end Generator

namespace Gen

variable {α β : Type} {kind : (Generator → Prop) → Prop} {writes : Bool}

/-- Properties of some kind that hold before an operation hold after it, however it ends. -/
def Preserves (kind : (Generator → Prop) → Prop) (m : Gen α) : Prop :=
  ∀ I : Generator → Prop, kind I → ∀ g, I g → I (g.run m).2

/-- An operation keeps stable properties. -/
abbrev Keeps (m : Gen α) : Prop := Preserves Generator.Stable m

/-- An operation keeps lasting properties. -/
abbrev Calm (writes : Bool) (m : Gen α) : Prop := Preserves (Generator.Lasting writes) m

theorem Preserves.keeps {m : Gen α} (h : Calm true m) : Keeps m := fun I hI => h I hI.lasting

namespace Preserves

/-! ### Composition -/

theorem pure {a : α} : Preserves kind (pure a) := fun _ _ _ hg => hg

theorem throw {fault : Fault} : Preserves kind (throw fault : Gen α) := fun _ _ _ hg => hg

theorem bind {m : Gen α} {k : α → Gen β} (hm : Preserves kind m) (hk : ∀ a, Preserves kind (k a)) :
    Preserves kind (m >>= k) := by
  intro I hI g hg
  have hmid := hm I hI g hg
  simp only [Generator.run, EStateM.run, Bind.bind, EStateM.bind] at hmid ⊢
  cases hrun : m g with
  | ok a mid =>
    rw [hrun] at hmid
    exact hk a I hI mid hmid
  | error fault mid =>
    rw [hrun] at hmid
    exact hmid

theorem get {k : Generator → Gen β} (hk : ∀ g, Preserves kind (k g)) :
    Preserves kind (get >>= k) := bind (fun _ _ _ hg => hg) hk

theorem ite {c : Prop} [Decidable c] {m₁ m₂ : Gen α} (h₁ : Preserves kind m₁)
    (h₂ : Preserves kind m₂) : Preserves kind (if c then m₁ else m₂) := by
  split
  · exact h₁
  · exact h₂

theorem forM {k : α → Gen Unit} (h : ∀ a, Preserves kind (k a)) :
    ∀ as : List α, Preserves kind (as.forM k)
  | [] => pure
  | a :: as => bind (h a) fun _ => forM h as

theorem orFault : ∀ a : Except Fault α, Preserves kind (orFault a)
  | .ok _ => pure
  | .error _ => throw

theorem pc : Preserves kind pc := get fun _ => pure

/-! ### Calm operations -/

theorem log (e : Event) (he : e.isStorage = false) : Calm writes (log e) :=
  fun _ hI g hg => hI.log g e he hg

theorem emit (i : Instruction) : Calm true (emit i) :=
  bind pc fun _ => bind (log _ rfl) fun _ => fun _ hI g hg => hI.emit rfl g i hg

theorem takeScratch : Calm writes takeScratch := by
  intro I hI g hg
  by_cases hroom : g.scratch.used < g.scratch.slots.toNat
  · have htake : g.scratch.take = .ok (_, { g.scratch with used := g.scratch.used + 1 }) :=
      if_pos hroom
    simp only [Gen.takeScratch, Generator.run, EStateM.run, Bind.bind, EStateM.bind,
      MonadState.get, getThe, MonadStateOf.get, EStateM.get, htake]
    exact hI.scratch g _ rfl hg
  · have htake : g.scratch.take = .error _ := if_neg hroom
    simp only [Gen.takeScratch, Generator.run, EStateM.run, Bind.bind, EStateM.bind,
      MonadState.get, getThe, MonadStateOf.get, EStateM.get, htake]
    exact hg

theorem clearScratch : Calm writes clearScratch := fun _ hI g hg => hI.scratch g _ rfl hg

theorem request {r : Request SymbolError α} (hr : r.Known) : Calm writes (request r) :=
  fun _ hI g hg => hI.request g hr hg

theorem demand {r : Request Fault α} (hr : r.Known) : Calm writes (demand r) :=
  fun I hI g hg => orFault (r.run g.symbols).1 I hI (g.after r) (hI.request g hr hg)

theorem report (line : Nat) (cause : Diagnostic.Cause) : Calm writes (report line cause) :=
  bind (log _ rfl) fun _ _ hI g hg => hI.report g line cause hg

theorem reportRejected (line : Nat) : ∀ e : SymbolError, Calm writes (reportRejected line e)
  | .duplicate _ => report _ _
  | .tooLarge _ => report _ _
  | .fault _ => throw

/-- A calm operation is made of calm ones. The cells that are taken do not matter. -/
theorem rules (line : Nat) : Rules (@fun _ _ _ m => Calm writes m) line where
  pure := pure
  throw _ := throw
  bind := bind
  get := get
  mono h _ _ := h
  log he _ := log _ he
  report := report _ _
  request hr hk I hI g hg :=
    hk _ (fun _ he => hr.spares.run he) I hI (g.after _) (hI.request g hr.known hg)
  demand hr := demand hr.known
  placeholder I hI g hg := hI.placeholder _ _ Array.push_ne_empty (report line _ I hI g hg)

theorem codeRules (line : Nat) : CodeRules (@fun _ _ _ m => Calm true m) line :=
  { rules line with
    emit := emit _
    takeScratch := fun _ => takeScratch
    clearScratch := clearScratch }

theorem checkInts (operands : List Symbol) (line : Nat) :
    Calm writes (checkInts operands line) := (rules line).checkInts (n := 0) operands

theorem checkNotVoid (ty : Ty) (name : String) (line : Nat) :
    Calm writes (checkNotVoid ty name line) := (rules line).checkNotVoid (n := 0) ty name

theorem declareStorage (name : String) {ty : Ty} {words : Nat}
    (h : words = 1 ∨ ∃ element : Ty, ty = element.arrayOf) (line : Nat) :
    Calm writes (declareStorage name ty words line) := (rules line).declareStorage (n := 0) name h

theorem fieldOperand (pointer offset : Word) : Calm true (fieldOperand pointer offset) :=
  (codeRules 0).fieldOperand pointer offset (by decide : 0 < 3)

theorem cellOperand (s : Symbol) : Calm true (cellOperand s) :=
  (codeRules 0).cellOperand s (by decide : 0 < 3)

theorem valueOperand (s : Symbol) : Calm true (valueOperand s) :=
  (codeRules 0).valueOperand s (by decide : 0 < 3)

theorem resolveReference (s : Symbol) : Calm true (resolveReference s) :=
  (codeRules 0).resolveReference s (by decide : 0 < 3)

theorem passArgument (parameter : Ty) (arg : Symbol) (index : Nat) :
    Calm true (passArgument parameter arg index) :=
  (codeRules 0).passArgument (n := 0) parameter arg index

theorem jumpToCallee (entry : Word) : Calm true (jumpToCallee entry) :=
  (codeRules 0).jumpToCallee entry (by decide : 0 < 3)

/-! ### Slots and the operand stack -/

theorem change {f : Generator → Generator} (h : ∀ g : Generator, g.Similar (f g)) :
    Keeps (modify f) :=
  fun _ hI g hg => hI.similar (h g) hg

theorem reserve : Keeps reserve :=
  get fun _ => bind (change fun _ => ⟨rfl, rfl, rfl, rfl, rfl⟩) fun _ =>
    bind (log _ rfl).keeps fun _ => pure

theorem fill (hole : Hole) (i : Instruction) : Keeps (fill hole i) :=
  get fun _ => bind (orFault _) fun _ => bind (log _ rfl).keeps fun _ =>
    change fun _ => ⟨rfl, rfl, rfl, rfl, rfl⟩

theorem push (value : StackValue) : Keeps (push value) :=
  bind (log _ rfl).keeps fun _ => change fun _ => ⟨rfl, rfl, rfl, rfl, rfl⟩

theorem pop : Keeps pop := by
  refine get fun g => ?_
  split
  · exact throw
  · exact bind (change fun _ => ⟨rfl, rfl, rfl, rfl, rfl⟩) fun _ => pure

/-- Stable properties outlive every action. -/
theorem slotRules (line : Nat) : SlotRules (@fun _ _ _ m => Keeps m) line where
  pure := pure
  throw _ := throw
  bind := bind
  get := get
  mono h _ _ := h
  log he _ := (log _ he).keeps
  report := (report _ _).keeps
  request hr hk I hI g hg :=
    hk _ (fun _ he => hr.spares.run he) I hI (g.after _) (hI.request g hr.known hg)
  demand hr := (demand hr.known).keeps
  placeholder := ((rules line).placeholder (n := 0)).keeps
  emit := (emit _).keeps
  takeScratch _ := takeScratch.keeps
  clearScratch := clearScratch.keeps
  push _ := push _
  pop := pop
  count := change fun _ => ⟨rfl, rfl, rfl, rfl, rfl⟩
  reserve := reserve
  fill := fill _ _
  pushOpen := push _
  change h := change fun g => by
    obtain ⟨hlayout, hsymbols, hdiagnostics, htrace, hscratch⟩ := h g
    exact ⟨hlayout, hsymbols, hdiagnostics, htrace, by rw [hscratch]⟩

theorem perform (step : Step) : Keeps (perform step) :=
  (slotRules step.token.line).perform (n := 0)

/-- What is stable and holds before some steps holds after them. -/
theorem performAll (steps : List Step) : Keeps (steps.forM Gen.perform) := forM perform steps

end Preserves

end Gen

end OnePass
