import OnePass.Proofs.Generator.Run
import OnePass.Proofs.Generator.Walk

/-!
# What one action uses up and reports

An action may take scratch cells, and it may record mistakes. `Spends` follows both through an
operation: the mistakes it records are all at one line, and it begins with at most some cells taken
and ends with at most some others. Nothing is said of how it ends otherwise, so that the judgement
holds of any action in any state. Its result is `Spends.perform`: three cells are enough for every
step, and every step reports at the line of its token. -/

namespace OnePass

/-- The pool has three cells at least, of which at most `n` are taken. -/
def ScratchPool.Lends (p : ScratchPool) (n : Nat) : Prop := 3 ≤ p.slots.toNat ∧ p.used ≤ n

/-- The fault is that scratch cells ran out. -/
def Fault.isExhausted : Fault → Bool
  | .scratchExhausted _ => true
  | _ => false

theorem Fault.isExhausted_of_isOrdinary {fault : Fault} (h : fault.isOrdinary = true) :
    fault.isExhausted = false := by
  cases fault with
  | scratchExhausted cells => cases h
  | _ => rfl

namespace Generator

/-- All that was recorded since is at one line. -/
def ReportsAt (g : Generator) (line : Nat) (g' : Generator) : Prop :=
  ∃ ds, g'.diagnostics.toList = g.diagnostics.toList ++ ds ∧ ∀ d ∈ ds, d.line = line

variable {g g' g'' : Generator} {line : Nat}

theorem ReportsAt.of_eq (h : g'.diagnostics = g.diagnostics) : g.ReportsAt line g' :=
  ⟨[], by rw [h, List.append_nil], nofun⟩

theorem ReportsAt.trans (h : g.ReportsAt line g') (h' : g'.ReportsAt line g'') :
    g.ReportsAt line g'' := by
  obtain ⟨ds, hds, hlines⟩ := h
  obtain ⟨ds', hds', hlines'⟩ := h'
  refine ⟨ds ++ ds', by rw [hds', hds, List.append_assoc], fun d hd => ?_⟩
  rcases List.mem_append.mp hd with hd | hd
  · exact hlines d hd
  · exact hlines' d hd

end Generator

namespace Gen

open Generator

variable {α β : Type} {line n n' n'' : Nat}

/-- What an outcome leaves: mistakes at one line, and cells that are taken. Whatever the fault, it is
    not that there were too few cells. -/
def Spent (g : Generator) (line n n' : Nat) : EStateM.Result Fault Generator α → Prop
  | .ok _ g' => g.ReportsAt line g' ∧ (g.scratch.Lends n → g'.scratch.Lends n')
  | .error fault g' => g.ReportsAt line g' ∧
    (g.scratch.Lends n → 3 ≤ g'.scratch.slots.toNat ∧ fault.isExhausted = false)

/-- Begun with at most `n` cells taken, an operation ends with at most `n'` of them taken. -/
def Spends (line n n' : Nat) (m : Gen α) : Prop := ∀ g, Spent g line n n' (m g)

namespace Spends

/-! ### Composition -/

theorem pure {a : α} : Spends line n n (pure a) := fun _ => ⟨.of_eq rfl, id⟩

theorem throw {fault : Fault} (h : fault.isExhausted = false) :
    Spends line n n' (throw fault : Gen α) := fun _ => ⟨.of_eq rfl, fun hlends => ⟨hlends.1, h⟩⟩

theorem bind {m : Gen α} {k : α → Gen β} (hm : Spends line n n' m)
    (hk : ∀ a, Spends line n' n'' (k a)) : Spends line n n'' (m >>= k) := by
  intro g
  have hspent := hm g
  simp only [Bind.bind, EStateM.bind]
  cases hr : m g with
  | error fault mid =>
    rw [hr] at hspent
    exact hspent
  | ok a mid =>
    rw [hr] at hspent
    have hrest := hk a mid
    revert hrest
    change Spent mid line n' n'' (k a mid) → Spent g line n n'' (k a mid)
    cases k a mid with
    | ok b g' => exact fun h => ⟨hspent.1.trans h.1, fun hlends => h.2 (hspent.2 hlends)⟩
    | error fault g' => exact fun h => ⟨hspent.1.trans h.1, fun hlends => h.2 (hspent.2 hlends)⟩

theorem get {k : Generator → Gen β} (hk : ∀ g, Spends line n n' (k g)) :
    Spends line n n' (get >>= k) := fun g => hk g g

/-- Fewer cells may be taken before, and more may be allowed after. -/
theorem mono {m : Gen α} {k k' : Nat} (h : Spends line n n' m) (hk : k ≤ n) (hk' : n' ≤ k') :
    Spends line k k' m := by
  intro g
  have hspent := h g
  revert hspent
  have hless : g.scratch.Lends k → g.scratch.Lends n := fun hlends =>
    ⟨hlends.1, Nat.le_trans hlends.2 hk⟩
  cases m g with
  | error fault g' => exact fun h => ⟨h.1, fun hlends => h.2 (hless hlends)⟩
  | ok a g' =>
    refine fun h => ⟨h.1, fun hlends => ?_⟩
    obtain ⟨hslots, hused⟩ := h.2 (hless hlends)
    exact ⟨hslots, Nat.le_trans hused hk'⟩

theorem change {f : Generator → Generator}
    (h : ∀ g : Generator, (f g).diagnostics = g.diagnostics ∧ (f g).scratch = g.scratch) :
    Spends line n n (modify f) := fun g => ⟨.of_eq (h g).1, fun hlends => (h g).2 ▸ hlends⟩

theorem orFault {a : Except Fault α} (h : ∀ fault, a = .error fault → fault.isExhausted = false) :
    Spends line n n (orFault a) := by
  cases a with
  | ok a => exact pure
  | error fault => exact throw (h fault rfl)

/-! ### Code, scratch cells and the operand stack -/

theorem log (e : Event) : Spends line n n (log e) := change fun _ => ⟨rfl, rfl⟩

theorem pc : Spends line n n pc := get fun _ => pure

theorem emit (i : Instruction) : Spends line n n (emit i) :=
  bind pc fun _ => bind (log _) fun _ => change fun _ => ⟨rfl, rfl⟩

theorem reserve : Spends line n n reserve :=
  get fun _ => bind (change fun _ => ⟨rfl, rfl⟩) fun _ => bind (log _) fun _ => pure

theorem fill (hole : Hole) (i : Instruction) : Spends line n n (fill hole i) := by
  refine get fun g => bind (orFault fun fault h => ?_) fun _ => bind (log _) fun _ =>
    change fun _ => ⟨rfl, rfl⟩
  rw [Store.fill] at h
  split at h
  · cases h
  · cases h
    rfl

/-- One cell more is taken. -/
theorem takeScratch (h : n < 3) : Spends line n (n + 1) takeScratch := by
  intro g
  by_cases hroom : g.scratch.used < g.scratch.slots.toNat
  · have htake : g.scratch.take = .ok (_, { g.scratch with used := g.scratch.used + 1 }) :=
      if_pos hroom
    simp only [Gen.takeScratch, Bind.bind, EStateM.bind, MonadState.get, getThe, MonadStateOf.get,
      EStateM.get, htake]
    exact ⟨.of_eq rfl, fun hlends => ⟨hlends.1, Nat.succ_le_succ hlends.2⟩⟩
  · have htake : g.scratch.take = .error _ := if_neg hroom
    simp only [Gen.takeScratch, Bind.bind, EStateM.bind, MonadState.get, getThe, MonadStateOf.get,
      EStateM.get, htake]
    refine ⟨.of_eq rfl, fun ⟨hslots, hused⟩ => ?_⟩
    omega

theorem clearScratch : Spends line n 0 clearScratch :=
  fun _ => ⟨.of_eq rfl, fun hlends => ⟨hlends.1, Nat.le_refl 0⟩⟩

theorem push (value : StackValue) : Spends line n n (push value) :=
  bind (log _) fun _ => change fun _ => ⟨rfl, rfl⟩

theorem pop : Spends line n n pop := by
  refine get fun g => ?_
  split
  · exact throw rfl
  · exact bind (change fun _ => ⟨rfl, rfl⟩) fun _ => pure

/-! ### The symbol table and diagnostics -/

theorem request {r : Request SymbolError α} (h : TableM.Spares SymbolError.IsForeign r.operation)
    {k : Except SymbolError α → Gen β}
    (hk : ∀ outcome, (∀ e, outcome = .error e → ¬ e.IsForeign) → Spends line n n' (k outcome)) :
    Spends line n n' (request r >>= k) := by
  intro g
  exact hk _ (fun e he => h.run he) { g with symbols := _, trace := _ }

theorem demand {r : Request Fault α} (h : TableM.Spares Fault.IsForeign r.operation) :
    Spends line n n (demand r) := by
  intro g
  exact orFault (fun fault hfault =>
    Fault.isExhausted_of_isOrdinary (Fault.isOrdinary_of_not_isForeign (h.run hfault)))
    { g with symbols := _, trace := _ }

theorem report (cause : Diagnostic.Cause) : Spends line n n (report line cause) :=
  bind (log _) fun _ g => ⟨⟨[⟨line, cause⟩], Array.toList_push, by simp⟩, id⟩

/-! ### Steps -/

/-- What is spent can be followed through every action. -/
theorem slotRules (line : Nat) : SlotRules (@fun _ n n' m => Spends line n n' m) line where
  pure := pure
  throw h := throw (Fault.isExhausted_of_isOrdinary h)
  bind := bind
  get := get
  mono := mono
  log _ _ := log _
  report := report _
  request hr := request hr.spares
  demand hr := demand hr.spares
  placeholder := bind (report _) fun _ => demand TableM.Spares.modify
  emit := emit _
  takeScratch := takeScratch
  clearScratch := clearScratch
  push _ := push _
  pop := pop
  count := change fun _ => ⟨rfl, rfl⟩
  reserve := reserve
  fill := fill _ _
  pushOpen := push _
  change h := change fun g => ⟨(h g).2.2.1, (h g).2.2.2.2⟩

/-- A step starts with all cells free, however many an earlier one took. -/
theorem perform (step : Step) : Spends step.token.line n 3 (perform step) :=
  (slotRules step.token.line).perform

/-- A silent step reports nothing, at whatever line. -/
theorem perform_silent {step : Step} (h : step.action.isSilent = true) :
    Spends line n 3 (Gen.perform step) := (slotRules line).perform_silent h

end Spends

end Gen

end OnePass
