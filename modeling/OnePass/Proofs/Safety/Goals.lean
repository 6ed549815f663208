import OnePass.Proofs.Chain
import OnePass.Proofs.Grammar.Moves
import OnePass.Proofs.Safety.Steps

/-!
# Goals and what they hold

A goal that is worked off changes the list of things held in a fixed way: an expression adds an
operand, a statement nothing. `Goal.Turns` says how, and every move of the parser keeps to it: the
steps it calls for, and the goals it puts in place of the old one, lead from the same list to the
same list. So a parse that starts with goals for a whole program never calls for a step that faults,
also where it ends in a syntax error. -/

namespace OnePass

/-- Steps that keep to their rules one after the other. What a name stands for, and a number, may be
    taken for any operand. -/
inductive Walked : List Step → List Held → List Held → Prop
  | nil {held} : Walked [] held held
  | cons {step steps held mid held'} : step.Turns held mid → Walked steps mid held' →
      Walked (step :: steps) held held'
  | named {steps x held held'} : Walked steps (.operand :: held) held' →
      Walked steps (.named x :: held) held'
  | number {steps held held'} : Walked steps (.operand :: held) held' →
      Walked steps (.number :: held) held'

theorem Walked.one {step : Step} {held held' : List Held} (h : step.Turns held held') :
    Walked [step] held held' := .cons h .nil

theorem Walked.append {steps more : List Step} {held mid held' : List Held}
    (h : Walked steps held mid) (hmore : Walked more mid held') :
    Walked (steps ++ more) held held' := by
  induction h with
  | nil => exact hmore
  | cons hstep _ ih => exact .cons hstep (ih hmore)
  | named _ ih => exact .named (ih hmore)
  | number _ ih => exact .number (ih hmore)

/-- What a goal takes off the list of things held and what it puts there once it is worked off. -/
inductive Goal.Turns : Goal → List Held → List Held → Prop
  | expect {lexeme actions held held'} :
      (∀ t, Walked (actions.map (Step.mk · t)) held held') →
      Turns (.expect lexeme actions) held held'
  | perform {step held held'} : step.Turns held held' → Turns (.perform step) held held'
  | performHere {action held held'} : (∀ t, Step.Turns ⟨action, t⟩ held held') →
      Turns (.performHere action) held held'
  | declarations : Turns .declarations [.program] [.program]
  | typeName {held} : Turns .typeName held (.type :: held)
  | globalName : Turns .globalName [.type, .program] [.program]
  | globalRest {x} : Turns (.globalRest x) [.name, .type, .program] [.program]
  | arraySize {x held} : Turns (.arraySize x) (.name :: .type :: held) held
  | parameters {held} : Turns .parameters (.header :: held) (.header :: held)
  | parameterName {held} : Turns .parameterName (.type :: .header :: held) (.header :: held)
  | parameterRest {x held} :
      Turns (.parameterRest x) (.name :: .type :: .header :: held) (.header :: held)
  | moreParameters {held} : Turns .moreParameters (.header :: held) (.header :: held)
  | locals {held} : Turns .locals held held
  | localName {held} : Turns .localName (.type :: held) held
  | localRest {x held} : Turns (.localRest x) (.name :: .type :: held) held
  | statements {held} : Inside held → Turns .statements held held
  | statement {held} : Inside held → Turns .statement held held
  | elsePart {held} : Inside held → Turns .elsePart (.branch :: held) held
  | untilWord {held} : Turns .untilWord held held
  | returnRest {word held} : Inside held → Turns (.returnRest word) held held
  | expression {held} : Inside held → Turns .expression held (.operand :: held)
  | nameRest {x held} : Inside held → Turns (.nameRest x) (.named x :: held) (.operand :: held)
  | placeRest {held} : Inside held → Turns .placeRest (.operand :: held) (.operand :: held)
  | factor {held} : Inside held → Turns .factor held (.operand :: held)
  | factorRest {x held} : Inside held → Turns (.factorRest x) (.named x :: held) (.operand :: held)
  | products {held} : Inside held → Turns .products (.operand :: held) (.operand :: held)
  | sums {held} : Inside held → Turns .sums (.operand :: held) (.operand :: held)
  | comparison {held} : Inside held → Turns .comparison (.operand :: held) (.operand :: held)
  | noAssign {held} : Turns .noAssign held held
  | arguments {x held} : Inside held → Turns .arguments (.call x :: held) (.call x :: held)
  | moreArguments {x held} : Inside held →
      Turns .moreArguments (.call x :: held) (.call x :: held)

/-- The words that the steps of a goal may take beyond one for each token it still reads. -/
def Goal.words : Goal → Nat
  | .expect _ actions => (actions.map Action.words).sum
  | .perform step => step.action.words
  | .performHere action => action.words
  | .parameterRest _ => 1
  | _ => 0

/-- The words that some steps may take. -/
def stepsWords (steps : List Step) : Nat := (steps.map (·.action.words)).sum

/-- The words set aside for some goals. -/
def goalsWords (goals : List Goal) : Nat := (goals.map Goal.words).sum

/-- A move keeps to the rule of its goal, and to the words set aside for it and for the token it
    reads. -/
inductive Move.Turns (words : Nat) (held held' : List Held) : Move → Prop
  | fail (expected : Expected) : Turns words held held' (.fail expected)
  | expand {steps new mid} (hsteps : Walked steps held mid) (hnew : Chain Goal.Turns new mid held')
      (hwords : stepsWords steps + goalsWords new ≤ words := by exact Nat.le_of_ble_eq_true rfl) :
      Turns words held held' (.expand steps new)
  | shift {steps new mid} (hsteps : Walked steps held mid) (hnew : Chain Goal.Turns new mid held')
      (hwords : stepsWords steps + goalsWords new ≤ words + 1 := by
        exact Nat.le_of_ble_eq_true rfl) : Turns words held held' (.shift steps new)

theorem Move.Turns.ite {words : Nat} {held held' : List Held} {c : Prop} [Decidable c] {m n : Move}
    (hm : c → m.Turns words held held') (hn : n.Turns words held held') :
    (if c then m else n).Turns words held held' := by
  split
  · exact hm ‹_›
  · exact hn

theorem Inside.block {held : List Held} (h : Inside held) : Inside (.block :: held) := by
  obtain ⟨blocks, hphase⟩ := h
  exact ⟨blocks + 1, by rw [phase, hphase]; rfl⟩

/-! ### Tokens that stand for something -/

section
variable {next : Option Token} {stop : Token}

theorem kind_here {kind : TokenKind} (h : next.any (·.kind == kind) = true) :
    (next.getD stop).kind = kind := by
  cases next with
  | none => cases h
  | some t => exact beq_iff_eq.mp h

theorem type_here (h : (next.any (·.isKeyword "int") || next.any (·.isKeyword "void")) = true) :
    (next.getD stop).kind = .keyword ∧ ∃ ty, Ty.ofKeyword? (next.getD stop).lexeme = some ty := by
  cases next with
  | none => cases h
  | some t =>
    simp only [Option.any_some, Token.isKeyword, Bool.or_eq_true, Bool.and_eq_true,
      beq_iff_eq] at h
    rcases h with ⟨hkind, h⟩ | ⟨hkind, h⟩
    · exact ⟨hkind, .int, by rw [Option.getD_some, h]; rfl⟩
    · exact ⟨hkind, .void, by rw [Option.getD_some, h]; rfl⟩

theorem operator_here {s : String} {op : BinaryOp} (h : next.any (·.isSymbol s) = true)
    (hs : BinaryOp.ofLexeme? s = some op) : (next.getD stop).kind = .symbol ∧
      ∃ op, BinaryOp.ofLexeme? (next.getD stop).lexeme = some op := by
  cases next with
  | none => cases h
  | some t =>
    simp only [Option.any_some, Token.isSymbol, Bool.and_eq_true, beq_iff_eq] at h
    exact ⟨h.1, op, by rw [Option.getD_some, h.2, hs]⟩

theorem operators_here {s s' : String} {op op' : BinaryOp}
    (h : (next.any (·.isSymbol s) || next.any (·.isSymbol s')) = true)
    (hs : BinaryOp.ofLexeme? s = some op) (hs' : BinaryOp.ofLexeme? s' = some op') :
    (next.getD stop).kind = .symbol ∧
      ∃ op, BinaryOp.ofLexeme? (next.getD stop).lexeme = some op := by
  rcases Bool.or_eq_true_iff.mp h with h | h
  · exact operator_here h hs
  · exact operator_here h hs'

end

/-! ### Lists of goals -/

section
variable {held held' : List Held} {x : Token}

theorem chain_operatorGoals (hin : Inside held) :
    Chain Goal.Turns operatorGoals (.operand :: held) (.operand :: held) :=
  .cons (.products hin) <| .cons (.sums hin) <| .cons (.comparison hin) <| .one .noAssign

theorem chain_indexGoals (hin : Inside held) :
    Chain Goal.Turns (indexGoals x) (.named x :: held) (.operand :: held) :=
  .cons (.expression hin) <| .cons (.expect fun _ => .nil) <| .one (.perform (.indexArray hin))

theorem chain_callGoals (hin : Inside held) :
    Chain Goal.Turns (callGoals x) (.call x :: held) (.operand :: held) :=
  .cons (.arguments hin) <| .cons (.expect fun _ => .nil) <| .one (.perform (.call hin))

theorem chain_argumentGoals (hin : Inside held) :
    Chain Goal.Turns argumentGoals (.call x :: held) (.call x :: held) :=
  .cons (.expression hin) <| .cons (.performHere fun _ => .incrementArgCount) <|
    .one (.moreArguments hin)

theorem chain_parameterGoals :
    Chain Goal.Turns parameterGoals (.header :: held) (.header :: held) :=
  .cons .typeName <| .cons .parameterName <| .one .moreParameters

theorem chain_blockGoals {actions : List Action} (hin : Inside held)
    (hclose : ∀ t, Walked (actions.map (Step.mk · t)) held held') :
    Chain Goal.Turns (blockGoals actions) held held' :=
  .cons .locals <| .cons (.statements hin) <| .one (.expect hclose)

/-! ### Moves -/

/-- Every move keeps to the rule of its goal. -/
theorem Goal.Turns.predict (stop : Token) (next after : Option Token) {goal : Goal}
    (h : goal.Turns held held') : (predict stop next after goal).Turns goal.words held held' := by
  cases h <;> simp only [OnePass.predict]
  case expect hactions =>
    refine .ite (fun _ => .shift (hactions _) .nil ?_) (.fail _)
    simp [stepsWords, goalsWords, Goal.words, Function.comp_def]
  case perform hstep => exact .expand (.one hstep) .nil (Nat.le_refl _)
  case performHere hstep => exact .expand (.one (hstep _)) .nil (Nat.le_refl _)
  case declarations =>
    exact .ite (fun _ => .expand .nil .nil)
      (.expand .nil (.cons .typeName <| .cons .globalName <| .one .declarations))
  case typeName =>
    refine .ite (fun h => ?_) (.fail _)
    obtain ⟨hkind, ty, hty⟩ := type_here h
    exact .shift (.one (.pushType hkind hty)) .nil
  case globalName =>
    exact .ite (fun h => .shift (.one (.pushName (kind_here h))) (.one .globalRest)) (.fail _)
  case globalRest =>
    have hbody : Inside [.body, .program] := ⟨0, rfl⟩
    refine .ite (fun _ => .shift (.one .declareVariable) .nil) <|
      .ite (fun _ => .shift .nil (.one .arraySize)) <|
      .ite (fun _ => .shift (.one .declareFunction) ?_) (.fail _)
    exact .cons .parameters <| .cons (.expect fun _ => .nil) <| .cons (.perform .beginFunction) <|
      .cons (.expect fun _ => .one (.scopeUp hbody)) <|
      chain_blockGoals hbody.block fun _ => .cons (.scopeDown hbody) (.one .endFunction)
  case arraySize =>
    exact .ite (fun h => .shift (.one (.pushNumber (kind_here h))) <|
      .cons (.expect fun _ => .nil) <| .cons (.expect fun _ => .nil) <|
      .one (.perform .declareArray)) (.fail _)
  case parameters => exact .ite (fun _ => .shift .nil .nil) (.expand .nil chain_parameterGoals)
  case parameterName =>
    exact .ite (fun h => .shift (.one (.pushName (kind_here h))) (.one .parameterRest)) (.fail _)
  case parameterRest =>
    exact .ite (fun _ => .shift .nil <| .cons (.expect fun _ => .nil) <|
      .one (.perform .addArrayParameter)) (.expand (.one .addParameter) .nil)
  case moreParameters => exact .ite (fun _ => .shift .nil chain_parameterGoals) (.expand .nil .nil)
  case locals =>
    exact .ite (fun _ => .expand .nil <| .cons .typeName <| .cons .localName <| .one .locals)
      (.expand .nil .nil)
  case localName =>
    exact .ite (fun h => .shift (.one (.pushName (kind_here h))) (.one .localRest)) (.fail _)
  case localRest =>
    exact .ite (fun _ => .shift (.one .declareVariable) .nil) <|
      .ite (fun _ => .shift .nil (.one .arraySize)) (.fail _)
  case statements hin =>
    exact .ite (fun _ => .expand .nil .nil) <| .ite (fun _ => .fail _) <|
      .expand .nil <| .cons (.statement hin) <| .one (.statements hin)
  case statement hin =>
    exact .ite (fun _ => .shift .nil .nil) <|
      .ite (fun _ => .shift (.one (.scopeUp hin)) <|
        chain_blockGoals hin.block fun _ => .one (.scopeDown hin)) <|
      .ite (fun _ => .shift .nil <| .cons (.expect fun _ => .nil) <|
        .one (.perform .registerBreak)) <|
      .ite (fun _ => .shift .nil <| .cons (.expect fun _ => .nil) <| .cons (.expression hin) <|
        .cons (.expect fun _ => .one .reserveJumpSlot) <| .cons (.statement hin) <|
        .one (.elsePart hin)) <|
      .ite (fun _ => .shift (.cons .openBreaks (.one .startLoop)) <| .cons (.statement hin) <|
        .cons .untilWord <| .cons (.expect fun _ => .nil) <| .cons (.expression hin) <|
        .one (.expect fun _ => .cons .repeatLoop (.one .closeBreaks))) <|
      .ite (fun _ => .shift .nil (.one (.returnRest hin))) <|
      .expand .nil <| .cons (.expression hin) <| .one (.expect fun _ => .one .popExpression)
  case elsePart hin =>
    exact .ite (fun _ => .shift (.one .startElse) <| .cons (.statement hin) <|
      .one (.performHere fun _ => .endElse)) (.expand (.one .endBranch) .nil)
  case untilWord => exact .ite (fun _ => .shift .nil .nil) (.fail _)
  case returnRest hin =>
    exact .ite (fun _ => .shift (.one (.markReturn hin)) .nil) <| .expand .nil <|
      .cons (.expression hin) <| .cons (.perform .storeReturnValue) <|
      .cons (.expect fun _ => .nil) <| .one (.perform (.markReturn hin))
  case expression hin =>
    exact .ite (fun _ => .shift .nil <| .cons (.expression hin) <| .cons (.expect fun _ => .nil) <|
        chain_operatorGoals hin) <|
      .ite (fun h => .shift (.cons (.pushNumber (kind_here h)) (.number .nil))
        (chain_operatorGoals hin)) <|
      .ite (fun h => .shift (.one (.pushIdentifier (kind_here h))) (.one (.nameRest hin))) (.fail _)
  case nameRest hin =>
    exact .ite (fun _ => .shift .nil ((chain_indexGoals hin).append (.one (.placeRest hin)))) <|
      .ite (fun _ => .shift (.one .pushArgCount) <|
        (chain_callGoals hin).append (chain_operatorGoals hin)) <|
      .expand (.named .nil) (.one (.placeRest hin))
  case placeRest hin =>
    exact .ite (fun _ => .shift .nil <| .cons (.expression hin) <| .one (.perform .assign))
      (.expand .nil (chain_operatorGoals hin))
  case factor hin =>
    exact .ite (fun _ => .shift .nil <| .cons (.expression hin) <| .one (.expect fun _ => .nil)) <|
      .ite (fun h => .shift (.cons (.pushNumber (kind_here h)) (.number .nil)) .nil) <|
      .ite (fun h => .shift (.one (.pushIdentifier (kind_here h))) (.one (.factorRest hin)))
        (.fail _)
  case factorRest hin =>
    exact .ite (fun _ => .shift .nil (chain_indexGoals hin)) <|
      .ite (fun _ => .shift (.one .pushArgCount) (chain_callGoals hin)) <|
      .expand (.named .nil) .nil
  case products hin =>
    refine .ite (fun h => ?_) (.expand .nil .nil)
    obtain ⟨hkind, op, hop⟩ := operator_here h rfl
    exact .shift (.one (.pushOperator hkind hop)) <| .cons (.factor hin) <|
      .cons (.perform (.computeBinary hin)) <| .one (.products hin)
  case sums hin =>
    refine .ite (fun h => ?_) (.expand .nil .nil)
    obtain ⟨hkind, op, hop⟩ := operators_here h rfl rfl
    exact .shift (.one (.pushOperator hkind hop)) <| .cons (.factor hin) <| .cons (.products hin) <|
      .cons (.perform (.computeBinary hin)) <| .one (.sums hin)
  case comparison hin =>
    refine .ite (fun h => ?_) (.expand .nil .nil)
    obtain ⟨hkind, op, hop⟩ := operators_here h rfl rfl
    exact .shift (.one (.pushOperator hkind hop)) <| .cons (.factor hin) <| .cons (.products hin) <|
      .cons (.sums hin) <| .one (.perform (.computeBinary hin))
  case noAssign => exact .ite (fun _ => .fail _) (.expand .nil .nil)
  case arguments hin =>
    exact .ite (fun _ => .expand .nil .nil) (.expand .nil (chain_argumentGoals hin))
  case moreArguments hin =>
    exact .ite (fun _ => .shift .nil (chain_argumentGoals hin)) (.expand .nil .nil)

end

/-! ### Runs -/

theorem goalsWords_append (goals more : List Goal) :
    goalsWords (goals ++ more) = goalsWords goals + goalsWords more := by
  simp [goalsWords]

theorem goalsWords_cons (goal : Goal) (goals : List Goal) :
    goalsWords (goal :: goals) = goal.words + goalsWords goals := by
  simp [goalsWords]

theorem stepsWords_append (steps more : List Step) :
    stepsWords (steps ++ more) = stepsWords steps + stepsWords more := by
  simp [stepsWords]

/-- Working off goals calls for steps that keep to their rules, and then for what the goals after
    them call for, unless it ends in a syntax error. -/
theorem Chain.walks (stop : Token) (input : List Token) {goals : List Goal}
    {held held' : List Held} (h : Chain Goal.Turns goals held held') (last : List Goal) :
    ∃ steps mid, Walked steps held mid ∧ stepsWords steps ≤ input.length + goalsWords goals ∧
      ((∃ rest, mid = held' ∧
          readGoals stop input (goals ++ last) = (readGoals stop rest last).after steps) ∨
        (readGoals stop input (goals ++ last)).steps = steps ∧
          (readGoals stop input (goals ++ last)).error ≠ none) := by
  match goals, h with
  | [], .nil => exact ⟨[], _, .nil, Nat.zero_le _, .inl ⟨input, rfl, rfl⟩⟩
  | goal :: goals, .cons hgoal hgoals =>
    rw [List.cons_append, readGoals_cons, goalsWords_cons]
    have hmove := hgoal.predict stop input.head? input.tail.head?
    generalize hp : predict stop input.head? input.tail.head? goal = move at hmove
    cases hmove with
    | fail expected => exact ⟨[], _, .nil, Nat.zero_le _, .inr ⟨rfl, nofun⟩⟩
    | @expand front new _ hsteps hnew hwords =>
      have := potential_lt_of_expand hp goals
      obtain ⟨steps, mid, hwalked, hle, hread⟩ := (hnew.append hgoals).walks stop input last
      rw [goalsWords_append] at hle
      rw [List.append_assoc] at hread
      refine ⟨front ++ steps, mid, hsteps.append hwalked, ?_, ?_⟩
      · rw [stepsWords_append]
        omega
      · rcases hread with ⟨rest, hmid, hread⟩ | ⟨hread, herror⟩
        · exact .inl ⟨rest, hmid, by rw [Move.outcome, hread, Parse.after_after]⟩
        · exact .inr ⟨congrArg (front ++ ·) hread, herror⟩
    | @shift front new _ hsteps hnew hwords =>
      cases input with
      | nil => exact absurd hp predict_end_ne_shift
      | cons token input =>
        obtain ⟨steps, mid, hwalked, hle, hread⟩ := (hnew.append hgoals).walks stop input last
        rw [goalsWords_append] at hle
        rw [List.append_assoc] at hread
        refine ⟨front ++ steps, mid, hsteps.append hwalked, ?_, ?_⟩
        · rw [stepsWords_append, List.length_cons]
          omega
        · rcases hread with ⟨rest, hmid, hread⟩ | ⟨hread, herror⟩
          · exact .inl ⟨rest, hmid, by rw [Move.outcome, List.tail_cons, hread, Parse.after_after]⟩
          · exact .inr ⟨congrArg (front ++ ·) hread, herror⟩
termination_by (input.length, potential goals)

open Gen

/-- Steps that keep to their rules are performed one after the other. -/
theorem Walked.performed {steps : List Step} {held held' : List Held} (h : Walked steps held held')
    {k : Nat} {g : Generator} (hg : Fits held (k + stepsWords steps) g) :
    ∃ g', Performed steps g g' ∧ Fits held' k g' := by
  induction h generalizing g with
  | nil => exact ⟨g, .nil, hg⟩
  | @cons step steps held mid held' hstep _ ih =>
    have hwords : k + stepsWords (step :: steps) = k + stepsWords steps + step.action.words := by
      simp only [stepsWords, List.map_cons, List.sum_cons]
      omega
    rw [hwords] at hg
    obtain ⟨g₁, hperforms, hg₁⟩ := hstep.leads hg
    obtain ⟨g₂, hperformed, hg₂⟩ := ih hg₁
    exact ⟨g₂, .cons hperforms hperformed, hg₂⟩
  | named _ ih => exact ih hg.operand_of_named
  | number _ ih => exact ih hg.operand_of_number

end OnePass
