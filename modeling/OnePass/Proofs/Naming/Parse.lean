import OnePass.Proofs.Grammar.Earliest
import OnePass.Proofs.Twins.Steps

/-!
# Parsing under other names

The parser looks at the kind of a token, and at its text only where that is no name. So two lists
of tokens that differ only in paired names and in lines are parsed by the same moves, and the steps
of one are those of the other at tokens that differ so. -/

namespace OnePass

/-- The token that a goal keeps for later. -/
def Goal.token? : Goal → Option Token
  | .perform step => some step.token
  | .globalRest x | .arraySize x | .parameterRest x | .localRest x | .returnRest x | .nameRest x
  | .factorRest x => some x
  | _ => none

section
variable (N : Naming)

/-- Two tokens are of the same kind; names are paired and other texts the same. -/
structure Token.Renamed (t t' : Token) : Prop where
  kind : t'.kind = t.kind
  name : t.kind = .id → N.Pairs t.lexeme t'.lexeme
  text : t.kind ≠ .id → t.kind ≠ .stop → t'.lexeme = t.lexeme

/-- Two steps perform the same action, at tokens that differ so. -/
structure Step.Renamed (s s' : Step) : Prop where
  action : s'.action = s.action
  token : s.token.Renamed N s'.token

/-- Two goals are the same but for tokens. -/
inductive Goal.Renamed : Goal → Goal → Prop
  | same {goal} (h : goal.token? = none) : Renamed goal goal
  | perform {s s'} (h : s.Renamed N s') : Renamed (.perform s) (.perform s')
  | globalRest {x x'} (h : x.Renamed N x') : Renamed (.globalRest x) (.globalRest x')
  | arraySize {x x'} (h : x.Renamed N x') : Renamed (.arraySize x) (.arraySize x')
  | parameterRest {x x'} (h : x.Renamed N x') : Renamed (.parameterRest x) (.parameterRest x')
  | localRest {x x'} (h : x.Renamed N x') : Renamed (.localRest x) (.localRest x')
  | returnRest {x x'} (h : x.Renamed N x') : Renamed (.returnRest x) (.returnRest x')
  | nameRest {x x'} (h : x.Renamed N x') : Renamed (.nameRest x) (.nameRest x')
  | factorRest {x x'} (h : x.Renamed N x') : Renamed (.factorRest x) (.factorRest x')

/-- Two moves fail for the same reason, or lead on alike. -/
inductive Move.Renamed : Move → Move → Prop
  | fail (expected : Expected) : Renamed (.fail expected) (.fail expected)
  | expand {steps steps' new new'} (hsteps : List.Forall₂ (Step.Renamed N) steps steps')
      (hnew : List.Forall₂ (Goal.Renamed N) new new') :
      Renamed (.expand steps new) (.expand steps' new')
  | shift {steps steps' new new'} (hsteps : List.Forall₂ (Step.Renamed N) steps steps')
      (hnew : List.Forall₂ (Goal.Renamed N) new new') :
      Renamed (.shift steps new) (.shift steps' new')

/-- Two parses end at the same place, for the same reason if in an error. -/
structure Parse.Renamed (p p' : Parse) : Prop where
  steps : List.Forall₂ (Step.Renamed N) p.steps p'.steps
  error : Option.Rel (fun e e' : SyntaxError => e'.expected = e.expected) p.error p'.error

end

variable {N : Naming}

theorem Token.Renamed.isSymbol {t t' : Token} (h : t.Renamed N t') (lexeme : String) :
    t'.isSymbol lexeme = t.isSymbol lexeme := by
  rw [Token.isSymbol, Token.isSymbol, h.kind]
  cases hk : t.kind with
  | symbol => rw [h.text (by rw [hk]; decide) (by rw [hk]; decide)]
  | _ => rfl

theorem Token.Renamed.isKeyword {t t' : Token} (h : t.Renamed N t') (lexeme : String) :
    t'.isKeyword lexeme = t.isKeyword lexeme := by
  rw [Token.isKeyword, Token.isKeyword, h.kind]
  cases hk : t.kind with
  | keyword => rw [h.text (by rw [hk]; decide) (by rw [hk]; decide)]
  | _ => rfl

/-- A test that agrees on tokens agrees on what comes next. -/
theorem any_next {next next' : Option Token} {p : Token → Bool}
    (hp : ∀ t t', Token.Renamed N t t' → p t' = p t)
    (h : Option.Rel (Token.Renamed N) next next') : next'.any p = next.any p := by
  cases h with
  | none => rfl
  | some ht => exact hp _ _ ht

theorem Move.Renamed.ite {c : Prop} [Decidable c] {m m' n n' : Move} (hm : m.Renamed N m')
    (hn : n.Renamed N n') : (if c then m else n).Renamed N (if c then m' else n') := by
  split
  · exact hm
  · exact hn

/-- Goals that keep no token are the same. -/
theorem renamed_plain {goals : List Goal}
    (h : goals.all (·.token?.isNone) = true := by exact rfl) :
    List.Forall₂ (Goal.Renamed N) goals goals :=
  List.forall₂_same.mpr fun goal hgoal =>
    .same (Option.isNone_iff_eq_none.mp (List.all_eq_true.mp h goal hgoal))

/-! ### Moves -/

section
variable {stop stop' x x' : Token} {next next' after after' : Option Token}

theorem Token.Renamed.step (h : x.Renamed N x') (action : Action) :
    List.Forall₂ (Step.Renamed N) [⟨action, x⟩] [⟨action, x'⟩] := .cons ⟨rfl, h⟩ .nil

theorem Token.Renamed.goal (h : x.Renamed N x') (action : Action) :
    Goal.Renamed N (.perform ⟨action, x⟩) (.perform ⟨action, x'⟩) := .perform ⟨rfl, h⟩

theorem Token.Renamed.indexGoals (h : x.Renamed N x') :
    List.Forall₂ (Goal.Renamed N) (indexGoals x) (indexGoals x') :=
  .cons (.same rfl) (.cons (.same rfl) (.cons (h.goal _) .nil))

theorem Token.Renamed.callGoals (h : x.Renamed N x') :
    List.Forall₂ (Goal.Renamed N) (callGoals x) (callGoals x') :=
  .cons (.same rfl) (.cons (.same rfl) (.cons (h.goal _) .nil))

/-- Goals that correspond make moves that do. -/
theorem Goal.Renamed.predict {goal goal' : Goal} (hgoal : goal.Renamed N goal')
    (hstop : stop.Renamed N stop') (hnext : Option.Rel (Token.Renamed N) next next')
    (hafter : Option.Rel (Token.Renamed N) after after') :
    (predict stop next after goal).Renamed N (predict stop' next' after' goal') := by
  have hsymbol : ∀ lexeme, next'.any (·.isSymbol lexeme) = next.any (·.isSymbol lexeme) :=
    fun lexeme => any_next (fun _ _ ht => ht.isSymbol lexeme) hnext
  have hkeyword : ∀ lexeme, next'.any (·.isKeyword lexeme) = next.any (·.isKeyword lexeme) :=
    fun lexeme => any_next (fun _ _ ht => ht.isKeyword lexeme) hnext
  have hkind : ∀ kind, next'.any (·.kind == kind) = next.any (·.kind == kind) :=
    fun kind => any_next (fun _ _ ht => congrArg (· == kind) ht.kind) hnext
  have hnone : next'.isNone = next.isNone := by cases hnext <;> rfl
  have hclose : after'.any (·.isSymbol ")") = after.any (·.isSymbol ")") :=
    any_next (fun _ _ ht => ht.isSymbol ")") hafter
  have hhere : (next.getD stop).Renamed N (next'.getD stop') := by
    cases hnext with
    | none => exact hstop
    | some ht => exact ht
  have here := hhere.step
  have last : ∀ {goal goal' : Goal}, goal.Renamed N goal' →
      List.Forall₂ (Goal.Renamed N) [goal] [goal'] := fun h => .cons h .nil
  cases hgoal with
  | same hplain =>
    cases goal <;>
      simp only [OnePass.predict, hsymbol, hkeyword, hkind, hnone, hclose]
    case expect lexeme actions =>
      refine .ite (.shift ?_ .nil) (.fail _)
      rw [List.forall₂_map_left_iff, List.forall₂_map_right_iff]
      exact List.forall₂_same.mpr fun _ _ => ⟨rfl, hhere⟩
    case performHere => exact .expand (here _) .nil
    case declarations => exact .ite (.expand .nil .nil) (.expand .nil renamed_plain)
    case typeName => exact .ite (.shift (here _) .nil) (.fail _)
    case globalName => exact .ite (.shift (here _) (last (.globalRest hhere))) (.fail _)
    case parameters => exact .ite (.shift .nil .nil) (.expand .nil renamed_plain)
    case parameterName => exact .ite (.shift (here _) (last (.parameterRest hhere))) (.fail _)
    case moreParameters => exact .ite (.shift .nil renamed_plain) (.expand .nil .nil)
    case locals => exact .ite (.expand .nil renamed_plain) (.expand .nil .nil)
    case localName => exact .ite (.shift (here _) (last (.localRest hhere))) (.fail _)
    case statements =>
      exact .ite (.expand .nil .nil) (.ite (.fail _) (.expand .nil renamed_plain))
    case statement =>
      exact .ite (.shift .nil .nil) <| .ite (.shift (here _) renamed_plain) <|
        .ite (.shift .nil (.cons (.same rfl) (last (hhere.goal _)))) <|
        .ite (.shift .nil renamed_plain) <|
        .ite (.shift (.cons ⟨rfl, hhere⟩ (here _)) renamed_plain) <|
        .ite (.shift .nil (last (.returnRest hhere))) (.expand .nil renamed_plain)
    case elsePart => exact .ite (.shift (here _) renamed_plain) (.expand (here _) .nil)
    case untilWord => exact .ite (.shift .nil .nil) (.fail _)
    case expression =>
      exact .ite (.shift .nil renamed_plain) <| .ite (.shift (here _) renamed_plain) <|
        .ite (.shift (here _) (last (.nameRest hhere))) (.fail _)
    case placeRest =>
      exact .ite (.shift .nil (.cons (.same rfl) (last (hhere.goal _))))
        (.expand .nil renamed_plain)
    case factor =>
      exact .ite (.shift .nil renamed_plain) <| .ite (.shift (here _) .nil) <|
        .ite (.shift (here _) (last (.factorRest hhere))) (.fail _)
    case products =>
      exact .ite (.shift (here _) (.cons (.same rfl) (.cons (hhere.goal _) renamed_plain)))
        (.expand .nil .nil)
    case sums =>
      exact .ite (.shift (here _)
        (.cons (.same rfl) (.cons (.same rfl) (.cons (hhere.goal _) renamed_plain))))
        (.expand .nil .nil)
    case comparison =>
      exact .ite (.shift (here _)
        (.cons (.same rfl) (.cons (.same rfl) (.cons (.same rfl) (last (hhere.goal _))))))
        (.expand .nil .nil)
    case noAssign => exact .ite (.fail _) (.expand .nil .nil)
    case arguments => exact .ite (.expand .nil .nil) (.expand .nil renamed_plain)
    case moreArguments => exact .ite (.shift .nil renamed_plain) (.expand .nil .nil)
    all_goals cases hplain
  | perform hs => exact .expand (.cons hs .nil) .nil
  | globalRest hx =>
    simp only [OnePass.predict, hsymbol]
    exact .ite (.shift (hx.step _) .nil) <| .ite (.shift .nil (last (.arraySize hx))) <|
      .ite (.shift (hx.step _)
        (.cons (.same rfl) (.cons (.same rfl) (.cons (hx.goal _) renamed_plain)))) (.fail _)
  | arraySize hx =>
    simp only [OnePass.predict, hkind]
    exact .ite (.shift (here _) (.cons (.same rfl) (.cons (.same rfl) (last (hx.goal _)))))
      (.fail _)
  | parameterRest hx =>
    simp only [OnePass.predict, hsymbol]
    exact .ite (.shift .nil (.cons (.same rfl) (last (hx.goal _)))) (.expand (hx.step _) .nil)
  | localRest hx =>
    simp only [OnePass.predict, hsymbol]
    exact .ite (.shift (hx.step _) .nil) (.ite (.shift .nil (last (.arraySize hx))) (.fail _))
  | returnRest hx =>
    simp only [OnePass.predict, hsymbol]
    exact .ite (.shift (hx.step _) .nil) (.expand .nil
      (.cons (.same rfl) (.cons (hx.goal _) (.cons (.same rfl) (last (hx.goal _))))))
  | nameRest hx =>
    simp only [OnePass.predict, hsymbol]
    exact .ite (.shift .nil (List.rel_append hx.indexGoals renamed_plain)) <|
      .ite (.shift (here _) (List.rel_append hx.callGoals renamed_plain))
        (.expand .nil renamed_plain)
  | factorRest hx =>
    simp only [OnePass.predict, hsymbol]
    exact .ite (.shift .nil hx.indexGoals) <| .ite (.shift (here _) hx.callGoals)
      (.expand .nil .nil)

end

/-! ### Whole parses -/

theorem Parse.Renamed.after {p p' : Parse} {steps steps' : List Step}
    (hsteps : List.Forall₂ (Step.Renamed N) steps steps') (h : p.Renamed N p') :
    (p.after steps).Renamed N (p'.after steps') := ⟨List.rel_append hsteps h.steps, h.error⟩

/-- Goals that correspond are worked off alike. -/
theorem readGoals_renamed {stop stop' : Token} (hstop : stop.Renamed N stop')
    {input input' : List Token} (hinput : List.Forall₂ (Token.Renamed N) input input')
    {goals goals' : List Goal} (h : List.Forall₂ (Goal.Renamed N) goals goals') :
    (readGoals stop input goals).Renamed N (readGoals stop' input' goals') := by
  have hhead : ∀ {input input' : List Token}, List.Forall₂ (Token.Renamed N) input input' →
      Option.Rel (Token.Renamed N) input.head? input'.head? := by
    intro _ _ hinput
    cases hinput with
    | nil => exact .none
    | cons ht _ => exact .some ht
  cases h with
  | nil =>
    rw [readGoals_nil, readGoals_nil]
    exact ⟨.nil, .none⟩
  | @cons goal goal' goals goals' hgoal hgoals =>
    rw [readGoals_cons, readGoals_cons]
    have htail : List.Forall₂ (Token.Renamed N) input.tail input'.tail := by
      cases hinput with
      | nil => exact .nil
      | cons _ hrest => exact hrest
    have hmove := hgoal.predict hstop (hhead hinput) (hhead htail)
    generalize hp : OnePass.predict stop input.head? input.tail.head? goal = move,
      hp' : OnePass.predict stop' input'.head? input'.tail.head? goal' = move' at hmove
    cases hmove with
    | fail expected => exact ⟨.nil, .some rfl⟩
    | expand hsteps hnew =>
      have := potential_lt_of_expand hp goals
      exact .after hsteps (readGoals_renamed hstop hinput (List.rel_append hnew hgoals))
    | shift hsteps hnew =>
      cases hinput with
      | nil => exact absurd hp predict_end_ne_shift
      | cons _ hrest =>
        exact .after hsteps (readGoals_renamed hstop hrest (List.rel_append hnew hgoals))
termination_by (input.length, potential goals)

theorem forall₂_takeWhile {α : Type} {rel : α → α → Prop} {p : α → Bool}
    (hp : ∀ x x', rel x x' → p x' = p x) {l l' : List α} (h : List.Forall₂ rel l l') :
    List.Forall₂ rel (l.takeWhile p) (l'.takeWhile p) := by
  induction h with
  | nil => exact .nil
  | @cons x x' l l' hx _ ih =>
    rw [List.takeWhile_cons, List.takeWhile_cons, hp x x' hx]
    split
    · exact .cons hx ih
    · exact .nil

theorem parse_renamed {tokens tokens' : List Token}
    (h : List.Forall₂ (Token.Renamed N) tokens tokens') :
    (parse tokens).Renamed N (parse tokens') := by
  rw [parse_eq_readGoals, parse_eq_readGoals]
  have hkind := kind_splitStop_snd tokens
  have hstop : (splitStop tokens).2.Renamed N (splitStop tokens').2 := by
    refine ⟨(kind_splitStop_snd tokens').trans hkind.symm, ?_, ?_⟩
    · intro hid
      rw [hkind] at hid
      cases hid
    · exact fun _ hno => absurd hkind hno
  refine readGoals_renamed hstop ?_ renamed_plain
  rw [splitStop_fst, splitStop_fst]
  exact forall₂_takeWhile (fun t t' ht => by rw [ht.kind]) h

end OnePass
