import OnePass.Proofs.Grammar.Recover

/-!
# A parse stops at the first token that cannot come

A parse that gets stuck has read a text that a program can begin with, and the token it is stuck at
is one that no program can have there. For the one, every goal has a shortest text, and the goals of
a parse can be met one after the other by these texts: what is left to come never spoils a choice
that was made, since a goal that was met by nothing is followed by something that it could not have
read. For the other, a choice is made by the next token alone, but for a lone `void` between
parentheses, so that the parse of a longer text gets stuck at the same token. -/

namespace OnePass

open Token (symbolAt keywordAt)

/-! ### Where a parse gets stuck -/

/-- Working off some goals gets stuck at what is left of the input, for want of something else. -/
inductive Stuck (stop : Token) : List Token → List Goal → List Token → Expected → Prop
  | fail {input : List Token} {goal : Goal} {goals : List Goal} {expected : Expected} :
      predict stop input.head? input.tail.head? goal = .fail expected →
      Stuck stop input (goal :: goals) input expected
  | expand {input rest : List Token} {goal : Goal} {goals new : List Goal} {steps : List Step}
      {expected : Expected} :
      predict stop input.head? input.tail.head? goal = .expand steps new →
      Stuck stop input (new ++ goals) rest expected → Stuck stop input (goal :: goals) rest expected
  | shift {token : Token} {input rest : List Token} {goal : Goal} {goals new : List Goal}
      {steps : List Step} {expected : Expected} :
      predict stop (some token) input.head? goal = .shift steps new →
      Stuck stop input (new ++ goals) rest expected →
      Stuck stop (token :: input) (goal :: goals) rest expected

section
variable {stop : Token} {input rest : List Token} {goals : List Goal} {expected : Expected}

/-- A syntax error tells where a parse is stuck. -/
theorem exists_stuck {e : SyntaxError} (h : (readGoals stop input goals).error = some e) :
    ∃ rest expected, Stuck stop input goals rest expected ∧
      e = ⟨expected, rest.head?.map (·.lexeme), (rest.head?.getD stop).line⟩ := by
  have start : Array Step := #[]
  induction input, goals, start using parseGoals.induct stop with
  | case1 => simp at h
  | case2 input _ goal goals expected hmove =>
    rw [readGoals_cons, hmove] at h
    exact ⟨input, expected, .fail hmove, (Option.some.inj h).symm⟩
  | case3 input _ goal goals more new hmove _ ih =>
    rw [readGoals_cons, hmove] at h
    obtain ⟨rest, expected, hstuck, he⟩ := ih h
    exact ⟨rest, expected, .expand hmove hstuck, he⟩
  | case4 _ goal goals more new token rest hmove ih =>
    rw [readGoals_cons, hmove] at h
    obtain ⟨rest, expected, hstuck, he⟩ := ih h
    exact ⟨rest, expected, .shift hmove hstuck, he⟩

theorem Stuck.suffix (h : Stuck stop input goals rest expected) : rest <:+ input := by
  induction h with
  | fail _ => exact List.suffix_refl _
  | expand _ _ ih => exact ih
  | shift _ _ ih => exact ih.trans (List.suffix_cons _ _)

/-- A parse that has read a token is not stuck before it. -/
theorem Stuck.length_le (h : Stuck stop input goals rest expected) : rest.length ≤ input.length :=
  h.suffix.length_le

end

/-! ### The token that no program can have -/

section
variable {stop : Token} {next after after' : Option Token} {goal : Goal}

/-- One token decides, except for parameters. -/
theorem predict_congr (h : goal ≠ .parameters) :
    predict stop next after goal = predict stop next after' goal := by
  cases goal with
  | parameters => exact absurd rfl h
  | _ => rfl

/-- The choice for parameters is always one. -/
theorem predict_parameters : predict stop next after .parameters =
    if next.any (·.isKeyword "void") && after.any (·.isSymbol ")") then .shift [] []
    else .expand [] parameterGoals := rfl

end

/-- Texts that agree up to a token begin with the same token. -/
theorem head?_append_cons (before : List Token) (t : Token) (more more' : List Token) :
    (before ++ t :: more').head? = (before ++ t :: more).head? := by
  cases before <;> rfl

/-- Parameters that are stuck at a token are not stuck at `void`, which is a type. -/
theorem Stuck.isKeyword_void {stop t : Token} {more : List Token} {goals : List Goal}
    {expected : Expected}
    (h : Stuck stop (t :: more) (parameterGoals ++ goals) (t :: more) expected) :
    t.isKeyword "void" = false := by
  cases hvoid : t.isKeyword "void" with
  | false => rfl
  | true =>
    have htype : predict stop (some t) more.head? .typeName = .shift [⟨.pushType, t⟩] [] := by
      simp [predict, hvoid]
    cases h with
    | fail hmove => cases hmove.symm.trans htype
    | expand hmove _ => cases hmove.symm.trans htype
    | shift _ hstuck => exact absurd hstuck.length_le (Nat.not_succ_le_self _)

/-- What comes after the token that a text is stuck at does not matter. -/
theorem Stuck.not_accepts {stop t : Token} {input rest before more more' : List Token}
    {goals : List Goal} {expected : Expected} (h : Stuck stop input goals rest expected)
    (hinput : input = before ++ t :: more) (hrest : rest = t :: more) :
    ¬ Accepts stop (before ++ t :: more') goals := by
  induction h generalizing before with
  | @fail input goal goals expected hmove =>
    subst hinput
    obtain rfl : before = [] := by simpa using congrArg List.length hrest
    have hgoal : goal ≠ .parameters := by
      rintro rfl
      rw [predict_parameters] at hmove
      split at hmove <;> cases hmove
    have hsame : predict stop (some t) more'.head? goal = .fail expected :=
      (predict_congr hgoal).trans hmove
    rw [List.nil_append, accepts_cons, List.head?_cons, List.tail_cons, hsame]
    exact id
  | @expand input rest goal goals new steps expected hmove hstuck ih =>
    subst hinput
    have hsame : predict stop (before ++ t :: more').head? (before ++ t :: more').tail.head? goal =
        .expand steps new := by
      rcases before with _ | ⟨b, before⟩
      · by_cases hgoal : goal = .parameters
        · subst hgoal
          rw [predict_parameters] at hmove
          split at hmove
          · cases hmove
          obtain ⟨rfl, rfl⟩ := Move.expand.inj hmove
          subst hrest
          simp [predict_parameters, hstuck.isKeyword_void]
        · exact (predict_congr hgoal).trans hmove
      · rw [← hmove]
        exact congrArg (predict stop (some b) · goal) (head?_append_cons before t more more')
    rw [accepts_cons, hsame]
    exact ih rfl hrest
  | @shift token input rest goal goals new steps expected hmove hstuck ih =>
    subst hrest
    rcases before with _ | ⟨b, before⟩
    · obtain ⟨rfl, rfl⟩ := List.cons.inj hinput
      have hlength := hstuck.length_le
      exact absurd hlength (Nat.not_succ_le_self _)
    · obtain ⟨rfl, rfl⟩ : token = b ∧ input = before ++ t :: more := List.cons.inj hinput
      rw [← head?_append_cons before t more more'] at hmove
      rw [List.cons_append, accepts_cons, List.head?_cons, List.tail_cons, hmove]
      exact ih rfl rfl

/-! ### The text that a program can begin with -/

/-- The shortest text that meets a goal. -/
def Goal.finish : Goal → List Token
  | .expect lexeme _ => [symbolAt lexeme 0]
  | .typeName => [keywordAt "int" 0]
  | .globalName | .localName => [Name.token ⟨"x", 0⟩, symbolAt ";" 0]
  | .globalRest _ | .localRest _ | .returnRest _ | .statement => [symbolAt ";" 0]
  | .arraySize _ => [Numeral.token ⟨"1", 0⟩, symbolAt "]" 0, symbolAt ";" 0]
  | .parameters => [keywordAt "void" 0]
  | .parameterName => [Name.token ⟨"x", 0⟩]
  | .untilWord => [keywordAt "until" 0]
  | .expression | .factor => [Numeral.token ⟨"1", 0⟩]
  | _ => []

/-- The shortest text that meets some goals. -/
def finish : List Goal → List Token
  | [] => []
  | goal :: goals => goal.finish ++ finish goals

/-- What comes next does not go on with a goal that was met by its shortest text. -/
def Goal.Leaves (next : Option Token) : Goal → Prop
  | .declarations => next = none
  | .parameters | .parameterName | .parameterRest _ | .moreParameters | .arguments
  | .moreArguments => next = some (symbolAt ")" 0)
  | .locals | .statements => next = some (symbolAt "\x7d" 0)
  | .statement | .elsePart => next.any (·.isKeyword "else") = false
  | .expression | .nameRest _ | .placeRest | .factor | .factorRest _ | .products | .sums
  | .comparison | .noAssign =>
    ∀ s ∈ ["[", "(", "=", "*", "+", "-", "<", "=="], next.any (·.isSymbol s) = false
  | _ => True

/-- Each of some goals is left by the shortest text of those after it. -/
def Ready : List Goal → Prop
  | [] => True
  | goal :: goals => goal.Leaves (finish goals).head? ∧ Ready goals

section
variable {stop : Token} {input : List Token} {goal : Goal} {goals : List Goal}

/-- A goal is met by its shortest text where what comes next leaves it. -/
theorem Goal.Leaves.accepts (h : goal.Leaves input.head?) (hrest : Accepts stop input goals) :
    Accepts stop (goal.finish ++ input) (goal :: goals) := by
  cases goal <;> simp_all [Goal.finish, Goal.Leaves, accepts_cons, predict, Move.Accepts,
    operatorGoals]

theorem Ready.accepts (h : Ready goals) : Accepts stop (finish goals) goals := by
  induction goals with
  | nil => simp [Accepts]
  | cons goal goals ih => exact h.1.accepts (ih h.2)

/-- The goals that a move puts in place of one are left like that one. -/
theorem Ready.move {next after : Option Token} {steps : List Step} {new : List Goal}
    (h : Ready (goal :: goals)) (hmove : predict stop next after goal = .expand steps new ∨
      predict stop next after goal = .shift steps new) : Ready (new ++ goals) := by
  -- one case for each goal and each branch of what it predicts, with its new goals read off
  cases goal <;> simp only [predict] at hmove <;> (repeat' split at hmove) <;>
    simp only [Move.expand.injEq, Move.shift.injEq, reduceCtorEq, or_false, false_or] at hmove <;>
    obtain ⟨-, rfl⟩ := hmove <;>
    simp_all [Ready, Goal.Leaves, Goal.finish, finish, parameterGoals, argumentGoals, operatorGoals,
      blockGoals, indexGoals, callGoals]

/-- Where parameters are accepted as such, the choice for them is not a lone `void`. -/
theorem accepts_parameters (h : Accepts stop input (parameterGoals ++ goals)) :
    Accepts stop input (.parameters :: goals) := by
  rw [accepts_cons, predict_parameters]
  split
  · rename_i hvoid
    obtain ⟨-, hclose⟩ := Bool.and_eq_true_iff.mp hvoid
    obtain ⟨_, rest, rfl, _, _, rfl, ⟨type, rfl⟩, _, _, rfl, hname, -⟩ := spans_of_accepts h
    obtain ⟨p, hp⟩ := hname type
    obtain ⟨-, rfl⟩ := List.cons.inj (hp : _ = p.type.token :: p.name.token :: _)
    simp at hclose
  · exact h

/-- A move that reads a token is made again where the shortest text comes after it. -/
theorem Ready.predict_shift {next after : Option Token} {steps : List Step} {new : List Goal}
    (h : Ready (goal :: goals)) (hmove : predict stop next after goal = .shift steps new) :
    predict stop next (finish (new ++ goals)).head? goal = .shift steps new := by
  by_cases hgoal : goal = .parameters
  · subst hgoal
    rw [predict_parameters] at hmove
    split at hmove
    · rename_i hvoid
      obtain ⟨rfl, rfl⟩ := Move.shift.inj hmove
      have hclose : (finish goals).head? = some (symbolAt ")" 0) := h.1
      simp [predict_parameters, hclose, (Bool.and_eq_true_iff.mp hvoid).1]
    · cases hmove
  · exact (predict_congr hgoal).trans hmove

/-- What was read before a parse got stuck can be completed. -/
theorem Stuck.exists_accepts {rest before : List Token} {expected : Expected}
    (h : Stuck stop input goals rest expected) (hready : Ready goals)
    (hinput : input = before ++ rest) : ∃ more, Accepts stop (before ++ more) goals := by
  have hempty : ∀ {goals}, Ready goals → ∃ more, Accepts stop ([] ++ more) goals :=
    fun h => ⟨_, h.accepts⟩
  induction h generalizing before with
  | fail _ =>
    obtain rfl : before = [] := by simpa using congrArg List.length hinput
    exact hempty hready
  | @expand input rest goal goals new steps expected hmove _ ih =>
    rcases before with _ | ⟨b, before⟩
    · exact hempty hready
    obtain ⟨more, hmore⟩ := ih (hready.move (.inl hmove)) hinput
    refine ⟨more, ?_⟩
    subst hinput
    by_cases hgoal : goal = .parameters
    · subst hgoal
      rw [predict_parameters] at hmove
      split at hmove
      · cases hmove
      obtain ⟨rfl, rfl⟩ := Move.expand.inj hmove
      exact accepts_parameters hmore
    · have hsame : predict stop (some b) (before ++ more).head? goal = .expand steps new :=
        (predict_congr hgoal).trans hmove
      rw [List.cons_append, accepts_cons, List.head?_cons, List.tail_cons, hsame]
      exact hmore
  | @shift token input rest goal goals new steps expected hmove _ ih =>
    rcases before with _ | ⟨b, before⟩
    · exact hempty hready
    obtain ⟨rfl, rfl⟩ : token = b ∧ input = before ++ rest := List.cons.inj hinput
    have hnew := hready.move (.inr hmove)
    -- the token after this one is the next of the text, or else the first of the shortest text
    obtain ⟨more, hmore, hsame⟩ : ∃ more, Accepts stop (before ++ more) (new ++ goals) ∧
        predict stop (some token) (before ++ more).head? goal = .shift steps new := by
      cases before with
      | nil => exact ⟨_, hnew.accepts, hready.predict_shift hmove⟩
      | cons b before =>
        obtain ⟨more, hmore⟩ := ih hnew rfl
        exact ⟨more, hmore, hmove⟩
    refine ⟨more, ?_⟩
    rw [List.cons_append, accepts_cons, List.head?_cons, List.tail_cons, hsame]
    exact hmore

end

end OnePass
