import OnePass.Grammar.Goal

/-!
# Parsing

A parse works off a stack of goals and collects the steps they call for. It stops at the first
token that fits no goal, with the steps up to there. It ends on every input: a move either reads a
token or lowers the potential of the goals. -/

namespace OnePass

/-- Something else was found where the grammar allows only one kind of thing. -/
structure SyntaxError where
  expected : Expected
  /-- The text found, or none at the end of the program. -/
  found : Option String
  line : Nat
  deriving DecidableEq, Repr

/-- What a syntax error says. -/
def SyntaxError.message (e : SyntaxError) : String :=
  match e.found with
  | some lexeme => s!"expected {e.expected.text}, found '{lexeme}'"
  | none => s!"expected {e.expected.text}, found end of input"

/-- The steps that a program calls for, up to its end or to the first syntax error. -/
structure Parse where
  steps : List Step
  error : Option SyntaxError := none
  deriving DecidableEq, Repr

/-- The tokens of a program without the stop mark, and the stop mark. What follows a stop mark
    does not count; where there is none it is put after the last token. -/
def splitStop (tokens : List Token) : List Token × Token :=
  let body := tokens.takeWhile (·.kind != .stop)
  match tokens.dropWhile (·.kind != .stop) with
  | stop :: _ => (body, stop)
  | [] => (body, Token.stopMark ((body.getLast?.map (·.line)).getD 1))

/-- Works off some goals, after the steps already collected. -/
def parseGoals (stop : Token) (input : List Token) (goals : List Goal) (steps : Array Step) :
    Parse :=
  match goals with
  | [] => ⟨steps.toList, none⟩
  | goal :: goals =>
    match h : predict stop input.head? input.tail.head? goal with
    | .fail expected =>
      let found := input.head?
      ⟨steps.toList, some ⟨expected, found.map (·.lexeme), (found.getD stop).line⟩⟩
    | .expand more new =>
      have := potential_lt_of_expand h goals
      parseGoals stop input (new ++ goals) (steps ++ more.toArray)
    | .shift more new =>
      match input with
      | [] => absurd h predict_end_ne_shift
      | _ :: rest => parseGoals stop rest (new ++ goals) (steps ++ more.toArray)
termination_by (input.length, potential goals)

/-! ### One move at a time -/

section
variable {stop : Token} {input rest : List Token} {goal : Goal} {goals new : List Goal}
  {steps : Array Step} {more : List Step} {expected : Expected} {token : Token}

/-- Nothing is performed at a token that does not fit. -/
theorem parseGoals_of_fail (h : predict stop input.head? input.tail.head? goal = .fail expected) :
    parseGoals stop input (goal :: goals) steps =
      ⟨steps.toList,
        some ⟨expected, input.head?.map (·.lexeme), (input.head?.getD stop).line⟩⟩ := by
  rw [parseGoals]
  split <;> rename_i h' <;> rw [h] at h' <;> cases h'
  rfl

/-- A move that reads nothing leaves the input as it is. -/
theorem parseGoals_of_expand
    (h : predict stop input.head? input.tail.head? goal = .expand more new) :
    parseGoals stop input (goal :: goals) steps =
      parseGoals stop input (new ++ goals) (steps ++ more.toArray) := by
  rw [parseGoals]
  split <;> rename_i h' <;> rw [h] at h' <;> cases h'
  rfl

/-- A move that reads takes the next token off the input. -/
theorem parseGoals_of_shift (h : predict stop (some token) rest.head? goal = .shift more new) :
    parseGoals stop (token :: rest) (goal :: goals) steps =
      parseGoals stop rest (new ++ goals) (steps ++ more.toArray) := by
  rw [parseGoals]
  split <;> rename_i h' <;> rw [List.head?_cons, List.tail_cons, h] at h' <;> cases h'
  rfl

end

/-- Steps already collected stay in front of those that the goals call for. -/
theorem parseGoals_eq (stop : Token) (input : List Token) (goals : List Goal)
    (steps : Array Step) :
    parseGoals stop input goals steps =
      ⟨steps.toList ++ (parseGoals stop input goals #[]).steps,
        (parseGoals stop input goals #[]).error⟩ := by
  have start : Array Step := #[]
  induction input, goals, start using parseGoals.induct stop generalizing steps with
  | case1 => simp [parseGoals]
  | case2 input _ goal goals expected h =>
    rw [parseGoals_of_fail h, parseGoals_of_fail h]
    simp
  | case3 input _ goal goals more new h _ ih =>
    rw [parseGoals_of_expand h, parseGoals_of_expand h, ih, ih (#[] ++ more.toArray)]
    simp
  | case4 _ goal goals more new token rest h ih =>
    rw [List.head?_cons, List.tail_cons] at h
    rw [parseGoals_of_shift h, parseGoals_of_shift h, ih, ih (#[] ++ more.toArray)]
    simp

/-- The goals of a program. -/
def programGoals : List Goal :=
  [.performHere .beginProgram, .declarations, .performHere .endProgram]

/-- Parses the tokens of a program. -/
def parse (tokens : List Token) : Parse :=
  let (body, stop) := splitStop tokens
  parseGoals stop body programGoals #[]

end OnePass
