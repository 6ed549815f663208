import OnePass.Grammar.Parse
import OnePass.Proofs.Grammar.Tree

/-!
# Moves of the parser

Working off goals one move at a time, on tokens whose place in a tree is known. -/

namespace OnePass

open Token (symbolAt keywordAt)

/-! ### One move at a time -/

/-- A parse with some steps in front of it. -/
def Parse.after (p : Parse) (steps : List Step) : Parse := ⟨steps ++ p.steps, p.error⟩

/-- What working off some goals yields. -/
def readGoals (stop : Token) (input : List Token) (goals : List Goal) : Parse :=
  parseGoals stop input goals #[]

@[simp] theorem Parse.after_nil (p : Parse) : p.after [] = p := rfl

@[simp] theorem Parse.after_after (p : Parse) (steps more : List Step) :
    (p.after steps).after more = p.after (more ++ steps) := by
  simp [Parse.after]

@[simp] theorem Parse.error_after (p : Parse) (steps : List Step) :
    (p.after steps).error = p.error := rfl

@[simp] theorem readGoals_nil (stop : Token) (input : List Token) :
    readGoals stop input [] = ⟨[], none⟩ := by
  rw [readGoals, parseGoals]

/-- The outcome of a move: an error, or the goals after it with its steps in front. -/
def Move.outcome (stop : Token) (input : List Token) (goals : List Goal) : Move → Parse
  | .fail expected =>
    ⟨[], some ⟨expected, input.head?.map (·.lexeme), (input.head?.getD stop).line⟩⟩
  | .expand steps new => (readGoals stop input (new ++ goals)).after steps
  | .shift steps new => (readGoals stop input.tail (new ++ goals)).after steps

/-- Goals are worked off by the move for the first of them. -/
theorem readGoals_cons (stop : Token) (input : List Token) (goal : Goal) (goals : List Goal) :
    readGoals stop input (goal :: goals) =
      (predict stop input.head? input.tail.head? goal).outcome stop input goals := by
  cases h : predict stop input.head? input.tail.head? goal with
  | fail expected =>
    rw [readGoals, parseGoals_of_fail h]
    rfl
  | expand steps new =>
    rw [readGoals, parseGoals_of_expand h, parseGoals_eq]
    simp [Move.outcome, Parse.after, readGoals]
  | shift steps new =>
    cases input with
    | nil => exact absurd h predict_end_ne_shift
    | cons token rest =>
      rw [List.head?_cons, List.tail_cons] at h
      rw [readGoals, parseGoals_of_shift h, parseGoals_eq]
      simp [Move.outcome, Parse.after, readGoals]

/-- The same where the next token is known. -/
theorem readGoals_token (stop t : Token) (rest : List Token) (goal : Goal) (goals : List Goal) :
    readGoals stop (t :: rest) (goal :: goals) =
      (predict stop (some t) rest.head? goal).outcome stop (t :: rest) goals := readGoals_cons ..

/-- Works off some goals in a number of moves, if that many are enough. -/
def readWithin? (stop : Token) : Nat → List Token → List Goal → Option Parse
  | _, _, [] => some ⟨[], none⟩
  | 0, _, _ :: _ => none
  | moves + 1, input, goal :: goals =>
    match predict stop input.head? input.tail.head? goal with
    | .fail expected =>
      some ⟨[], some ⟨expected, input.head?.map (·.lexeme), (input.head?.getD stop).line⟩⟩
    | .expand steps new => (readWithin? stop moves input (new ++ goals)).map (·.after steps)
    | .shift steps new => (readWithin? stop moves input.tail (new ++ goals)).map (·.after steps)

theorem readGoals_of_within {stop : Token} {moves : Nat} {input : List Token} {goals : List Goal}
    {p : Parse} (h : readWithin? stop moves input goals = some p) :
    readGoals stop input goals = p := by
  induction moves generalizing input goals p with
  | zero =>
    cases goals with
    | nil => exact (readGoals_nil stop input).trans (Option.some.inj h)
    | cons => cases h
  | succ moves ih =>
    cases goals with
    | nil => exact (readGoals_nil stop input).trans (Option.some.inj h)
    | cons goal goals =>
      rw [readGoals_cons]
      rw [readWithin?] at h
      cases hmove : predict stop input.head? input.tail.head? goal with
      | fail expected =>
        rw [hmove] at h
        exact Option.some.inj h
      | expand | shift =>
        rw [hmove] at h
        obtain ⟨q, hq, rfl⟩ := Option.map_eq_some_iff.mp h
        exact congrArg (Parse.after · _) (ih hq)

/-- What a program of these tokens calls for, if so many moves are enough. -/
def parseWithin? (moves : Nat) (tokens : List Token) : Option Parse :=
  readWithin? (splitStop tokens).2 moves (splitStop tokens).1 programGoals

theorem parse_of_within {moves : Nat} {tokens : List Token} {p : Parse}
    (h : parseWithin? moves tokens = some p) : parse tokens = p := readGoals_of_within h

section
variable (stop : Token) (goals : List Goal) (rest : List Token)

/-- A symbol that is expected is read. -/
@[simp] theorem readGoals_expect (lexeme : String) (line : Nat) (actions : List Action) :
    readGoals stop (symbolAt lexeme line :: rest) (.expect lexeme actions :: goals) =
      (readGoals stop rest goals).after (actions.map (⟨·, symbolAt lexeme line⟩)) := by
  rw [readGoals_cons]
  simp [predict, Move.outcome, Token.isSymbol, symbolAt]

/-- A step is performed. -/
@[simp] theorem readGoals_perform (step : Step) :
    readGoals stop rest (.perform step :: goals) = (readGoals stop rest goals).after [step] := by
  rw [readGoals_cons]
  simp [predict, Move.outcome]

/-- An action is performed at the next token. -/
@[simp] theorem readGoals_performHere (action : Action) :
    readGoals stop rest (.performHere action :: goals) =
      (readGoals stop rest goals).after [⟨action, rest.headD stop⟩] := by
  rw [readGoals_cons]
  cases rest <;> simp [predict, Move.outcome]

end

/-! ### Tokens -/

section
variable (a b : String) (line : Nat)

@[simp] theorem Token.isSymbol_symbolAt : (symbolAt a line).isSymbol b = (a == b) := by
  simp [Token.isSymbol, symbolAt]

@[simp] theorem Token.isKeyword_symbolAt : (symbolAt a line).isKeyword b = false := by
  simp [Token.isKeyword, symbolAt]

@[simp] theorem Token.isSymbol_keywordAt : (keywordAt a line).isSymbol b = false := by
  simp [Token.isSymbol, keywordAt]

@[simp] theorem Token.isKeyword_keywordAt : (keywordAt a line).isKeyword b = (a == b) := by
  simp [Token.isKeyword, keywordAt]

@[simp] theorem Token.kind_symbolAt : (symbolAt a line).kind = .symbol := rfl

@[simp] theorem Token.kind_keywordAt : (keywordAt a line).kind = .keyword := rfl

@[simp] theorem Name.kind_token (x : Name) : x.token.kind = .id := rfl

@[simp] theorem Name.isSymbol_token (x : Name) : x.token.isSymbol a = false := by
  simp [Token.isSymbol, Name.token]

@[simp] theorem Name.isKeyword_token (x : Name) : x.token.isKeyword a = false := by
  simp [Token.isKeyword, Name.token]

@[simp] theorem Numeral.kind_token (n : Numeral) : n.token.kind = .num := rfl

@[simp] theorem Numeral.isSymbol_token (n : Numeral) : n.token.isSymbol a = false := by
  simp [Token.isSymbol, Numeral.token]

@[simp] theorem Numeral.isKeyword_token (n : Numeral) : n.token.isKeyword a = false := by
  simp [Token.isKeyword, Numeral.token]

end

/-- None of some symbols comes next. -/
abbrev Avoids (symbols : List String) (input : List Token) : Prop :=
  ∀ s ∈ symbols, input.head?.any (·.isSymbol s) = false

/-- What comes next does not go on with an expression. -/
abbrev EndsExpr : List Token → Prop := Avoids ["[", "(", "=", "*", "+", "-", "<", "=="]

/-! ### Goals that nothing comes for -/

section
variable {stop : Token} {goals : List Goal} {input : List Token}

theorem readGoals_products (h : input.head?.any (·.isSymbol "*") = false) :
    readGoals stop input (.products :: goals) = readGoals stop input goals := by
  rw [readGoals_cons]
  simp [predict, Move.outcome, h]

theorem readGoals_sums (h : input.head?.any (·.isSymbol "+") = false)
    (h' : input.head?.any (·.isSymbol "-") = false) :
    readGoals stop input (.sums :: goals) = readGoals stop input goals := by
  rw [readGoals_cons]
  simp [predict, Move.outcome, h, h']

theorem readGoals_comparison (h : input.head?.any (·.isSymbol "<") = false)
    (h' : input.head?.any (·.isSymbol "==") = false) :
    readGoals stop input (.comparison :: goals) = readGoals stop input goals := by
  rw [readGoals_cons]
  simp [predict, Move.outcome, h, h']

theorem readGoals_noAssign (h : input.head?.any (·.isSymbol "=") = false) :
    readGoals stop input (.noAssign :: goals) = readGoals stop input goals := by
  rw [readGoals_cons]
  simp [predict, Move.outcome, h]

theorem readGoals_factorRest {x : Token} (h : input.head?.any (·.isSymbol "[") = false)
    (h' : input.head?.any (·.isSymbol "(") = false) :
    readGoals stop input (.factorRest x :: goals) = readGoals stop input goals := by
  rw [readGoals_cons]
  simp [predict, Move.outcome, h, h']

theorem readGoals_nameRest {x : Token} (h : input.head?.any (·.isSymbol "[") = false)
    (h' : input.head?.any (·.isSymbol "(") = false) :
    readGoals stop input (.nameRest x :: goals) = readGoals stop input (.placeRest :: goals) := by
  rw [readGoals_cons]
  simp [predict, Move.outcome, h, h']

theorem readGoals_placeRest (h : input.head?.any (·.isSymbol "=") = false) :
    readGoals stop input (.placeRest :: goals) = readGoals stop input (operatorGoals ++ goals) := by
  rw [readGoals_cons]
  simp [predict, Move.outcome, h]

end

end OnePass
