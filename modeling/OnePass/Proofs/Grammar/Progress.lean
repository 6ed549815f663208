import OnePass.Proofs.Grammar.Earliest

/-!
# A parse always stops

A parse holds all its tokens and goes through them by position. One move looks at the token at the
position and at the one after it, and may step over the first; the stop mark is never stepped over.
Tokens left and the potential of the goals make up a measure that every move lowers, so that no
sequence of moves goes on for ever. The same measure, taken over the goals above some others, shows
that working off a goal never comes back to a goal of its kind without a token read: every round of
a loop and every round through phrases that contain each other reads one. -/

namespace OnePass

/-! ### Tokens by position -/

/-- Some tokens as a parse holds them: with a stop mark behind them, unless the last is one. -/
def withStop (tokens : List Token) : List Token :=
  if tokens.getLast?.any (·.kind == .stop) then tokens
  else tokens ++ [.stopMark ((tokens.getLast?.map (·.line)).getD 1)]

/-- The position of the first stop mark. -/
def stopIndex (tokens : List Token) : Nat := tokens.findIdx (·.kind == .stop)

/-- A token, unless it is a stop mark. -/
def Token.unlessStop (t : Token) : Option Token := if t.kind = .stop then none else some t

/-- A parse under way: the position of the token that comes next, and the goals left. -/
structure Cursor where
  position : Nat
  goals : List Goal

/-- One move at a position that has a token, with the steps it calls for. -/
inductive Cursor.Moves (tokens : List Token) : Cursor → List Step → Cursor → Prop
  | expand {i : Nat} {t : Token} {goal : Goal} {goals new : List Goal} {steps : List Step} :
      tokens[i]? = some t → predict t t.unlessStop tokens[i + 1]? goal = .expand steps new →
      Moves tokens ⟨i, goal :: goals⟩ steps ⟨i, new ++ goals⟩
  | shift {i : Nat} {t : Token} {goal : Goal} {goals new : List Goal} {steps : List Step} :
      tokens[i]? = some t → predict t t.unlessStop tokens[i + 1]? goal = .shift steps new →
      Moves tokens ⟨i, goal :: goals⟩ steps ⟨i + 1, new ++ goals⟩

/-- Moves one after the other, each for a goal above some that are left alone, with the steps they
    call for. -/
inductive Cursor.Works (tokens : List Token) (base : List Goal) :
    Cursor → List Step → Cursor → Prop
  | done {c : Cursor} : Works tokens base c [] c
  | move {i : Nat} {goal : Goal} {above : List Goal} {c d : Cursor} {steps more : List Step} :
      Moves tokens ⟨i, goal :: (above ++ base)⟩ steps c → Works tokens base c more d →
      Works tokens base ⟨i, goal :: (above ++ base)⟩ (steps ++ more) d

/-- A parse ends here: all goals are met, or the token at the position does not fit. -/
inductive Cursor.Halts (tokens : List Token) : Cursor → Option SyntaxError → Prop
  | met {i : Nat} : Halts tokens ⟨i, []⟩ none
  | fail {i : Nat} {t : Token} {goal : Goal} {goals : List Goal} {expected : Expected} :
      tokens[i]? = some t → predict t t.unlessStop tokens[i + 1]? goal = .fail expected →
      Halts tokens ⟨i, goal :: goals⟩ (some ⟨expected, t.unlessStop.map (·.lexeme), t.line⟩)

section
variable {tokens : List Token} {base : List Goal} {c d : Cursor} {steps more : List Step}

/-- Any moves are moves above no goals. -/
theorem Cursor.Works.cons {i : Nat} {goal : Goal} {goals : List Goal}
    (hmore : Works tokens [] c more d) (hmove : Moves tokens ⟨i, goal :: goals⟩ steps c) :
    Works tokens [] ⟨i, goal :: goals⟩ (steps ++ more) d := by
  rw [← List.append_nil goals] at hmove ⊢
  exact .move hmove hmore

/-! ### Every move brings the end nearer -/

/-- The tokens left, and the moves that can be made without reading one of them. -/
def Cursor.measure (tokens : List Token) (c : Cursor) : Nat × Nat :=
  (tokens.length - c.position, potential c.goals)

/-- A move reads a token or lowers the potential of the goals. -/
theorem Cursor.Moves.measure_lt (h : Moves tokens c steps d) :
    Prod.Lex (· < ·) (· < ·) (d.measure tokens) (c.measure tokens) := by
  cases h with
  | expand ht hmove => exact .right _ (potential_lt_of_expand hmove _)
  | shift ht hmove =>
    obtain ⟨hi, -⟩ := List.getElem?_eq_some_iff.mp ht
    exact .left _ _ (by simp only; omega)

/-- No sequence of moves goes on for ever. -/
theorem Cursor.wellFounded_moves (tokens : List Token) :
    WellFounded fun d c => ∃ steps, Cursor.Moves tokens c steps d :=
  Subrelation.wf (fun ⟨_, h⟩ => h.measure_lt)
    (InvImage.wf (Cursor.measure tokens) (Prod.lex Nat.lt_wfRel Nat.lt_wfRel).wf)

/-! ### The stop mark is not passed -/

/-- A token that is read is no stop mark. -/
theorem unlessStop_of_shift {t : Token} {after : Option Token} {goal : Goal} {new : List Goal}
    (h : predict t t.unlessStop after goal = .shift steps new) : t.kind ≠ .stop := by
  intro hstop
  rw [Token.unlessStop, if_pos hstop] at h
  exact predict_end_ne_shift h

/-- A position up to the first stop mark moves no farther than to it. -/
theorem Cursor.Moves.position_le (h : Moves tokens c steps d)
    (hc : c.position ≤ stopIndex tokens) : d.position ≤ stopIndex tokens := by
  cases h with
  | expand => exact hc
  | @shift i t goal goals new steps ht hmove =>
    obtain ⟨hi, rfl⟩ := List.getElem?_eq_some_iff.mp ht
    refine Nat.lt_of_le_of_ne hc fun heq => unlessStop_of_shift hmove ?_
    change i = stopIndex tokens at heq
    subst heq
    exact eq_of_beq (List.findIdx_getElem (w := hi))

theorem Cursor.Works.position_le (h : Works tokens base c steps d)
    (hc : c.position ≤ stopIndex tokens) : d.position ≤ stopIndex tokens := by
  induction h with
  | done => exact hc
  | move hmove _ ih => exact ih (hmove.position_le hc)

/-! ### Rounds -/

/-- Goals of one kind have one rank. -/
theorem Goal.rank_congr {goal goal' : Goal} (h : goal'.ctorIdx = goal.ctorIdx) :
    goal'.rank = goal.rank := by
  -- the ranks in the order of the kinds: pair by pair there would be a thousand cases
  have hrow : ∀ goal : Goal, goal.rank = [0, 1, 1, 1, 0, 0, 0, 0, 1, 0, 1, 1, 1, 0, 0, 2, 1, 1, 0,
      1, 0, 6, 5, 0, 1, 1, 1, 1, 1, 1, 1].getD goal.ctorIdx 0 := by
    intro goal
    cases goal <;> rfl
  rw [hrow, hrow, h]

/-- Moves above some goals read a token, or lower the potential of the goals above. -/
theorem Cursor.Works.position_lt_or_potential_le {above : List Goal}
    (h : Works tokens base c steps d) (hc : c.goals = above ++ base) :
    c.position < d.position ∨ c.position = d.position ∧
      ∃ above', d.goals = above' ++ base ∧ potential above' ≤ potential above := by
  induction h generalizing above with
  | done => exact .inr ⟨rfl, above, hc, Nat.le_refl _⟩
  | @move i goal above₀ _ _ _ _ hmove _ ih =>
    obtain rfl : above = goal :: above₀ := List.append_cancel_right (hc.symm.trans rfl)
    generalize hfrom : (⟨i, goal :: (above₀ ++ base)⟩ : Cursor) = from' at hmove
    cases hmove with
    | @expand _ t _ _ new _ ht hmove =>
      obtain ⟨rfl, rfl, rfl⟩ := by simpa using hfrom
      rcases ih (List.append_assoc new above₀ base).symm with hlt | ⟨heq, above', hd, hle⟩
      · exact .inl hlt
      · exact .inr ⟨heq, above', hd, hle.trans (potential_lt_of_expand hmove above₀).le⟩
    | @shift _ t _ _ new _ ht hmove =>
      obtain ⟨rfl, rfl, rfl⟩ := by simpa using hfrom
      rcases ih (List.append_assoc new above₀ base).symm with hlt | ⟨heq, -⟩
      · exact .inl (Nat.lt_of_succ_lt hlt)
      · exact .inl (heq ▸ Nat.lt_succ_self i)

/-- Working off a goal comes to a goal of its kind again only after a token has been read. -/
theorem Cursor.Works.position_lt {i j : Nat} {goal goal' : Goal} {above : List Goal}
    (hfirst : Moves tokens ⟨i, goal :: base⟩ steps c)
    (hmore : Works tokens base c more ⟨j, goal' :: (above ++ base)⟩)
    (hkind : goal'.ctorIdx = goal.ctorIdx) : i < j := by
  generalize hfrom : (⟨i, goal :: base⟩ : Cursor) = from' at hfirst
  cases hfirst with
  | @expand _ t _ _ new _ ht hmove =>
    obtain ⟨rfl, rfl, rfl⟩ := by simpa using hfrom
    rcases hmore.position_lt_or_potential_le rfl with hlt | ⟨-, above', hd, hle⟩
    · exact hlt
    · obtain rfl : goal' :: above = above' := List.append_cancel_right hd
      have hlt := potential_lt_of_expand hmove []
      have hrank := Goal.rank_congr hkind
      simp only [potential, List.append_nil, ite_self] at hlt hle
      omega
  | @shift _ t _ _ new _ ht hmove =>
    obtain ⟨rfl, rfl, rfl⟩ := by simpa using hfrom
    rcases hmore.position_lt_or_potential_le rfl with hlt | ⟨heq, -⟩
    · exact Nat.lt_of_succ_lt hlt
    · exact Nat.lt_of_lt_of_eq i.lt_succ_self heq

end

/-! ### Positions and the text left -/

/-- A parse holds the text of a program, its stop mark, and what does not count. -/
theorem exists_withStop_eq (tokens : List Token) :
    ∃ tail, withStop tokens = (splitStop tokens).1 ++ (splitStop tokens).2 :: tail := by
  have happend := List.takeWhile_append_dropWhile (p := (·.kind != .stop)) (l := tokens)
  rw [splitStop]
  cases hdrop : tokens.dropWhile (·.kind != .stop) with
  | cons stop rest =>
    rw [hdrop] at happend
    rw [withStop]
    split
    · exact ⟨rest, happend.symm⟩
    · exact ⟨rest ++ [_], (congrArg (· ++ _) happend.symm).trans (List.append_assoc ..)⟩
  | nil =>
    rw [hdrop, List.append_nil] at happend
    have hlast : ¬ tokens.getLast?.any (·.kind == .stop) := by
      rw [Option.any_eq_true]
      rintro ⟨t, ht, hstop⟩
      have hkind := List.dropWhile_eq_nil_iff.mp hdrop t (List.mem_of_getLast? ht)
      exact bne_iff_ne.mp hkind (eq_of_beq hstop)
    refine ⟨[], ?_⟩
    rw [withStop, if_neg hlast]
    simp only [happend]

/-- The first stop mark ends the text of a program. -/
theorem stopIndex_withStop (tokens : List Token) :
    stopIndex (withStop tokens) = (splitStop tokens).1.length := by
  obtain ⟨tail, htail⟩ := exists_withStop_eq tokens
  have hstop := kind_splitStop_snd tokens
  have hbody : (splitStop tokens).1.findIdx (·.kind == .stop) = (splitStop tokens).1.length := by
    rw [List.findIdx_eq_length]
    intro t ht
    rw [splitStop_fst] at ht
    simpa using List.mem_takeWhile_imp ht
  rw [htail, stopIndex, List.findIdx_append, hbody, if_neg (Nat.lt_irrefl _),
    List.findIdx_cons, hstop]
  simp

/-- The token after the next decides only by being a closing parenthesis or not. -/
theorem predict_congr_after {stop : Token} {next after after' : Option Token} {goal : Goal}
    (h : after.any (·.isSymbol ")") = after'.any (·.isSymbol ")")) :
    predict stop next after goal = predict stop next after' goal := by
  by_cases hgoal : goal = .parameters
  · rw [hgoal, predict_parameters, predict_parameters, h]
  · exact predict_congr hgoal

/-- A move by position is the move by the text left. -/
theorem exists_predict_eq (tokens : List Token) {i : Nat} (hi : i ≤ stopIndex (withStop tokens)) :
    ∃ t, (withStop tokens)[i]? = some t ∧
      ((splitStop tokens).1.drop i).head? = t.unlessStop ∧
      t.unlessStop.getD (splitStop tokens).2 = t ∧
      ∀ goal, predict (splitStop tokens).2 t.unlessStop
          ((splitStop tokens).1.drop i).tail.head? goal =
        predict t t.unlessStop (withStop tokens)[i + 1]? goal := by
  obtain ⟨tail, htail⟩ := exists_withStop_eq tokens
  rw [stopIndex_withStop] at hi
  have hkind : ∀ t ∈ (splitStop tokens).1, t.kind ≠ .stop := by
    intro t ht
    rw [splitStop_fst] at ht
    simpa using List.mem_takeWhile_imp ht
  have hstop := kind_splitStop_snd tokens
  generalize (splitStop tokens).1 = body, (splitStop tokens).2 = stop at *
  rw [htail, List.tail_drop, List.head?_drop, List.head?_drop]
  rcases Nat.lt_or_eq_of_le hi with hlt | rfl
  · have hbody := hkind body[i] (List.getElem_mem hlt)
    have hhere : body[i].unlessStop = some body[i] := if_neg hbody
    refine ⟨body[i], ?_, ?_, ?_, fun goal => ?_⟩
    · rw [List.getElem?_append_left hlt, List.getElem?_eq_getElem hlt]
    · rw [hhere, List.getElem?_eq_getElem hlt]
    · rw [hhere, Option.getD_some]
    · rw [hhere]
      refine (predict_congr_after ?_).trans rfl
      rcases Nat.lt_or_ge (i + 1) body.length with hnext | hnext
      · rw [List.getElem?_append_left hnext]
      · have heq : i + 1 = body.length := by omega
        simp [heq, Token.isSymbol, hstop]
  · have hhere : stop.unlessStop = none := if_pos hstop
    refine ⟨stop, by simp, by simp [hhere], by simp [hhere], fun goal => ?_⟩
    rw [hhere]
    by_cases hgoal : goal = .parameters
    · rw [hgoal]; rfl
    · exact predict_congr hgoal

/-- From a position in the text, moves lead to where the parse of the text left ends. -/
theorem exists_works_readGoals (tokens : List Token) (c : Cursor)
    (hc : c.position ≤ stopIndex (withStop tokens)) :
    ∃ d, c.Works (withStop tokens) []
        (readGoals (splitStop tokens).2 ((splitStop tokens).1.drop c.position) c.goals).steps d ∧
      d.Halts (withStop tokens)
        (readGoals (splitStop tokens).2 ((splitStop tokens).1.drop c.position) c.goals).error := by
  induction c using (Cursor.wellFounded_moves (withStop tokens)).induction with
  | _ c ih =>
    obtain ⟨i, goals⟩ := c
    cases goals with
    | nil =>
      rw [readGoals_nil]
      exact ⟨_, .done, .met⟩
    | cons goal goals =>
      obtain ⟨t, ht, hnext, hhere, hpredict⟩ := exists_predict_eq tokens hc
      simp only [readGoals_cons, hnext, hpredict]
      cases hmove : predict t t.unlessStop (withStop tokens)[i + 1]? goal with
      | fail expected =>
        refine ⟨_, .done, ?_⟩
        simp only [Move.outcome, hnext, hhere]
        exact .fail ht hmove
      | expand steps new =>
        have hstep : Cursor.Moves (withStop tokens) ⟨i, goal :: goals⟩ steps ⟨i, new ++ goals⟩ :=
          .expand ht hmove
        obtain ⟨d, hworks, hhalts⟩ := ih _ ⟨steps, hstep⟩ hc
        exact ⟨d, hworks.cons hstep, hhalts⟩
      | shift steps new =>
        have hstep :
            Cursor.Moves (withStop tokens) ⟨i, goal :: goals⟩ steps ⟨i + 1, new ++ goals⟩ :=
          .shift ht hmove
        obtain ⟨d, hworks, hhalts⟩ := ih _ ⟨steps, hstep⟩ (hstep.position_le hc)
        rw [Move.outcome, List.tail_drop]
        exact ⟨d, hworks.cons hstep, hhalts⟩

/-- What stands behind a stop mark does not count. -/
theorem splitStop_append_cons (before : List Token) {stop : Token} (h : stop.kind = .stop)
    (after after' : List Token) :
    splitStop (before ++ stop :: after) = splitStop (before ++ stop :: after') := by
  have hbody : (before ++ stop :: after).takeWhile (·.kind != .stop) =
      (before ++ stop :: after').takeWhile (·.kind != .stop) := by
    simp [List.takeWhile_append, h]
  rw [splitStop, splitStop, hbody]
  by_cases hbefore : before.dropWhile (·.kind != .stop) = []
  · simp [List.dropWhile_append, hbefore, h]
  · obtain ⟨t, rest, hrest⟩ := List.exists_cons_of_ne_nil hbefore
    simp [List.dropWhile_append, hrest]

/-- Every parse stops. Its tokens have a stop mark, and no sequence of moves through them goes on
    for ever: the moves from the start lead to where all goals are met or a token does not fit, and
    call for the steps of the parse on the way. They never get past the first stop mark, so that
    every position is one of a token. Moves for a goal and what it calls for, with the goals below
    left alone, come to a goal of the same kind again only at a later position: each round of a loop
    and each round through phrases that contain each other reads a token. What stands behind the
    first stop mark has no bearing on the parse, nor on what a generator makes of it. -/
theorem parse_always_stops (tokens : List Token) :
    let all := withStop tokens
    stopIndex all < all.length ∧
    (WellFounded fun d c => ∃ steps, Cursor.Moves all c steps d) ∧
    (∃ d, Cursor.Works all [] ⟨0, programGoals⟩ (parse tokens).steps d ∧
      d.Halts all (parse tokens).error) ∧
    (∀ steps d, Cursor.Works all [] ⟨0, programGoals⟩ steps d → d.position ≤ stopIndex all) ∧
    (∀ base i goal steps c more j goal' above, Cursor.Moves all ⟨i, goal :: base⟩ steps c →
      c.Works all base more ⟨j, goal' :: (above ++ base)⟩ → goal'.ctorIdx = goal.ctorIdx → i < j) ∧
    ∀ before stop after after', stop.kind = .stop → tokens = before ++ stop :: after →
      parse (before ++ stop :: after') = parse tokens ∧
      ∀ g : Generator, g.compileParse (parse (before ++ stop :: after')) =
        g.compileParse (parse tokens) := by
  intro all
  refine ⟨?_, Cursor.wellFounded_moves all,
    exists_works_readGoals tokens ⟨0, programGoals⟩ (Nat.zero_le _),
    fun steps d h => h.position_le (Nat.zero_le _), fun base i goal steps c more j goal' above =>
      Cursor.Works.position_lt, fun before stop after after' hstop htokens => ?_⟩
  · obtain ⟨tail, htail⟩ := exists_withStop_eq tokens
    rw [stopIndex_withStop, show all = _ from htail]
    simp
  · have hsame : parse (before ++ stop :: after') = parse tokens := by
      rw [htokens, parse, parse, splitStop_append_cons before hstop after' after]
    exact ⟨hsame, fun g => by rw [hsame]⟩

end OnePass
