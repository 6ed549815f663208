import OnePass.Proofs.Grammar.Viable
import OnePass.Proofs.Safety.Compile

/-!
# Syntax errors are reported at the earliest token

A program is read with its stop mark. Where parsing it ends in a syntax error, the error is about the
first token, the stop mark included, up to which the text is not the beginning of a program. -/

namespace OnePass

/-! ### Programs contain no stop mark -/

/-- No stop mark is read. -/
theorem kind_ne_stop_of_shift {stop t : Token} {after : Option Token} {goal : Goal}
    {steps : List Step} {new : List Goal} (h : predict stop (some t) after goal = .shift steps new) :
    t.kind ≠ .stop := by
  intro hstop
  cases goal <;> simp [predict, Token.isSymbol, Token.isKeyword, hstop] at h

/-- Where the declarations of a program are still to come, all of an accepted text is read. -/
theorem kind_ne_stop_of_accepts {stop : Token} {input : List Token} {goals : List Goal}
    (h : Accepts stop input goals) (hgoals : .declarations ∈ goals) :
    ∀ t ∈ input, t.kind ≠ .stop := by
  have start : Array Step := #[]
  induction input, goals, start using parseGoals.induct stop with
  | case1 => cases hgoals
  | case2 input _ goal goals expected hmove =>
    rw [accepts_cons, hmove] at h
    exact h.elim
  | case3 input _ goal goals more new hmove _ ih =>
    rw [accepts_cons, hmove] at h
    rcases List.mem_cons.mp hgoals with rfl | hgoals
    · cases input with
      | nil => exact List.forall_mem_nil _
      | cons token rest =>
        obtain ⟨rfl, rfl⟩ := Move.expand.inj hmove
        exact ih h (by simp)
    · exact ih h (List.mem_append_right _ hgoals)
  | case4 _ goal goals more new token rest hmove ih =>
    rw [accepts_cons, hmove] at h
    intro t ht
    rcases List.mem_cons.mp ht with rfl | ht
    · exact kind_ne_stop_of_shift hmove
    · rcases List.mem_cons.mp hgoals with rfl | hgoals
      · cases hmove
      · exact ih h (List.mem_append_right _ hgoals) t ht

theorem Program.Grammatical.accepts {p : Program} (h : p.Grammatical) (stop : Token) :
    Accepts stop p.tokens programGoals := by
  rw [Accepts, p.readGoals_tokens stop h]

theorem Program.Grammatical.kind_ne_stop {p : Program} (h : p.Grammatical) :
    ∀ t ∈ p.tokens, t.kind ≠ .stop :=
  kind_ne_stop_of_accepts (h.accepts (.stopMark 0)) (by simp [programGoals])

theorem kind_splitStop_snd (tokens : List Token) : (splitStop tokens).2.kind = .stop := by
  rw [splitStop]
  split
  · rename_i stop _ hdrop
    have hhead := List.head?_dropWhile_not (·.kind != .stop) tokens
    rw [hdrop] at hhead
    simpa using hhead
  · rfl

/-! ### The earliest token -/

/-- The tokens begin a program: some grammatical program with its stop mark starts with them. -/
def BeginsProgram (ts : List Token) : Prop :=
  ∃ (p : Program) (stop : Token), p.Grammatical ∧ stop.kind = .stop ∧ ts <+: p.tokens ++ [stop]

/-- A token as a syntax error names it. -/
def Token.quoted (t : Token) : String :=
  if t.kind = .stop then "end of input" else "'" ++ t.lexeme ++ "'"

/-- The message of an error at a token. -/
theorem SyntaxError.message_at_token (expected : Expected) {t : Token} (h : t.kind ≠ .stop) :
    (SyntaxError.mk expected (some t.lexeme) t.line).message =
      "expected " ++ expected.text ++ ", found " ++ t.quoted := by
  change "expected " ++ expected.text ++ (", found " ++ "'") ++ t.lexeme ++ "'" = _
  simp only [Token.quoted, if_neg h, String.append_assoc]

/-- The message of an error at the end. -/
theorem SyntaxError.message_at_stop (expected : Expected) {t : Token} (h : t.kind = .stop) :
    (SyntaxError.mk expected none t.line).message =
      "expected " ++ expected.text ++ ", found " ++ t.quoted := by
  change "expected " ++ expected.text ++ (", found " ++ "end of input") = _
  simp only [Token.quoted, if_pos h, String.append_assoc]

theorem ready_programGoals : Ready programGoals := by
  simp [programGoals, Ready, Goal.Leaves, finish, Goal.finish]

/-- What a parse has read before it got stuck begins a program. -/
theorem Stuck.beginsProgram {stop : Token} {before rest : List Token} {expected : Expected}
    (h : Stuck stop (before ++ rest) programGoals rest expected) : BeginsProgram before := by
  obtain ⟨more, haccepts⟩ := h.exists_accepts ready_programGoals rfl
  obtain ⟨p, hp, htokens⟩ := recovers_program haccepts
  exact ⟨p, .stopMark 0, hp, rfl, (List.prefix_append before more).trans
    (htokens ▸ List.prefix_append _ _)⟩

/-- No program has the token that a parse got stuck at. -/
theorem Stuck.not_beginsProgram {stop t : Token} {before more : List Token} {expected : Expected}
    (h : Stuck stop (before ++ t :: more) programGoals (t :: more) expected)
    (ht : t.kind ≠ .stop) : ¬ BeginsProgram (before ++ [t]) := by
  rintro ⟨p, stop', hp, hstop', hbegins⟩
  rcases List.prefix_concat_iff.mp hbegins with heq | ⟨more', htokens⟩
  · obtain ⟨-, hlast⟩ := List.append_inj' heq rfl
    exact ht ((List.cons.inj hlast).1 ▸ hstop')
  · have haccepts := hp.accepts stop
    rw [← htokens, List.append_assoc] at haccepts
    exact h.not_accepts rfl rfl haccepts

/-- A text that is not accepted is no program. -/
theorem not_beginsProgram_stop {stop : Token} {input : List Token}
    (herror : ¬ Accepts stop input programGoals) (hstop : stop.kind = .stop) :
    ¬ BeginsProgram (input ++ [stop]) := by
  rintro ⟨p, stop', hp, -, hbegins⟩
  rcases List.prefix_concat_iff.mp hbegins with heq | hbegins
  · obtain ⟨rfl, -⟩ := List.append_inj' heq rfl
    exact herror (hp.accepts stop)
  · exact hp.kind_ne_stop stop (hbegins.subset (by simp)) hstop

theorem error_of_compileParse {g g' : Generator} {p : Parse} {e : SyntaxError}
    (h : g.compileParse p = (.error (.syntactic e), g')) : p.error = some e := by
  rw [Generator.compileParse] at h
  split at h
  · cases h
  · split at h
    · rename_i error herror
      obtain ⟨⟨⟩, -⟩ := Prod.mk.inj h
      exact herror
    · cases h

/-- If parsing a text ends in a syntax error, the error is at the first token, the stop mark
    included, with which the text stops being the beginning of a program: what comes before the token
    begins a program and with the token it begins none. The error has the line of that token, and its
    message names it. -/
theorem syntax_error_at_earliest_token (layout : Layout) (tokens : List Token) (e : SyntaxError)
    (g : Generator)
    (h : (Generator.initial layout).compileParse (parse tokens) = (.error (.syntactic e), g)) :
    ∃ before t rest, (splitStop tokens).1 ++ [(splitStop tokens).2] = before ++ t :: rest ∧
      BeginsProgram before ∧ ¬ BeginsProgram (before ++ [t]) ∧ e.line = t.line ∧
      e.message = "expected " ++ e.expected.text ++ ", found " ++ t.quoted := by
  have herror := error_of_compileParse h
  rw [parse_eq_readGoals] at herror
  obtain ⟨rest, expected, hstuck, rfl⟩ := exists_stuck herror
  obtain ⟨before, hbody⟩ := hstuck.suffix
  rw [← hbody] at hstuck
  have hstop := kind_splitStop_snd tokens
  cases rest with
  | nil =>
    have hrejects : ¬ Accepts (splitStop tokens).2 before programGoals := by
      rw [Accepts, ← List.append_nil before, hbody, herror]
      rintro ⟨⟩
    refine ⟨before, (splitStop tokens).2, [], by rw [← hbody, List.append_nil],
      by simpa using hstuck.beginsProgram, not_beginsProgram_stop hrejects hstop, rfl,
      SyntaxError.message_at_stop expected hstop⟩
  | cons t more =>
    have hkind : t.kind ≠ .stop := by
      have hmem : t ∈ tokens.takeWhile (·.kind != .stop) := by
        rw [← splitStop_fst, ← hbody]
        simp
      simpa using List.all_eq_true.mp List.all_takeWhile t hmem
    refine ⟨before, t, more ++ [(splitStop tokens).2], by rw [← hbody]; simp,
      hstuck.beginsProgram, hstuck.not_beginsProgram hkind, rfl,
      SyntaxError.message_at_token expected hkind⟩

/-- A number cannot be assigned to: `1` begins a statement, and no program has `=` after it. -/
theorem syntax_error_at_earliest_token_assignment :
    let tokens := (scan "void main(void)\n\x7b 1 = 2; \x7d").tokens
    let e : SyntaxError := ⟨.assignable, some "=", 2⟩
    (∃ g, (Generator.initial {}).compileParse (parse tokens) = (.error (.syntactic e), g)) ∧
      ∃ before t rest, (splitStop tokens).1 ++ [(splitStop tokens).2] = before ++ t :: rest ∧
        BeginsProgram before ∧ ¬ BeginsProgram (before ++ [t]) ∧ e.line = t.line ∧
        e.message = "expected " ++ e.expected.text ++ ", found " ++ t.quoted := by
  intro tokens e
  have herror : (parse (scan "void main(void)\n\x7b 1 = 2; \x7d").tokens).error =
      some ⟨.assignable, some "=", 2⟩ := by cbv
  have hwords : (splitStop tokens).1.length ≤ maxWords := by decide +kernel
  have hlayout : ({} : Layout).flaw? = none := by decide
  obtain ⟨g, hrun, -⟩ := run_parse hlayout (by decide) hwords
  have h := compileParse_of_error hrun herror
  exact ⟨⟨g, h⟩, syntax_error_at_earliest_token {} tokens e g h⟩

end OnePass
