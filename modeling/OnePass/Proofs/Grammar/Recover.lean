import OnePass.Proofs.Grammar.Accept

/-!
# Programs are recovered

Goals accept a text if they are worked off without an error. `Goal.Spans` says what a goal that is
met has read: a goal for a phrase the tokens of one, and a goal for the rest of a phrase what makes
one of any phrase before it. A statement is told together with what an `else` after it would mean:
where it ends in an `if` without `else`, no `else` follows.

Whatever the move for a goal, if the goals that take its place read what they should, then so does
the goal. So all goals of a text that is accepted have, and the text is that of a program. -/

namespace OnePass

open Token (symbolAt keywordAt)

/-- Some goals are worked off without an error. -/
def Accepts (stop : Token) (input : List Token) (goals : List Goal) : Prop :=
  (readGoals stop input goals).error = none

/-- The goals after a move are worked off without an error. -/
def Move.Accepts (stop : Token) (input : List Token) (goals : List Goal) : Move → Prop
  | .fail _ => False
  | .expand _ new => OnePass.Accepts stop input (new ++ goals)
  | .shift _ new => OnePass.Accepts stop input.tail (new ++ goals)

theorem accepts_cons {stop : Token} {input : List Token} {goals : List Goal} {goal : Goal} :
    Accepts stop input (goal :: goals) ↔
      (predict stop input.head? input.tail.head? goal).Accepts stop input goals := by
  rw [Accepts, readGoals_cons]
  cases predict stop input.head? input.tail.head? goal <;>
    simp [Move.outcome, Move.Accepts, Accepts]

/-! ### The token that comes next -/

section
variable {t : Token} {s : String}

theorem Token.exists_symbolAt (h : t.isSymbol s = true) : ∃ line, t = symbolAt s line := by
  obtain ⟨lexeme, kind, line⟩ := t
  simp only [Token.isSymbol, Bool.and_eq_true, beq_iff_eq] at h
  obtain ⟨rfl, rfl⟩ := h
  exact ⟨line, rfl⟩

theorem Token.exists_keywordAt (h : t.isKeyword s = true) : ∃ line, t = keywordAt s line := by
  obtain ⟨lexeme, kind, line⟩ := t
  simp only [Token.isKeyword, Bool.and_eq_true, beq_iff_eq] at h
  obtain ⟨rfl, rfl⟩ := h
  exact ⟨line, rfl⟩

end

/-! ### What goals read -/

/-- What follows an expression of some level makes an expression of it, of some level again. -/
def Expr.Continues (least most : Nat) (front : List Token) : Prop :=
  ∀ l : Expr, l.level.rank ≤ least → l.Grammatical →
    ∃ e : Expr, e.level.rank ≤ most ∧ e.Grammatical ∧ l.tokens ++ front = e.tokens

/-- A goal reads the front of a text, and some rest is left. -/
def Goal.Spans (front rest : List Token) : Goal → Prop
  | .expect s _ => ∃ line, front = [symbolAt s line]
  | .perform _ | .performHere _ | .noAssign => front = []
  | .declarations =>
    rest = [] ∧ ∃ ds : List Decl, (∀ d ∈ ds, d.Grammatical) ∧ front = ds.flatMap Decl.tokens
  | .typeName => ∃ type : TypeWord, front = [type.token]
  | .globalName =>
    ∀ type : TypeWord, ∃ d : Decl, d.Grammatical ∧ type.token :: front = d.tokens
  | .globalRest _ => ∀ (type : TypeWord) (x : Name),
    ∃ d : Decl, d.Grammatical ∧ type.token :: x.token :: front = d.tokens
  | .arraySize _ => ∃ (size : Numeral) (closing semicolon : Nat),
    front = [size.token, symbolAt "]" closing, symbolAt ";" semicolon]
  | .parameters => ∃ ps : Params, front = ps.tokens
  | .parameterName => ∀ type : TypeWord, ∃ p : Param, type.token :: front = p.tokens
  | .parameterRest _ =>
    ∀ (type : TypeWord) (x : Name), ∃ p : Param, type.token :: x.token :: front = p.tokens
  | .moreParameters => ∃ more : List (Nat × Param), front = more.flatMap Params.moreTokens
  | .locals => ∃ locals : List VarDecl, front = locals.flatMap VarDecl.tokens
  | .localName => ∃ (x : Name) (extent : Extent), front = x.token :: extent.tokens
  | .localRest _ => ∃ extent : Extent, front = extent.tokens
  | .statements => ∃ ss, Stmt.ListGrammatical ss ∧ front = Stmt.listTokens ss
  | .statement => ∃ s : Stmt, s.Grammatical ∧ (s.endsOpen → AvoidsElse rest) ∧ front = s.tokens
  | .elsePart => front = [] ∧ AvoidsElse rest ∨ ∃ (line : Nat) (s : Stmt),
    s.Grammatical ∧ (s.endsOpen → AvoidsElse rest) ∧ front = keywordAt "else" line :: s.tokens
  | .untilWord => ∃ line, front = [keywordAt "until" line]
  | .returnRest _ => (∃ semicolon, front = [symbolAt ";" semicolon]) ∨
    ∃ (e : Expr) (semicolon : Nat), e.Grammatical ∧ front = e.tokens ++ [symbolAt ";" semicolon]
  | .expression => ∃ e : Expr, e.Grammatical ∧ front = e.tokens
  | .nameRest _ => ∀ x : Name, ∃ e : Expr, e.Grammatical ∧ x.token :: front = e.tokens
  | .placeRest => ∀ place : Expr, place.isPlace → place.Grammatical →
    ∃ e : Expr, e.Grammatical ∧ place.tokens ++ front = e.tokens
  | .factor => ∃ e : Expr, e.level.rank ≤ 0 ∧ e.Grammatical ∧ front = e.tokens
  | .factorRest _ =>
    ∀ x : Name, ∃ e : Expr, e.level.rank ≤ 0 ∧ e.Grammatical ∧ x.token :: front = e.tokens
  | .products => Expr.Continues 1 1 front
  | .sums => Expr.Continues 2 2 front
  | .comparison => Expr.Continues 2 3 front
  | .arguments => ∀ closing, ∃ args : Args, args.Grammatical ∧
    front ++ [symbolAt ")" closing] = args.tokens
  | .moreArguments => ∀ (e : Expr) (closing : Nat), e.Grammatical → ∃ args : Args,
    args.nonempty ∧ args.Grammatical ∧ e.tokens ++ front ++ [symbolAt ")" closing] = args.tokens

/-- Some goals read the front of a text one after the other. -/
def Spans (front rest : List Token) : List Goal → Prop
  | [] => front = []
  | goal :: goals => ∃ a b, front = a ++ b ∧ goal.Spans a (b ++ rest) ∧ Spans b rest goals

theorem spans_append {rest : List Token} {new goals : List Goal} : ∀ {front : List Token},
    Spans front rest (new ++ goals) →
      ∃ a b, front = a ++ b ∧ Spans a (b ++ rest) new ∧ Spans b rest goals := by
  induction new with
  | nil => exact fun h => ⟨[], _, rfl, rfl, h⟩
  | cons goal new ih =>
    rintro _ ⟨a, _, rfl, hgoal, hnew⟩
    obtain ⟨b, c, rfl, hb, hc⟩ := ih hnew
    exact ⟨a ++ b, c, (List.append_assoc ..).symm, ⟨a, b, rfl, by simpa using hgoal, hb⟩, hc⟩

/-- The goals that a move puts in place of another read the front of a text, after the token that
    the move reads. -/
def Move.Spans (front rest : List Token) : Move → Prop
  | .fail _ => False
  | .expand _ new => OnePass.Spans front rest new
  | .shift _ new => ∃ t more, front = t :: more ∧ OnePass.Spans more rest new

/-- What the move for a goal reads is what the goal should. -/
def Goal.Sound (stop : Token) (goal : Goal) : Prop := ∀ {front rest},
  (predict stop (front ++ rest).head? (front ++ rest).tail.head? goal).Spans front rest →
    goal.Spans front rest

section
variable {stop : Token} {front rest : List Token}

/-! ### Moves that read a token of some kind -/

section
variable {steps : List Step} {new : List Goal} {other : Move}

theorem Move.spans_next {p : Token → Bool}
    (h : (if (front ++ rest).head?.any p then .shift steps new else other :
      Move).Spans front rest) :
    (∃ t more, p t = true ∧ front = t :: more ∧ OnePass.Spans more rest new) ∨
      other.Spans front rest := by
  split at h
  · rename_i hp
    obtain ⟨t, more, rfl, h⟩ := h
    exact .inl ⟨t, more, hp, rfl, h⟩
  · exact .inr h

theorem Move.spans_symbol {s : String} (h : (if (front ++ rest).head?.any (·.isSymbol s) then
    .shift steps new else other : Move).Spans front rest) :
    (∃ line more, front = symbolAt s line :: more ∧ OnePass.Spans more rest new) ∨
      other.Spans front rest := by
  refine (spans_next h).imp_left ?_
  rintro ⟨t, more, ht, rfl, hnew⟩
  obtain ⟨line, rfl⟩ := Token.exists_symbolAt ht
  exact ⟨line, more, rfl, hnew⟩

theorem Move.spans_keyword {s : String} (h : (if (front ++ rest).head?.any (·.isKeyword s) then
    .shift steps new else other : Move).Spans front rest) :
    (∃ line more, front = keywordAt s line :: more ∧ OnePass.Spans more rest new) ∨
      other.Spans front rest := by
  refine (spans_next h).imp_left ?_
  rintro ⟨t, more, ht, rfl, hnew⟩
  obtain ⟨line, rfl⟩ := Token.exists_keywordAt ht
  exact ⟨line, more, rfl, hnew⟩

theorem Move.spans_name (h : (if (front ++ rest).head?.any (·.kind == .id) then
    .shift steps new else other : Move).Spans front rest) :
    (∃ (x : Name) (more : List Token), front = x.token :: more ∧ OnePass.Spans more rest new) ∨
      other.Spans front rest := by
  refine (spans_next h).imp_left ?_
  rintro ⟨⟨lexeme, kind, line⟩, more, ht, rfl, hnew⟩
  obtain rfl : kind = .id := eq_of_beq ht
  exact ⟨⟨lexeme, line⟩, more, rfl, hnew⟩

theorem Move.spans_numeral (h : (if (front ++ rest).head?.any (·.kind == .num) then
    .shift steps new else other : Move).Spans front rest) :
    (∃ (n : Numeral) (more : List Token), front = n.token :: more ∧ OnePass.Spans more rest new) ∨
      other.Spans front rest := by
  refine (spans_next h).imp_left ?_
  rintro ⟨⟨lexeme, kind, line⟩, more, ht, rfl, hnew⟩
  obtain rfl : kind = .num := eq_of_beq ht
  exact ⟨⟨lexeme, line⟩, more, rfl, hnew⟩

theorem Move.spans_operator (op op' : BinaryOp)
    (h : (if (front ++ rest).head?.any (·.isSymbol op.lexeme) ||
      (front ++ rest).head?.any (·.isSymbol op'.lexeme) then .shift steps new else other :
        Move).Spans front rest) :
    (∃ found line more, (found = op ∨ found = op') ∧ front = BinaryOp.token found line :: more ∧
      OnePass.Spans more rest new) ∨ other.Spans front rest := by
  split at h
  · rename_i hp
    obtain ⟨t, more, rfl, h⟩ := h
    rcases (Bool.or_eq_true_iff ..).mp hp with hp | hp
    · obtain ⟨line, rfl⟩ := Token.exists_symbolAt hp
      exact .inl ⟨op, line, more, .inl rfl, rfl, h⟩
    · obtain ⟨line, rfl⟩ := Token.exists_symbolAt hp
      exact .inl ⟨op', line, more, .inr rfl, rfl, h⟩
  · exact .inr h

end

/-! ### Expressions -/

/-- The operators after a factor make an expression of it. -/
theorem Spans.operators (h : Spans front rest operatorGoals) {f : Expr} (hf : f.level.rank ≤ 0)
    (hfg : f.Grammatical) : ∃ e : Expr, e.Grammatical ∧ f.tokens ++ front = e.tokens := by
  obtain ⟨_, _, rfl, hproducts, _, _, rfl, hsums, _, _, rfl, hcomparison, _, _, rfl, rfl, rfl⟩ := h
  obtain ⟨p, hp, hpg, hptokens⟩ := hproducts f (Nat.le_succ_of_le hf) hfg
  obtain ⟨s, hs, hsg, hstokens⟩ := hsums p (Nat.le_succ_of_le hp) hpg
  obtain ⟨c, -, hcg, hctokens⟩ := hcomparison s hs hsg
  exact ⟨c, hcg, by rw [← hctokens, ← hstokens, ← hptokens]; simp⟩

/-- An index is read up to its closing bracket. -/
theorem Spans.index {x : Token} (h : Spans front rest (indexGoals x)) :
    ∃ (i : Expr) (closing : Nat), i.Grammatical ∧ front = i.tokens ++ [symbolAt "]" closing] := by
  obtain ⟨_, _, rfl, ⟨i, hi, rfl⟩, _, _, rfl, ⟨closing, rfl⟩, _, _, rfl, rfl, rfl⟩ := h
  exact ⟨i, closing, hi, rfl⟩

/-- The arguments of a call are read up to the closing parenthesis. -/
theorem Spans.call {x : Token} (h : Spans front rest (callGoals x)) :
    ∃ args : Args, args.Grammatical ∧ front = args.tokens := by
  obtain ⟨_, _, rfl, hargs, _, _, rfl, ⟨closing, rfl⟩, _, _, rfl, rfl, rfl⟩ := h
  exact hargs closing

/-- At least one argument is read. -/
theorem Spans.argument (h : Spans front rest argumentGoals) (closing : Nat) : ∃ args : Args,
    args.nonempty ∧ args.Grammatical ∧ front ++ [symbolAt ")" closing] = args.tokens := by
  obtain ⟨_, _, rfl, ⟨e, he, rfl⟩, _, _, rfl, rfl, _, _, rfl, hmore, rfl⟩ := h
  simpa using hmore e closing he

theorem Goal.sound_factorRest (x : Token) : (Goal.factorRest x).Sound stop := by
  intro front rest h x
  obtain ⟨opening, _, rfl, hnew⟩ | h := Move.spans_symbol h
  · obtain ⟨i, closing, hi, rfl⟩ := hnew.index
    exact ⟨.index x opening i closing, Nat.le_refl _, hi, by simp [Expr.tokens]⟩
  obtain ⟨opening, _, rfl, hnew⟩ | rfl := Move.spans_symbol h
  · obtain ⟨args, hargs, rfl⟩ := hnew.call
    exact ⟨.call x opening args, Nat.le_refl _, hargs, by simp [Expr.tokens]⟩
  · exact ⟨.name x, Nat.le_refl _, trivial, rfl⟩

theorem Goal.sound_factor : Goal.factor.Sound stop := by
  intro front rest h
  obtain ⟨opening, _, rfl, _, _, rfl, ⟨e, he, rfl⟩, _, _, rfl, ⟨closing, rfl⟩, rfl⟩ | h :=
    Move.spans_symbol h
  · exact ⟨.paren opening e closing, Nat.le_refl _, he, by simp [Expr.tokens]⟩
  obtain ⟨n, _, rfl, rfl⟩ | h := Move.spans_numeral h
  · exact ⟨.num n, Nat.le_refl _, trivial, rfl⟩
  obtain ⟨x, _, rfl, _, _, rfl, hrest, rfl⟩ | h := Move.spans_name h
  · obtain ⟨e, he, heg, htokens⟩ := hrest x
    exact ⟨e, he, heg, by simpa using htokens⟩
  · exact h.elim

theorem Goal.sound_products : Goal.products.Sound stop := by
  intro front rest h l hl hlg
  obtain ⟨line, _, rfl, _, _, rfl, ⟨r, hr, hrg, rfl⟩, _, _, rfl, rfl, _, _, rfl, hmore,
    rfl⟩ | rfl := Move.spans_symbol h
  · obtain ⟨e, he, heg, htokens⟩ :=
      hmore (.binary .mul line l r) (Nat.le_refl _) ⟨⟨hl, hlg⟩, hr, hrg⟩
    exact ⟨e, he, heg, by rw [← htokens]; simp [Expr.tokens, BinaryOp.token, BinaryOp.lexeme]⟩
  · exact ⟨l, hl, hlg, List.append_nil _⟩

theorem Goal.sound_sums : Goal.sums.Sound stop := by
  intro front rest h l hl hlg
  obtain ⟨op, line, _, hop, rfl, _, _, rfl, ⟨f, hf, hfg, rfl⟩, _, _, rfl, hproducts, _, _, rfl, rfl,
    _, _, rfl, hmore, rfl⟩ | rfl := Move.spans_operator .add .sub h
  · obtain ⟨r, hr, hrg, hrtokens⟩ := hproducts f (Nat.le_succ_of_le hf) hfg
    obtain ⟨e, he, heg, htokens⟩ := hmore (.binary op line l r)
      (by rcases hop with rfl | rfl <;> exact Nat.le_refl _)
      (by rcases hop with rfl | rfl <;> exact ⟨⟨hl, hlg⟩, hr, hrg⟩)
    exact ⟨e, he, heg, by rw [← htokens]; simp [Expr.tokens, ← hrtokens]⟩
  · exact ⟨l, hl, hlg, List.append_nil _⟩

theorem Goal.sound_comparison : Goal.comparison.Sound stop := by
  intro front rest h l hl hlg
  obtain ⟨op, line, _, hop, rfl, _, _, rfl, ⟨f, hf, hfg, rfl⟩, _, _, rfl, hproducts, _, _, rfl,
    hsums, _, _, rfl, rfl, rfl⟩ | rfl := Move.spans_operator .lt .eq h
  · obtain ⟨p, hp, hpg, hptokens⟩ := hproducts f (Nat.le_succ_of_le hf) hfg
    obtain ⟨r, hr, hrg, hrtokens⟩ := hsums p (Nat.le_succ_of_le hp) hpg
    refine ⟨.binary op line l r, ?_, ?_, by simp [Expr.tokens, ← hrtokens, ← hptokens]⟩
    · rcases hop with rfl | rfl <;> exact Nat.le_refl _
    · rcases hop with rfl | rfl <;> exact ⟨⟨hl, hlg⟩, hr, hrg⟩
  · exact ⟨l, Nat.le_succ_of_le hl, hlg, List.append_nil _⟩

theorem Goal.sound_placeRest : Goal.placeRest.Sound stop := by
  intro front rest h place hp hpg
  obtain ⟨line, _, rfl, _, _, rfl, ⟨value, hv, rfl⟩, _, _, rfl, rfl, rfl⟩ | h := Move.spans_symbol h
  · exact ⟨.assign place line value, ⟨⟨hp, hpg⟩, hv⟩, by simp [Expr.tokens]⟩
  · exact Spans.operators h (by cases place <;> first | exact Nat.le_refl _ | cases hp) hpg

theorem Goal.sound_nameRest (x : Token) : (Goal.nameRest x).Sound stop := by
  intro front rest h x
  obtain ⟨opening, _, rfl, hnew⟩ | h := Move.spans_symbol h
  · obtain ⟨_, _, rfl, hindex, _, _, rfl, hplace, rfl⟩ := spans_append hnew
    obtain ⟨i, closing, hi, rfl⟩ := hindex.index
    obtain ⟨e, he, htokens⟩ := hplace (.index x opening i closing) rfl hi
    exact ⟨e, he, by rw [← htokens]; simp [Expr.tokens]⟩
  obtain ⟨opening, _, rfl, hnew⟩ | ⟨_, _, rfl, hplace, rfl⟩ := Move.spans_symbol h
  · obtain ⟨_, _, rfl, hcall, hoperators⟩ := spans_append hnew
    obtain ⟨args, hargs, rfl⟩ := hcall.call
    obtain ⟨e, he, htokens⟩ :=
      hoperators.operators (f := .call x opening args) (Nat.le_refl _) hargs
    exact ⟨e, he, by rw [← htokens]; simp [Expr.tokens]⟩
  · simpa [Expr.tokens] using hplace (.name x) rfl trivial

theorem Goal.sound_expression : Goal.expression.Sound stop := by
  intro front rest h
  obtain ⟨opening, _, rfl, _, _, rfl, ⟨e, he, rfl⟩, _, _, rfl, ⟨closing, rfl⟩, hoperators⟩ | h :=
    Move.spans_symbol h
  · obtain ⟨e', he', htokens⟩ :=
      hoperators.operators (f := .paren opening e closing) (Nat.le_refl _) he
    exact ⟨e', he', by rw [← htokens]; simp [Expr.tokens]⟩
  obtain ⟨n, _, rfl, hoperators⟩ | h := Move.spans_numeral h
  · exact hoperators.operators (f := .num n) (Nat.le_refl _) trivial
  obtain ⟨x, _, rfl, _, _, rfl, hrest, rfl⟩ | h := Move.spans_name h
  · obtain ⟨e, he, htokens⟩ := hrest x
    exact ⟨e, he, by simpa using htokens⟩
  · exact h.elim

theorem Goal.sound_arguments : Goal.arguments.Sound stop := by
  intro front rest h closing
  rw [predict] at h
  split at h
  · obtain rfl := h
    exact ⟨.none closing, trivial, rfl⟩
  · obtain ⟨args, -, hargs⟩ := Spans.argument h closing
    exact ⟨args, hargs⟩

theorem Goal.sound_moreArguments : Goal.moreArguments.Sound stop := by
  intro front rest h e closing he
  obtain ⟨comma, _, rfl, hnew⟩ | rfl := Move.spans_symbol h
  · obtain ⟨args, hne, hargs, htokens⟩ := hnew.argument closing
    exact ⟨.more e comma args, rfl, ⟨he, hne, hargs⟩, by simp [Args.tokens, ← htokens]⟩
  · exact ⟨.last e closing, rfl, he, by simp [Args.tokens]⟩

/-! ### Statements -/

/-- The inside of a block is read up to its closing brace. -/
theorem Spans.block {actions : List Action} (h : Spans front rest (blockGoals actions)) :
    ∃ (locals : List VarDecl) (body : List Stmt) (closing : Nat), Stmt.ListGrammatical body ∧
      front = locals.flatMap VarDecl.tokens ++ Stmt.listTokens body ++
        [symbolAt "\x7d" closing] := by
  obtain ⟨_, _, rfl, ⟨locals, rfl⟩, _, _, rfl, ⟨body, hbody, rfl⟩, _, _, rfl, ⟨closing, rfl⟩,
    rfl⟩ := h
  exact ⟨locals, body, closing, hbody, by simp⟩

theorem Goal.sound_statements : Goal.statements.Sound stop := by
  intro front rest h
  rw [predict] at h
  split at h
  · exact ⟨[], trivial, h⟩
  split at h
  · exact h.elim
  · obtain ⟨_, _, rfl, ⟨s, hs, -, rfl⟩, _, _, rfl, ⟨ss, hss, rfl⟩, rfl⟩ := h
    exact ⟨s :: ss, ⟨hs, hss⟩, by simp [Stmt.listTokens]⟩

theorem Goal.sound_elsePart : Goal.elsePart.Sound stop := by
  intro front rest h
  rw [predict] at h
  split at h
  · rename_i helse
    obtain ⟨t, _, rfl, _, _, rfl, ⟨s, hs, hlast, rfl⟩, _, _, rfl, rfl, rfl⟩ := h
    obtain ⟨line, rfl⟩ := Token.exists_keywordAt helse
    exact .inr ⟨line, s, hs, hlast, by simp⟩
  · rename_i helse
    obtain rfl := h
    exact .inl ⟨rfl, by simpa using helse⟩

theorem Goal.sound_returnRest (t : Token) : (Goal.returnRest t).Sound stop := by
  intro front rest h
  obtain ⟨semicolon, _, rfl, rfl⟩ | ⟨_, _, rfl, ⟨e, he, rfl⟩, _, _, rfl, rfl, _, _, rfl,
    ⟨semicolon, rfl⟩, _, _, rfl, rfl, rfl⟩ := Move.spans_symbol h
  · exact .inl ⟨semicolon, rfl⟩
  · exact .inr ⟨e, semicolon, he, rfl⟩

theorem Goal.sound_statement : Goal.statement.Sound stop := by
  intro front rest h
  obtain ⟨semicolon, _, rfl, rfl⟩ | h := Move.spans_symbol h
  · exact ⟨.empty semicolon, trivial, nofun, rfl⟩
  obtain ⟨opening, _, rfl, hnew⟩ | h := Move.spans_symbol h
  · obtain ⟨locals, body, closing, hbody, rfl⟩ := hnew.block
    exact ⟨.block opening locals body closing, hbody, nofun, by simp [Stmt.tokens]⟩
  obtain ⟨line, _, rfl, _, _, rfl, ⟨semicolon, rfl⟩, _, _, rfl, rfl, rfl⟩ | h :=
    Move.spans_keyword h
  · exact ⟨.leave line semicolon, trivial, nofun, rfl⟩
  obtain ⟨line, _, rfl, _, _, rfl, ⟨opening, rfl⟩, _, _, rfl, ⟨cond, hc, rfl⟩, _, _, rfl,
    ⟨closing, rfl⟩, _, _, rfl, ⟨body, hb, hopen, rfl⟩, _, _, rfl, helse, rfl⟩ | h :=
    Move.spans_keyword h
  · rcases helse with ⟨rfl, havoids⟩ | ⟨elseLine, other, ho, hlast, rfl⟩
    · exact ⟨.ifThen line opening cond closing body, ⟨hc, hb⟩, fun _ => havoids,
        by simp [Stmt.tokens]⟩
    · -- the body took no `else`, so the one that follows belongs to this `if`
      have hclosed : body.endsOpen = false := by
        cases hends : body.endsOpen with
        | false => rfl
        | true => simpa [AvoidsElse] using hopen hends
      exact ⟨.ifElse line opening cond closing body elseLine other, ⟨hc, ⟨hclosed, hb⟩, ho⟩, hlast,
        by simp [Stmt.tokens]⟩
  obtain ⟨line, _, rfl, _, _, rfl, ⟨body, hb, -, rfl⟩, _, _, rfl, ⟨untilLine, rfl⟩, _, _, rfl,
    ⟨opening, rfl⟩, _, _, rfl, ⟨cond, hc, rfl⟩, _, _, rfl, ⟨closing, rfl⟩, rfl⟩ | h :=
    Move.spans_keyword h
  · exact ⟨.loop line body untilLine opening cond closing, ⟨hb, hc⟩, nofun, by simp [Stmt.tokens]⟩
  obtain ⟨line, _, rfl, _, _, rfl, hreturn, rfl⟩ | h := Move.spans_keyword h
  · rcases hreturn with ⟨semicolon, rfl⟩ | ⟨e, semicolon, he, rfl⟩
    · exact ⟨.return line semicolon, trivial, nofun, rfl⟩
    · exact ⟨.returnValue line e semicolon, he, nofun, by simp [Stmt.tokens]⟩
  · obtain ⟨_, _, rfl, ⟨e, he, rfl⟩, _, _, rfl, ⟨semicolon, rfl⟩, rfl⟩ := h
    exact ⟨.expr e semicolon, he, nofun, by simp [Stmt.tokens]⟩

/-! ### Declarations -/

/-- A parameter is read, with those after it. -/
theorem Spans.parameter (h : Spans front rest parameterGoals) :
    ∃ (p : Param) (more : List (Nat × Param)),
      front = p.tokens ++ more.flatMap Params.moreTokens := by
  obtain ⟨_, _, rfl, ⟨type, rfl⟩, _, _, rfl, hname, _, _, rfl, ⟨more, rfl⟩, rfl⟩ := h
  obtain ⟨p, hp⟩ := hname type
  exact ⟨p, more, by simp [← hp]⟩

theorem Goal.sound_parameters : Goal.parameters.Sound stop := by
  intro front rest h
  rw [predict] at h
  split at h
  · rename_i hvoid
    obtain ⟨t, _, rfl, rfl⟩ := h
    obtain ⟨line, rfl⟩ := Token.exists_keywordAt ((Bool.and_eq_true_iff ..).mp hvoid).1
    exact ⟨.void line, rfl⟩
  · obtain ⟨p, more, rfl⟩ := Spans.parameter h
    exact ⟨.list p more, rfl⟩

theorem Goal.sound_globalRest (x : Token) : (Goal.globalRest x).Sound stop := by
  intro front rest h type x
  obtain ⟨semicolon, _, rfl, rfl⟩ | h := Move.spans_symbol h
  · exact ⟨.var ⟨type, x, .scalar semicolon⟩, trivial, rfl⟩
  obtain ⟨opening, _, rfl, _, _, rfl, ⟨size, closing, semicolon, rfl⟩, rfl⟩ | h :=
    Move.spans_symbol h
  · exact ⟨.var ⟨type, x, .array opening size closing semicolon⟩, trivial, rfl⟩
  obtain ⟨opening, _, rfl, _, _, rfl, ⟨params, rfl⟩, _, _, rfl, ⟨closing, rfl⟩, _, _, rfl, rfl, _,
    _, rfl, ⟨brace, rfl⟩, hnew⟩ | h := Move.spans_symbol h
  · obtain ⟨locals, body, closeBrace, hbody, rfl⟩ := Spans.block hnew
    exact ⟨.fn ⟨type, x, opening, params, closing, ⟨brace, locals, body, closeBrace⟩⟩, hbody,
      by simp [Decl.tokens, FnDecl.tokens, Block.stmt, Stmt.tokens]⟩
  · exact h.elim

theorem Goal.sound_declarations : Goal.declarations.Sound stop := by
  intro front rest h
  rw [predict] at h
  split at h
  · rename_i hend
    obtain rfl := h
    exact ⟨by simpa using hend, [], by simp, rfl⟩
  · obtain ⟨_, _, rfl, ⟨type, rfl⟩, _, _, rfl, hname, _, _, rfl, ⟨hrest, ds, hds, rfl⟩, rfl⟩ := h
    obtain ⟨d, hd, htokens⟩ := hname type
    exact ⟨hrest, d :: ds, by simpa using ⟨hd, hds⟩, by simp [← htokens]⟩

theorem Goal.sound (stop : Token) (goal : Goal) : goal.Sound stop := by
  cases goal with
  | expect s actions =>
    intro front rest h
    obtain ⟨line, _, rfl, rfl⟩ | h := Move.spans_symbol h
    · exact ⟨line, rfl⟩
    · exact h.elim
  | perform | performHere => exact fun {front rest} h => h
  | noAssign =>
    intro front rest h
    rw [predict] at h
    split at h
    · exact h.elim
    · exact h
  | typeName =>
    intro front rest h
    rw [predict] at h
    split at h
    · rename_i htype
      obtain ⟨t, _, rfl, rfl⟩ := h
      rcases (Bool.or_eq_true_iff ..).mp htype with htype | htype
      · obtain ⟨line, rfl⟩ := Token.exists_keywordAt htype
        exact ⟨⟨.int, line⟩, rfl⟩
      · obtain ⟨line, rfl⟩ := Token.exists_keywordAt htype
        exact ⟨⟨.void, line⟩, rfl⟩
    · exact h.elim
  | untilWord =>
    intro front rest h
    obtain ⟨line, _, rfl, rfl⟩ | h := Move.spans_keyword h
    · exact ⟨line, rfl⟩
    · exact h.elim
  | globalName =>
    intro front rest h type
    obtain ⟨x, _, rfl, _, _, rfl, hrest, rfl⟩ | h := Move.spans_name h
    · simpa using hrest type x
    · exact h.elim
  | parameterName =>
    intro front rest h type
    obtain ⟨x, _, rfl, _, _, rfl, hrest, rfl⟩ | h := Move.spans_name h
    · simpa using hrest type x
    · exact h.elim
  | localName =>
    intro front rest h
    obtain ⟨x, _, rfl, _, _, rfl, ⟨extent, rfl⟩, rfl⟩ | h := Move.spans_name h
    · exact ⟨x, extent, by simp⟩
    · exact h.elim
  | arraySize =>
    intro front rest h
    obtain ⟨size, _, rfl, _, _, rfl, ⟨closing, rfl⟩, _, _, rfl, ⟨semicolon, rfl⟩, _, _, rfl, rfl,
      rfl⟩ | h := Move.spans_numeral h
    · exact ⟨size, closing, semicolon, rfl⟩
    · exact h.elim
  | localRest =>
    intro front rest h
    obtain ⟨semicolon, _, rfl, rfl⟩ | h := Move.spans_symbol h
    · exact ⟨.scalar semicolon, rfl⟩
    obtain ⟨opening, _, rfl, _, _, rfl, ⟨size, closing, semicolon, rfl⟩, rfl⟩ | h :=
      Move.spans_symbol h
    · exact ⟨.array opening size closing semicolon, rfl⟩
    · exact h.elim
  | locals =>
    intro front rest h
    rw [predict] at h
    split at h
    · obtain ⟨_, _, rfl, ⟨type, rfl⟩, _, _, rfl, ⟨x, extent, rfl⟩, _, _, rfl, ⟨locals, rfl⟩,
        rfl⟩ := h
      exact ⟨⟨type, x, extent⟩ :: locals, by simp [VarDecl.tokens]⟩
    · exact ⟨[], h⟩
  | parameterRest =>
    intro front rest h type x
    obtain ⟨opening, _, rfl, _, _, rfl, ⟨closing, rfl⟩, _, _, rfl, rfl, rfl⟩ | rfl :=
      Move.spans_symbol h
    · exact ⟨⟨type, x, some (opening, closing)⟩, rfl⟩
    · exact ⟨⟨type, x, none⟩, rfl⟩
  | moreParameters =>
    intro front rest h
    obtain ⟨comma, _, rfl, hnew⟩ | h := Move.spans_symbol h
    · obtain ⟨p, more, rfl⟩ := hnew.parameter
      exact ⟨(comma, p) :: more, by simp [Params.moreTokens]⟩
    · exact ⟨[], h⟩
  | declarations => exact sound_declarations
  | globalRest x => exact sound_globalRest x
  | parameters => exact sound_parameters
  | statements => exact sound_statements
  | statement => exact sound_statement
  | elsePart => exact sound_elsePart
  | returnRest t => exact sound_returnRest t
  | expression => exact sound_expression
  | nameRest x => exact sound_nameRest x
  | placeRest => exact sound_placeRest
  | factor => exact sound_factor
  | factorRest x => exact sound_factorRest x
  | products => exact sound_products
  | sums => exact sound_sums
  | comparison => exact sound_comparison
  | arguments => exact sound_arguments
  | moreArguments => exact sound_moreArguments

end

/-- All goals of a text that is accepted read what they should. -/
theorem spans_of_accepts {stop : Token} {input : List Token} {goals : List Goal}
    (h : Accepts stop input goals) :
    ∃ front rest, input = front ++ rest ∧ Spans front rest goals := by
  have start : Array Step := #[]
  induction input, goals, start using parseGoals.induct stop with
  | case1 input => exact ⟨[], input, rfl, rfl⟩
  | case2 input _ goal goals expected hmove =>
    rw [accepts_cons, hmove] at h
    exact h.elim
  | case3 input _ goal goals steps new hmove _ ih =>
    rw [accepts_cons, hmove] at h
    obtain ⟨_, rest, rfl, hspans⟩ := ih h
    obtain ⟨a, b, rfl, hnew, hgoals⟩ := spans_append hspans
    rw [List.append_assoc] at hmove
    have hgoal : goal.Spans a (b ++ rest) := goal.sound stop (by rw [hmove]; exact hnew)
    exact ⟨a ++ b, rest, rfl, a, b, rfl, hgoal, hgoals⟩
  | case4 _ goal goals steps new token input hmove ih =>
    rw [accepts_cons, hmove] at h
    obtain ⟨_, rest, rfl, hspans⟩ := ih h
    obtain ⟨a, b, rfl, hnew, hgoals⟩ := spans_append hspans
    rw [List.append_assoc, ← List.cons_append] at hmove
    have hgoal : goal.Spans (token :: a) (b ++ rest) :=
      goal.sound stop (by rw [hmove]; exact ⟨token, a, rfl, hnew⟩)
    exact ⟨token :: a ++ b, rest, rfl, token :: a, b, rfl, hgoal, hgoals⟩

/-- A text that is accepted as a program is the text of one. -/
theorem recovers_program {stop : Token} {input : List Token} (h : Accepts stop input programGoals) :
    ∃ p : Program, p.Grammatical ∧ input = p.tokens := by
  obtain ⟨_, rest, rfl, _, _, rfl, rfl, _, _, rfl, ⟨hrest, ds, hds, rfl⟩, _, _, rfl, rfl, rfl⟩ :=
    spans_of_accepts h
  exact ⟨⟨ds⟩, hds, by simpa [Program.tokens] using hrest⟩

end OnePass
