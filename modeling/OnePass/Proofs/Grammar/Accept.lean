import OnePass.Proofs.Grammar.Moves

/-!
# Programs are read back

The parser accepts the tokens of every grammatical program, and calls for the steps of its tree. For
each kind of phrase its tokens take the parser from the goal of the phrase to what comes after it.
What follows an expression matters, since it could go on with it, and what follows a statement where
it ends in an `if` without `else`. -/

namespace OnePass

open Token (symbolAt keywordAt)

-- With these the parser is run on tokens whose place in a tree is known.
attribute [local simp] predict Move.outcome readGoals_token readGoals_products readGoals_sums
  readGoals_comparison readGoals_noAssign readGoals_factorRest readGoals_nameRest
  readGoals_placeRest Avoids EndsExpr operatorGoals indexGoals callGoals argumentGoals
  BinaryOp.token BinaryOp.lexeme Expr.tokens Expr.steps Args.tokens Args.steps

/-! ### Expressions -/

/-- Goals that begin with a factor, and the goals after it. At the start of an expression the
    operators are goals of their own. -/
inductive Opens : List Goal → List Goal → Prop
  | factor (goals : List Goal) : Opens (.factor :: goals) goals
  | expression (goals : List Goal) :
    Opens (.expression :: goals) (.products :: .sums :: .comparison :: .noAssign :: goals)

/-- The tokens of an expression take some goals to others. -/
def Expr.Reads (stop : Token) (e : Expr) (start goals : List Goal) (rest : List Token) : Prop :=
  readGoals stop (e.tokens ++ rest) start = (readGoals stop rest goals).after e.steps

/-- An expression is read back at each level that it may stand at. -/
structure Expr.ReadsBack (stop : Token) (e : Expr) : Prop where
  factor : e.level = .factor → ∀ {start goals rest}, Opens start goals →
    Avoids ["[", "(", "="] rest → e.Reads stop start goals rest
  product : e.level.rank ≤ 1 → ∀ {start goals rest}, Opens start (.products :: goals) →
    Avoids ["[", "(", "="] rest → e.Reads stop start (.products :: goals) rest
  sum : e.level.rank ≤ 2 → ∀ {start goals rest}, Opens start (.products :: .sums :: goals) →
    Avoids ["[", "(", "=", "*"] rest → e.Reads stop start (.sums :: goals) rest
  expression : ∀ {goals rest}, EndsExpr rest →
    readGoals stop (e.tokens ++ rest) (.expression :: goals) =
      (readGoals stop rest goals).after e.steps

namespace Expr.ReadsBack

variable {stop : Token} {e : Expr}

/-- A sum is an expression when nothing goes on with it. -/
theorem expression_of_sum {goals : List Goal} {rest : List Token}
    (h : ∀ {start goals rest}, Opens start (.products :: .sums :: goals) →
      Avoids ["[", "(", "=", "*"] rest → e.Reads stop start (.sums :: goals) rest)
    (hr : EndsExpr rest) : readGoals stop (e.tokens ++ rest) (.expression :: goals) =
      (readGoals stop rest goals).after e.steps := by
  rw [h (.expression goals) (by simp [hr])]
  simp [hr]

/-- A product is a sum when no factor goes on with it. -/
theorem sum_of_product {start goals : List Goal} {rest : List Token}
    (h : ∀ {start goals rest}, Opens start (.products :: goals) →
      Avoids ["[", "(", "="] rest → e.Reads stop start (.products :: goals) rest)
    (ho : Opens start (.products :: .sums :: goals)) (hr : Avoids ["[", "(", "=", "*"] rest) :
    e.Reads stop start (.sums :: goals) rest := by
  rw [Reads, h ho (by simp [hr])]
  simp [hr]

theorem of_sum (hl : e.level = .sum)
    (h : ∀ {start goals rest}, Opens start (.products :: .sums :: goals) →
      Avoids ["[", "(", "=", "*"] rest → e.Reads stop start (.sums :: goals) rest) :
    e.ReadsBack stop where
  factor hf := by simp [hl] at hf
  product hf := by simp [hl, Precedence.rank] at hf
  sum _ := h
  expression := expression_of_sum h

theorem of_product (hl : e.level = .product)
    (h : ∀ {start goals rest}, Opens start (.products :: goals) →
      Avoids ["[", "(", "="] rest → e.Reads stop start (.products :: goals) rest) :
    e.ReadsBack stop where
  factor hf := by simp [hl] at hf
  product _ := h
  sum _ := sum_of_product h
  expression := expression_of_sum (sum_of_product h)

theorem of_factor (h : ∀ {start goals rest}, Opens start goals →
      Avoids ["[", "(", "="] rest → e.Reads stop start goals rest) : e.ReadsBack stop where
  factor _ := h
  product _ := h
  sum _ := sum_of_product h
  expression := expression_of_sum (sum_of_product h)

theorem num (n : Numeral) : (Expr.num n).ReadsBack stop :=
  of_factor fun ho _ => by cases ho <;> simp [Reads]

theorem name (x : Name) : (Expr.name x).ReadsBack stop := by
  refine of_factor fun ho hr => ?_
  cases ho <;> simp [Reads, hr]

theorem paren {opening closing : Nat} (h : e.ReadsBack stop) :
    (Expr.paren opening e closing).ReadsBack stop :=
  of_factor fun ho _ => by cases ho <;> simp [Reads, h.expression]

theorem index {x : Name} {opening closing : Nat} (h : e.ReadsBack stop) :
    (Expr.index x opening e closing).ReadsBack stop := by
  refine of_factor fun ho hr => ?_
  cases ho <;> simp [Reads, h.expression, hr]

/-- The arguments of a call are read up to the parenthesis that closes them. -/
theorem call {f : Name} {opening : Nat} {args : Args}
    (h : ∀ goals rest,
      readGoals stop (args.tokens ++ rest) (.arguments :: .expect ")" [] :: goals) =
        (readGoals stop rest goals).after args.steps) :
    (Expr.call f opening args).ReadsBack stop :=
  of_factor fun ho _ => by cases ho <;> simp [Reads, h]

/-! ### Operators -/

variable {l r : Expr} {line : Nat}

theorem mul (hl : l.level.rank ≤ 1) (hr : r.level.rank ≤ 0) (l_reads : l.ReadsBack stop)
    (r_reads : r.ReadsBack stop) : (Expr.binary .mul line l r).ReadsBack stop := by
  refine of_product rfl fun {start goals rest} ho hrest => ?_
  have hfactor : r.level = .factor := by cases h : r.level <;> simp [h, Precedence.rank] at hr ⊢
  have hnext : Avoids ["[", "(", "="] (symbolAt "*" line :: (r.tokens ++ rest)) := by simp
  have hleft := l_reads.product hl ho hnext
  have hright := fun goals => r_reads.factor hfactor (.factor goals) hrest
  simp only [Reads] at hleft hright
  simp [Reads, hleft, hright]

theorem additive {op : BinaryOp} (hop : op = .add ∨ op = .sub) (hl : l.level.rank ≤ 2)
    (hr : r.level.rank ≤ 1) (l_reads : l.ReadsBack stop) (r_reads : r.ReadsBack stop) :
    (Expr.binary op line l r).ReadsBack stop := by
  refine of_sum (by rcases hop with rfl | rfl <;> rfl) fun {start goals rest} ho hrest => ?_
  have hnext : Avoids ["[", "(", "=", "*"] (op.token line :: (r.tokens ++ rest)) := by
    rcases hop with rfl | rfl <;> simp
  have hmore : Avoids ["[", "(", "="] rest := by simp [hrest]
  have hleft := l_reads.sum hl ho hnext
  have hright := fun goals => r_reads.product hr (.factor (.products :: goals)) hmore
  simp only [Reads] at hleft hright
  rcases hop with rfl | rfl <;> simp_all [Reads]

theorem comparison {op : BinaryOp} (hop : op = .lt ∨ op = .eq) (hl : l.level.rank ≤ 2)
    (hr : r.level.rank ≤ 2) (l_reads : l.ReadsBack stop) (r_reads : r.ReadsBack stop) :
    (Expr.binary op line l r).ReadsBack stop where
  factor hf := by rcases hop with rfl | rfl <;> cases hf
  product hf := by rcases hop with rfl | rfl <;> simp [level, BinaryOp.level, Precedence.rank] at hf
  sum hf := by rcases hop with rfl | rfl <;> simp [level, BinaryOp.level, Precedence.rank] at hf
  expression {goals rest} hrest := by
    have hnext : Avoids ["[", "(", "=", "*"] (op.token line :: (r.tokens ++ rest)) := by
      rcases hop with rfl | rfl <;> simp
    have hmore : Avoids ["[", "(", "=", "*"] rest := by simp [hrest]
    have hleft := l_reads.sum hl (.expression goals) hnext
    have hright := fun goals => r_reads.sum hr (.factor (.products :: .sums :: goals)) hmore
    simp only [Reads] at hleft hright
    rcases hop with rfl | rfl <;> simp_all

theorem assign {target : Expr} (e_reads : e.ReadsBack stop)
    (h : ∀ goals rest, readGoals stop (target.tokens ++ symbolAt "=" line :: rest)
        (.expression :: goals) =
      (readGoals stop (symbolAt "=" line :: rest) (.placeRest :: goals)).after target.steps) :
    (Expr.assign target line e).ReadsBack stop where
  factor hf := by cases hf
  product hf := by simp [level, Precedence.rank] at hf
  sum hf := by simp [level, Precedence.rank] at hf
  expression {goals rest} hrest := by
    rw [tokens, List.append_assoc, List.append_assoc, List.singleton_append, h]
    simp [e_reads.expression hrest]

end Expr.ReadsBack

/-- A token that an expression can start with. -/
def Token.startsExpr (t : Token) : Bool := t.kind == .num || t.kind == .id || t.isSymbol "("

/-- An expression starts with a token that it can start with. -/
theorem Expr.exists_head : ∀ e : Expr, ∃ t ts, e.tokens = t :: ts ∧ t.startsExpr = true
  | .num n => ⟨n.token, [], rfl, rfl⟩
  | .name x => ⟨x.token, [], rfl, rfl⟩
  | .index x opening i closing => ⟨x.token, _, rfl, rfl⟩
  | .call f opening args => ⟨f.token, _, rfl, rfl⟩
  | .paren opening e closing => ⟨symbolAt "(" opening, _, rfl, by simp [Token.startsExpr]⟩
  | .binary op line l r => by
    obtain ⟨t, ts, h, ht⟩ := l.exists_head
    exact ⟨t, _, by rw [tokens, h]; rfl, ht⟩
  | .assign target line value => by
    obtain ⟨t, ts, h, ht⟩ := target.exists_head
    exact ⟨t, _, by rw [tokens, h]; rfl, ht⟩

theorem Token.isSymbol_of_startsExpr {t : Token} (h : t.startsExpr = true) {s : String}
    (hs : s ≠ "(") : t.isSymbol s = false := by
  rcases t with ⟨lexeme, kind, line⟩
  cases kind <;> simp_all [startsExpr, isSymbol]
  exact fun heq => hs heq.symm

theorem Token.isKeyword_of_startsExpr {t : Token} (h : t.startsExpr = true) (s : String) :
    t.isKeyword s = false := by
  rcases t with ⟨lexeme, kind, line⟩
  cases kind <;> simp_all [startsExpr, isSymbol, isKeyword]

/-- Some arguments are read back, up to the parenthesis that closes them. -/
structure Args.ReadsBack (stop : Token) (args : Args) : Prop where
  nonempty : args.nonempty → ∀ goals rest,
    readGoals stop (args.tokens ++ rest) (argumentGoals ++ .expect ")" [] :: goals) =
      (readGoals stop rest goals).after args.steps
  arguments : ∀ goals rest,
    readGoals stop (args.tokens ++ rest) (.arguments :: .expect ")" [] :: goals) =
      (readGoals stop rest goals).after args.steps

namespace Args.ReadsBack

variable {stop : Token} {args others : Args} {e : Expr}

theorem none (closing : Nat) : (Args.none closing).ReadsBack stop where
  nonempty h := by cases h
  arguments goals rest := by simp

/-- Where an expression comes next there is an argument. -/
theorem of_nonempty {ts : List Token} (hargs : args.tokens = e.tokens ++ ts)
    (h : ∀ goals rest,
      readGoals stop (args.tokens ++ rest) (argumentGoals ++ .expect ")" [] :: goals) =
        (readGoals stop rest goals).after args.steps) : args.ReadsBack stop where
  nonempty _ := h
  arguments goals rest := by
    obtain ⟨t, us, he, ht⟩ := e.exists_head
    have hclose : t.isSymbol ")" = false := Token.isSymbol_of_startsExpr ht (by decide)
    rw [← h, hargs, he, readGoals_cons]
    simp [hclose]

theorem last {closing : Nat} (h : e.ReadsBack stop) : (Args.last e closing).ReadsBack stop :=
  of_nonempty rfl fun goals rest => by simp [h.expression]

theorem more {comma : Nat} (h : e.ReadsBack stop) (hne : others.nonempty)
    (hothers : others.ReadsBack stop) : (Args.more e comma others).ReadsBack stop := by
  refine of_nonempty (by rw [tokens, List.append_assoc]) fun goals rest => ?_
  have hrest := hothers.nonempty hne goals rest
  simp only [argumentGoals, List.cons_append, List.nil_append] at hrest
  simp [h.expression, hrest]

end Args.ReadsBack

mutual

/-- Every grammatical expression is read back. -/
theorem Expr.readsBack (stop : Token) : ∀ e : Expr, e.Grammatical → e.ReadsBack stop
  | .num n, _ => .num n
  | .name x, _ => .name x
  | .index _ _ i _, h => .index (i.readsBack stop h)
  | .call _ _ args, h => .call (args.readsBack stop h).arguments
  | .paren _ e _, h => .paren (e.readsBack stop h)
  | .binary op _ l r, ⟨⟨hl, hlg⟩, hr, hrg⟩ => by
    have l_reads := l.readsBack stop hlg
    have r_reads := r.readsBack stop hrg
    cases op with
    | mul => exact .mul hl hr l_reads r_reads
    | add => exact .additive (.inl rfl) hl hr l_reads r_reads
    | sub => exact .additive (.inr rfl) hl hr l_reads r_reads
    | lt => exact .comparison (.inl rfl) hl hr l_reads r_reads
    | eq => exact .comparison (.inr rfl) hl hr l_reads r_reads
  | .assign (.name x) line value, ⟨_, hv⟩ =>
    .assign (value.readsBack stop hv) fun goals rest => by simp
  | .assign (.index x opening i closing) line value, ⟨⟨_, hi⟩, hv⟩ =>
    .assign (value.readsBack stop hv) fun goals rest => by
      simp [(i.readsBack stop hi).expression]

/-- All grammatical arguments are read back. -/
theorem Args.readsBack (stop : Token) : ∀ args : Args, args.Grammatical → args.ReadsBack stop
  | .none closing, _ => .none closing
  | .last e _, h => .last (e.readsBack stop h)
  | .more e _ rest, ⟨he, hne, hrest⟩ => .more (e.readsBack stop he) hne (rest.readsBack stop hrest)

end

/-! ### Declarations of storage -/

section
variable (stop : Token) (goals : List Goal) (rest : List Token)

@[simp high] theorem readGoals_typeName (t : TypeWord) :
    readGoals stop (t.token :: rest) (.typeName :: goals) =
      (readGoals stop rest goals).after [⟨.pushType, t.token⟩] := by
  rcases t with ⟨_ | _, line⟩ <;> simp [TypeWord.token, BaseType.lexeme]

theorem readGoals_localRest (x : Name) (extent : Extent) :
    readGoals stop (extent.tokens ++ rest) (.localRest x.token :: goals) =
      (readGoals stop rest goals).after (extent.steps x) := by
  cases extent <;> simp [Extent.tokens, Extent.steps]

theorem readGoals_globalRest (x : Name) (extent : Extent) :
    readGoals stop (extent.tokens ++ rest) (.globalRest x.token :: goals) =
      (readGoals stop rest goals).after (extent.steps x) := by
  cases extent <;> simp [Extent.tokens, Extent.steps]

/-- The declarations of a block are read back. -/
theorem readGoals_locals (hint : rest.head?.any (·.isKeyword "int") = false)
    (hvoid : rest.head?.any (·.isKeyword "void") = false) : ∀ locals : List VarDecl,
    readGoals stop (locals.flatMap VarDecl.tokens ++ rest) (.locals :: goals) =
      (readGoals stop rest goals).after (locals.flatMap VarDecl.steps)
  | [] => by
    rw [List.flatMap_nil, List.nil_append, readGoals_cons]
    simp [hint, hvoid]
  | d :: locals => by
    have hlocals : ∀ input, readGoals stop (d.type.token :: input) (.locals :: goals) =
        readGoals stop (d.type.token :: input) (.typeName :: .localName :: .locals :: goals) := by
      intro input
      rw [readGoals_cons]
      rcases d with ⟨⟨_ | _, line⟩, name, extent⟩ <;> simp [TypeWord.token, BaseType.lexeme]
    have ih := readGoals_locals hint hvoid locals
    rw [List.flatMap_cons, List.append_assoc, VarDecl.tokens, List.append_assoc, List.cons_append,
      hlocals, readGoals_typeName]
    simp [VarDecl.steps, readGoals_localRest, ih]

end

/-! ### Statements -/

/-- A token that a statement can start with: it ends no block, and is no `else` and no type. -/
structure Token.StartsStmt (t : Token) : Prop where
  not_close : t.isSymbol "\x7d" = false
  not_else : t.isKeyword "else" = false
  not_int : t.isKeyword "int" = false
  not_void : t.isKeyword "void" = false

/-- A statement starts with a token that it can start with. -/
theorem Stmt.exists_head (s : Stmt) : ∃ t ts, s.tokens = t :: ts ∧ t.StartsStmt := by
  cases s with
  | expr e _ =>
    obtain ⟨t, ts, h, ht⟩ := e.exists_head
    refine ⟨t, _, by rw [tokens, h]; rfl, ?_⟩
    constructor
    · exact Token.isSymbol_of_startsExpr ht (by decide)
    all_goals exact Token.isKeyword_of_startsExpr ht _
  | _ => exact ⟨_, _, rfl, by constructor <;> simp⟩

/-- No `else` comes next that an open `if` would take. -/
abbrev AvoidsElse (input : List Token) : Prop := input.head?.any (·.isKeyword "else") = false

attribute [local simp] AvoidsElse Stmt.tokens Stmt.steps Stmt.listTokens Stmt.listSteps

/-- A statement is read back unless its last `if` could go on. -/
abbrev Stmt.ReadsBack (stop : Token) (s : Stmt) : Prop :=
  ∀ goals rest, (s.endsOpen → AvoidsElse rest) →
    readGoals stop (s.tokens ++ rest) (.statement :: goals) =
      (readGoals stop rest goals).after (s.steps (rest.headD stop))

/-- Statements are read back up to the brace that closes their block. -/
abbrev Stmt.ListReadsBack (stop : Token) (ss : List Stmt) : Prop :=
  ∀ closing goals rest,
    readGoals stop (Stmt.listTokens ss ++ symbolAt "\x7d" closing :: rest) (.statements :: goals) =
      (readGoals stop (symbolAt "\x7d" closing :: rest) goals).after
        (Stmt.listSteps (symbolAt "\x7d" closing) ss)

/-- What comes next after some statements of a block is no `else` and no type. -/
theorem Stmt.head?_listTokens (ss : List Stmt) (closing : Nat) (rest : List Token) : ∃ t ts,
    listTokens ss ++ symbolAt "\x7d" closing :: rest = t :: ts ∧ t.isKeyword "else" = false ∧
      t.isKeyword "int" = false ∧ t.isKeyword "void" = false := by
  cases ss with
  | nil => exact ⟨_, _, rfl, by simp⟩
  | cons s ss =>
    obtain ⟨t, ts, hs, ht⟩ := s.exists_head
    exact ⟨t, _, by rw [listTokens, hs]; rfl, ht.not_else, ht.not_int, ht.not_void⟩

namespace Stmt.ReadsBack

variable {stop : Token} {line opening closing semicolon : Nat} {e cond : Expr} {s other : Stmt}

theorem empty : (Stmt.empty semicolon).ReadsBack stop :=
  fun goals rest _ => by simp

theorem expr (h : e.ReadsBack stop) : (Stmt.expr e semicolon).ReadsBack stop := by
  intro goals rest _
  obtain ⟨t, ts, he, ht⟩ := e.exists_head
  have hstart : ∀ rest, readGoals stop (e.tokens ++ rest) (.statement :: goals) =
      readGoals stop (e.tokens ++ rest) (.expression :: .expect ";" [.popExpression] :: goals) := by
    intro rest
    rw [he, readGoals_cons]
    simp [Token.isSymbol_of_startsExpr ht, Token.isKeyword_of_startsExpr ht]
  simp [hstart, h.expression]

theorem leave : (Stmt.leave line semicolon).ReadsBack stop :=
  fun goals rest _ => by simp

/-- The declarations and statements of a block, with its closing brace. -/
theorem readGoals_blockGoals (locals : List VarDecl) {body : List Stmt}
    (h : Stmt.ListReadsBack stop body) (actions : List Action) (closing : Nat)
    (goals : List Goal) (rest : List Token) :
    readGoals stop (locals.flatMap VarDecl.tokens ++ (Stmt.listTokens body
        ++ symbolAt "\x7d" closing :: rest)) (blockGoals actions ++ goals) =
      (readGoals stop rest goals).after (locals.flatMap VarDecl.steps
        ++ Stmt.listSteps (symbolAt "\x7d" closing) body
        ++ actions.map (⟨·, symbolAt "\x7d" closing⟩)) := by
  obtain ⟨t, ts, hhead, -, hint, hvoid⟩ := Stmt.head?_listTokens body closing rest
  rw [blockGoals, List.cons_append, List.cons_append, List.cons_append,
    readGoals_locals _ _ _ (by simp [hhead, hint]) (by simp [hhead, hvoid]), h, readGoals_expect]
  simp

theorem block {locals : List VarDecl} {body : List Stmt} (h : Stmt.ListReadsBack stop body) :
    (Stmt.block opening locals body closing).ReadsBack stop :=
  fun goals rest _ => by simp [readGoals_blockGoals locals h]

theorem returnNone : (Stmt.return line semicolon).ReadsBack stop :=
  fun goals rest _ => by simp

theorem returnValue (h : e.ReadsBack stop) :
    (Stmt.returnValue line e semicolon).ReadsBack stop := by
  intro goals rest _
  obtain ⟨t, ts, he, ht⟩ := e.exists_head
  have hstart : ∀ word rest, readGoals stop (e.tokens ++ rest) (.returnRest word :: goals) =
      readGoals stop (e.tokens ++ rest) (.expression :: .perform ⟨.storeReturnValue, word⟩ ::
        .expect ";" [] :: .perform ⟨.markReturn, word⟩ :: goals) := by
    intro word rest
    rw [he, readGoals_cons]
    simp [Token.isSymbol_of_startsExpr ht]
  simp [hstart, h.expression]

theorem ifThen (h : cond.ReadsBack stop) (hs : s.ReadsBack stop) :
    (Stmt.ifThen line opening cond closing s).ReadsBack stop := by
  intro goals rest hrest
  have hopen : AvoidsElse rest := hrest rfl
  have helse : readGoals stop rest (.elsePart :: goals) =
      (readGoals stop rest goals).after [⟨.patchCondJumpToHere, rest.headD stop⟩] := by
    rw [readGoals_cons]
    cases rest <;> simp_all
  simp [h.expression, hs, hopen, helse]

theorem ifElse {elseLine : Nat} (h : cond.ReadsBack stop) (hs : s.ReadsBack stop)
    (hclosed : s.endsOpen = false) (hother : other.ReadsBack stop) :
    (Stmt.ifElse line opening cond closing s elseLine other).ReadsBack stop := by
  intro goals rest hrest
  have hlast := fun goals => hother goals rest hrest
  simp [h.expression, hs, hclosed, hlast]

theorem loop {untilLine : Nat} (hs : s.ReadsBack stop) (h : cond.ReadsBack stop) :
    (Stmt.loop line s untilLine opening cond closing).ReadsBack stop :=
  fun goals rest _ => by simp [hs, h.expression]

end Stmt.ReadsBack

theorem Stmt.ListReadsBack.cons {stop : Token} {s : Stmt} {ss : List Stmt}
    (hs : s.ReadsBack stop) (hss : Stmt.ListReadsBack stop ss) :
    Stmt.ListReadsBack stop (s :: ss) := by
  intro closing goals rest
  obtain ⟨t, ts, htokens, ht⟩ := s.exists_head
  have hstart : ∀ rest, readGoals stop (s.tokens ++ rest) (.statements :: goals) =
      readGoals stop (s.tokens ++ rest) (.statement :: .statements :: goals) := by
    intro rest
    rw [htokens, readGoals_cons]
    simp [ht.not_close]
  obtain ⟨u, us, hhead, helse, -⟩ := head?_listTokens ss closing rest
  have hnext : (listTokens ss ++ symbolAt "\x7d" closing :: rest).headD stop =
      (listTokens ss).headD (symbolAt "\x7d" closing) := by
    cases listTokens ss <;> rfl
  rw [listTokens, List.append_assoc, hstart, hs _ _ (fun _ => by simp [hhead, helse]), hss, hnext]
  simp [listSteps]

mutual

/-- Every grammatical statement is read back. -/
theorem Stmt.readsBack (stop : Token) : ∀ s : Stmt, s.Grammatical → s.ReadsBack stop
  | .empty _, _ => ReadsBack.empty
  | .expr e _, h => ReadsBack.expr (e.readsBack stop h)
  | .block _ _ body _, h => ReadsBack.block (Stmt.listReadsBack stop body h)
  | .leave _ _, _ => ReadsBack.leave
  | .ifThen _ _ cond _ s, ⟨hc, hs⟩ =>
    ReadsBack.ifThen (cond.readsBack stop hc) (s.readsBack stop hs)
  | .ifElse _ _ cond _ s _ other, ⟨hc, ⟨hclosed, hs⟩, hother⟩ =>
    ReadsBack.ifElse (cond.readsBack stop hc) (s.readsBack stop hs) hclosed
      (other.readsBack stop hother)
  | .loop _ s _ _ cond _, ⟨hs, hc⟩ =>
    ReadsBack.loop (s.readsBack stop hs) (cond.readsBack stop hc)
  | .return _ _, _ => ReadsBack.returnNone
  | .returnValue _ e _, h => ReadsBack.returnValue (e.readsBack stop h)

/-- All grammatical statements of a block are read back. -/
theorem Stmt.listReadsBack (stop : Token) : ∀ ss : List Stmt, Stmt.ListGrammatical ss →
    Stmt.ListReadsBack stop ss
  | [], _ => fun closing goals rest => by simp [listTokens, listSteps]
  | s :: ss, ⟨hs, hss⟩ => .cons (s.readsBack stop hs) (Stmt.listReadsBack stop ss hss)

end

/-! ### Programs -/

section
variable (stop : Token) (goals : List Goal) (rest : List Token)

/-- A parameter is read back, if no bracket follows one that has none. -/
theorem readGoals_param (p : Param) (h : Avoids ["["] rest) :
    readGoals stop (p.tokens ++ rest) (parameterGoals ++ goals) =
      (readGoals stop rest (.moreParameters :: goals)).after p.steps := by
  rcases p with ⟨type, name, _ | ⟨opening, closing⟩⟩
  · have hrest : readGoals stop rest (.parameterRest name.token :: .moreParameters :: goals) =
        (readGoals stop rest (.moreParameters :: goals)).after [⟨.addParameter, name.token⟩] := by
      rw [readGoals_cons]
      simp [h]
    simp [Param.tokens, Param.steps, Param.action, parameterGoals, hrest]
  · simp [Param.tokens, Param.steps, Param.action, parameterGoals]

theorem avoids_moreParams (closing : Nat) (more : List (Nat × Param)) :
    Avoids ["["] (more.flatMap Params.moreTokens ++ symbolAt ")" closing :: rest) := by
  rcases more with _ | ⟨⟨line, q⟩, more⟩ <;> simp [Params.moreTokens]

/-- The parameters after the first are read back, up to the closing parenthesis. -/
theorem readGoals_moreParams (closing : Nat) : ∀ more : List (Nat × Param),
    readGoals stop (more.flatMap Params.moreTokens ++ symbolAt ")" closing :: rest)
        (.moreParameters :: goals) =
      (readGoals stop (symbolAt ")" closing :: rest) goals).after
        ((more.map (·.2)).flatMap Param.steps)
  | [] => by simp
  | (comma, p) :: more => by
    have hp := readGoals_param stop goals _ p (avoids_moreParams rest closing more)
    have hcomma : ∀ input, readGoals stop (symbolAt "," comma :: input)
        (.moreParameters :: goals) = readGoals stop input (parameterGoals ++ goals) := by simp
    rw [List.flatMap_cons, Params.moreTokens, List.cons_append, List.cons_append,
      List.append_assoc, hcomma, hp, readGoals_moreParams closing more]
    simp

/-- What stands between the parentheses of a function is read back. -/
theorem readGoals_params (closing : Nat) (ps : Params) :
    readGoals stop (ps.tokens ++ symbolAt ")" closing :: rest) (.parameters :: goals) =
      (readGoals stop (symbolAt ")" closing :: rest) goals).after ps.steps := by
  cases ps with
  | void line => simp [Params.tokens, Params.steps, Params.toList]
  | list first more =>
    have hfirst : ∀ input, readGoals stop (first.tokens ++ input) (.parameters :: goals) =
        readGoals stop (first.tokens ++ input) (parameterGoals ++ goals) := by
      intro input
      -- a first parameter has a name where a lone `void` is closed at once
      rw [Param.tokens, readGoals_cons]
      simp
    rw [Params.tokens, List.append_assoc, hfirst,
      readGoals_param stop goals _ first (avoids_moreParams rest closing more),
      readGoals_moreParams]
    simp [Params.steps, Params.toList]

/-- A declaration of a program is read back. -/
theorem readGoals_decl (d : Decl) (h : d.Grammatical) :
    readGoals stop (d.tokens ++ rest) (.typeName :: .globalName :: goals) =
      (readGoals stop rest goals).after d.steps := by
  cases d with
  | var d => simp [Decl.tokens, VarDecl.tokens, Decl.steps, VarDecl.steps, readGoals_globalRest]
  | fn f =>
    have hbody := Stmt.ReadsBack.readGoals_blockGoals f.body.locals
      (Stmt.listReadsBack stop f.body.body h) [.scopeDown, .endFunction] f.body.closing goals rest
    simp [Decl.tokens, FnDecl.tokens, Decl.steps, FnDecl.steps, Block.stmt, Block.close,
      Stmt.tokens, Stmt.steps, readGoals_params, hbody]

/-- The declarations of a program are read back, to its end. -/
theorem readGoals_declarations : ∀ decls : List Decl, (∀ d ∈ decls, d.Grammatical) →
    readGoals stop (decls.flatMap Decl.tokens) (.declarations :: goals) =
      (readGoals stop [] goals).after (decls.flatMap Decl.steps)
  | [], _ => by
    rw [List.flatMap_nil, readGoals_cons]
    simp
  | d :: decls, h => by
    obtain ⟨t, ts, ht⟩ : ∃ t ts, d.tokens = t :: ts := by cases d <;> exact ⟨_, _, rfl⟩
    have hstart : ∀ input, readGoals stop (d.tokens ++ input) (.declarations :: goals) =
        readGoals stop (d.tokens ++ input)
          (.typeName :: .globalName :: .declarations :: goals) := by
      intro input
      rw [ht, readGoals_cons]
      simp
    rw [List.flatMap_cons, hstart, readGoals_decl stop _ _ d (h d (by simp)),
      readGoals_declarations decls fun d hd => h d (by simp [hd])]
    simp

end

/-- The parser accepts the tokens of a grammatical program and calls for its steps. -/
theorem Program.readGoals_tokens (stop : Token) (p : Program) (h : p.Grammatical) :
    readGoals stop p.tokens programGoals = ⟨p.steps stop, none⟩ := by
  rw [programGoals, readGoals_performHere, tokens, readGoals_declarations stop _ _ h]
  simp [steps, tokens, Parse.after]

end OnePass
