import OnePass.Proofs.Generator.Footprint
import OnePass.Proofs.Grammar.Tree

/-!
# The order of steps in a text

Steps come in the order of their tokens, with one exception. The action of an index, a call, an
operator, an assignment, a return or an array is performed at the token it is about, but only after
what stands behind that token in its phrase: it is postponed.

    a[i]        a         after i
    f(x, y)     f         after x and y
    e₁ + e₂     +         after e₂
    x = e       =         after e
    return e    return    after e
    int a[8]    a         after 8

Two steps of a program are in the order of their lines unless the later one is postponed past the
earlier one. Steps that cannot find a mistake are left out of the account. -/

namespace OnePass

open Token (symbolAt keywordAt)

/-- An action at a token that is postponed past other tokens. -/
structure Postponed where
  token : Token
  past : List Token
  deriving DecidableEq, Repr

/-! ### What is postponed in a program -/

mutual

/-- What is postponed in an expression. -/
def Expr.postponed : Expr → List Postponed
  | .num _ | .name _ => []
  | .index x _ i _ => ⟨x.token, i.tokens⟩ :: i.postponed
  | .call f _ args => ⟨f.token, args.tokens⟩ :: args.postponed
  | .paren _ e _ => e.postponed
  | .binary op line l r => ⟨op.token line, r.tokens⟩ :: (l.postponed ++ r.postponed)
  | .assign target line value =>
    ⟨symbolAt "=" line, value.tokens⟩ :: (target.postponed ++ value.postponed)

/-- What is postponed in some arguments. -/
def Args.postponed : Args → List Postponed
  | .none _ => []
  | .last e _ => e.postponed
  | .more e _ rest => e.postponed ++ rest.postponed

end

/-- What is postponed in a declaration of storage. -/
def VarDecl.postponed (d : VarDecl) : List Postponed :=
  match d.extent with
  | .scalar _ => []
  | .array _ size _ _ => [⟨d.name.token, [size.token]⟩]

mutual

/-- What is postponed in a statement. -/
def Stmt.postponed : Stmt → List Postponed
  | .empty _ | .leave _ _ | .return _ _ => []
  | .expr e _ => e.postponed
  | .block _ locals body _ => locals.flatMap VarDecl.postponed ++ Stmt.listPostponed body
  | .ifThen _ _ cond _ body => cond.postponed ++ body.postponed
  | .ifElse _ _ cond _ body _ other => cond.postponed ++ (body.postponed ++ other.postponed)
  | .loop _ body _ _ cond _ => body.postponed ++ cond.postponed
  | .returnValue line e _ => ⟨keywordAt "return" line, e.tokens⟩ :: e.postponed

/-- What is postponed in some statements. -/
def Stmt.listPostponed : List Stmt → List Postponed
  | [] => []
  | s :: ss => s.postponed ++ Stmt.listPostponed ss

end

/-- What is postponed in a declaration of a program. -/
def Decl.postponed : Decl → List Postponed
  | .var d => d.postponed
  | .fn f => f.body.stmt.postponed

/-- What is postponed in a program. -/
def Program.postponed (p : Program) : List Postponed := p.decls.flatMap Decl.postponed

/-! ### Steps in the order of their tokens -/

/-- A line may come before another: it is not below it, or what is on the other was postponed past
    something on it. -/
def InOrder (late : List Postponed) (line line' : Nat) : Prop :=
  line ≤ line' ∨ ∃ c ∈ late, line' = c.token.line ∧ ∃ t ∈ c.past, line = t.line

/-- The steps that may find a mistake. -/
def loud (steps : List Step) : List Step := steps.filter fun s => !s.action.isSilent

@[simp] theorem loud_nil : loud [] = [] := rfl

@[simp] theorem loud_append (ss ss' : List Step) : loud (ss ++ ss') = loud ss ++ loud ss' :=
  List.filter_append ss ss'

theorem loud_cons (s : Step) (ss : List Step) :
    loud (s :: ss) = if s.action.isSilent then loud ss else s :: loud ss := by
  cases h : s.action.isSilent <;> simp [loud, h]

/-- Steps are at some tokens and, where those are in the order of their lines, so are they. -/
structure Follow (late : List Postponed) (ts : List Token) (ss : List Step) : Prop where
  within : ∀ s ∈ ss, s.token ∈ ts
  ordered : ts.Pairwise (·.line ≤ ·.line) →
    ss.Pairwise fun s s' => InOrder late s.token.line s'.token.line

namespace Follow

variable {late : List Postponed} {ts ts' : List Token} {ss ss' : List Step} {t : Token}

theorem nil : Follow late ts [] := ⟨nofun, fun _ => .nil⟩

/-- Steps at one token. -/
theorem here (h : ∀ s ∈ ss, s.token = t) : Follow late [t] ss where
  within s hs := List.mem_singleton.mpr (h s hs)
  ordered _ := List.pairwise_of_forall_mem_list fun s hs s' hs' =>
    .inl (Nat.le_of_eq (by rw [h s hs, h s' hs']))

theorem one (action : Action) : Follow late [t] [⟨action, t⟩] := here (by simp)

theorem append (h : Follow late ts ss) (h' : Follow late ts' ss') :
    Follow late (ts ++ ts') (ss ++ ss') where
  within s hs := by
    rcases List.mem_append.mp hs with hs | hs
    · exact List.mem_append_left _ (h.within s hs)
    · exact List.mem_append_right _ (h'.within s hs)
  ordered hlines := by
    obtain ⟨hts, hts', hcross⟩ := List.pairwise_append.mp hlines
    exact List.pairwise_append.mpr ⟨h.ordered hts, h'.ordered hts', fun s hs s' hs' =>
      .inl (hcross _ (h.within s hs) _ (h'.within s' hs'))⟩

/-- Nothing is performed at some tokens. -/
theorem pass (before : List Token) (h : Follow late ts ss) (after : List Token) :
    Follow late (before ++ ts ++ after) ss := by
  have hbefore : Follow late before [] := nil
  have hafter : Follow late after [] := nil
  have hall := hbefore.append (h.append hafter)
  rwa [List.nil_append, List.append_nil, ← List.append_assoc] at hall

/-- A step at a token is postponed past what stands behind it. -/
theorem postpone (before after : List Step) (between : List Token) (hlate : ⟨t, ts⟩ ∈ late)
    (h : Follow late ts ss)
    (hbefore : ∀ s ∈ before, s.token = t) (hafter : ∀ s ∈ after, s.token = t) :
    Follow late ([t] ++ between ++ ts) (before ++ ss ++ after) where
  within s hs := by
    have hmem : s.token = t ∨ s.token ∈ ts := by
      rcases List.mem_append.mp hs with hs | hs
      · exact (List.mem_append.mp hs).imp (hbefore s) (h.within s)
      · exact .inl (hafter s hs)
    grind
  ordered hlines := by
    have hfront := ((here hbefore).pass [] between |>.append h).ordered hlines
    refine List.pairwise_append.mpr ⟨hfront, (here hafter).ordered (by simp), ?_⟩
    intro s hs s' hs'
    rw [hafter s' hs']
    rcases List.mem_append.mp hs with hs | hs
    · exact .inl (Nat.le_of_eq (by rw [hbefore s hs]))
    · exact .inr ⟨_, hlate, rfl, _, h.within s hs, rfl⟩

theorem flatMap {α : Type} {f : α → List Token} {g : α → List Step} :
    ∀ {as : List α}, (∀ a ∈ as, Follow late (f a) (loud (g a))) →
      Follow late (as.flatMap f) (loud (as.flatMap g))
  | [], _ => nil
  | a :: as, h => by
    have hrest := flatMap fun a' ha' => h a' (List.mem_cons_of_mem a ha')
    simpa using (h a (List.mem_cons_self ..)).append hrest

end Follow

/-! ### Expressions and statements -/

variable {late : List Postponed}

mutual

/-- The steps of an expression follow its tokens. -/
theorem Expr.follow : ∀ {e : Expr}, e.postponed ⊆ late → Follow late e.tokens (loud e.steps)
  | .num _, _ => .one _
  | .name _, _ => .one _
  | .index x opening i closing, h => by
    simp only [Expr.postponed, List.cons_subset] at h
    have hindex := Follow.postpone [⟨.pushIdentifier, x.token⟩]
      [⟨.indexArray, x.token⟩] [symbolAt "[" opening] h.1 (Expr.follow h.2)
      (by simp) (by simp)
    simpa [Expr.tokens, Expr.steps, loud_cons, Action.isSilent]
      using hindex.pass [] [symbolAt "]" closing]
  | .call f opening args, h => by
    simp only [Expr.postponed, List.cons_subset] at h
    have hcall := Follow.postpone [⟨.pushIdentifier, f.token⟩]
      [⟨.call, f.token⟩] [symbolAt "(" opening] h.1 (Args.follow h.2)
      (by simp) (by simp)
    simpa [Expr.tokens, Expr.steps, loud_cons, Action.isSilent] using hcall
  | .paren opening e closing, h => by
    exact (Expr.follow (e := e) h).pass [symbolAt "(" opening] [symbolAt ")" closing]
  | .binary op line l r, h => by
    simp only [Expr.postponed, List.cons_subset, List.append_subset] at h
    have hop := Follow.postpone [] [⟨.computeBinary, op.token line⟩] [] h.1 (Expr.follow h.2.2)
      (by simp) (by simp)
    simpa [Expr.tokens, Expr.steps, loud_cons, Action.isSilent] using (Expr.follow h.2.1).append hop
  | .assign target line value, h => by
    simp only [Expr.postponed, List.cons_subset, List.append_subset] at h
    have hassign := Follow.postpone [] [⟨.assign, symbolAt "=" line⟩] [] h.1 (Expr.follow h.2.2)
      (by simp) (by simp)
    simpa [Expr.tokens, Expr.steps, loud_cons, Action.isSilent]
      using (Expr.follow h.2.1).append hassign

/-- The steps of some arguments follow their tokens. -/
theorem Args.follow : ∀ {args : Args}, args.postponed ⊆ late →
    Follow late args.tokens (loud args.steps)
  | .none _, _ => .nil
  | .last e closing, h => by
    simpa [Args.tokens, Args.steps, loud_cons, Action.isSilent]
      using (Expr.follow (e := e) h).pass [] [symbolAt ")" closing]
  | .more e comma rest, h => by
    simp only [Args.postponed, List.append_subset] at h
    have hfirst := (Expr.follow h.1).pass [] [symbolAt "," comma]
    simpa [Args.tokens, Args.steps, loud_cons, Action.isSilent]
      using hfirst.append (Args.follow h.2)

end

/-- The steps of a declaration of storage follow its tokens. -/
theorem VarDecl.follow {d : VarDecl} (h : d.postponed ⊆ late) :
    Follow late d.tokens (loud d.steps) := by
  obtain ⟨type, name, extent⟩ := d
  cases extent with
  | scalar semicolon =>
    exact (Follow.one _).pass [type.token] [symbolAt ";" semicolon]
  | array opening size closing semicolon =>
    have hlate : ⟨name.token, [size.token]⟩ ∈ late := h (by simp [VarDecl.postponed])
    have harray := Follow.postpone [] [⟨.declareArray, name.token⟩] [symbolAt "[" opening] hlate
      (.one .pushNumber) (by simp) (by simp)
    exact harray.pass [type.token] [symbolAt "]" closing, symbolAt ";" semicolon]

mutual

/-- The steps of a statement follow its tokens: what is noted at the token after it is silent. -/
theorem Stmt.follow (after : Token) : ∀ {s : Stmt}, s.postponed ⊆ late →
    Follow late s.tokens (loud (s.steps after))
  | .empty _, _ => .nil
  | .expr e semicolon, h => by
    simpa [Stmt.tokens, Stmt.steps, loud_cons, Action.isSilent]
      using (Expr.follow (e := e) h).pass [] [symbolAt ";" semicolon]
  | .block opening locals body closing, h => by
    simp only [Stmt.postponed, List.append_subset] at h
    have hlocals : Follow late _ (loud (locals.flatMap VarDecl.steps)) :=
      .flatMap fun d hd => VarDecl.follow fun c hc => h.1 (List.mem_flatMap.mpr ⟨d, hd, hc⟩)
    have hbody := Stmt.listFollow (symbolAt "\x7d" closing) h.2
    simpa [Stmt.tokens, Stmt.steps, loud_cons, Action.isSilent]
      using (hlocals.append hbody).pass [symbolAt "\x7b" opening] [symbolAt "\x7d" closing]
  | .leave line semicolon, _ => (Follow.one _).pass [] [symbolAt ";" semicolon]
  | .ifThen line opening cond closing body, h => by
    simp only [Stmt.postponed, List.append_subset] at h
    have hcond := (Expr.follow h.1).append
      (.one (t := symbolAt ")" closing) .reserveJumpSlot)
    simpa [Stmt.tokens, Stmt.steps, loud_cons, Action.isSilent]
      using (hcond.append (Stmt.follow after h.2)).pass
        [keywordAt "if" line, symbolAt "(" opening] []
  | .ifElse line opening cond closing body elseLine other, h => by
    simp only [Stmt.postponed, List.append_subset] at h
    have hcond := (Expr.follow h.1).append
      (.one (t := symbolAt ")" closing) .reserveJumpSlot)
    have hbody := (Stmt.follow (keywordAt "else" elseLine) h.2.1).pass []
      [keywordAt "else" elseLine]
    simpa [Stmt.tokens, Stmt.steps, loud_cons, Action.isSilent]
      using (hcond.append (hbody.append (Stmt.follow after h.2.2))).pass
        [keywordAt "if" line, symbolAt "(" opening] []
  | .loop line body untilLine opening cond closing, h => by
    simp only [Stmt.postponed, List.append_subset] at h
    have hbody := (Stmt.follow (keywordAt "until" untilLine) h.1).pass [keywordAt "repeat" line]
      [keywordAt "until" untilLine, symbolAt "(" opening]
    have hcond := (Expr.follow h.2).append
      (.one (t := symbolAt ")" closing) .jumpBackIfFalse)
    simpa [Stmt.tokens, Stmt.steps, loud_cons, Action.isSilent] using hbody.append hcond
  | .return _ _, _ => .nil
  | .returnValue line e semicolon, h => by
    simp only [Stmt.postponed, List.cons_subset] at h
    have hreturn := Follow.postpone [] [⟨.storeReturnValue, keywordAt "return" line⟩] [] h.1
      (Expr.follow h.2) (by simp) (by simp)
    simpa [Stmt.tokens, Stmt.steps, loud_cons, Action.isSilent]
      using hreturn.pass [] [symbolAt ";" semicolon]

/-- The steps of some statements follow their tokens. -/
theorem Stmt.listFollow (after : Token) : ∀ {ss : List Stmt}, Stmt.listPostponed ss ⊆ late →
    Follow late (Stmt.listTokens ss) (loud (Stmt.listSteps after ss))
  | [], _ => .nil
  | s :: ss, h => by
    simp only [Stmt.listPostponed, List.append_subset] at h
    simpa [Stmt.listTokens, Stmt.listSteps]
      using (Stmt.follow _ h.1).append (Stmt.listFollow after h.2)

end

/-! ### Programs -/

theorem Param.follow (p : Param) : Follow late p.tokens (loud p.steps) := by
  have hname : Follow late [p.name.token] [⟨p.action, p.name.token⟩] := .one _
  have hloud : loud p.steps = [⟨p.action, p.name.token⟩] := by
    cases h : p.brackets.isSome <;>
      simp [Param.steps, Param.action, h, loud_cons, Action.isSilent]
  rw [hloud]
  exact hname.pass [p.type.token] _

theorem Params.follow : ∀ ps : Params, Follow late ps.tokens (loud ps.steps)
  | .void _ => .nil
  | .list first more => by
    have hmore : Follow late (more.flatMap Params.moreTokens)
        (loud (more.flatMap fun p => p.2.steps)) :=
      .flatMap fun p _ => by simpa [Params.moreTokens] using p.2.follow.pass [symbolAt "," p.1] []
    simpa [Params.tokens, Params.steps, Params.toList, List.flatMap_map]
      using first.follow.append hmore

theorem Decl.follow : ∀ {d : Decl}, d.postponed ⊆ late → Follow late d.tokens (loud d.steps)
  | .var _, h => VarDecl.follow h
  | .fn f, h => by
    have hname : Follow late [f.name.token] [⟨.declareFunction, f.name.token⟩] := .one _
    have hhead := hname.pass [f.type.token] [symbolAt "(" f.opening]
    have hparams : Follow late _ _ := f.params.follow.pass [] [symbolAt ")" f.closing]
    have hbody := Stmt.follow f.body.close h
    simpa [Decl.tokens, Decl.steps, FnDecl.tokens, FnDecl.steps, loud_cons, Action.isSilent]
      using hhead.append (hparams.append hbody)

/-- The steps of a program follow its tokens. -/
theorem Program.follow (p : Program) (stop : Token) :
    Follow p.postponed (p.tokens ++ [stop]) (loud (p.steps stop)) := by
  have hdecls : Follow p.postponed p.tokens (loud (p.decls.flatMap Decl.steps)) :=
    .flatMap fun d hd => Decl.follow fun c hc => List.mem_flatMap.mpr ⟨d, hd, hc⟩
  simpa [Program.steps, loud_cons, Action.isSilent]
    using hdecls.append (.one (t := stop) .endProgram)

end OnePass
