import OnePass.Proofs.Grammar.Tree
import OnePass.Symbol.Table

/-!
# Misspelt programs

Some names in the expressions of a program are replaced by names that the program declares nowhere.
The relation between a phrase and the misspelt one lists the new names, in the order in which they
stand in the text.

    a[i] + f(x)     a[u] + v(x)     lists u, v

Declarations keep their names, and every token keeps its line. -/

namespace OnePass

/-! ### Names that a program declares -/

mutual

/-- The names that a statement declares. -/
def Stmt.declared : Stmt → List String
  | .block _ locals body _ => locals.map (·.name.lexeme) ++ Stmt.listDeclared body
  | .ifThen _ _ _ _ body => body.declared
  | .ifElse _ _ _ _ body _ other => body.declared ++ other.declared
  | .loop _ body _ _ _ _ => body.declared
  | _ => []

/-- The names that some statements declare. -/
def Stmt.listDeclared : List Stmt → List String
  | [] => []
  | s :: ss => s.declared ++ Stmt.listDeclared ss

end

/-- The names that a declaration declares, those inside a function included. -/
def Decl.declared : Decl → List String
  | .var d => [d.name.lexeme]
  | .fn f => f.name.lexeme :: (f.params.toList.map (·.name.lexeme) ++ f.body.stmt.declared)

/-- A name that a program declares nowhere, and that is not built in. -/
def Program.Unknown (p : Program) (x : String) : Prop :=
  x ∉ p.decls.flatMap Decl.declared ∧ x ≠ outputName

instance (p : Program) (x : String) : Decidable (p.Unknown x) :=
  inferInstanceAs (Decidable (_ ∧ _))

/-! ### Names that are replaced -/

section
variable (unknown : String → Prop)

/-- A name stays, or an unknown one takes its place. -/
inductive Name.Misspelt : Name → Name → List Name → Prop
  | keep (x : Name) : Misspelt x x []
  | replace (x : Name) {y : String} : unknown y → Misspelt x ⟨y, x.line⟩ [⟨y, x.line⟩]

mutual

/-- An expression, one in which names are replaced, and the new names. -/
inductive Expr.Misspelt : Expr → Expr → List Name → Prop
  | num (n : Numeral) : Expr.Misspelt (.num n) (.num n) []
  | name {x x' xs} : Name.Misspelt unknown x x' xs → Expr.Misspelt (.name x) (.name x') xs
  | index {x x' xs opening i i' ys closing} : Name.Misspelt unknown x x' xs →
      Expr.Misspelt i i' ys →
      Expr.Misspelt (.index x opening i closing) (.index x' opening i' closing) (xs ++ ys)
  | call {f f' xs opening args args' ys} : Name.Misspelt unknown f f' xs →
      Args.Misspelt args args' ys →
      Expr.Misspelt (.call f opening args) (.call f' opening args') (xs ++ ys)
  | paren {opening e e' xs closing} : Expr.Misspelt e e' xs →
      Expr.Misspelt (.paren opening e closing) (.paren opening e' closing) xs
  | binary {op line l l' xs r r' ys} : Expr.Misspelt l l' xs → Expr.Misspelt r r' ys →
      Expr.Misspelt (.binary op line l r) (.binary op line l' r') (xs ++ ys)
  | assign {target target' xs line value value' ys} : Expr.Misspelt target target' xs →
      Expr.Misspelt value value' ys →
      Expr.Misspelt (.assign target line value) (.assign target' line value') (xs ++ ys)

/-- Some arguments, others in which names are replaced, and the new names. -/
inductive Args.Misspelt : Args → Args → List Name → Prop
  | none (closing : Nat) : Args.Misspelt (.none closing) (.none closing) []
  | last {e e' xs closing} : Expr.Misspelt e e' xs →
      Args.Misspelt (.last e closing) (.last e' closing) xs
  | more {e e' xs comma rest rest' ys} : Expr.Misspelt e e' xs → Args.Misspelt rest rest' ys →
      Args.Misspelt (.more e comma rest) (.more e' comma rest') (xs ++ ys)

end

mutual

/-- A statement, one in which names are replaced, and the new names. -/
inductive Stmt.Misspelt : Stmt → Stmt → List Name → Prop
  | empty (semicolon : Nat) : Stmt.Misspelt (.empty semicolon) (.empty semicolon) []
  | expr {e e' xs semicolon} : e.Misspelt unknown e' xs →
      Stmt.Misspelt (.expr e semicolon) (.expr e' semicolon) xs
  | block {opening locals body body' xs closing} : Stmt.ListMisspelt body body' xs →
      Stmt.Misspelt (.block opening locals body closing) (.block opening locals body' closing) xs
  | leave (line semicolon : Nat) : Stmt.Misspelt (.leave line semicolon) (.leave line semicolon) []
  | ifThen {line opening cond cond' xs closing body body' ys} : cond.Misspelt unknown cond' xs →
      Stmt.Misspelt body body' ys →
      Stmt.Misspelt (.ifThen line opening cond closing body)
        (.ifThen line opening cond' closing body') (xs ++ ys)
  | ifElse {line opening cond cond' xs closing body body' ys elseLine other other' zs} :
      cond.Misspelt unknown cond' xs → Stmt.Misspelt body body' ys →
      Stmt.Misspelt other other' zs →
      Stmt.Misspelt (.ifElse line opening cond closing body elseLine other)
        (.ifElse line opening cond' closing body' elseLine other') (xs ++ ys ++ zs)
  | loop {line body body' xs untilLine opening cond cond' ys closing} :
      Stmt.Misspelt body body' xs → cond.Misspelt unknown cond' ys →
      Stmt.Misspelt (.loop line body untilLine opening cond closing)
        (.loop line body' untilLine opening cond' closing) (xs ++ ys)
  | return (line semicolon : Nat) :
      Stmt.Misspelt (.return line semicolon) (.return line semicolon) []
  | returnValue {line e e' xs semicolon} : e.Misspelt unknown e' xs →
      Stmt.Misspelt (.returnValue line e semicolon) (.returnValue line e' semicolon) xs

/-- Some statements, others in which names are replaced, and the new names. -/
inductive Stmt.ListMisspelt : List Stmt → List Stmt → List Name → Prop
  | nil : Stmt.ListMisspelt [] [] []
  | cons {s s' xs ss ss' ys} : Stmt.Misspelt s s' xs → Stmt.ListMisspelt ss ss' ys →
      Stmt.ListMisspelt (s :: ss) (s' :: ss') (xs ++ ys)

end

/-- A function with other statements in its body. -/
def FnDecl.withBody (f : FnDecl) (body : List Stmt) : FnDecl :=
  { f with body := { f.body with body } }

/-- Some declarations, others in which names are replaced, and the new names. -/
inductive Decl.ListMisspelt : List Decl → List Decl → List Name → Prop
  | nil : ListMisspelt [] [] []
  | var {d ds ds' xs} : ListMisspelt ds ds' xs → ListMisspelt (.var d :: ds) (.var d :: ds') xs
  | fn {f : FnDecl} {body xs ds ds' ys} : Stmt.ListMisspelt unknown f.body.body body xs →
      ListMisspelt ds ds' ys →
      ListMisspelt (.fn f :: ds) (.fn (f.withBody body) :: ds') (xs ++ ys)

end

/-- A program, one in which names are replaced that it knows nothing of, and the new names. -/
def Program.Misspelt (p p' : Program) (xs : List Name) : Prop :=
  Decl.ListMisspelt p.Unknown p.decls p'.decls xs

/-! ### The new names stand in the text -/

section
variable {unknown : String → Prop}

theorem Name.Misspelt.sublist {x x' : Name} {xs : List Name} (h : x.Misspelt unknown x' xs) :
    (xs.map Name.token).Sublist [x'.token] := by
  cases h with
  | keep => exact List.nil_sublist _
  | replace => exact List.Sublist.refl _

mutual

theorem Expr.Misspelt.sublist : ∀ {e e' : Expr} {xs : List Name}, e.Misspelt unknown e' xs →
    (xs.map Name.token).Sublist e'.tokens
  | _, _, _, .num _ => List.nil_sublist _
  | _, _, _, .name hx => hx.sublist
  | _, _, _, .index hx hi => by
    rw [List.map_append, Expr.tokens, List.append_assoc]
    exact hx.sublist.append ((hi.sublist.trans (List.sublist_append_left ..)).cons _)
  | _, _, _, .call hf hargs => by
    rw [List.map_append, Expr.tokens]
    exact hf.sublist.append (hargs.sublist.cons _)
  | _, _, _, .paren he => by
    rw [Expr.tokens, List.append_assoc]
    exact (he.sublist.trans (List.sublist_append_left ..)).cons _
  | _, _, _, .binary hl hr => by
    rw [List.map_append, Expr.tokens, List.append_assoc]
    exact hl.sublist.append (hr.sublist.cons _)
  | _, _, _, .assign ht hv => by
    rw [List.map_append, Expr.tokens, List.append_assoc]
    exact ht.sublist.append (hv.sublist.cons _)

theorem Args.Misspelt.sublist : ∀ {args args' : Args} {xs : List Name},
    args.Misspelt unknown args' xs → (xs.map Name.token).Sublist args'.tokens
  | _, _, _, .none _ => List.nil_sublist _
  | _, _, _, .last he => he.sublist.trans (List.sublist_append_left ..)
  | _, _, _, .more he hrest => by
    rw [List.map_append, Args.tokens, List.append_assoc]
    exact he.sublist.append (hrest.sublist.cons _)

end

mutual

theorem Stmt.Misspelt.sublist : ∀ {s s' : Stmt} {xs : List Name}, s.Misspelt unknown s' xs →
    (xs.map Name.token).Sublist s'.tokens
  | _, _, _, .empty _ => List.nil_sublist _
  | _, _, _, .expr he => he.sublist.trans (List.sublist_append_left ..)
  | _, _, _, .block hbody => by
    rw [Stmt.tokens, List.append_assoc]
    exact (hbody.sublist.trans (List.sublist_append_left ..)).trans (List.sublist_append_right ..)
  | _, _, _, .leave _ _ => List.nil_sublist _
  | _, _, _, .ifThen hcond hbody => by
    rw [List.map_append, Stmt.tokens]
    refine List.Sublist.append ?_ hbody.sublist
    rw [List.append_assoc]
    exact (hcond.sublist.trans (List.sublist_append_left ..)).trans (List.sublist_append_right ..)
  | _, _, _, .ifElse hcond hbody hother => by
    rw [List.map_append, List.map_append, Stmt.tokens]
    refine List.Sublist.append ((List.Sublist.append ?_ hbody.sublist).trans
      (List.sublist_append_left ..)) hother.sublist
    rw [List.append_assoc]
    exact (hcond.sublist.trans (List.sublist_append_left ..)).trans (List.sublist_append_right ..)
  | _, _, _, .loop hbody hcond => by
    rw [List.map_append, Stmt.tokens, List.append_assoc]
    refine List.Sublist.append ?_ (hcond.sublist.trans (List.sublist_append_left ..))
    exact (hbody.sublist.trans (List.sublist_append_right ..)).trans (List.sublist_append_left ..)
  | _, _, _, .return _ _ => List.nil_sublist _
  | _, _, _, .returnValue he => by
    rw [Stmt.tokens, List.append_assoc]
    exact (he.sublist.trans (List.sublist_append_left ..)).cons _

theorem Stmt.ListMisspelt.sublist : ∀ {ss ss' : List Stmt} {xs : List Name},
    Stmt.ListMisspelt unknown ss ss' xs → (xs.map Name.token).Sublist (Stmt.listTokens ss')
  | _, _, _, .nil => List.nil_sublist _
  | _, _, _, .cons hs hss => by
    rw [List.map_append, Stmt.listTokens]
    exact hs.sublist.append hss.sublist

end

theorem Stmt.ListMisspelt.withBody {f : FnDecl} {body : List Stmt} {xs : List Name}
    (h : Stmt.ListMisspelt unknown f.body.body body xs) :
    f.body.stmt.Misspelt unknown (f.withBody body).body.stmt xs := .block h

theorem Decl.ListMisspelt.sublist {ds ds' : List Decl} {xs : List Name}
    (h : Decl.ListMisspelt unknown ds ds' xs) :
    (xs.map Name.token).Sublist (ds'.flatMap Decl.tokens) := by
  induction h with
  | nil => exact List.nil_sublist _
  | var _ ih =>
    rw [List.flatMap_cons]
    exact ih.trans (List.sublist_append_right ..)
  | fn hbody _ ih =>
    rw [List.map_append, List.flatMap_cons]
    exact (hbody.withBody.sublist.trans (List.sublist_append_right ..)).append ih

end

/-- The new names stand in the text of the misspelt program, in their order. -/
theorem Program.Misspelt.sublist {p p' : Program} {xs : List Name} (h : p.Misspelt p' xs) :
    (xs.map Name.token).Sublist p'.tokens := Decl.ListMisspelt.sublist h

/-! ### The grammar builds what is misspelt -/

section
variable {unknown : String → Prop}

theorem Expr.Misspelt.level_eq {e e' : Expr} {xs : List Name} (h : e.Misspelt unknown e' xs) :
    e'.level = e.level := by
  cases h <;> rfl

theorem Expr.Misspelt.isPlace_eq {e e' : Expr} {xs : List Name} (h : e.Misspelt unknown e' xs) :
    e'.isPlace = e.isPlace := by
  cases h <;> rfl

theorem Args.Misspelt.nonempty_eq {args args' : Args} {xs : List Name}
    (h : args.Misspelt unknown args' xs) : args'.nonempty = args.nonempty := by
  cases h <;> rfl

mutual

theorem Expr.Misspelt.grammatical : ∀ {e e' : Expr} {xs : List Name}, e.Misspelt unknown e' xs →
    e.Grammatical → e'.Grammatical
  | _, _, _, .num _, _ => trivial
  | _, _, _, .name _, _ => trivial
  | _, _, _, .index _ hi, h => hi.grammatical h
  | _, _, _, .call _ hargs, h => hargs.grammatical h
  | _, _, _, .paren he, h => he.grammatical h
  | _, _, _, .binary hl hr, h =>
    ⟨⟨hl.level_eq ▸ h.1.1, hl.grammatical h.1.2⟩, hr.level_eq ▸ h.2.1, hr.grammatical h.2.2⟩
  | _, _, _, .assign ht hv, h =>
    ⟨⟨ht.isPlace_eq ▸ h.1.1, ht.grammatical h.1.2⟩, hv.grammatical h.2⟩

theorem Args.Misspelt.grammatical : ∀ {args args' : Args} {xs : List Name},
    args.Misspelt unknown args' xs → args.Grammatical → args'.Grammatical
  | _, _, _, .none _, _ => trivial
  | _, _, _, .last he, h => he.grammatical h
  | _, _, _, .more he hrest, h =>
    ⟨he.grammatical h.1, hrest.nonempty_eq ▸ h.2.1, hrest.grammatical h.2.2⟩

end

theorem Stmt.Misspelt.endsOpen_eq : ∀ {s s' : Stmt} {xs : List Name}, s.Misspelt unknown s' xs →
    s'.endsOpen = s.endsOpen
  | _, _, _, .ifElse _ _ hother => hother.endsOpen_eq
  | _, _, _, .empty _ | _, _, _, .expr _ | _, _, _, .block _ | _, _, _, .leave _ _
  | _, _, _, .ifThen _ _ | _, _, _, .loop _ _ | _, _, _, .return _ _
  | _, _, _, .returnValue _ => rfl

mutual

theorem Stmt.Misspelt.grammatical : ∀ {s s' : Stmt} {xs : List Name}, s.Misspelt unknown s' xs →
    s.Grammatical → s'.Grammatical
  | _, _, _, .empty _, _ => trivial
  | _, _, _, .expr he, h => he.grammatical h
  | _, _, _, .block hbody, h => hbody.grammatical h
  | _, _, _, .leave _ _, _ => trivial
  | _, _, _, .ifThen hcond hbody, h => ⟨hcond.grammatical h.1, hbody.grammatical h.2⟩
  | _, _, _, .ifElse hcond hbody hother, h =>
    ⟨hcond.grammatical h.1, ⟨hbody.endsOpen_eq ▸ h.2.1.1, hbody.grammatical h.2.1.2⟩,
      hother.grammatical h.2.2⟩
  | _, _, _, .loop hbody hcond, h => ⟨hbody.grammatical h.1, hcond.grammatical h.2⟩
  | _, _, _, .return _ _, _ => trivial
  | _, _, _, .returnValue he, h => he.grammatical h

theorem Stmt.ListMisspelt.grammatical : ∀ {ss ss' : List Stmt} {xs : List Name},
    Stmt.ListMisspelt unknown ss ss' xs → Stmt.ListGrammatical ss → Stmt.ListGrammatical ss'
  | _, _, _, .nil, _ => trivial
  | _, _, _, .cons hs hss, h => ⟨hs.grammatical h.1, hss.grammatical h.2⟩

end

theorem Decl.ListMisspelt.grammatical {ds ds' : List Decl} {xs : List Name}
    (h : Decl.ListMisspelt unknown ds ds' xs) (hds : ∀ d ∈ ds, d.Grammatical) :
    ∀ d ∈ ds', d.Grammatical := by
  induction h with
  | nil => exact hds
  | var _ ih =>
    rw [List.forall_mem_cons] at hds ⊢
    exact ⟨hds.1, ih hds.2⟩
  | fn hbody _ ih =>
    rw [List.forall_mem_cons] at hds ⊢
    exact ⟨hbody.withBody.grammatical hds.1, ih hds.2⟩

end

theorem Program.Misspelt.grammatical {p p' : Program} {xs : List Name} (h : p.Misspelt p' xs)
    (hp : p.Grammatical) : p'.Grammatical := Decl.ListMisspelt.grammatical h hp

end OnePass
