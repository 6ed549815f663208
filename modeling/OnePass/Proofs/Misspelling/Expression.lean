import OnePass.Proofs.Misspelling.Table
import OnePass.Proofs.Misspelling.Tree
import OnePass.Proofs.Translate.Perform

/-!
# Misspelt expressions

A name that nothing declares is reported where it stands, and a placeholder is left for it. What is
computed from that passes for what the right expression gives, so that nothing else is reported.
The code of a misspelt expression is not longer, and it takes no more storage. -/

namespace OnePass

open Gen

/-! ### What is reported -/

/-- What is reported of a name that nothing declares. -/
def Name.notDefined (x : Name) : Diagnostic := ⟨x.line, .notDefined x.lexeme⟩

/-- The state in which some names were reported. -/
def Generator.reports (g : Generator) (xs : List Name) : Generator :=
  { g with diagnostics := g.diagnostics ++ (xs.map Name.notDefined).toArray }

@[simp] theorem Generator.reports_layout (g : Generator) (xs : List Name) :
    (g.reports xs).layout = g.layout := rfl

@[simp] theorem Generator.reports_nil (g : Generator) : g.reports [] = g := by
  simp [Generator.reports]

@[simp] theorem Generator.reports_reports (g : Generator) (xs ys : List Name) :
    (g.reports xs).reports ys = g.reports (xs ++ ys) := by
  simp [Generator.reports]

/-- No scope declares one of some names. -/
def Context.Avoids (Γ : Context) (unknown : String → Prop) : Prop :=
  ∀ bs ∈ Γ.inner ++ [Γ.file], ∀ b ∈ bs, ¬ unknown b.1

theorem Context.Avoids.find? {Γ : Context} {unknown : String → Prop} (h : Γ.Avoids unknown)
    {x : String} (hx : unknown x) : Γ.find? x = none := by
  rw [Context.find?, List.findSome?_eq_none_iff]
  intro bs hbs
  rw [List.lookup_eq_none_iff]
  intro b hb
  have hne : x ≠ b.1 := fun heq => h bs hbs b hb (heq ▸ hx)
  simpa using hne

theorem Context.Avoids.enter {Γ : Context} {unknown : String → Prop} (h : Γ.Avoids unknown)
    {bs : Bindings} (hbs : ∀ b ∈ bs, ¬ unknown b.1) : (Γ.enter bs).Avoids unknown :=
  List.forall_mem_cons.mpr ⟨hbs, h⟩

section
variable {Γ : Context} {unknown : String → Prop}

/-- A name leaves what it stands for, or is reported and leaves a placeholder. -/
theorem Name.Misspelt.performed {x x' : Name} {xs : List Name} {t : SymbolTable} {s : Symbol}
    {g : Generator} (h : x.Misspelt unknown x' xs) (hΓ : Γ.Avoids unknown)
    (hg : t.Mirrors Γ g.symbols) (hx : t.find? x.lexeme = some s) :
    ∃ s', Performs ⟨.pushIdentifier, x'.token⟩ g
        ((g.reports xs).withStack (.symbol s' :: g.stack)) ∧
      ((∃ y, s' = .placeholder y) ∨
        x' = x ∧ xs = [] ∧ g.symbols.find? x.lexeme = some s' ∧ s'.shape = s.shape) := by
  cases h with
  | keep =>
    obtain ⟨s', hx', hshape⟩ := hg.find? hx
    rw [Generator.reports_nil]
    exact ⟨s', performs_pushIdentifier hx', .inr ⟨rfl, rfl, hx', hshape⟩⟩
  | @replace y hy =>
    have hnone : g.symbols.find? y = none := by
      have hfind := hg.models'.find? y
      rwa [hΓ.find? hy, Option.map_eq_none_iff] at hfind
    refine ⟨.placeholder y, ?_, .inl ⟨y, rfl⟩⟩
    have hpush := performs_pushIdentifier_unknown (g := g) (t := (⟨y, x.line⟩ : Name).token) hnone
    simpa [Generator.report, Generator.reports, Generator.withStack, Name.token, Name.notDefined]
      using hpush

/-! ### Expressions -/

/-- What the steps of a misspelt expression leave beside what the right one becomes: code that is
    not longer, a value that passes for the right one, and a table with no more storage taken. -/
structure Tolerates (steps : List Step) (g : Generator) (xs : List Name) (is : List Instruction)
    (v : StackValue) (t : SymbolTable) (is' : List Instruction) (v' : StackValue)
    (t' : SymbolTable) : Prop where
  performed : Performed steps g ((g.reports xs).gives is' v' t')
  «extends» : g.symbols.Extends t'
  size : t'.frameSize ≤ t.frameSize
  length : is'.length ≤ is.length
  value : v'.PassesFor v

theorem StackValue.PassesFor.refl {v : StackValue} {s : Symbol} (h : v.operand? = some s) :
    v.PassesFor v := ⟨s, s, h, h, .of_shape rfl⟩

theorem StackValue.PassesFor.symbol {s s' : Symbol} (h : s'.PassesFor s) :
    (StackValue.symbol s').PassesFor (.symbol s) := ⟨s', s, rfl, rfl, h⟩

/-- The element of an array is reached through what passes for the array and for the index. -/
theorem Tolerates.index {x' : Name} {xs ys : List Name} {opening closing : Nat} {i' : Expr}
    {t₁ t₁' : SymbolTable} {a a' s : Symbol} {f : OpenFunction} {is is' : List Instruction}
    {v v' : StackValue} {g : Generator} (hslots : 3 ≤ g.layout.scratchSlots.toNat)
    (hname : Performs ⟨.pushIdentifier, x'.token⟩ g
      ((g.reports xs).withStack (.symbol a' :: g.stack)))
    (ha : a.IsArray) (ha' : (∃ y, a' = .placeholder y) ∨ a'.shape = a.shape)
    (hi : Tolerates i'.steps ((g.reports xs).withStack (.symbol a' :: g.stack)) ys is v t₁
      is' v' t₁')
    (hv : v.IsInt s) (ht : t₁.Mirrors Γ t₁') (hf : t₁.function = some f)
    (hroom : f.record.HasRoom 1) :
    ∃ is'' v'' t₂', Tolerates (Expr.index x' opening i' closing).steps g (xs ++ ys)
      (is ++ Fragment.index g.layout a s (f.temporary t₁.temporaries true))
      (.symbol (f.temporary t₁.temporaries true)) (t₁.withTemporary f) is'' v'' t₂' := by
  obtain ⟨s', hv', hpass⟩ := hi.value.isInt hv
  let read := (((g.reports xs).withStack (.symbol a' :: g.stack)).reports ys).gives is' v' t₁'
  rcases ha' with ⟨y, rfl⟩ | hshape
  · refine ⟨is', .symbol (.placeholder y), t₁', ?_, hi.extends, ?_, ?_, .symbol (.placeholder ..)⟩
    · refine .append (.append (.cons hname .nil) hi.performed) (.cons ?_ .nil)
      rw [← Generator.reports_reports]
      exact performs_indexArray_placeholder (g := read) rfl rfl hv'.1 rfl
    · rw [SymbolTable.frameSize_withTemporary hf]
      exact Nat.le_trans hi.size (Nat.le_add_right ..)
    · rw [List.length_append]
      exact Nat.le_trans hi.length (Nat.le_add_right ..)
  · obtain ⟨f', hf', hroom', hsize, htemporary⟩ := ht.temporary hf hroom
    have ha' := ha.of_shape hshape
    refine ⟨is' ++ Fragment.index g.layout a' s' (f'.temporary t₁'.temporaries true),
      .symbol (f'.temporary t₁'.temporaries true), t₁'.withTemporary f', ?_,
      hi.extends.trans (.withTemporary hf'), hsize, ?_, .symbol (.of_shape (htemporary ..))⟩
    · refine .append (.append (.cons hname .nil) hi.performed) (.cons ?_ .nil)
      have hindex := performs_indexArray (t := x'.token) (g := read) rfl rfl hv'.1 ha'.1 ha'.2.1
        ha'.2.2 hv'.2 hf' hroom' hslots
      rw [← Generator.reports_reports]
      simpa [read, Generator.gives, Generator.withStack, Generator.reports] using hindex
    · have hcode := Fragment.length_index_of_passes g.layout hshape hpass
        (htemporary t₁.temporaries t₁'.temporaries true) rfl
      have hlength := hi.length
      rw [List.length_append, List.length_append]
      omega

theorem Tolerates.binary {op : BinaryOp} {line : Nat} {e₁' e₂' : Expr} {xs ys : List Name}
    {t₁ t₂ t₁' t₂' : SymbolTable} {s₁ s₂ : Symbol} {f : OpenFunction}
    {is js is' js' : List Instruction} {v₁ v₂ v₁' v₂' : StackValue} {g : Generator}
    (hslots : 3 ≤ g.layout.scratchSlots.toNat)
    (h₁ : Tolerates e₁'.steps g xs is v₁ t₁ is' v₁' t₁') (hv₁ : v₁.IsInt s₁)
    (h₂ : Tolerates e₂'.steps
      (((g.reports xs).gives is' v₁' t₁').withStack (.operator op :: v₁' :: g.stack)) ys js v₂ t₂
      js' v₂' t₂')
    (hv₂ : v₂.IsInt s₂) (ht : t₂.Mirrors Γ t₂') (hf : t₂.function = some f)
    (hroom : f.record.HasRoom 1) :
    ∃ is'' v'' t₃', Tolerates (Expr.binary op line e₁' e₂').steps g (xs ++ ys)
      (is ++ js ++ Fragment.binary g.layout op s₁ s₂ (f.temporary t₂.temporaries false))
      (.symbol (f.temporary t₂.temporaries false)) (t₂.withTemporary f) is'' v'' t₃' := by
  obtain ⟨s₁', hv₁', hpass₁⟩ := h₁.value.isInt hv₁
  obtain ⟨s₂', hv₂', hpass₂⟩ := h₂.value.isInt hv₂
  obtain ⟨f', hf', hroom', hsize, htemporary⟩ := ht.temporary hf hroom
  have hop : BinaryOp.ofLexeme? (op.token line).lexeme = some op := by cases op <;> rfl
  let first := ((g.reports xs).gives is' v₁' t₁').withStack (.operator op :: v₁' :: g.stack)
  refine ⟨is' ++ js' ++ Fragment.binary g.layout op s₁' s₂' (f'.temporary t₂'.temporaries false),
    .symbol (f'.temporary t₂'.temporaries false), t₂'.withTemporary f', ?_,
    (h₁.extends.trans h₂.extends).trans (.withTemporary hf'), hsize, ?_,
    .symbol (.of_shape (htemporary ..))⟩
  · refine .append (.append (.append h₁.performed (.cons (performs_pushOperator hop) .nil))
      h₂.performed) (.cons ?_ .nil)
    have hcompute := performs_computeBinary (t := op.token line)
      (g := (first.reports ys).gives js' v₂' t₂') rfl hv₁'.1 hv₂'.1 hv₁'.2 hv₂'.2 hf' hroom' hslots
    rw [← Generator.reports_reports]
    simpa [first, Generator.gives, Generator.withStack, Generator.reports] using hcompute
  · have hcode := Fragment.length_binary_of_passes g.layout op hpass₁ hpass₂
      (.of_shape (htemporary t₂.temporaries t₂'.temporaries false))
    have hlength₁ := h₁.length
    have hlength₂ := h₂.length
    simp only [List.length_append]
    omega

theorem Tolerates.assign {line : Nat} {target' value' : Expr} {xs ys : List Name}
    {t₁ t₂ t₁' t₂' : SymbolTable} {s₁ s₂ : Symbol} {is js is' js' : List Instruction}
    {v₁ v₂ v₁' v₂' : StackValue} {g : Generator} (hslots : 3 ≤ g.layout.scratchSlots.toNat)
    (h₁ : Tolerates target'.steps g xs is v₁ t₁ is' v₁' t₁') (hv₁ : v₁.IsInt s₁)
    (h₂ : Tolerates value'.steps ((g.reports xs).gives is' v₁' t₁') ys js v₂ t₂ js' v₂' t₂')
    (hv₂ : v₂.IsInt s₂) :
    ∃ is'' v'', Tolerates (Expr.assign target' line value').steps g (xs ++ ys)
      (is ++ js ++ Fragment.assign g.layout s₁ s₂) (.symbol s₂) t₂ is'' v'' t₂' := by
  obtain ⟨s₁', hv₁', hpass₁⟩ := h₁.value.isInt hv₁
  obtain ⟨s₂', hv₂', hpass₂⟩ := h₂.value.isInt hv₂
  let first := (g.reports xs).gives is' v₁' t₁'
  refine ⟨is' ++ js' ++ Fragment.assign g.layout s₁' s₂', .symbol s₂', ?_,
    h₁.extends.trans h₂.extends, h₂.size, ?_, .symbol hpass₂⟩
  · refine .append (.append h₁.performed h₂.performed) (.cons ?_ .nil)
    have hassign := performs_assign (t := .symbolAt "=" line)
      (g := (first.reports ys).gives js' v₂' t₂') rfl hv₁'.1 hv₂'.1 hv₁'.2 hv₂'.2 hslots
    rw [← Generator.reports_reports]
    simpa [first, Generator.gives, Generator.withStack, Generator.reports] using hassign
  · have hcode := Fragment.length_assign_of_passes g.layout hpass₁ hpass₂
    have hlength₁ := h₁.length
    have hlength₂ := h₂.length
    simp only [List.length_append]
    omega

/-! ### Calls -/

/-- What the steps of misspelt arguments leave beside what the right ones become. -/
structure ToleratesArgs (steps : List Step) (g : Generator) (count : Nat) (counts : List Nat)
    (xs : List Name) (is : List Instruction) (values : List StackValue) (t : SymbolTable)
    (is' : List Instruction) (values' : List StackValue) (t' : SymbolTable) : Prop where
  performed : Performed steps g
    ((g.reports xs).passes is' values' ((count + values'.length) :: counts) t')
  «extends» : g.symbols.Extends t'
  size : t'.frameSize ≤ t.frameSize
  length : is'.length ≤ is.length
  values : List.Forall₂ StackValue.PassesFor values' values

/-- A call that is well stays so with a function of the same shape, and with arguments that pass for
    the right ones. -/
theorem Calls.passes {t t' : SymbolTable} {x : String} {target target' callee : Symbol}
    {values values' : List StackValue} {ss : List Symbol} (h : Calls t target values callee ss)
    (ht : t.Mirrors Γ t') (hx : t.find? x = some target) (hx' : t'.find? x = some target')
    (hshape : target'.shape = target.shape)
    (hvalues : List.Forall₂ StackValue.PassesFor values' values) :
    callee = target ∧ target'.name = target.name ∧
      ∃ ss', Calls t' target' values' target' ss' ∧ List.Forall₂ Symbol.PassesFor ss' ss := by
  obtain rfl := h.callee_eq ht.models hx
  obtain ⟨ss', hoperands, hpasses⟩ := StackValue.exists_operands hvalues h.operands
  have hcallable := h.callable.of_shape hshape
  obtain ⟨hmem', hname'⟩ := ht.models'.function_mem hx' hcallable.2
  refine ⟨rfl, hname'.trans (ht.models.function_mem hx h.callable.2).2.symm, ss',
    ⟨hcallable, hoperands, ht.models'.calleeOf hmem' hcallable.2, ?_⟩, hpasses⟩
  exact argumentMistake?_of_passes hshape hpasses h.matching

/-- A function is entered, with no more code and storage than on the other side, and leaves a value
    that passes for the one there. -/
def Enters (g : Generator) (target : Symbol) (args : List Symbol) (js : List Instruction)
    (s : Symbol) (t : SymbolTable) : Prop :=
  ∃ js' s' t' n, Does (if target.name = outputName then callOutput target args
      else callFunction target args) g 0 () (g.gives js' (.symbol s') t') n ∧
    g.symbols.Extends t' ∧ t'.frameSize ≤ t.frameSize ∧ js'.length ≤ js.length ∧ s'.PassesFor s

section
variable {g : Generator} {t : SymbolTable} {target target' : Symbol} {args args' : List Symbol}
  {f : OpenFunction}

theorem Enters.print (hslots : 3 ≤ g.layout.scratchSlots.toNat) (hg : t.Mirrors Γ g.symbols)
    (hargs : List.Forall₂ Symbol.PassesFor args' args) (hout : target'.name = outputName) :
    Enters g target' args' (Fragment.print g.layout args) (.voidResult target.name) t := by
  obtain ⟨n, hdo⟩ := does_callOutput (s := target') hslots
  exact ⟨_, _, _, n, Does.ite_pos hout hdo, .refl _, hg.size,
    Fragment.length_print_of_passes g.layout hargs, .of_shape rfl⟩

theorem Enters.callVoid (hslots : 3 ≤ g.layout.scratchSlots.toNat) (hg : t.Mirrors Γ g.symbols)
    (hargs : List.Forall₂ Symbol.PassesFor args' args) (hshape : target'.shape = target.shape)
    (hout : target'.name ≠ outputName) (hty : target.ty = .void) (pc : Nat) :
    Enters g target' args' (Fragment.call g.layout pc target args) (.voidResult target.name) t := by
  obtain ⟨n, hdo⟩ := does_callFunction_void hslots
    ((Symbol.ty_of_shape hshape).trans hty)
  exact ⟨_, _, _, n, Does.ite_neg hout hdo, .refl _, hg.size,
    Fragment.length_call_of_passes g.layout _ _ hshape hargs, .of_shape rfl⟩

theorem Enters.callValue (hslots : 3 ≤ g.layout.scratchSlots.toNat) (hg : t.Mirrors Γ g.symbols)
    (hargs : List.Forall₂ Symbol.PassesFor args' args) (hshape : target'.shape = target.shape)
    (hout : target'.name ≠ outputName) (hty : target.ty ≠ .void) (hf : t.function = some f)
    (hroom : f.record.HasRoom 1) (pc : Nat) :
    Enters g target' args' (Fragment.call g.layout pc target args
        ++ Fragment.fetch g.layout (f.temporary t.temporaries false))
      (f.temporary t.temporaries false) (t.withTemporary f) := by
  obtain ⟨f', hf', hroom', hsize, htemporary⟩ := hg.temporary hf hroom
  obtain ⟨n, hdo⟩ := does_callFunction_value hslots
    (by rw [Symbol.ty_of_shape hshape]; exact hty) hf' hroom'
  refine ⟨_, _, _, n, Does.ite_neg hout hdo, .withTemporary hf', hsize, ?_,
    .of_shape (htemporary ..)⟩
  rw [List.length_append, List.length_append]
  exact Nat.add_le_add (Fragment.length_call_of_passes g.layout _ _ hshape hargs)
    (Fragment.length_fetch_of_passes g.layout (.of_shape (htemporary ..)))

end

/-- A call leaves a placeholder and no code of its own if its function is misspelt; otherwise the
    function is entered. -/
theorem Tolerates.call {l : Layout} {x x' : Name} {opening pc : Nat} {args args' : Args}
    {xs ys : List Name} {t t₁ t₂ : SymbolTable} {target callee s : Symbol} {is js : List Instruction}
    {values : List StackValue} {ss : List Symbol} {g : Generator} (hΓ : Γ.Avoids unknown)
    (hname : x.Misspelt unknown x' xs) (hg : t.Mirrors Γ g.symbols)
    (hx : t.find? x.lexeme = some target) (hvalues : args.Translates l pc t is values t₁)
    (hcalls : Calls t₁ target values callee ss) (hsize : t₁.frameSize ≤ t₂.frameSize)
    (hargs : ∀ g' : Generator, g'.layout = g.layout → g'.symbols = g.symbols →
      g'.argCounts = 0 :: g.argCounts → ∃ is' values' t₁',
        ToleratesArgs args'.steps g' 0 g.argCounts ys is values t₁ is' values' t₁')
    (henter : ∀ (g' : Generator) (target' : Symbol) (ss' : List Symbol), g'.layout = g.layout →
      t₁.Mirrors Γ g'.symbols → List.Forall₂ Symbol.PassesFor ss' ss →
      target'.shape = callee.shape → target'.name = callee.name → Enters g' target' ss' js s t₂) :
    ∃ is' v' t₂', Tolerates (Expr.call x' opening args').steps g (xs ++ ys) (is ++ js) (.symbol s)
      t₂ is' v' t₂' := by
  obtain ⟨target', hpush, hkind⟩ := hname.performed hΓ hg hx
  obtain ⟨is', values', t₁', hrec⟩ := hargs ((g.reports xs).calling target') rfl rfl rfl
  have ht₁ : t₁.Mirrors Γ t₁' := hg.extends hvalues.extends hrec.extends hrec.size
  rcases hkind with ⟨y, rfl⟩ | ⟨rfl, rfl, hx', hshape⟩
  · obtain ⟨ss', hoperands, -⟩ := StackValue.exists_operands hrec.values hcalls.operands
    refine ⟨is', .symbol (.placeholder y), t₁', ?_, hrec.extends, Nat.le_trans hrec.size hsize, ?_,
      .symbol (.placeholder ..)⟩
    · have hpass : Performed args'.steps _
          ((((g.reports xs).reports ys).calling (.placeholder y)).passes is' values'
            ((0 + values'.length) :: g.argCounts) t₁') := hrec.performed
      rw [← Generator.reports_reports]
      exact performed_call opening hpush hpass hoperands (does_callWith_placeholder (n := 0) rfl)
    · rw [List.length_append]
      exact Nat.le_trans hrec.length (Nat.le_add_right ..)
  · rw [Generator.reports_nil] at hrec
    obtain ⟨rfl, hsame, ss', hcalls', hpasses⟩ := hcalls.passes ht₁
      ((hvalues.extends.find? _).trans hx) ((hrec.extends.find? _).trans hx') hshape
      hrec.values
    obtain ⟨js', s', t₂', n, hdo, hext, hsize', hlength, hpass⟩ :=
      henter ((g.reports ys).called is' t₁') target' ss' rfl ht₁ hpasses hshape hsame
    have hargs' : Performed args'.steps _ (((g.reports ys).calling target').passes is' values'
        ((0 + values'.length) :: g.argCounts) t₁') := hrec.performed
    refine ⟨is' ++ js', .symbol s', t₂', hcalls'.performed opening hx' hargs' (hdo.congr ?_),
      hrec.extends.trans hext, hsize', ?_, .symbol hpass⟩
    · simp [Generator.gives, Generator.called]
    · rw [List.length_append, List.length_append]
      exact Nat.add_le_add hrec.length hlength

/-! ### All expressions -/

mutual

/-- A misspelt expression is tolerated: each of its new names is reported, and nothing else. -/
theorem Expr.Misspelt.tolerates {l : Layout} (hslots : 3 ≤ l.scratchSlots.toNat)
    (hΓ : Γ.Avoids unknown) :
    ∀ {e e' : Expr} {xs : List Name} {pc : Nat} {t t₁ : SymbolTable} {is : List Instruction}
      {v : StackValue} {g : Generator}, e.Misspelt unknown e' xs → e.Translates l pc t is v t₁ →
      g.layout = l → t.Mirrors Γ g.symbols →
        ∃ is' v' t₁', Tolerates e'.steps g xs is v t₁ is' v' t₁'
  | _, _, _, _, _, _, _, _, g, .num _, h, hl, hg => by
    cases h with
    | num hn =>
      refine ⟨[], _, _, ?_, .refl _, hg.size, Nat.le_refl _, .refl rfl⟩
      rw [Generator.reports_nil]
      exact .cons (performs_pushNumber hn) .nil
  | _, _, _, _, _, _, _, _, g, .name hx, h, hl, hg => by
    cases h with
    | name hfind =>
      obtain ⟨s', hpush, hkind⟩ := hx.performed hΓ hg hfind
      refine ⟨[], .symbol s', _, .cons hpush .nil, .refl _, hg.size, Nat.le_refl _, .symbol ?_⟩
      exact hkind.imp_right fun hkept => hkept.2.2.2
  | _, _, _, _, _, _, _, _, g, .index hx hi, h, hl, hg => by
    subst hl
    cases h with
    | index hfind ha hindex hv hf hroom =>
      obtain ⟨a', hpush, hkind⟩ := hx.performed hΓ hg hfind
      obtain ⟨is', v', t₁', hrec⟩ := Expr.Misspelt.tolerates hslots hΓ hi hindex
        (g := (g.reports _).withStack (.symbol a' :: g.stack)) rfl hg
      exact Tolerates.index hslots hpush ha (hkind.imp_right fun hkept => hkept.2.2.2) hrec hv
        (hg.extends hindex.extends hrec.extends hrec.size) hf hroom
  | _, _, _, _, _, _, _, _, g, .call hx hargs, h, hl, hg => by
    subst hl
    cases h with
    | print hfind hvalues hcalls hout =>
      refine Tolerates.call hΓ hx hg hfind hvalues hcalls (Nat.le_refl _)
        (fun g' hl' hs' => Args.Misspelt.tolerates hslots hΓ hargs hvalues hl' (hs' ▸ hg))
        fun g' target' ss' hl' hg' hpasses hshape hname => ?_
      rw [← hl'] at hslots ⊢
      exact .print hslots hg' hpasses (hname.trans hout)
    | callVoid hfind hvalues hcalls hout hty =>
      refine Tolerates.call hΓ hx hg hfind hvalues hcalls (Nat.le_refl _)
        (fun g' hl' hs' => Args.Misspelt.tolerates hslots hΓ hargs hvalues hl' (hs' ▸ hg))
        fun g' target' ss' hl' hg' hpasses hshape hname => ?_
      rw [← hl'] at hslots ⊢
      exact .callVoid hslots hg' hpasses hshape (hname ▸ hout) hty _
    | callValue hfind hvalues hcalls hout hty hf hroom =>
      refine Tolerates.call hΓ hx hg hfind hvalues hcalls ?_
        (fun g' hl' hs' => Args.Misspelt.tolerates hslots hΓ hargs hvalues hl' (hs' ▸ hg))
        fun g' target' ss' hl' hg' hpasses hshape hname => ?_
      · rw [SymbolTable.frameSize_withTemporary hf]
        exact Nat.le_add_right ..
      · rw [← hl'] at hslots ⊢
        exact .callValue hslots hg' hpasses hshape (hname ▸ hout) hty hf hroom _
  | _, _, _, _, _, _, _, _, g, .paren he, h, hl, hg => by
    cases h with
    | paren h =>
      obtain ⟨is', v', t₁', hrec⟩ := Expr.Misspelt.tolerates hslots hΓ he h hl hg
      exact ⟨is', v', t₁', hrec⟩
  | _, _, _, _, _, _, _, _, g, .binary h₁ h₂, h, hl, hg => by
    subst hl
    cases h with
    | binary hl₁ hv₁ hr hv₂ hf hroom =>
      obtain ⟨is', v₁', t₁', hrec₁⟩ := Expr.Misspelt.tolerates hslots hΓ h₁ hl₁ rfl hg
      have hg₁ := hg.extends hl₁.extends hrec₁.extends hrec₁.size
      obtain ⟨js', v₂', t₂', hrec₂⟩ := Expr.Misspelt.tolerates hslots hΓ h₂ hr
        (g := ((g.reports _).gives is' v₁' t₁').withStack (.operator _ :: v₁' :: g.stack)) rfl hg₁
      exact Tolerates.binary hslots hrec₁ hv₁ hrec₂ hv₂
        (hg₁.extends hr.extends hrec₂.extends hrec₂.size) hf hroom
  | _, _, _, _, _, _, _, _, g, .assign h₁ h₂, h, hl, hg => by
    subst hl
    cases h with
    | assign htarget hv₁ hvalue hv₂ =>
      obtain ⟨is', v₁', t₁', hrec₁⟩ := Expr.Misspelt.tolerates hslots hΓ h₁ htarget rfl hg
      obtain ⟨js', v₂', t₂', hrec₂⟩ := Expr.Misspelt.tolerates hslots hΓ h₂ hvalue
        (g := (g.reports _).gives is' v₁' t₁') rfl
        (hg.extends htarget.extends hrec₁.extends hrec₁.size)
      obtain ⟨is'', v'', hrec⟩ := Tolerates.assign hslots hrec₁ hv₁ hrec₂ hv₂
      exact ⟨is'', v'', t₂', hrec⟩

/-- Misspelt arguments are tolerated. -/
theorem Args.Misspelt.tolerates {l : Layout} (hslots : 3 ≤ l.scratchSlots.toNat)
    (hΓ : Γ.Avoids unknown) :
    ∀ {args args' : Args} {xs : List Name} {pc : Nat} {t t₁ : SymbolTable}
      {is : List Instruction} {values : List StackValue} {g : Generator} {count : Nat}
      {counts : List Nat}, args.Misspelt unknown args' xs → args.Translates l pc t is values t₁ →
      g.layout = l → t.Mirrors Γ g.symbols → g.argCounts = count :: counts →
        ∃ is' values' t₁', ToleratesArgs args'.steps g count counts xs is values t₁ is' values' t₁'
  | _, _, _, _, _, _, _, _, g, count, counts, .none _, h, hl, hg, hcount => by
    cases h with
    | none =>
      refine ⟨[], [], g.symbols, ?_, .refl _, hg.size, Nat.le_refl _, .nil⟩
      have hsame : g.passes [] [] ((count + 0) :: counts) g.symbols = g := by
        simp [Generator.passes, ← hcount]
      rw [Generator.reports_nil, List.length_nil, hsame]
      exact .nil
  | _, _, _, _, _, _, _, _, g, count, counts, .last he, h, hl, hg, hcount => by
    cases h with
    | last h =>
      obtain ⟨is', v', t₁', hrec⟩ := Expr.Misspelt.tolerates hslots hΓ he h hl hg
      refine ⟨is', [v'], t₁', ?_, hrec.extends, hrec.size, hrec.length, .cons hrec.value .nil⟩
      exact .append hrec.performed (.cons (performs_incrementArgCount
        (g := (g.reports _).gives is' v' t₁') hcount) .nil)
  | _, _, _, _, _, _, _, _, g, count, counts, @Args.Misspelt.more _ _ _ xs _ _ _ _ he hrest, h, hl,
      hg, hcount => by
    cases h with
    | more h hmore =>
      obtain ⟨is', v', t₁', hrec₁⟩ := Expr.Misspelt.tolerates hslots hΓ he h hl hg
      have hg₁ := hg.extends h.extends hrec₁.extends hrec₁.size
      let first : Generator :=
        { (g.reports xs).gives is' v' t₁' with argCounts := (count + 1) :: counts }
      obtain ⟨js', values', t₂', hrec₂⟩ := Args.Misspelt.tolerates hslots hΓ hrest hmore
        (g := first) hl hg₁ rfl
      refine ⟨is' ++ js', v' :: values', t₂', ?_, hrec₁.extends.trans hrec₂.extends, hrec₂.size, ?_,
        .cons hrec₁.value hrec₂.values⟩
      · refine .append (.append hrec₁.performed (.cons (performs_incrementArgCount
          (g := (g.reports xs).gives is' v' t₁') hcount) .nil)) ?_
        have hcounts : count + 1 + values'.length = count + (v' :: values').length := by
          rw [List.length_cons]
          omega
        have hpass := hrec₂.performed
        rw [hcounts] at hpass
        rw [← Generator.reports_reports]
        simpa [first, Generator.passes, Generator.gives, Generator.reports] using hpass
      · rw [List.length_append, List.length_append]
        exact Nat.add_le_add hrec₁.length hrec₂.length

end

end

end OnePass
