import OnePass.Proofs.Storage.Operands

/-!
# How code is put together

The code of a function is woven from fragments, branches and loops. If the symbols of the tables are
located in the area of the function at hand, every fragment uses only what can be used there; the
size of the record bounds what comes at the end, since a record only grows. What holds of all
fragments, and of branches and loops of what it holds of, so holds of the code of every phrase. -/

namespace OnePass

open Planned (plain settle)

variable {A : Area} {fns : List (FnDecl × Frame)}

/-! ### Calls of a text -/

mutual

/-- The calls in an expression, in the order in which they are made, but for those that print. -/
def Expr.calls : Expr → List (Name × Args)
  | .num _ | .name _ => []
  | .index _ _ i _ => i.calls
  | .call x _ args => args.calls ++ if x.lexeme = outputName then [] else [(x, args)]
  | .paren _ e _ => e.calls
  | .binary _ _ e₁ e₂ => e₁.calls ++ e₂.calls
  | .assign target _ value => target.calls ++ value.calls

/-- The calls in some arguments. -/
def Args.calls : Args → List (Name × Args)
  | .none _ => []
  | .last e _ => e.calls
  | .more e _ rest => e.calls ++ rest.calls

end

mutual

/-- The calls in a statement, in the order of the code. -/
def Stmt.calls : Stmt → List (Name × Args)
  | .empty _ | .leave _ _ | .return _ _ => []
  | .expr e _ | .returnValue _ e _ => e.calls
  | .block _ _ body _ => Stmt.listCalls body
  | .ifThen _ _ cond _ body => cond.calls ++ body.calls
  | .ifElse _ _ cond _ body _ other => cond.calls ++ body.calls ++ other.calls
  | .loop _ body _ _ cond _ => body.calls ++ cond.calls

/-- The calls in some statements. -/
def Stmt.listCalls : List Stmt → List (Name × Args)
  | [] => []
  | s :: ss => s.calls ++ Stmt.listCalls ss

end

/-! ### Symbols of a table -/

/-- An integer that a table holds has a cell. -/
theorem Symbol.Located.place {s : Symbol} (hs : s.Located A) (hint : s.isInt) :
    s.isFunction = false ∧ s.ty.isScalar ∧ s.isConstant = false := by
  have hreal : s.isPlaceholder = false := by
    cases hs with
    | function _ h => exact h
    | global | array | cell => rfl
  simp only [Symbol.isInt, hreal, Bool.false_or, Bool.and_eq_true, Bool.not_eq_true'] at hint
  refine ⟨hint.1, hint.2, ?_⟩
  cases hs with
  | function h =>
    rw [hint.1] at h
    cases h
  | global | array | cell => rfl

theorem OpenFunction.located_temporary {f : OpenFunction} (hlo : Record.header ≤ f.record.size)
    (hhi : f.record.size + Word.size ≤ A.size) (count : Nat) (indexed : Bool) :
    (f.temporary count indexed).Located A := by
  refine .cell ?_ ?_ hlo hhi
  all_goals cases indexed <;> decide

theorem OpenFunction.temporary_place {l : Layout} {n : Nat} (f : OpenFunction) (count : Nat)
    (indexed : Bool) (w : Word) :
    (Use.value l n (f.temporary count indexed)).operand ≠ .immediate w :=
  Use.value_ne_immediate rfl (by cases indexed <;> rfl) rfl w

namespace SymbolTable

/-- All that a table holds is within an area, and the record of the open function has a header. -/
structure Inside (t : SymbolTable) (A : Area) : Prop where
  holds : t.Holds (Symbol.Located A) (Symbol.Located A)
  header : Record.header ≤ t.recordSize

variable {t t' : SymbolTable}

namespace Inside

theorem of_extends (h : t.Inside A) (ht : t.Extends t') : t'.Inside A :=
  ⟨h.holds.of_extends ht, Nat.le_trans h.header ht.recordSize_le⟩

theorem find? (h : t.Inside A) {x : String} {s : Symbol} (hfind : t.find? x = some s) :
    s.Located A := by
  rcases h.holds.of_find? hfind with hs | hs
  · exact hs
  · exact hs

/-- The next temporary is within the area, if it fits. -/
theorem temporary (h : t.Inside A) {f : OpenFunction} (hf : t.function = some f)
    (hsize : (t.withTemporary f).recordSize ≤ A.size) :
    Record.header ≤ f.record.size ∧ f.record.size + Word.size ≤ A.size := by
  have hheader := h.header
  rw [recordSize_withTemporary hf] at hsize
  rw [recordSize, hf] at hheader hsize
  exact ⟨hheader, hsize⟩

end Inside

end SymbolTable

/-- Variables in a function are within the area, if their places are. -/
theorem Chain.inside {ds : List VarDecl} {t t' : SymbolTable} (h : Chain VarDecl.Declares ds t t')
    (hf : t.function.isSome) (ht : t.Inside A)
    (hplaces : ∀ x ∈ VarDecl.layOut t.recordSize ds, x ∈ A.locals)
    (hsize : t'.recordSize ≤ A.size) : t'.Inside A := by
  induction h with
  | nil => exact ht
  | cons hd hrest ih =>
    rename_i d ds t t₁ t'
    obtain ⟨-, hstores⟩ := VarDecl.declares_iff.mp hd
    have hf₁ := hstores.isSome hf
    have hgrown := SymbolTable.recordSize_stores hstores hf
    have hrest_size := hrest.recordSize_eq hf₁
    refine ih hf₁ ⟨ht.holds.stores hstores ?_ ?_, ?_⟩ ?_ hsize
    · intro f hf
      have hrecord : t.recordSize = f.record.size := by rw [SymbolTable.recordSize, hf]; rfl
      have hheader := ht.header
      rw [hrecord] at hheader hgrown hplaces
      rcases d.ty_cases with hd | hd
      · have hwords : d.words = 1 := by
          rw [VarDecl.ty] at hd
          rw [VarDecl.words]
          split at hd
          · rfl
          · cases hd
        rw [hd]
        rw [hwords] at hgrown
        exact .cell (by decide) (by decide) hheader (by omega)
      · rw [hd]
        exact .array (hplaces _ (List.mem_cons_self ..)) hd
    · intro hnone
      rw [hnone] at hf
      cases hf
    · have := ht.header
      omega
    · rw [hgrown]
      exact fun x hx => hplaces x (List.mem_cons_of_mem _ hx)

/-! ### Weaving -/

/-- A call of a text at a position behind the code of its arguments: what its name stands for, what
    is called, and the operands that its arguments have left. -/
structure Invoked (A : Area) (fns : List (FnDecl × Frame)) (pc : Nat) (x : Name) (args : Args)
    (callee : Symbol) (ss : List Symbol) : Prop where
  arguments : ∃ start t is values t₁ target, args.Translates A.layout start t is values t₁ ∧
    pc = start + is.length ∧ t₁.Linked fns ∧ t₁.find? x.lexeme = some target ∧
      Calls t₁ target values callee ss
  usable : ∀ s ∈ ss, s.Usable A

/-- What is called is one of the functions, if it does not print. -/
theorem Invoked.callee {pc : Nat} {x : Name} {args : Args} {callee : Symbol} {ss : List Symbol}
    (h : Invoked A fns pc x args callee ss) (hname : callee.name ≠ outputName) :
    ∃ f frame, (f, frame) ∈ fns ∧ callee = SymbolTable.headSymbol f.name.lexeme f.type.base.ty
      frame.entry f.params.toList := by
  obtain ⟨_, _, _, _, _, _, -, -, hlinked, hfind, hcalls⟩ := h.arguments
  exact hlinked.callee hfind hcalls hname

/-- The code of a condition and the jump that depends on it. -/
def Fragment.test (l : Layout) (is : List Instruction) (s : Symbol) (target : Nat) :
    List Instruction :=
  is ++ (Use.value l 0 s).code ++ [.jumpIfFalse (Use.value l 0 s).operand target]

theorem Fragment.length_test {l : Layout} {is : List Instruction} {s : Symbol} {target : Nat} :
    (Fragment.test l is s target).length = (is ++ (Use.value l 0 s).code).length + 1 :=
  List.length_append

/-- Code at a position that is woven for an area from fragments and from calls of some functions,
    with the calls of the text that it comes from. -/
inductive Woven (A : Area) (fns : List (FnDecl × Frame)) :
    Nat → List Planned → List (Name × Args) → Prop
  | nil {pc} : Woven A fns pc [] []
  | append {pc ps qs cs ds} : Woven A fns pc ps cs → Woven A fns (pc + ps.length) qs ds →
      Woven A fns pc (ps ++ qs) (cs ++ ds)
  | index {pc a i e} : a.Usable A → i.Usable A → e.Located A → e.isFunction = false →
      e.ty ≠ .arrayInt → Woven A fns pc (plain (Fragment.index A.layout a i e)) []
  | print {pc x args callee ss} : Invoked A fns pc x args callee ss → callee.name = outputName →
      Woven A fns pc (plain (Fragment.print A.layout ss))
        (if x.lexeme = outputName then [] else [(x, args)])
  | call {pc x args callee ss} : Invoked A fns pc x args callee ss → callee.name ≠ outputName →
      callee.ty = .void → Woven A fns pc (plain (Fragment.call A.layout pc callee ss))
        (if x.lexeme = outputName then [] else [(x, args)])
  | callValue {pc x args callee ss name offset} : Invoked A fns pc x args callee ss →
      callee.name ≠ outputName → callee.ty ≠ .void → Record.header ≤ offset →
      offset + Word.size ≤ A.size →
      Woven A fns pc (plain (Fragment.call A.layout pc callee ss
        ++ Fragment.fetch A.layout (.cell name .int offset false)))
        (if x.lexeme = outputName then [] else [(x, args)])
  | binary {pc op a b c} : a.Usable A → b.Usable A → c.Usable A →
      (∀ n w, (Use.value A.layout n c).operand ≠ .immediate w) →
      Woven A fns pc (plain (Fragment.binary A.layout op a b c)) []
  | assign {pc a b} : a.Usable A → b.Usable A →
      (∀ n w, (Use.value A.layout n a).operand ≠ .immediate w) →
      Woven A fns pc (plain (Fragment.assign A.layout a b)) []
  | storeReturn {pc s} : s.Usable A → Woven A fns pc (plain (Fragment.storeReturn A.layout s)) []
  | hole {pc kind} : kind.slot = none → Woven A fns pc [kind] []
  | ifThen {pc is s n ps cs ds} : Woven A fns pc (plain is) cs → s.Usable A →
      n = (is ++ (Use.value A.layout 0 s).code).length → Woven A fns (pc + n + 1) ps ds →
      Woven A fns pc (plain (Fragment.test A.layout is s (pc + n + 1 + ps.length)) ++ ps) (cs ++ ds)
  | ifElse {pc is s n ps qs cs ds es} : Woven A fns pc (plain is) cs → s.Usable A →
      n = (is ++ (Use.value A.layout 0 s).code).length → Woven A fns (pc + n + 1) ps ds →
      Woven A fns (pc + n + 1 + ps.length + 1) qs es →
      Woven A fns pc (plain (Fragment.test A.layout is s (pc + n + 1 + ps.length + 1)) ++ ps
        ++ plain [.jump (pc + n + 1 + ps.length + 1 + qs.length)] ++ qs) (cs ++ ds ++ es)
  | loop {pc is s n ps cs ds} : Woven A fns pc ps cs → Woven A fns (pc + ps.length) (plain is) ds →
      s.Usable A → n = (is ++ (Use.value A.layout 0 s).code).length →
      Woven A fns pc ((ps ++ plain (Fragment.test A.layout is s pc)).map
        (settle .leave (.jump (pc + ps.length + n + 1)))) (cs ++ ds)

namespace Woven

variable {pc : Nat} {is js : List Instruction} {cs ds : List (Name × Args)}

theorem next (h : Woven A fns pc (plain is) cs) (h' : Woven A fns (pc + is.length) (plain js) ds) :
    Woven A fns pc (plain (is ++ js)) (cs ++ ds) := by
  rw [Planned.plain_append]
  refine h.append ?_
  rwa [Planned.length_plain]

/-- A fragment that calls nothing comes behind. -/
theorem behind (h : Woven A fns pc (plain is) cs)
    (h' : Woven A fns (pc + is.length) (plain js) []) : Woven A fns pc (plain (is ++ js)) cs := by
  rw [← List.append_nil cs]
  exact h.next h'

end Woven

/-! ### Phrases -/

/-- A call that is well in a table is one of the text. -/
theorem Calls.invoked {args : Args} {pc : Nat} {t t₁ : SymbolTable} {is : List Instruction}
    {values : List StackValue} {x : Name} {target callee : Symbol} {ss : List Symbol}
    (h : Calls t₁ target values callee ss) (hargs : args.Translates A.layout pc t is values t₁)
    (hlinked : t.Linked fns) (hfind : t.find? x.lexeme = some target)
    (hvalues : ∀ v ∈ values, ∀ s, v.operand? = some s → s.Usable A) :
    Invoked A fns (pc + is.length) x args callee ss := by
  refine ⟨⟨pc, t, is, values, t₁, target, hargs, rfl, hlinked.of_extends hargs.extends,
    (hargs.extends.find? _).trans hfind, h⟩, fun s hs => ?_⟩
  have hmem : some s ∈ ss.map some := List.mem_map_of_mem hs
  rw [← h.operands] at hmem
  obtain ⟨v, hv, hoperand⟩ := List.mem_map.mp hmem
  exact hvalues v hv s hoperand

theorem Expr.Translates.place {l : Layout} {target : Expr} {pc : Nat} {t t' : SymbolTable}
    {is : List Instruction} {v : StackValue} {s : Symbol} (h : target.Translates l pc t is v t')
    (hplace : target.isPlace) (ht : t.Inside A) (hint : v.IsInt s) (n : Nat) (w : Word) :
    (Use.value l n s).operand ≠ .immediate w := by
  cases h with
  | name hfind =>
    obtain rfl := Option.some.inj hint.1
    obtain ⟨hfn, hty, hconstant⟩ := (ht.find? hfind).place hint.2
    exact Use.value_ne_immediate hfn hty hconstant w
  | index =>
    obtain rfl := Option.some.inj hint.1
    exact OpenFunction.temporary_place _ _ _ w
  | num | print | callVoid | callValue | paren | binary | assign => cases hplace

mutual

/-- The code of an expression is woven, and what it gives can be used. -/
theorem Expr.Translates.woven {e : Expr} {pc : Nat} {t t' : SymbolTable} {is : List Instruction}
    {v : StackValue} : e.Translates A.layout pc t is v t' → e.Grammatical → t.Linked fns →
      t.Inside A → t'.recordSize ≤ A.size →
        Woven A fns pc (plain is) e.calls ∧ ∀ s, v.operand? = some s → s.Usable A
  | .num _, _, _, _, _ => by
    refine ⟨.nil, ?_⟩
    rintro _ ⟨⟩
    exact .constant _
  | .name hfind, _, _, ht, _ => by
    refine ⟨.nil, ?_⟩
    rintro _ ⟨⟩
    exact .located (ht.find? hfind)
  | .index hfind _ hi hint hf _, hg, hlinked, ht, hsize => by
    have hext := SymbolTable.Extends.withTemporary hf
    obtain ⟨hlo, hhi⟩ := (ht.of_extends hi.extends).temporary hf hsize
    have helement := OpenFunction.located_temporary hlo hhi
    obtain ⟨hcode, hvalue⟩ := hi.woven hg hlinked ht (Nat.le_trans hext.recordSize_le hsize)
    refine ⟨hcode.behind (.index (.located (ht.find? hfind)) (hvalue _ hint.1) (helement _ _) rfl
      nofun), ?_⟩
    rintro _ ⟨⟩
    exact .located (helement _ _)
  | .print hfind hargs hcalls hname, hg, hlinked, ht, hsize => by
    obtain ⟨hcode, hvalues⟩ := hargs.woven hg hlinked ht hsize
    refine ⟨hcode.next (.print (hcalls.invoked hargs hlinked hfind hvalues) hname), ?_⟩
    rintro _ ⟨⟩
    exact .voidResult _
  | .callVoid hfind hargs hcalls hname hty, hg, hlinked, ht, hsize => by
    obtain ⟨hcode, hvalues⟩ := hargs.woven hg hlinked ht hsize
    refine ⟨hcode.next (.call (hcalls.invoked hargs hlinked hfind hvalues) hname hty), ?_⟩
    rintro _ ⟨⟩
    exact .voidResult _
  | .callValue hfind hargs hcalls hname hty hf _, hg, hlinked, ht, hsize => by
    have hext := SymbolTable.Extends.withTemporary hf
    obtain ⟨hlo, hhi⟩ := (ht.of_extends hargs.extends).temporary hf hsize
    obtain ⟨hcode, hvalues⟩ := hargs.woven hg hlinked ht (Nat.le_trans hext.recordSize_le hsize)
    refine ⟨hcode.next (.callValue (hcalls.invoked hargs hlinked hfind hvalues) hname hty hlo hhi),
      ?_⟩
    rintro _ ⟨⟩
    exact .located (OpenFunction.located_temporary hlo hhi _ _)
  | .paren he, hg, hlinked, ht, hsize => he.woven hg hlinked ht hsize
  | .binary h₁ hint₁ h₂ hint₂ hf _, hg, hlinked, ht, hsize => by
    have hext := SymbolTable.Extends.withTemporary hf
    have ht₁ := ht.of_extends h₁.extends
    have hsize₂ := Nat.le_trans hext.recordSize_le hsize
    obtain ⟨hlo, hhi⟩ := (ht₁.of_extends h₂.extends).temporary hf hsize
    have hresult := fun count => OpenFunction.located_temporary hlo hhi count false
    obtain ⟨hcode₁, hvalue₁⟩ := h₁.woven hg.1.2 hlinked ht
      (Nat.le_trans h₂.extends.recordSize_le hsize₂)
    obtain ⟨hcode₂, hvalue₂⟩ := h₂.woven hg.2.2 (hlinked.of_extends h₁.extends) ht₁ hsize₂
    refine ⟨(hcode₁.next hcode₂).behind (.binary (hvalue₁ _ hint₁.1) (hvalue₂ _ hint₂.1)
      (.located (hresult _)) fun n => OpenFunction.temporary_place _ _ _), ?_⟩
    rintro _ ⟨⟩
    exact .located (hresult _)
  | .assign h₁ hint₁ h₂ hint₂, hg, hlinked, ht, hsize => by
    obtain ⟨hcode₁, hvalue₁⟩ := h₁.woven hg.1.2 hlinked ht
      (Nat.le_trans h₂.extends.recordSize_le hsize)
    obtain ⟨hcode₂, hvalue₂⟩ := h₂.woven hg.2 (hlinked.of_extends h₁.extends)
      (ht.of_extends h₁.extends) hsize
    refine ⟨(hcode₁.next hcode₂).behind (.assign (hvalue₁ _ hint₁.1) (hvalue₂ _ hint₂.1)
      fun n w => h₁.place hg.1.1 ht hint₁ n w), ?_⟩
    rintro _ ⟨⟩
    exact hvalue₂ _ hint₂.1

theorem Args.Translates.woven {args : Args} {pc : Nat} {t t' : SymbolTable}
    {is : List Instruction} {values : List StackValue} :
    args.Translates A.layout pc t is values t' → args.Grammatical → t.Linked fns → t.Inside A →
      t'.recordSize ≤ A.size → Woven A fns pc (plain is) args.calls ∧
        ∀ v ∈ values, ∀ s, v.operand? = some s → s.Usable A
  | .none, _, _, _, _ => ⟨.nil, List.forall_mem_nil _⟩
  | .last he, hg, hlinked, ht, hsize => by
    obtain ⟨hcode, hvalue⟩ := he.woven hg hlinked ht hsize
    exact ⟨hcode, List.forall_mem_singleton.mpr hvalue⟩
  | .more he hrest, hg, hlinked, ht, hsize => by
    obtain ⟨hcode₁, hvalue₁⟩ := he.woven hg.1 hlinked ht
      (Nat.le_trans hrest.extends.recordSize_le hsize)
    obtain ⟨hcode₂, hvalues₂⟩ := hrest.woven hg.2.2 (hlinked.of_extends he.extends)
      (ht.of_extends he.extends) hsize
    exact ⟨hcode₁.next hcode₂, List.forall_mem_cons.mpr ⟨hvalue₁, hvalues₂⟩⟩

end

variable {valued : String → Bool}

mutual

/-- The code of a statement is woven. -/
theorem Stmt.Translates.woven {s : Stmt} {inLoop : Bool} {pc : Nat} {t t' : SymbolTable}
    {ps : List Planned} : s.Translates A.layout inLoop pc t ps t' → s.Grammatical →
      t.Linked fns → t.Values valued → t.Inside A →
        (∀ x ∈ s.places valued t.recordSize, x ∈ A.locals) → t'.recordSize ≤ A.size →
          Woven A fns pc ps s.calls
  | .empty, _, _, _, _, _, _ => .nil
  | .expr he, hg, hlinked, _, ht, _, hsize => (he.woven hg hlinked ht hsize).1
  | .block hf hlocals hbody hf₂ _, hg, hlinked, hv, ht, hplaces, hsize => by
    have hopen := SymbolTable.recordSize_withBlocks hf
    have hgrown := hlocals.recordSize_eq rfl
    rw [hopen] at hgrown
    rw [SymbolTable.recordSize_withBlocks hf₂] at hsize
    have hlist := fun x hx => hplaces x (List.mem_append.mpr hx)
    have ht₁ := hlocals.inside (A := A) rfl ⟨ht.holds.openBlock hf, by rw [hopen]; exact ht.header⟩
      (by rw [hopen]; exact fun x hx => hlist x (.inl hx))
      (Nat.le_trans hbody.extends.recordSize_le hsize)
    refine hbody.woven hg (hlocals.linked (hlinked.openBlock hf))
      (hlocals.values rfl (hv.openBlock hf)) ht₁ ?_ hsize
    rw [hgrown]
    exact fun x hx => hlist x (.inr hx)
  | .leave, _, _, _, _, _, _ => .hole rfl
  | .ifThen (.intro hcond hint) hbody, hg, hlinked, hv, ht, hplaces, hsize => by
    obtain ⟨htest, hvalue⟩ := hcond.woven hg.1 hlinked ht
      (Nat.le_trans hbody.extends.recordSize_le hsize)
    refine .ifThen htest (hvalue _ hint.1) rfl (hbody.woven hg.2 (hlinked.of_extends hcond.extends)
      (hv.of_extends hcond.extends) (ht.of_extends hcond.extends) ?_ hsize)
    rw [hcond.recordSize_eq hv]
    exact hplaces
  | .ifElse (.intro hcond hint) hbody hother, hg, hlinked, hv, ht, hplaces, hsize => by
    have hsize₂ := Nat.le_trans hother.extends.recordSize_le hsize
    have hv₁ := hv.of_extends hcond.extends
    have ht₁ := ht.of_extends hcond.extends
    have hlinked₁ : SymbolTable.Linked _ fns := hlinked.of_extends hcond.extends
    have hlist := fun x hx => hplaces x (List.mem_append.mpr hx)
    obtain ⟨htest, hvalue⟩ := hcond.woven hg.1 hlinked ht
      (Nat.le_trans hbody.extends.recordSize_le hsize₂)
    refine .ifElse htest (hvalue _ hint.1) rfl (hbody.woven hg.2.1.2 hlinked₁ hv₁ ht₁ ?_ hsize₂)
      (hother.woven hg.2.2 (hlinked₁.of_extends hbody.extends) (hv₁.of_extends hbody.extends)
        (ht₁.of_extends hbody.extends) ?_ hsize)
    · rw [hcond.recordSize_eq hv]
      exact fun x hx => hlist x (.inl hx)
    · rw [hbody.recordSize_eq hv₁, hcond.recordSize_eq hv, Nat.add_assoc, ← Nat.mul_add]
      exact fun x hx => hlist x (.inr hx)
  | .loop hbody (.intro hcond hint), hg, hlinked, hv, ht, hplaces, hsize => by
    obtain ⟨htest, hvalue⟩ := hcond.woven hg.2 (hlinked.of_extends hbody.extends)
      (ht.of_extends hbody.extends) hsize
    exact .loop (hbody.woven hg.1 hlinked hv ht hplaces
      (Nat.le_trans hcond.extends.recordSize_le hsize)) htest (hvalue _ hint.1) rfl
  | .return, _, _, _, _, _, _ => .hole rfl
  | .returnValue he hint, hg, hlinked, _, ht, _, hsize => by
    obtain ⟨hcode, hvalue⟩ := he.woven hg hlinked ht hsize
    have hstored := hcode.behind (.storeReturn (hvalue _ hint.1))
    rw [Stmt.calls, ← List.append_nil (Expr.calls _)]
    exact hstored.append (.hole rfl)

theorem Stmt.ListTranslates.woven {ss : List Stmt} {inLoop : Bool} {pc : Nat}
    {t t' : SymbolTable} {ps : List Planned} :
    Stmt.ListTranslates A.layout inLoop pc t ss ps t' → Stmt.ListGrammatical ss → t.Linked fns →
      t.Values valued → t.Inside A →
        (∀ x ∈ Stmt.listPlaces valued t.recordSize ss, x ∈ A.locals) → t'.recordSize ≤ A.size →
          Woven A fns pc ps (Stmt.listCalls ss)
  | .nil, _, _, _, _, _, _ => .nil
  | .cons hs hss, hg, hlinked, hv, ht, hplaces, hsize => by
    have hlist := fun x hx => hplaces x (List.mem_append.mpr hx)
    refine (hs.woven hg.1 hlinked hv ht (fun x hx => hlist x (.inl hx))
      (Nat.le_trans hss.extends.recordSize_le hsize)).append (hss.woven hg.2
        (hlinked.of_extends hs.extends) (hv.of_extends hs.extends) (ht.of_extends hs.extends) ?_
        hsize)
    rw [hs.recordSize_eq hv]
    exact fun x hx => hlist x (.inr hx)

end

end OnePass
