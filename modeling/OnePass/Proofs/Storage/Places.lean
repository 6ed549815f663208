import OnePass.Proofs.Static.Table

/-!
# Where variables are

Storage is handed out in the order of the text: global variables one behind the other in the data,
and in the record of a function its parameters, then its variables and its temporaries as they come.
So the place of every variable can be read off the tree, given which functions give a value, since a
call of those takes a temporary. -/

namespace OnePass

/-! ### Places in the tree -/

mutual

/-- The temporaries of an expression, given the functions whose calls have a value. -/
def Expr.temporaries (valued : String → Bool) : Expr → Nat
  | .num _ | .name _ => 0
  | .index _ _ i _ => i.temporaries valued + 1
  | .call x _ args => args.temporaries valued + if valued x.lexeme then 1 else 0
  | .paren _ e _ => e.temporaries valued
  | .binary _ _ e₁ e₂ => e₁.temporaries valued + e₂.temporaries valued + 1
  | .assign target _ value => target.temporaries valued + value.temporaries valued

/-- The temporaries of some arguments. -/
def Args.temporaries (valued : String → Bool) : Args → Nat
  | .none _ => 0
  | .last e _ => e.temporaries valued
  | .more e _ rest => e.temporaries valued + rest.temporaries valued

end

namespace VarDecl

/-- The words of some declarations. -/
def listWords (ds : List VarDecl) : Nat := (ds.map words).sum

/-- Declarations with their places, one behind the other. -/
def layOut : Nat → List VarDecl → List (VarDecl × Nat)
  | _, [] => []
  | base, d :: ds => (d, base) :: layOut (base + Word.size * d.words) ds

end VarDecl

mutual

/-- The words that a statement takes from the record, for variables and temporaries. -/
def Stmt.words (valued : String → Bool) : Stmt → Nat
  | .empty _ | .leave _ _ | .return _ _ => 0
  | .expr e _ | .returnValue _ e _ => e.temporaries valued
  | .block _ locals body _ => VarDecl.listWords locals + Stmt.listWords valued body
  | .ifThen _ _ cond _ body => cond.temporaries valued + body.words valued
  | .ifElse _ _ cond _ body _ other =>
    cond.temporaries valued + body.words valued + other.words valued
  | .loop _ body _ _ cond _ => body.words valued + cond.temporaries valued

/-- The words that some statements take. -/
def Stmt.listWords (valued : String → Bool) : List Stmt → Nat
  | [] => 0
  | s :: ss => s.words valued + Stmt.listWords valued ss

end

mutual

/-- The variables of a statement with their offsets, given the offset of what comes first. -/
def Stmt.places (valued : String → Bool) : Nat → Stmt → List (VarDecl × Nat)
  | _, .empty _ | _, .leave _ _ | _, .return _ _ | _, .expr _ _ | _, .returnValue _ _ _ => []
  | base, .block _ locals body _ =>
    VarDecl.layOut base locals
      ++ Stmt.listPlaces valued (base + Word.size * VarDecl.listWords locals) body
  | base, .ifThen _ _ cond _ body =>
    body.places valued (base + Word.size * cond.temporaries valued)
  | base, .ifElse _ _ cond _ body _ other =>
    body.places valued (base + Word.size * cond.temporaries valued)
      ++ other.places valued
        (base + Word.size * (cond.temporaries valued + body.words valued))
  | base, .loop _ body _ _ _ _ => body.places valued base

/-- The variables of some statements with their offsets. -/
def Stmt.listPlaces (valued : String → Bool) : Nat → List Stmt → List (VarDecl × Nat)
  | _, [] => []
  | base, s :: ss =>
    s.places valued base ++ Stmt.listPlaces valued (base + Word.size * s.words valued) ss

end

mutual

/-- The variables that a statement declares, in the order of the text. -/
def Stmt.declarations : Stmt → List VarDecl
  | .empty _ | .leave _ _ | .return _ _ | .expr _ _ | .returnValue _ _ _ => []
  | .block _ locals body _ => locals ++ Stmt.listDeclarations body
  | .ifThen _ _ _ _ body | .loop _ body _ _ _ _ => body.declarations
  | .ifElse _ _ _ _ body _ other => body.declarations ++ other.declarations

/-- The variables that some statements declare. -/
def Stmt.listDeclarations : List Stmt → List VarDecl
  | [] => []
  | s :: ss => s.declarations ++ Stmt.listDeclarations ss

end

/-- Places that lie between two addresses, one behind the other. -/
structure Ascending (lo : Nat) (places : List (VarDecl × Nat)) (hi : Nat) : Prop where
  bounds : ∀ x ∈ places, lo ≤ x.2 ∧ x.2 + Word.size * x.1.words ≤ hi
  ordered : places.Pairwise fun x y => x.2 + Word.size * x.1.words ≤ y.2

namespace Ascending

variable {lo mid hi : Nat} {ps qs : List (VarDecl × Nat)}

theorem nil : Ascending lo [] hi := ⟨nofun, .nil⟩

theorem mono (h : Ascending mid ps hi) (hlo : lo ≤ mid) : Ascending lo ps hi :=
  ⟨fun x hx => ⟨Nat.le_trans hlo (h.bounds x hx).1, (h.bounds x hx).2⟩, h.ordered⟩

theorem append (h : Ascending lo ps mid) (h' : Ascending mid qs hi) (hlo : lo ≤ mid)
    (hhi : mid ≤ hi) : Ascending lo (ps ++ qs) hi := by
  refine ⟨fun x hx => ?_, List.pairwise_append.mpr ⟨h.ordered, h'.ordered, fun x hx y hy => ?_⟩⟩
  · rcases List.mem_append.mp hx with hx | hx
    · exact ⟨(h.bounds x hx).1, Nat.le_trans (h.bounds x hx).2 hhi⟩
    · exact ⟨Nat.le_trans hlo (h'.bounds x hx).1, (h'.bounds x hx).2⟩
  · exact Nat.le_trans (h.bounds x hx).2 (h'.bounds y hy).1

end Ascending

theorem VarDecl.ascending_layOut (base : Nat) (ds : List VarDecl) :
    Ascending base (layOut base ds) (base + Word.size * listWords ds) := by
  induction ds generalizing base with
  | nil => exact .nil
  | cons d ds ih =>
    have hsum : listWords (d :: ds) = d.words + listWords ds := List.sum_cons
    have hfirst : Ascending base [(d, base)] (base + Word.size * d.words) :=
      ⟨fun x hx => by simp [List.mem_singleton.mp hx], List.pairwise_singleton ..⟩
    rw [hsum, Nat.mul_add, ← Nat.add_assoc]
    exact hfirst.append (ih _) (Nat.le_add_right ..) (Nat.le_add_right ..)

variable {valued : String → Bool}

mutual

/-- The variables of a statement are where its words are. -/
theorem Stmt.ascending : ∀ (s : Stmt) (base : Nat),
    Ascending base (s.places valued base) (base + Word.size * s.words valued)
  | .empty _, _ => .nil
  | .leave _ _, _ => .nil
  | .return _ _, _ => .nil
  | .expr _ _, _ => .nil
  | .returnValue _ _ _, _ => .nil
  | .block _ locals body _, base => by
    have hbody := Stmt.listAscending body (base + Word.size * VarDecl.listWords locals)
    rw [Stmt.words, Nat.mul_add, ← Nat.add_assoc]
    exact (VarDecl.ascending_layOut base locals).append hbody (Nat.le_add_right ..)
      (Nat.le_add_right ..)
  | .ifThen _ _ cond _ body, base => by
    have hbody := Stmt.ascending body (base + Word.size * cond.temporaries valued)
    rw [Stmt.words, Nat.mul_add, ← Nat.add_assoc]
    exact hbody.mono (Nat.le_add_right ..)
  | .ifElse _ _ cond _ body _ other, base => by
    have hbody := Stmt.ascending body (base + Word.size * cond.temporaries valued)
    have hother := Stmt.ascending other
      (base + Word.size * (cond.temporaries valued + body.words valued))
    rw [Nat.add_assoc, ← Nat.mul_add] at hbody
    rw [Stmt.words, Nat.mul_add _ (_ + _), ← Nat.add_assoc]
    exact (hbody.mono (Nat.le_add_right ..)).append hother (Nat.le_add_right ..)
      (Nat.le_add_right ..)
  | .loop _ body _ _ cond _, base => by
    have hbody := Stmt.ascending body base
    rw [Stmt.words, Nat.mul_add, ← Nat.add_assoc, ← List.append_nil (Stmt.places ..)]
    exact hbody.append .nil (Nat.le_add_right ..) (Nat.le_add_right ..)

theorem Stmt.listAscending : ∀ (ss : List Stmt) (base : Nat),
    Ascending base (Stmt.listPlaces valued base ss) (base + Word.size * Stmt.listWords valued ss)
  | [], _ => .nil
  | s :: ss, base => by
    have hrest := Stmt.listAscending ss (base + Word.size * s.words valued)
    rw [Stmt.listWords, Nat.mul_add, ← Nat.add_assoc]
    exact (Stmt.ascending s base).append hrest (Nat.le_add_right ..) (Nat.le_add_right ..)

end

theorem VarDecl.map_fst_layOut (base : Nat) (ds : List VarDecl) :
    (layOut base ds).map (·.1) = ds := by
  induction ds generalizing base with
  | nil => rfl
  | cons d ds ih => rw [layOut, List.map_cons, ih]

mutual

/-- Every variable of a statement has a place. -/
theorem Stmt.map_fst_places : ∀ (s : Stmt) (base : Nat),
    (s.places valued base).map (·.1) = s.declarations
  | .empty _, _ => rfl
  | .leave _ _, _ => rfl
  | .return _ _, _ => rfl
  | .expr _ _, _ => rfl
  | .returnValue _ _ _, _ => rfl
  | .block _ locals body _, base => by
    rw [Stmt.places, List.map_append, VarDecl.map_fst_layOut, Stmt.map_fst_listPlaces body]
    rfl
  | .ifThen _ _ _ _ body, _ => Stmt.map_fst_places body _
  | .ifElse _ _ _ _ body _ other, _ => by
    rw [Stmt.places, List.map_append, Stmt.map_fst_places body, Stmt.map_fst_places other]
    rfl
  | .loop _ body _ _ _ _, _ => Stmt.map_fst_places body _

theorem Stmt.map_fst_listPlaces : ∀ (ss : List Stmt) (base : Nat),
    (Stmt.listPlaces valued base ss).map (·.1) = Stmt.listDeclarations ss
  | [], _ => rfl
  | s :: ss, base => by
    rw [Stmt.listPlaces, List.map_append, Stmt.map_fst_places s, Stmt.map_fst_listPlaces ss]
    rfl

end

/-! ### Records -/

/-- A call leaves a value in a temporary. -/
def Symbol.givesValue (callee : Symbol) : Bool :=
  callee.name != outputName && callee.ty != .void

namespace Symbol

variable {callee : Symbol}

theorem givesValue_of_output (h : callee.name = outputName) : callee.givesValue = false := by
  simp [givesValue, h]

theorem givesValue_of_void (h : callee.ty = .void) : callee.givesValue = false := by
  simp [givesValue, h]

theorem givesValue_of_ne (hname : callee.name ≠ outputName) (hty : callee.ty ≠ .void) :
    callee.givesValue = true := by
  simp [givesValue, hname, hty]

end Symbol

namespace SymbolTable

/-- The size of the record of the open function. -/
def recordSize (t : SymbolTable) : Nat := t.function.elim 0 (·.record.size)

/-- The functions whose calls have a value are those given. -/
def Values (t : SymbolTable) (valued : String → Bool) : Prop :=
  ∀ x target, t.find? x = some target → target.isFunction →
    valued x = (Gen.calleeOf t target).givesValue

theorem exists_values (t : SymbolTable) : ∃ valued, t.Values valued := by
  refine ⟨fun x => (t.find? x).any fun target => (Gen.calleeOf t target).givesValue, ?_⟩
  intro x target hfind _
  simp only [hfind, Option.any_some]

theorem recordSize_eq {t : SymbolTable} {f : OpenFunction} (hf : t.function = some f) :
    t.recordSize = f.record.size := by
  rw [recordSize, hf]
  rfl

theorem Extends.recordSize_le {t t' : SymbolTable} (h : t.Extends t') :
    t.recordSize ≤ t'.recordSize := by
  rw [recordSize, recordSize]
  cases hf : t.function with
  | none => exact Nat.zero_le _
  | some f =>
    obtain ⟨size, hsize, hf'⟩ := h.function f hf
    rw [hf']
    exact hsize

theorem recordSize_withTemporary {t : SymbolTable} {f : OpenFunction} (hf : t.function = some f) :
    (t.withTemporary f).recordSize = t.recordSize + Word.size := by
  rw [recordSize, recordSize, hf]
  rfl

theorem recordSize_withBlocks {t : SymbolTable} {f : OpenFunction} (hf : t.function = some f)
    (blocks : List Scope) : (t.withFunction { f with blocks }).recordSize = t.recordSize := by
  rw [recordSize, recordSize, hf]
  rfl

/-- Storage leaves a function open. -/
theorem Stores.isSome {x : String} {ty : Ty} {words : Nat} {t t' : SymbolTable}
    (h : Stores x ty words t t') (hf : t.function.isSome) : t'.function.isSome := by
  cases h with
  | inner => rfl
  | outer hnone =>
    rw [hnone] at hf
    cases hf

theorem recordSize_stores {x : String} {ty : Ty} {words : Nat} {t t' : SymbolTable}
    (h : Stores x ty words t t') (hf : t.function.isSome) :
    t'.recordSize = t.recordSize + Word.size * words := by
  cases h with
  | inner hf' hopen hfresh hfits =>
    rename_i f
    rw [recordSize, recordSize, hf', withLocal, withFunction, Option.elim_some, Option.elim_some,
      OpenFunction.insert]
    cases hblocks : (f.grow words).blocks with
    | nil => rfl
    | cons block rest => rfl
  | outer hnone _ _ =>
    rw [hnone] at hf
    cases hf

namespace Values

variable {t t' : SymbolTable}

theorem of_extends (h : t.Values valued) (ht : t.Extends t') : t'.Values valued := by
  intro x target hfind hfn
  rw [ht.find?] at hfind
  rw [h x target hfind hfn, Gen.calleeOf, Gen.calleeOf, ht.functionAt?]

theorem openBlock (h : t.Values valued) {f : OpenFunction} (hf : t.function = some f) :
    (t.withFunction { f with blocks := {} :: f.blocks }).Values valued := by
  have hscopes : (t.withFunction { f with blocks := {} :: f.blocks }).scopes = {} :: t.scopes := by
    rw [SymbolTable.scopes, SymbolTable.scopes, hf]
    rfl
  intro x target hfind hfn
  rw [SymbolTable.find?, hscopes] at hfind
  rw [h x target hfind hfn, Gen.calleeOf, Gen.calleeOf, SymbolTable.functionAt?,
    SymbolTable.functionAt?, hscopes]
  rfl

/-- New storage is no function. -/
theorem stores (h : t.Values valued) {x : String} {ty : Ty} {words : Nat}
    (hs : Stores x ty words t t') (hf : t.function.isSome) : t'.Values valued := by
  cases hs with
  | inner hf hopen hfresh hfits =>
    rename_i f
    have hold : t.scopes = f.current :: (f.scopes.tail ++ [t.globals]) := by
      rw [scopes_eq_innerScopes, innerScopes, hf, Option.elim_some, f.scopes_eq]
      rfl
    have hnew : (t.withLocal f x ty words).scopes =
        f.current.insert (.cell x ty f.record.size false) :: (f.scopes.tail ++ [t.globals]) := by
      rw [scopes_eq_innerScopes, innerScopes, withLocal, withFunction, Option.elim_some,
        OpenFunction.scopes_insert]
      rfl
    intro y target hfind hfn
    have hcurrent : (f.current.insert (.cell x ty f.record.size false)).functionAt? target.value =
        f.current.functionAt? target.value := by
      rw [Scope.functionAt?, Scope.symbols_insert (by exact hfresh), List.find?_append]
      exact Option.or_none
    have hsame : (t.withLocal f x ty words).functionAt? target.value =
        t.functionAt? target.value := by
      rw [SymbolTable.functionAt?, SymbolTable.functionAt?, hold, hnew, List.findSome?_cons,
        List.findSome?_cons, hcurrent]
    rw [find?_withLocal t hf] at hfind
    split at hfind
    · cases hfind
      cases hfn
    · rw [h y target hfind hfn, Gen.calleeOf, Gen.calleeOf, hsame]
  | outer hnone _ _ =>
    rw [hnone] at hf
    cases hf

end Values

end SymbolTable

/-- A call has the temporary that its callee calls for. -/
theorem SymbolTable.Values.callee {t t₁ : SymbolTable} (h : t.Values valued) (ht : t.Extends t₁)
    {x : String} {target callee : Symbol} {values : List StackValue} {args : List Symbol}
    (hfind : t.find? x = some target) (hcalls : Calls t₁ target values callee args) :
    valued x = callee.givesValue := by
  rw [h x target hfind hcalls.callable.2, Gen.calleeOf, ← ht.functionAt?]
  exact congrArg _ hcalls.found

variable {l : Layout}

mutual

/-- An expression takes a word for each of its temporaries. -/
theorem Expr.Translates.recordSize_eq {e : Expr} {pc : Nat} {t t' : SymbolTable}
    {is : List Instruction} {v : StackValue} : e.Translates l pc t is v t' → t.Values valued →
      t'.recordSize = t.recordSize + Word.size * e.temporaries valued
  | .num _, _ => rfl
  | .name _, _ => rfl
  | .index _ _ hi _ hf _, ht => by
    rw [SymbolTable.recordSize_withTemporary hf, hi.recordSize_eq ht, Expr.temporaries,
      Nat.mul_add, Nat.mul_one, Nat.add_assoc]
  | .print hfind hargs hcalls hname, ht => by
    rw [hargs.recordSize_eq ht, Expr.temporaries, ht.callee hargs.extends hfind hcalls,
      Symbol.givesValue_of_output hname]
    rfl
  | .callVoid hfind hargs hcalls _ hty, ht => by
    rw [hargs.recordSize_eq ht, Expr.temporaries, ht.callee hargs.extends hfind hcalls,
      Symbol.givesValue_of_void hty]
    rfl
  | .callValue hfind hargs hcalls hname hty hf _, ht => by
    rw [SymbolTable.recordSize_withTemporary hf, hargs.recordSize_eq ht, Expr.temporaries,
      ht.callee hargs.extends hfind hcalls, Symbol.givesValue_of_ne hname hty, if_pos rfl,
      Nat.mul_add, Nat.mul_one, Nat.add_assoc]
  | .paren he, ht => he.recordSize_eq ht
  | .binary h₁ _ h₂ _ hf _, ht => by
    rw [SymbolTable.recordSize_withTemporary hf, h₂.recordSize_eq (ht.of_extends h₁.extends),
      h₁.recordSize_eq ht, Expr.temporaries, Nat.mul_add, Nat.mul_add, Nat.mul_one, Nat.add_assoc,
      Nat.add_assoc, Nat.add_assoc]
  | .assign h₁ _ h₂ _, ht => by
    rw [h₂.recordSize_eq (ht.of_extends h₁.extends), h₁.recordSize_eq ht, Expr.temporaries,
      Nat.mul_add, Nat.add_assoc]

theorem Args.Translates.recordSize_eq {args : Args} {pc : Nat} {t t' : SymbolTable}
    {is : List Instruction} {values : List StackValue} : args.Translates l pc t is values t' →
      t.Values valued → t'.recordSize = t.recordSize + Word.size * args.temporaries valued
  | .none, _ => rfl
  | .last he, ht => he.recordSize_eq ht
  | .more he hrest, ht => by
    rw [hrest.recordSize_eq (ht.of_extends he.extends), he.recordSize_eq ht, Args.temporaries,
      Nat.mul_add, Nat.add_assoc]

end

theorem Expr.Tests.recordSize_eq {e : Expr} {pc : Nat} {t t' : SymbolTable}
    {is : List Instruction} {c : Operand} (h : e.Tests l pc t is c t') (ht : t.Values valued) :
    t'.recordSize = t.recordSize + Word.size * e.temporaries valued := by
  cases h with
  | intro he _ => exact he.recordSize_eq ht

/-- Variables in a function take their words. -/
theorem Chain.recordSize_eq {ds : List VarDecl} {t t' : SymbolTable}
    (h : Chain VarDecl.Declares ds t t') (hf : t.function.isSome) :
    t'.recordSize = t.recordSize + Word.size * VarDecl.listWords ds := by
  induction h with
  | nil => rfl
  | cons hd _ ih =>
    rename_i d ds t t₁ t' _
    obtain ⟨-, hstores⟩ := VarDecl.declares_iff.mp hd
    have hsum : VarDecl.listWords (d :: ds) = d.words + VarDecl.listWords ds := List.sum_cons
    rw [ih (hstores.isSome hf), SymbolTable.recordSize_stores hstores hf, hsum, Nat.mul_add,
      Nat.add_assoc]

/-- Variables in a function are no functions. -/
theorem Chain.values {ds : List VarDecl} {t t' : SymbolTable} (h : Chain VarDecl.Declares ds t t')
    (hf : t.function.isSome) (ht : t.Values valued) : t'.Values valued := by
  induction h with
  | nil => exact ht
  | cons hd _ ih =>
    obtain ⟨-, hstores⟩ := VarDecl.declares_iff.mp hd
    exact ih (hstores.isSome hf) (ht.stores hstores hf)

mutual

/-- A statement takes the words that it has variables and temporaries. -/
theorem Stmt.Translates.recordSize_eq {s : Stmt} {inLoop : Bool} {pc : Nat} {t t' : SymbolTable}
    {ps : List Planned} : s.Translates l inLoop pc t ps t' → t.Values valued →
      t'.recordSize = t.recordSize + Word.size * s.words valued
  | .empty, _ => rfl
  | .expr he, ht => he.recordSize_eq ht
  | .block hf hlocals hbody hf₂ _, ht => by
    rw [SymbolTable.recordSize_withBlocks hf₂,
      hbody.recordSize_eq (hlocals.values rfl (ht.openBlock hf)), hlocals.recordSize_eq rfl,
      SymbolTable.recordSize_withBlocks hf, Stmt.words, Nat.mul_add, Nat.add_assoc]
  | .leave, _ => rfl
  | .ifThen hcond hbody, ht => by
    rw [hbody.recordSize_eq (ht.of_extends hcond.extends), hcond.recordSize_eq ht, Stmt.words,
      Nat.mul_add, Nat.add_assoc]
  | .ifElse hcond hbody hother, ht => by
    have ht₁ := ht.of_extends hcond.extends
    rw [hother.recordSize_eq (ht₁.of_extends hbody.extends), hbody.recordSize_eq ht₁,
      hcond.recordSize_eq ht, Stmt.words, Nat.mul_add, Nat.mul_add, Nat.add_assoc, Nat.add_assoc,
      Nat.add_assoc]
  | .loop hbody hcond, ht => by
    rw [hcond.recordSize_eq (ht.of_extends hbody.extends), hbody.recordSize_eq ht, Stmt.words,
      Nat.mul_add, Nat.add_assoc]
  | .return, _ => rfl
  | .returnValue he _, ht => he.recordSize_eq ht

theorem Stmt.ListTranslates.recordSize_eq {ss : List Stmt} {inLoop : Bool} {pc : Nat}
    {t t' : SymbolTable} {ps : List Planned} : Stmt.ListTranslates l inLoop pc t ss ps t' →
      t.Values valued → t'.recordSize = t.recordSize + Word.size * Stmt.listWords valued ss
  | .nil, _ => rfl
  | .cons hs hss, ht => by
    rw [hss.recordSize_eq (ht.of_extends hs.extends), hs.recordSize_eq ht, Stmt.listWords,
      Nat.mul_add, Nat.add_assoc]

end

/-! ### Limits -/

theorem SymbolTable.recordSize_withTemporary_le {t : SymbolTable} {f : OpenFunction}
    (hroom : f.record.HasRoom 1) : (t.withTemporary f).recordSize ≤ addressLimit := hroom.2

mutual

/-- Temporaries stay within the address range. -/
theorem Expr.Translates.recordSize_le {e : Expr} {pc : Nat} {t t' : SymbolTable}
    {is : List Instruction} {v : StackValue} : e.Translates l pc t is v t' →
      t.recordSize ≤ addressLimit → t'.recordSize ≤ addressLimit
  | .num _, ht => ht
  | .name _, ht => ht
  | .index _ _ _ _ _ hroom, _ => SymbolTable.recordSize_withTemporary_le hroom
  | .print _ hargs _ _, ht => hargs.recordSize_le ht
  | .callVoid _ hargs _ _ _, ht => hargs.recordSize_le ht
  | .callValue _ _ _ _ _ _ hroom, _ => SymbolTable.recordSize_withTemporary_le hroom
  | .paren he, ht => he.recordSize_le ht
  | .binary _ _ _ _ _ hroom, _ => SymbolTable.recordSize_withTemporary_le hroom
  | .assign h₁ _ h₂ _, ht => h₂.recordSize_le (h₁.recordSize_le ht)

theorem Args.Translates.recordSize_le {args : Args} {pc : Nat} {t t' : SymbolTable}
    {is : List Instruction} {values : List StackValue} : args.Translates l pc t is values t' →
      t.recordSize ≤ addressLimit → t'.recordSize ≤ addressLimit
  | .none, ht => ht
  | .last he, ht => he.recordSize_le ht
  | .more he hrest, ht => hrest.recordSize_le (he.recordSize_le ht)

end

theorem Expr.Tests.recordSize_le {e : Expr} {pc : Nat} {t t' : SymbolTable}
    {is : List Instruction} {c : Operand} (h : e.Tests l pc t is c t')
    (ht : t.recordSize ≤ addressLimit) : t'.recordSize ≤ addressLimit := by
  cases h with
  | intro he _ => exact he.recordSize_le ht

/-- Variables stay within the address range. -/
theorem Chain.recordSize_le {ds : List VarDecl} {t t' : SymbolTable}
    (h : Chain VarDecl.Declares ds t t') (hf : t.function.isSome)
    (ht : t.recordSize ≤ addressLimit) : t'.recordSize ≤ addressLimit := by
  induction h with
  | nil => exact ht
  | cons hd _ ih =>
    obtain ⟨-, hstores⟩ := VarDecl.declares_iff.mp hd
    have hgrown := SymbolTable.recordSize_stores hstores hf
    refine ih (hstores.isSome hf) ?_
    cases hstores with
    | inner hf' hopen hfresh hfits =>
      have hroom := Record.hasRoom_of_fits hopen hfits
      rw [hgrown, SymbolTable.recordSize, hf']
      exact hroom.2
    | outer hnone =>
      rw [hnone] at hf
      cases hf

mutual

/-- Statements stay within the address range. -/
theorem Stmt.Translates.recordSize_le {s : Stmt} {inLoop : Bool} {pc : Nat} {t t' : SymbolTable}
    {ps : List Planned} : s.Translates l inLoop pc t ps t' → t.recordSize ≤ addressLimit →
      t'.recordSize ≤ addressLimit
  | .empty, ht => ht
  | .expr he, ht => he.recordSize_le ht
  | .block hf hlocals hbody hf₂ _, ht => by
    rw [SymbolTable.recordSize_withBlocks hf₂]
    refine hbody.recordSize_le (hlocals.recordSize_le rfl ?_)
    rw [SymbolTable.recordSize_withBlocks hf]
    exact ht
  | .leave, ht => ht
  | .ifThen hcond hbody, ht => hbody.recordSize_le (hcond.recordSize_le ht)
  | .ifElse hcond hbody hother, ht =>
    hother.recordSize_le (hbody.recordSize_le (hcond.recordSize_le ht))
  | .loop hbody hcond, ht => hcond.recordSize_le (hbody.recordSize_le ht)
  | .return, ht => ht
  | .returnValue he _, ht => he.recordSize_le ht

theorem Stmt.ListTranslates.recordSize_le {ss : List Stmt} {inLoop : Bool} {pc : Nat}
    {t t' : SymbolTable} {ps : List Planned} : Stmt.ListTranslates l inLoop pc t ss ps t' →
      t.recordSize ≤ addressLimit → t'.recordSize ≤ addressLimit
  | .nil, ht => ht
  | .cons hs hss, ht => hss.recordSize_le (hs.recordSize_le ht)

end

/-- Parameters stay within the address range. -/
theorem Chain.paramsSize_le {ps : List Param} {t t' : SymbolTable} (h : Chain Param.Adds ps t t')
    (ht : t.recordSize ≤ addressLimit) : t'.recordSize ≤ addressLimit := by
  induction h with
  | nil => exact ht
  | cons hp _ ih =>
    cases hp with
    | intro _ _ _ hroom _ => exact ih hroom.2

/-! ### Global variables -/

/-- The variables among some declarations. -/
def Decl.variables (ds : List Decl) : List VarDecl :=
  ds.filterMap fun
    | .var d => some d
    | .fn _ => none

/-- Global variables take their words from the data. -/
theorem VarDecl.Declares.dataEnd_eq {d : VarDecl} {t t' : SymbolTable} (h : d.Declares t t')
    (hf : t.function = none) :
    t'.dataEnd = t.dataEnd + Word.size * d.words ∧ t'.dataEnd ≤ declaredLimit := by
  obtain ⟨-, hstores⟩ := VarDecl.declares_iff.mp h
  cases hstores with
  | inner hf' =>
    rw [hf] at hf'
    cases hf'
  | outer _ _ hroom => exact ⟨rfl, (SymbolTable.hasRoom_iff hf).mp hroom⟩

end OnePass
