import OnePass.Proofs.Translate.Rules

/-!
# Tables of a translation

Expressions and statements leave the names of a table alone: they only take storage from the record
of the open function. Declarations add a name to the innermost scope. No name of a program without
mistakes stands for a placeholder. -/

namespace OnePass

namespace SymbolTable

/-! ### Storage taken from the open function -/

/-- A table differs from another in the storage that its open function has taken, and in nothing
    that a name stands for. -/
structure Extends (t t' : SymbolTable) : Prop where
  globals : t'.globals = t.globals
  dataEnd : t'.dataEnd = t.dataEnd
  function : ∀ f, t.function = some f → ∃ size, f.record.size ≤ size ∧
    t'.function = some { f with record := { f.record with size } }
  outside : t.function = none → t'.function = none

theorem Extends.refl (t : SymbolTable) : t.Extends t :=
  ⟨rfl, rfl, fun f hf => ⟨f.record.size, Nat.le_refl _, hf⟩, id⟩

theorem Extends.trans {t₁ t₂ t₃ : SymbolTable} (h : t₁.Extends t₂) (h' : t₂.Extends t₃) :
    t₁.Extends t₃ := by
  refine ⟨h'.globals.trans h.globals, h'.dataEnd.trans h.dataEnd, fun f hf => ?_,
    fun hf => h'.outside (h.outside hf)⟩
  obtain ⟨size, hsize, hf₂⟩ := h.function f hf
  obtain ⟨size', hsize', hf₃⟩ := h'.function _ hf₂
  exact ⟨size', Nat.le_trans hsize hsize', hf₃⟩

theorem Extends.withTemporary {t : SymbolTable} {f : OpenFunction} (hf : t.function = some f) :
    t.Extends (t.withTemporary f) := by
  refine ⟨rfl, rfl, fun f' hf' => ?_, fun hnone => ?_⟩
  · obtain rfl := Option.some.inj (hf.symm.trans hf')
    exact ⟨_, Nat.le_add_right .., rfl⟩
  · rw [hf] at hnone
    cases hnone

theorem Extends.scopes {t t' : SymbolTable} (h : t.Extends t') : t'.scopes = t.scopes := by
  cases hf : t.function with
  | none => rw [SymbolTable.scopes, SymbolTable.scopes, h.outside hf, hf, h.globals]
  | some f =>
    obtain ⟨size, -, hf'⟩ := h.function f hf
    rw [SymbolTable.scopes, SymbolTable.scopes, hf', hf, h.globals]
    rfl

theorem Extends.find? {t t' : SymbolTable} (h : t.Extends t') (name : String) :
    t'.find? name = t.find? name := by
  rw [SymbolTable.find?, SymbolTable.find?, h.scopes]

theorem Extends.functionAt? {t t' : SymbolTable} (h : t.Extends t') (value : Word) :
    t'.functionAt? value = t.functionAt? value := by
  rw [SymbolTable.functionAt?, SymbolTable.functionAt?, h.scopes]

/-! ### Names added to the innermost scope -/

theorem find?_withFunction_insert (t : SymbolTable) (f : OpenFunction) (x : Symbol)
    (name : String) : (t.withFunction (f.insert x)).find? name =
      if x.name = name then some x else (t.withFunction f).find? name := by
  have hscopes : ∀ f : OpenFunction, (t.withFunction f).scopes = f.scopes ++ [t.globals] :=
    fun f => rfl
  rw [SymbolTable.find?, SymbolTable.find?, hscopes, hscopes, OpenFunction.scopes,
    OpenFunction.scopes, OpenFunction.insert]
  cases hblocks : f.blocks with
  | nil =>
    simp only [List.nil_append, List.singleton_append, List.findSome?_cons,
      Scope.find?_insert]
    by_cases h : x.name = name <;> simp [h]
  | cons block rest =>
    simp only [List.cons_append, List.findSome?_cons, Scope.find?_insert]
    by_cases h : x.name = name <;> simp [h]

theorem find?_withLocal (t : SymbolTable) {f : OpenFunction} (hf : t.function = some f)
    (x : String) (ty : Ty) (words : Nat) (name : String) :
    (t.withLocal f x ty words).find? name =
      if x = name then some (.cell x ty f.record.size false) else t.find? name := by
  rw [withLocal, find?_withFunction_insert]
  have hsame : (t.withFunction (f.grow words)).find? name = t.find? name := by
    rw [SymbolTable.find?, SymbolTable.find?, SymbolTable.scopes, SymbolTable.scopes, hf]
    rfl
  rw [hsame]
  rfl

theorem find?_withGlobal {t : SymbolTable} (hf : t.function = none) (x : String) (ty : Ty)
    (words : Nat) (name : String) : (t.withGlobal x ty words).find? name =
      if x = name then some (.cell x ty t.dataEnd true) else t.find? name := by
  rw [SymbolTable.find?, SymbolTable.find?, SymbolTable.scopes, SymbolTable.scopes, hf]
  simp only [withGlobal, hf, List.findSome?_cons, List.findSome?_nil, Scope.find?_insert]
  by_cases h : x = name <;> simp [Symbol.cell, h]

/-- A declaration in a block adds to that block and takes storage. -/
theorem Stores.inBlock {x : String} {ty : Ty} {words : Nat} {t t' : SymbolTable}
    (h : Stores x ty words t t') {f : OpenFunction} {block : Scope} {rest : List Scope}
    (hf : t.function = some f) (hblocks : f.blocks = block :: rest) :
    ∃ block' size, f.record.size ≤ size ∧
      t' = t.withFunction { f with blocks := block' :: rest, record := { f.record with size } } := by
  cases h with
  | inner hf' hopen hfresh hfits =>
    obtain rfl := Option.some.inj (hf.symm.trans hf')
    refine ⟨block.insert (.cell x ty f.record.size false), f.record.size + Word.size * words,
      Nat.le_add_right .., ?_⟩
    simp only [withLocal, OpenFunction.insert, OpenFunction.grow, hblocks]
    rfl
  | outer hf' =>
    rw [hf] at hf'
    cases hf'

end SymbolTable

theorem VarDecl.Declares.inBlock {d : VarDecl} {t t' : SymbolTable} (h : d.Declares t t')
    {f : OpenFunction} {block : Scope} {rest : List Scope} (hf : t.function = some f)
    (hblocks : f.blocks = block :: rest) : ∃ block' size, f.record.size ≤ size ∧
      t' = t.withFunction { f with blocks := block' :: rest, record := { f.record with size } } := by
  cases h with
  | scalar hstores => exact hstores.inBlock hf hblocks
  | array _ hstores => exact hstores.inBlock hf hblocks

theorem Chain.inBlock {ds : List VarDecl} {t t' : SymbolTable} (h : Chain VarDecl.Declares ds t t')
    {f : OpenFunction} {block : Scope} {rest : List Scope} (hf : t.function = some f)
    (hblocks : f.blocks = block :: rest) : ∃ block' size, f.record.size ≤ size ∧
      t' = t.withFunction { f with blocks := block' :: rest, record := { f.record with size } } := by
  induction h generalizing f block with
  | nil =>
    refine ⟨block, f.record.size, Nat.le_refl _, ?_⟩
    rw [← hblocks, SymbolTable.withFunction, ← hf]
  | cons hd _ ih =>
    obtain ⟨block₁, size₁, hsize₁, rfl⟩ := hd.inBlock hf hblocks
    obtain ⟨block₂, size₂, hsize₂, rfl⟩ := ih rfl rfl
    exact ⟨block₂, size₂, Nat.le_trans hsize₁ hsize₂, rfl⟩

/-! ### What phrases leave alone -/

variable {l : Layout}

mutual

theorem Expr.Translates.extends {e : Expr} {pc : Nat} {t t' : SymbolTable}
    {is : List Instruction} {v : StackValue} : e.Translates l pc t is v t' → t.Extends t'
  | .num _ => .refl _
  | .name _ => .refl _
  | .index _ _ hi _ hf _ => hi.extends.trans (.withTemporary hf)
  | .print _ hargs _ _ => hargs.extends
  | .callVoid _ hargs _ _ _ => hargs.extends
  | .callValue _ hargs _ _ _ hf _ => hargs.extends.trans (.withTemporary hf)
  | .paren he => he.extends
  | .binary h₁ _ h₂ _ hf _ => (h₁.extends.trans h₂.extends).trans (.withTemporary hf)
  | .assign h₁ _ h₂ _ => h₁.extends.trans h₂.extends

theorem Args.Translates.extends {args : Args} {pc : Nat} {t t' : SymbolTable}
    {is : List Instruction} {values : List StackValue} :
    args.Translates l pc t is values t' → t.Extends t'
  | .none => .refl _
  | .last he => he.extends
  | .more he hrest => he.extends.trans hrest.extends

end

theorem Expr.Tests.extends {e : Expr} {pc : Nat} {t t' : SymbolTable}
    {is : List Instruction} {c : Operand} (h : e.Tests l pc t is c t') : t.Extends t' := by
  cases h with
  | intro he _ => exact he.extends

/-- A block gives its names back and keeps the storage they took. -/
theorem extends_block {locals : List VarDecl} {t t₁ t₂ : SymbolTable} {f f₂ : OpenFunction}
    {block : Scope} {blocks : List Scope} (hf : t.function = some f)
    (hlocals : Chain VarDecl.Declares locals
      (t.withFunction { f with blocks := {} :: f.blocks }) t₁)
    (hbody : t₁.Extends t₂) (hf₂ : t₂.function = some f₂) (hblocks : f₂.blocks = block :: blocks) :
    t.Extends (t₂.withFunction { f₂ with blocks }) := by
  obtain ⟨inner, size, hsize, rfl⟩ := hlocals.inBlock rfl rfl
  obtain ⟨size', hsize', hf₂'⟩ := hbody.function _ rfl
  obtain rfl := Option.some.inj (hf₂.symm.trans hf₂')
  obtain ⟨-, rfl⟩ := List.cons.inj hblocks
  refine ⟨hbody.globals, hbody.dataEnd, fun f' hf' => ?_, fun hnone => ?_⟩
  · obtain rfl := Option.some.inj (hf.symm.trans hf')
    exact ⟨size', Nat.le_trans hsize hsize', rfl⟩
  · rw [hf] at hnone
    cases hnone

mutual

theorem Stmt.Translates.extends {s : Stmt} {inLoop : Bool} {pc : Nat} {t t' : SymbolTable}
    {ps : List Planned} : s.Translates l inLoop pc t ps t' → t.Extends t'
  | .empty => .refl _
  | .expr he => he.extends
  | .block hf hlocals hbody hf₂ hblocks => extends_block hf hlocals hbody.extends hf₂ hblocks
  | .leave => .refl _
  | .ifThen htest hthen => htest.extends.trans hthen.extends
  | .ifElse htest hthen helse => (htest.extends.trans hthen.extends).trans helse.extends
  | .loop hbody htest => hbody.extends.trans htest.extends
  | .return => .refl _
  | .returnValue he _ => he.extends

theorem Stmt.ListTranslates.extends {ss : List Stmt} {inLoop : Bool} {pc : Nat}
    {t t' : SymbolTable} {ps : List Planned} :
    Stmt.ListTranslates l inLoop pc t ss ps t' → t.Extends t'
  | .nil => .refl _
  | .cons hs hss => hs.extends.trans hss.extends

end

/-! ### Jumps that stay open -/

/-- Code in which all targets are known holds no open jump. -/
theorem Planned.notMem_plain {p : Planned} (hp : p.slot = none) (is : List Instruction) :
    p ∉ Planned.plain is := by
  intro hmem
  obtain ⟨i, -, rfl⟩ := List.mem_map.mp hmem
  cases hp

theorem Planned.notMem_settle {p : Planned} (hp : p.slot = none) (i : Instruction)
    (ps : List Planned) : p ∉ ps.map (Planned.settle p i) := by
  intro hmem
  obtain ⟨q, -, hq⟩ := List.mem_map.mp hmem
  rw [Planned.settle] at hq
  split at hq
  · rw [← hq] at hp
    cases hp
  · contradiction

mutual

/-- Outside loops there is no jump out of one. -/
theorem Stmt.Translates.leave_notMem {s : Stmt} {pc : Nat} {t t' : SymbolTable}
    {ps : List Planned} : s.Translates l false pc t ps t' → .leave ∉ ps
  | .empty => List.not_mem_nil
  | .expr _ => Planned.notMem_plain rfl _
  | .block _ _ hbody _ _ => hbody.leave_notMem
  | .ifThen _ hthen => by
    simp only [List.mem_append, not_or]
    exact ⟨Planned.notMem_plain rfl _, hthen.leave_notMem⟩
  | .ifElse _ hthen helse => by
    have htest := fun is => Planned.notMem_plain (show Planned.leave.slot = none from rfl) is
    simp only [List.mem_append, not_or]
    exact ⟨⟨⟨htest _, hthen.leave_notMem⟩, htest _⟩, helse.leave_notMem⟩
  | .loop _ _ => Planned.notMem_settle rfl _ _
  | .return => by decide
  | .returnValue _ _ => by
    simp only [List.mem_append, not_or]
    exact ⟨Planned.notMem_plain rfl _, by decide⟩

theorem Stmt.ListTranslates.leave_notMem {ss : List Stmt} {pc : Nat} {t t' : SymbolTable}
    {ps : List Planned} : Stmt.ListTranslates l false pc t ss ps t' → .leave ∉ ps
  | .nil => List.not_mem_nil
  | .cons hs hss => by
    simp only [List.mem_append, not_or]
    exact ⟨hs.leave_notMem, hss.leave_notMem⟩

end

/-! ### Functions -/

/-- Parameters leave the function open, with no block. -/
theorem Param.Adds.header {p : Param} {t t' : SymbolTable} (h : p.Adds t t') :
    ∃ f, t'.function = some f ∧ f.blocks = [] ∧ f.record.closed = false := by
  cases h with
  | intro _ _ hblocks hroom _ => exact ⟨_, rfl, hblocks, hroom.1⟩

theorem Chain.header {ps : List Param} {t t' : SymbolTable} (h : Chain Param.Adds ps t t')
    (ht : ∃ f, t.function = some f ∧ f.blocks = [] ∧ f.record.closed = false) :
    ∃ f, t'.function = some f ∧ f.blocks = [] ∧ f.record.closed = false := by
  induction h with
  | nil => exact ht
  | cons hp _ ih => exact ih hp.header

/-- A function can be closed after its body, which gives its blocks back. -/
theorem Chain.closable {ps : List Param} {t t₁ t₂ : SymbolTable} {name : String} {ty : Ty}
    {entry : Nat} {f : OpenFunction} (h : Chain Param.Adds ps (t.withEntry name ty entry) t₁)
    (hext : t₁.Extends t₂) (hf : t₂.function = some f) :
    f.blocks = [] ∧ f.record.closed = false := by
  obtain ⟨f₁, hf₁, hblocks, hopen⟩ := h.header ⟨_, rfl, rfl, rfl⟩
  obtain ⟨size, -, hf₂⟩ := hext.function f₁ hf₁
  obtain rfl := Option.some.inj (hf.symm.trans hf₂)
  exact ⟨hblocks, hopen⟩

theorem VarDecl.Declares.outside {d : VarDecl} {t t' : SymbolTable} (h : d.Declares t t')
    (hf : t.function = none) : t'.function = none := by
  have hstores : ∀ {x ty words}, SymbolTable.Stores x ty words t t' → t'.function = none := by
    intro x ty words hstores
    cases hstores with
    | inner hsome =>
      rw [hf] at hsome
      cases hsome
    | outer => exact hf
  cases h with
  | scalar h => exact hstores h
  | array _ h => exact hstores h

/-- Between declarations no function is open. -/
theorem Decl.ListTranslates.outside {pc : Nat} {t t' : SymbolTable} {ds : List Decl}
    {is : List Instruction} {frames : List Frame} (h : Decl.ListTranslates l pc t ds is t' frames)
    (hf : t.function = none) : t'.function = none := by
  induction h with
  | nil => exact hf
  | var hd _ ih => exact ih (hd.outside hf)
  | fn hfn _ ih =>
    cases hfn with
    | intro => exact ih rfl

end OnePass
