import OnePass.Proofs.Paired
import OnePass.Proofs.Relocation.Code
import OnePass.Proofs.Symbol.Table
import OnePass.Symbol.Request

/-!
# Two compilations and their symbol tables

A program may be compiled twice, the second time under other names or for another layout. `Twins`
says how the two compilations correspond. Their symbol tables hold the same symbols in the same
order, but for paired names and for where the global data lies. Requests are answered alike, as long
as a declaration fits both data segments or neither. -/

namespace OnePass

/-- Names of one program are paired with names of another, one for one. The two names that mean
    something to the compiler are paired with themselves. -/
structure Naming where
  Pairs : String → String → Prop
  one : ∀ {a b a' b' : String}, Pairs a b → Pairs a' b' → (a = a' ↔ b = b')
  main : Pairs "main" "main"
  output : Pairs outputName outputName

/-- How two compilations correspond: their names, the lines of their tokens and their faults, and
    the layouts that they are for. -/
structure Twins where
  names : Naming
  line : Nat → Nat → Prop
  fault : Fault → Fault → Prop
  l : Layout
  l' : Layout
  /-- Global storage of the first compilation. -/
  globals : Scope := ⟨[SymbolTable.output]⟩
  fault_of : ∀ (f : String → Fault) {a b : String}, names.Pairs a b → fault (f a) (f b)
  room : l = l' ∨ 3 ≤ l.scratchSlots.toNat ∧ 3 ≤ l'.scratchSlots.toNat

/-- The same with other global storage. -/
def Twins.over (T : Twins) (globals : Scope) : Twins := { T with globals }

theorem Twins.fault_refl (T : Twins) (f : Fault) : T.fault f f :=
  T.fault_of (fun _ => f) T.names.main

/-! ### What corresponds -/

section
variable (T : Twins)

/-- Two symbols differ in their names at most, or are storage equally far into the data. -/
inductive Symbol.Twin : Symbol → Symbol → Prop
  | same {s : Symbol} (name : String) (h : s.isGlobal = false ∨ s.isFunction = true) :
      Twin s { s with name }
  | data {s : Symbol} {address : Word} (name : String) (hfunction : s.isFunction = false)
      (hglobal : s.isGlobal = true) (hconstant : s.isConstant = false)
      (hty : s.ty = .int ∨ s.ty = .arrayInt) (hplace : T.globals.Has s.ty s.value)
      (hshift : T.l.Shifts T.l' s.value address) : Twin s { s with value := address, name }

/-- Two symbols correspond, and so do their names. -/
structure Symbol.NamedTwin (s s' : Symbol) : Prop where
  name : T.names.Pairs s.name s'.name
  twin : s.Twin T s'

/-- Two scopes hold corresponding symbols in the same order. -/
def Scope.Twin (s s' : Scope) : Prop := List.Forall₂ (Symbol.NamedTwin T) s.symbols s'.symbols

/-- Two open functions differ only in paired names. -/
inductive OpenFunction.Twin : OpenFunction → OpenFunction → Prop
  | mk {f : OpenFunction} {name : String} {outer : Scope} {blocks : List Scope}
      (hname : T.names.Pairs f.name name) (houter : f.outer.Twin T outer)
      (hblocks : List.Forall₂ (Scope.Twin T) f.blocks blocks) :
      Twin f { f with name, outer, blocks }

/-- Two complete functions differ only in paired names. -/
def ClosedFunction.Twin (f f' : ClosedFunction) : Prop :=
  ∃ name, T.names.Pairs f.name name ∧ f' = { f with name }

/-- Two symbol tables correspond. A function is open in both or in neither. -/
structure SymbolTable.Twin (inside : Bool) (t t' : SymbolTable) : Prop where
  globals : t.globals.Twin T t'.globals
  current : t.globals = T.globals
  data : ∃ d, t.dataEnd = T.l.dataBase.toNat + d ∧ t'.dataEnd = T.l'.dataBase.toNat + d
  function : Option.Rel (OpenFunction.Twin T) t.function t'.function
  inside : t.function.isSome = inside
  temporaries : t'.temporaries = t.temporaries

/-- Two rejections are of the same kind and of paired names, or corresponding faults. -/
inductive SymbolError.Twin : SymbolError → SymbolError → Prop where
  | duplicate {a b : String} (h : T.names.Pairs a b) : Twin (.duplicate a) (.duplicate b)
  | tooLarge {a b : String} (h : T.names.Pairs a b) : Twin (.tooLarge a) (.tooLarge b)
  | fault {f f' : Fault} (h : T.fault f f') : Twin (.fault f) (.fault f')

end

variable {T : Twins}

/-! ### Symbols -/

namespace Symbol.Twin

theorem of_local {s : Symbol} (h : s.isGlobal = false) : s.Twin T s := .same s.name (.inl h)

variable {s s' : Symbol} (h : s.Twin T s')

include h

theorem ty : s'.ty = s.ty := by cases h <;> rfl

theorem isFunction : s'.isFunction = s.isFunction := by cases h <;> rfl

theorem isConstant : s'.isConstant = s.isConstant := by cases h <;> rfl

theorem isGlobal : s'.isGlobal = s.isGlobal := by cases h <;> rfl

theorem isPlaceholder : s'.isPlaceholder = s.isPlaceholder := by cases h <;> rfl

theorem isInt : s'.isInt = s.isInt := by cases h <;> rfl

theorem category : s'.category = s.category := by cases h <;> rfl

theorem matchesParameter (parameter : Ty) :
    s'.matchesParameter parameter = s.matchesParameter parameter := by cases h <;> rfl

/-- What is no function is at the same place of the frame, or storage of one of two kinds in the
    data. -/
theorem storage_cases (hfunction : s.isFunction = false) :
    s'.value = s.value ∧ s.isGlobal = false ∨
      s.isGlobal = true ∧ (s.ty = .int ∨ s.ty = .arrayInt) ∧ T.globals.Has s.ty s.value ∧
        T.l.Shifts T.l' s.value s'.value := by
  cases h with
  | same _ hplace =>
    rcases hplace with hlocal | hno
    · exact .inl ⟨rfl, hlocal⟩
    · rw [hno] at hfunction
      cases hfunction
  | data _ _ hglobal _ hty hplace hshift => exact .inr ⟨hglobal, hty, hplace, hshift⟩

/-- A function is the same but for its name. -/
theorem eq_of_isFunction (hfunction : s.isFunction = true) : ∃ name, s' = { s with name } := by
  cases h with
  | same name => exact ⟨name, rfl⟩
  | data _ hno => rw [hno] at hfunction; cases hfunction

theorem value_of_isConstant (hconstant : s.isConstant = true) : s'.value = s.value := by
  cases h with
  | same => rfl
  | data _ _ _ hno => rw [hno] at hconstant; cases hconstant

theorem withArgs (args : Option (List Ty)) :
    ({ s with args } : Symbol).Twin T { s' with args } := by
  cases h with
  | same name h => exact .same name h
  | data name hfunction hglobal hconstant hty hplace hshift =>
    exact .data name hfunction hglobal hconstant hty hplace hshift

theorem mono {more : Scope} (hmore : T.globals.Below more) : s.Twin (T.over more) s' := by
  cases h with
  | same name h => exact .same name h
  | data name hfunction hglobal hconstant hty hplace hshift =>
    exact .data name hfunction hglobal hconstant hty (hmore _ _ hplace) hshift

end Symbol.Twin

theorem Symbol.NamedTwin.placeholder {a b : String} (h : T.names.Pairs a b) :
    (Symbol.placeholder a).NamedTwin T (.placeholder b) := ⟨h, .same b (.inl rfl)⟩

/-- A symbol has a name just if its counterpart has the name that is paired with it. -/
theorem Symbol.NamedTwin.beq_name {s s' : Symbol} {a b : String} (h : s.NamedTwin T s')
    (hname : T.names.Pairs a b) : (s'.name == b) = (s.name == a) := by
  rw [Bool.eq_iff_iff, beq_iff_eq, beq_iff_eq]
  exact (T.names.one h.name hname).symm

/-! ### Scopes -/

theorem Scope.Below.append {scope : Scope} {x : Symbol} (h : scope.contains x.name = false) :
    scope.Below (scope.insert x) := by
  rintro ty address ⟨s, hs, hrest⟩
  refine ⟨s, ?_, hrest⟩
  rw [symbols_insert h]
  exact List.mem_append_left _ hs

/-- Parameters of a function are noted with it, and storage stays as it is. -/
theorem Scope.Below.modify_args (scope : Scope) (x : String) (args : Option (List Ty)) :
    scope.Below (scope.modify x fun s => { s with args }) := by
  rintro ty address ⟨s, hs, hfunction, hty, hvalue⟩
  refine ⟨_, List.mem_map_of_mem hs, ?_⟩
  split
  · exact ⟨hfunction, hty, hvalue⟩
  · exact ⟨hfunction, hty, hvalue⟩

namespace Scope.Twin

variable {s s' : Scope} {a b : String}

theorem mono (h : s.Twin T s') {more : Scope} (hmore : T.globals.Below more) :
    s.Twin (T.over more) s' := h.imp fun _ _ hx => ⟨hx.name, hx.twin.mono hmore⟩

theorem find? (h : s.Twin T s') (hname : T.names.Pairs a b) :
    Option.Rel (Symbol.NamedTwin T) (s.find? a) (s'.find? b) :=
  find?_related (fun _ _ hx => hx.beq_name hname) h

theorem functionAt? (h : s.Twin T s') (value : Word) :
    Option.Rel (Symbol.NamedTwin T) (s.functionAt? value) (s'.functionAt? value) := by
  refine find?_related (fun x x' hx => ?_) h
  cases hx.twin with
  | same => rfl
  | data _ hfunction => simp [hfunction]

theorem contains (h : s.Twin T s') (hname : T.names.Pairs a b) : s'.contains b = s.contains a := by
  rw [contains_eq_isSome_find?, contains_eq_isSome_find?]
  exact isSome_of_rel (h.find? hname)

theorem modify (h : s.Twin T s') (hname : T.names.Pairs a b) {u u' : Symbol → Symbol}
    (hu : ∀ x x', x.NamedTwin T x' → (u x).NamedTwin T (u' x')) :
    (s.modify a u).Twin T (s'.modify b u') := by
  refine List.forall₂_map_left_iff.mpr (List.forall₂_map_right_iff.mpr (h.imp ?_))
  intro x x' hx
  rw [hx.beq_name hname]
  split
  · exact hu x x' hx
  · exact hx

theorem insert (h : s.Twin T s') {x x' : Symbol} (hx : x.NamedTwin T x') :
    (s.insert x).Twin T (s'.insert x') := by
  rw [Scope.insert, Scope.insert, h.contains hx.name]
  split
  · exact h.modify hx.name fun _ _ _ => hx
  · exact List.rel_append h (.cons hx .nil)

end Scope.Twin

/-- What is first found in some scopes corresponds to what is first found in their counterparts. -/
theorem findSome?_twin {find find' : Scope → Option Symbol}
    (hfind : ∀ s s', Scope.Twin T s s' → Option.Rel (Symbol.NamedTwin T) (find s) (find' s')) :
    ∀ {scopes scopes' : List Scope}, List.Forall₂ (Scope.Twin T) scopes scopes' →
      Option.Rel (Symbol.NamedTwin T) (scopes.findSome? find) (scopes'.findSome? find')
  | _, _, .nil => .none
  | s :: _, s' :: _, .cons hs hscopes => by
    rw [List.findSome?_cons, List.findSome?_cons]
    have hrel := hfind s s' hs
    generalize find s = found, find' s' = found' at hrel
    cases hrel with
    | none => exact findSome?_twin hfind hscopes
    | some h => exact .some h

/-! ### Functions -/

namespace OpenFunction.Twin

variable {f f' : OpenFunction}

theorem mono (h : f.Twin T f') {more : Scope} (hmore : T.globals.Below more) :
    f.Twin (T.over more) f' := by
  obtain ⟨hname, houter, hblocks⟩ := h
  exact ⟨hname, houter.mono hmore, hblocks.imp fun _ _ hs => hs.mono hmore⟩

theorem scopes (h : f.Twin T f') : List.Forall₂ (Scope.Twin T) f.scopes f'.scopes := by
  obtain ⟨-, houter, hblocks⟩ := h
  exact List.rel_append hblocks (.cons houter .nil)

theorem insert (h : f.Twin T f') {x x' : Symbol} (hx : x.NamedTwin T x') :
    (f.insert x).Twin T (f'.insert x') := by
  obtain ⟨name, entry, registered, params, record, outer, blocks⟩ := f
  obtain ⟨hname, houter, hblocks⟩ := h
  cases hblocks with
  | nil => exact ⟨hname, houter.insert hx, .nil⟩
  | cons hblock hblocks => exact ⟨hname, houter, .cons (hblock.insert hx) hblocks⟩

theorem contains_current (h : f.Twin T f') {a b : String} (hname : T.names.Pairs a b) :
    f'.current.contains b = f.current.contains a := by
  obtain ⟨name, entry, registered, params, record, outer, blocks⟩ := f
  obtain ⟨-, houter, hblocks⟩ := h
  cases hblocks with
  | nil => exact houter.contains hname
  | cons hblock _ => exact hblock.contains hname

end OpenFunction.Twin

/-! ### Tables -/

namespace SymbolTable.Twin

variable {inside : Bool} {t t' : SymbolTable}

theorem initial : (SymbolTable.initial T.l.dataBase).Twin (T.over ⟨[SymbolTable.output]⟩) false
    (.initial T.l'.dataBase) where
  globals := .cons ⟨T.names.output, .same _ (.inr rfl)⟩ .nil
  current := rfl
  data := ⟨0, rfl, rfl⟩
  function := .none
  inside := rfl
  temporaries := rfl

theorem scopes (h : t.Twin T inside t') :
    List.Forall₂ (Scope.Twin T) t.scopes t'.scopes := by
  have hglobals : List.Forall₂ (Scope.Twin T) [t.globals] [t'.globals] := .cons h.globals .nil
  have hfunction := h.function
  rw [SymbolTable.scopes, SymbolTable.scopes]
  generalize t.function = function, t'.function = function' at hfunction
  cases hfunction with
  | none => exact hglobals
  | some hf => exact List.rel_append hf.scopes hglobals

theorem find? (h : t.Twin T inside t') {a b : String} (hname : T.names.Pairs a b) :
    Option.Rel (Symbol.NamedTwin T) (t.find? a) (t'.find? b) :=
  findSome?_twin (fun _ _ hs => hs.find? hname) h.scopes

theorem functionAt? (h : t.Twin T inside t') (value : Word) :
    Option.Rel (Symbol.NamedTwin T) (t.functionAt? value) (t'.functionAt? value) :=
  findSome?_twin (fun _ _ hs => hs.functionAt? value) h.scopes

theorem contains_current (h : t.Twin T inside t') {a b : String} (hname : T.names.Pairs a b) :
    t'.current.contains b = t.current.contains a := by
  have hfunction := h.function
  rw [SymbolTable.current, SymbolTable.current]
  generalize t.function = function, t'.function = function' at hfunction
  cases hfunction with
  | none => exact h.globals.contains hname
  | some hf => exact hf.contains_current hname

theorem function_none (h : t.Twin T false t') : t.function = none ∧ t'.function = none := by
  have hfunction := h.function
  have hinside := h.inside
  generalize t.function = function, t'.function = function' at hfunction hinside
  cases hfunction with
  | none => exact ⟨rfl, rfl⟩
  | some => cases hinside

theorem function_some (h : t.Twin T true t') :
    ∃ f f', t.function = some f ∧ t'.function = some f' ∧ f.Twin T f' := by
  have hfunction := h.function
  have hinside := h.inside
  generalize t.function = function, t'.function = function' at hfunction hinside
  cases hfunction with
  | none => cases hinside
  | some hf => exact ⟨_, _, rfl, rfl, hf⟩

/-- Two tables stay related when only the open function changes. -/
theorem withFunction (h : t.Twin T inside t') {f f' : OpenFunction} (hf : f.Twin T f') :
    ({ t with function := some f } : SymbolTable).Twin T true { t' with function := some f' } :=
  { h with function := .some hf, inside := rfl }

/-- The globals get new symbols, or new facts about old ones. -/
theorem withGlobals (h : t.Twin T inside t') {scope scope' : Scope}
    (hscope : scope.Twin (T.over scope) scope') (hbelow : T.globals.Below scope) :
    ({ t with globals := scope } : SymbolTable).Twin (T.over scope) inside
      { t' with globals := scope' } := by
  have hfunction := h.function
  refine { h with globals := hscope, current := rfl, function := ?_ }
  generalize t.function = function, t'.function = function' at hfunction
  cases hfunction with
  | none => exact .none
  | some hf => exact .some (hf.mono hbelow)

/-- A global of a new name goes to the end of the globals. -/
theorem withGlobal (h : t.Twin T inside t') {x x' : Symbol}
    (hname : t.globals.contains x.name = false)
    (hx : x.NamedTwin (T.over (t.globals.insert x)) x') :
    T.globals.Below (t.globals.insert x) ∧
      ({ t with globals := t.globals.insert x } : SymbolTable).Twin (T.over (t.globals.insert x))
        inside { t' with globals := t'.globals.insert x' } := by
  have hbelow : T.globals.Below (t.globals.insert x) := h.current ▸ Scope.Below.append hname
  exact ⟨hbelow, h.withGlobals ((h.globals.mono hbelow).insert hx) hbelow⟩

end SymbolTable.Twin

/-! ### Requests -/

/-- Two symbol tables correspond, after more storage was declared. -/
def SymbolTable.TwinOver (T : Twins) (inside : Bool) (t t' : SymbolTable) : Prop :=
  ∃ more, T.globals.Below more ∧ t.Twin (T.over more) inside t'

theorem SymbolTable.Twin.over {inside : Bool} {t t' : SymbolTable} (h : t.Twin T inside t') :
    t.TwinOver T inside t' := ⟨T.globals, Scope.Below.refl _, h⟩

/-- Two operations on tables answer alike. -/
def TableM.Agree {ε α : Type} (T : Twins) (inside : Bool) (m m' : TableM ε α)
    (result : α → α → Prop) (error : ε → ε → Prop) (inside' : Bool) : Prop :=
  Paired (SymbolTable.Twin T inside) m m' (fun a a' t t' => result a a' ∧ t.TwinOver T inside' t')
    fun e e' t t' => error e e' ∧ t.TwinOver T inside' t'

namespace TableM.Agree

open SymbolTable

variable {a b : String}

theorem openFunction (h : T.names.Pairs a b) (ty : Ty) (entry : Nat) :
    Agree T false (openFunction a ty entry) (SymbolTable.openFunction b ty entry) Eq
      (SymbolError.Twin T) true := by
  intro t t' ht
  obtain ⟨hf, hf'⟩ := ht.function_none
  have hopen : ∀ more registered, OpenFunction.Twin (T.over more)
      { name := a, entry, registered } { name := b, entry, registered } :=
    fun _ _ => ⟨h, .nil, .nil⟩
  cases hname : t.globals.contains a with
  | true =>
    rw [openFunction_duplicate hf hname,
      openFunction_duplicate hf' ((ht.globals.contains h).trans hname)]
    exact ⟨.duplicate h, (ht.withFunction (hopen T.globals false)).over⟩
  | false =>
    rw [openFunction_fresh hf hname, openFunction_fresh hf' ((ht.globals.contains h).trans hname)]
    have hsymbol : ∀ more, (functionSymbol a ty entry).NamedTwin (T.over more)
        (functionSymbol b ty entry) := fun _ => ⟨h, .same b (.inr rfl)⟩
    obtain ⟨hbelow, hglobal⟩ := ht.withGlobal hname (hsymbol _)
    exact ⟨rfl, _, hbelow, hglobal.withFunction (hopen _ true)⟩

/-- A parameter is noted with its function, and put into the frame. -/
theorem addParameter (h : T.names.Pairs a b) (ty : Ty) :
    Agree T true (addParameter a ty) (SymbolTable.addParameter b ty) (fun _ _ => True)
      (SymbolError.Twin T) true := by
  intro t t' ht
  obtain ⟨f, f', hf, hf', htwin⟩ := ht.function_some
  obtain ⟨more, hbelow, hadded⟩ : ({ t with globals := t.addType f ty } : SymbolTable).TwinOver T
      true { t' with globals := t'.addType f' ty } := by
    obtain ⟨hname, -, -⟩ := htwin
    rw [addType, addType]
    split
    · have hbelow : T.globals.Below (t.globals.modify f.name fun x =>
          { x with args := some (f.params ++ [ty]) }) := by
        rw [← ht.current]
        exact .modify_args _ _ _
      exact ⟨_, hbelow, ht.withGlobals ((ht.globals.mono hbelow).modify hname fun x x' hx =>
        ⟨hx.name, hx.twin.withArgs _⟩) hbelow⟩
    · exact ht.over
  obtain ⟨name, entry, registered, params, record, outer, blocks⟩ := f
  obtain ⟨hname, houter, hblocks⟩ := htwin.mono hbelow
  have hcontains := houter.contains h
  cases hblocks with
  | cons =>
    rw [addParameter_inBlock hf rfl, addParameter_inBlock hf' rfl]
    exact ⟨.fault (T.fault_of .parameterAfterBody h), ht.over⟩
  | nil =>
    by_cases hroom : record.HasRoom 1
    · cases hdup : outer.contains a with
      | true =>
        rw [addParameter_duplicate hf rfl hroom hdup,
          addParameter_duplicate hf' rfl hroom (hcontains.trans hdup)]
        exact ⟨.duplicate h, more, hbelow, hadded.withFunction ⟨hname, houter, .nil⟩⟩
      | false =>
        rw [addParameter_fresh hf rfl hroom hdup,
          addParameter_fresh hf' rfl hroom (hcontains.trans hdup)]
        exact ⟨trivial, more, hbelow, hadded.withFunction
          ⟨hname, houter.insert ⟨h, .same b (.inl rfl)⟩, .nil⟩⟩
    · obtain ⟨fault, hfault⟩ := Record.allocate_of_not_hasRoom hroom
      rw [addParameter_stops hf rfl hfault, addParameter_stops hf' rfl hfault]
      exact ⟨.fault (T.fault_refl _), more, hbelow,
        hadded.withFunction ⟨hname, houter, .nil⟩⟩

theorem openBlock : Agree T true openBlock openBlock Eq T.fault true := by
  intro t t' ht
  obtain ⟨f, _, hf, hf', ⟨hname, houter, hblocks⟩⟩ := ht.function_some
  rw [openBlock_eq hf, openBlock_eq hf']
  have hopened : ({ f with blocks := {} :: f.blocks } : OpenFunction).Twin T _ :=
    ⟨hname, houter, .cons .nil hblocks⟩
  exact ⟨rfl, (ht.withFunction hopened).over⟩

theorem closeBlock : Agree T true closeBlock closeBlock Eq T.fault true := by
  intro t t' ht
  obtain ⟨⟨name, entry, registered, params, record, outer, blocks⟩, _, hf, hf',
    ⟨hname, houter, hblocks⟩⟩ := ht.function_some
  cases hblocks with
  | nil =>
    rw [closeBlock_unmatched hf rfl, closeBlock_unmatched hf' rfl]
    exact ⟨T.fault_refl _, ht.over⟩
  | @cons _ _ blocks _ _ hblocks =>
    rw [closeBlock_eq hf rfl, closeBlock_eq hf' rfl]
    have hclosed : OpenFunction.Twin T ⟨name, entry, registered, params, record, outer, blocks⟩ _ :=
      ⟨hname, houter, hblocks⟩
    exact ⟨rfl, (ht.withFunction hclosed).over⟩

theorem closeFunction : Agree T true closeFunction closeFunction (ClosedFunction.Twin T) T.fault
    false := by
  intro t t' ht
  obtain ⟨⟨name, entry, registered, params, record, outer, blocks⟩, _, hf, hf',
    ⟨hname, houter, hblocks⟩⟩ := ht.function_some
  have hnone : ({ t with function := none } : SymbolTable).TwinOver T false
      { t' with function := none } :=
    SymbolTable.Twin.over { ht with function := .none, inside := rfl }
  simp only [SymbolTable.closeFunction, bind, EStateM.bind, get, getThe, MonadStateOf.get,
    EStateM.get, hf, hf']
  cases hblocks with
  | nil =>
    cases hclose : record.close with
    | ok record' => exact ⟨⟨_, hname, rfl⟩, hnone⟩
    | error fault => exact ⟨T.fault_refl _, hnone⟩
  | @cons _ _ blocks blocks' _ hblocks =>
    refine ⟨?_, hnone⟩
    simp only [List.length_cons, hblocks.length_eq]
    exact T.fault_of (.scopesUnclosed · _) hname

end TableM.Agree

section
variable {t t' : SymbolTable} {a b : String} {ty : Ty} {words : Nat}

/-- A name that is new where it is declared stands for a placeholder. -/
theorem SymbolTable.Twin.withPlaceholder {inside : Bool} (h : t.Twin T inside t')
    (hname : T.names.Pairs a b) (hfresh : t.current.contains a = false) :
    (t.insert (.placeholder a)).TwinOver T inside (t'.insert (.placeholder b)) := by
  cases inside with
  | true =>
    obtain ⟨f, f', hf, hf', htwin⟩ := h.function_some
    rw [SymbolTable.insert, SymbolTable.insert, hf, hf']
    exact (h.withFunction (htwin.insert (.placeholder hname))).over
  | false =>
    obtain ⟨hf, hf'⟩ := h.function_none
    rw [SymbolTable.current, hf] at hfresh
    have hglobal := h.withGlobal hfresh (.placeholder hname)
    rw [hf, hf'] at hglobal
    rw [SymbolTable.insert, SymbolTable.insert, hf, hf']
    exact ⟨_, hglobal⟩

/-- A declaration fits in a function of both tables or of none, and so it does for one layout. -/
theorem SymbolTable.Twin.hasRoom_eq {inside : Bool} (h : t.Twin T inside t')
    (hsame : inside = true ∨ T.l = T.l') (words : Nat) : t'.hasRoom words = t.hasRoom words := by
  cases inside with
  | true =>
    obtain ⟨f, f', hf, hf', htwin⟩ := h.function_some
    obtain ⟨-, -, -⟩ := htwin
    simp only [SymbolTable.hasRoom, hf, hf']
  | false =>
    obtain ⟨hf, hf'⟩ := h.function_none
    obtain ⟨d, hd, hd'⟩ := h.data
    rw [← hsame.resolve_left Bool.false_ne_true, ← hd] at hd'
    simp only [SymbolTable.hasRoom, hf, hf', hd']

/-- A declaration in a function takes words of its record, if that is still open. -/
theorem SymbolTable.Twin.declare_local (h : t.Twin T true t') (hname : T.names.Pairs a b)
    (hfresh : t.current.contains a = false) (hroom : t.hasRoom words = true) :
    (∃ s s' t₁ t₁', SymbolTable.declare a ty words t = .ok s t₁ ∧
      SymbolTable.declare b ty words t' = .ok s' t₁' ∧ t₁.TwinOver T true t₁') ∨
    ∃ fault, SymbolTable.declare a ty words t = .error (.fault fault) t ∧
      SymbolTable.declare b ty words t' = .error (.fault fault) t' := by
  have hfresh' := (h.contains_current hname).trans hfresh
  have hroom' := (h.hasRoom_eq (.inl rfl) words).trans hroom
  obtain ⟨f, f', hf, hf', htwin⟩ := h.function_some
  have hrecord : f'.record = f.record := by obtain ⟨-, -, -⟩ := htwin; rfl
  cases hclosed : f.record.closed with
  | true =>
    have hstops : f.record.allocate words = _ := if_pos hclosed
    exact .inr ⟨_, SymbolTable.declare_stops hfresh hroom
      (SymbolTable.allocate_local_stops hf hstops), SymbolTable.declare_stops hfresh' hroom'
      (SymbolTable.allocate_local_stops hf' (hrecord ▸ hstops))⟩
  | false =>
    refine .inl ⟨_, _, _, _, SymbolTable.declare_local hf hclosed hfresh hroom,
      SymbolTable.declare_local hf' (hrecord ▸ hclosed) hfresh' hroom', ?_⟩
    rw [hrecord]
    obtain ⟨hfname, houter, hblocks⟩ := htwin
    have hgrown : (f.grow words).Twin T _ := ⟨hfname, houter, hblocks⟩
    exact (h.withFunction (hgrown.insert ⟨hname, .same b (.inl rfl)⟩)).over

/-- A declaration outside of functions takes words of the data. -/
theorem SymbolTable.Twin.declare_global (h : t.Twin T false t') (hname : T.names.Pairs a b)
    (hty : ty = .int ∨ ty = .arrayInt) (hfresh : t.current.contains a = false)
    (hroom : t.hasRoom words = true) (hroom' : t'.hasRoom words = true) :
    ∃ s s' t₁ t₁', SymbolTable.declare a ty words t = .ok s t₁ ∧
      SymbolTable.declare b ty words t' = .ok s' t₁' ∧ t₁.TwinOver T false t₁' := by
  obtain ⟨hf, hf'⟩ := h.function_none
  have hend := (SymbolTable.hasRoom_iff hf).mp hroom
  have hend' := (SymbolTable.hasRoom_iff hf').mp hroom'
  refine ⟨_, _, _, _, SymbolTable.declare_global hf hfresh hroom,
    SymbolTable.declare_global hf' ((h.contains_current hname).trans hfresh) hroom', ?_⟩
  have hfresh₀ : t.globals.contains a = false := by
    rw [SymbolTable.current, hf] at hfresh
    exact hfresh
  obtain ⟨d, hd, hd'⟩ := h.data
  have hvalue : ∀ address, address + Word.size * words ≤ declaredLimit →
      (BitVec.ofNat 32 address).toNat = address := by
    intro address haddress
    rw [BitVec.toNat_ofNat]
    exact Nat.mod_eq_of_lt (Nat.lt_of_le_of_lt (Nat.le_of_add_right_le haddress) (by decide))
  have hcell : (Symbol.cell a ty t.dataEnd true).NamedTwin
      (T.over (t.globals.insert (.cell a ty t.dataEnd true))) (.cell b ty t'.dataEnd true) := by
    refine ⟨hname, .data b rfl rfl rfl hty ⟨_, ?_, rfl, rfl, rfl⟩ ⟨d, ?_, ?_⟩⟩
    · rw [Twins.over, Scope.symbols_insert hfresh₀]
      exact List.mem_append_right _ (List.mem_singleton_self _)
    · exact (hvalue _ hend).trans hd
    · exact (hvalue _ hend').trans hd'
  obtain ⟨hbelow, hglobal⟩ := h.withGlobal hfresh₀ hcell
  refine ⟨_, hbelow, { hglobal with data := ⟨d + Word.size * words, ?_, ?_⟩ }⟩
  · exact (congrArg (· + _) hd).trans (Nat.add_assoc ..)
  · exact (congrArg (· + _) hd').trans (Nat.add_assoc ..)

/-- A declaration that fits both tables is made in both, or stopped by the same fault. -/
theorem SymbolTable.Twin.declare {inside : Bool} (h : t.Twin T inside t')
    (hname : T.names.Pairs a b) (hty : ty = .int ∨ ty = .arrayInt)
    (hfresh : t.current.contains a = false) (hroom : t.hasRoom words = true)
    (hroom' : t'.hasRoom words = true) :
    (∃ s s' t₁ t₁', SymbolTable.declare a ty words t = .ok s t₁ ∧
      SymbolTable.declare b ty words t' = .ok s' t₁' ∧ t₁.TwinOver T inside t₁') ∨
    ∃ fault, SymbolTable.declare a ty words t = .error (.fault fault) t ∧
      SymbolTable.declare b ty words t' = .error (.fault fault) t' := by
  cases inside with
  | true => exact h.declare_local hname hfresh hroom
  | false => exact .inl (h.declare_global hname hty hfresh hroom hroom')

end

end OnePass
