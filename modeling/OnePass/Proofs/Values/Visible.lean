import OnePass.Proofs.Patches.Effects
import OnePass.Proofs.Symbol.Storage
import OnePass.Proofs.Translate.Linked
import OnePass.Proofs.Translate.Recover

/-!
# The storage of visible names

The trace of a run tells which storage was declared. As long as no mistake is recorded, every name
that can be seen stands for a function or for a symbol with storage that is in use: that of a global
lies in the global data, and that of a parameter or a local in the record of the open function,
behind its header. -/

namespace OnePass

/-- What an event does to the storage in use, that is to symbols and their numbers of words: a
    function that is opened starts with the storage of globals only. -/
def Event.note (held : List (Symbol × Nat)) : Event → List (Symbol × Nat)
  | .declared s words => (s, words) :: held
  | .parameterAdded s => (s, 1) :: held
  | .functionOpened _ _ => held.filter (·.1.isGlobal)
  | _ => held

/-- The storage in use. -/
def Generator.holdings (g : Generator) : List (Symbol × Nat) := g.trace.toList.foldl Event.note []

/-- The words of a symbol lie in the data, or behind the header of the record if one is open. Only
    arrays have other than one word. -/
structure Symbol.Kept (base dataEnd : Nat) (record : Option Record) (s : Symbol) (words : Nat) :
    Prop where
  storage : s.isFunction = false ∧ s.isConstant = false ∧ s.isPlaceholder = false
  single : words = 1 ∨ ∃ element : Ty, s.ty = element.arrayOf
  inData : s.isGlobal = true →
    base ≤ s.value.toNat ∧ s.value.toNat + Word.size * words ≤ dataEnd
  inRecord : s.isGlobal = false → ∀ r, record = some r →
    Record.header ≤ s.value.toNat ∧ s.value.toNat + Word.size * words ≤ r.size

/-- Every name of a table has its storage among what is held, or is that of a function. -/
structure SymbolTable.Houses (base : Nat) (held : List (Symbol × Nat)) (t : SymbolTable) :
    Prop where
  start : base ≤ t.dataEnd
  limit : t.dataEnd ≤ addressLimit
  kept : ∀ x ∈ held, x.1.Kept base t.dataEnd (t.function.map (·.record)) x.2
  names : t.Holds (fun s => ∃ words, (s, words) ∈ held) fun s =>
    s.isFunction = true ∧ s.isPlaceholder = false ∨
      s.isGlobal = true ∧ ∃ words, (s, words) ∈ held
  record : ∀ f, t.function = some f → f.record.closed = false ∧
    Record.header ≤ f.record.size ∧ f.record.size ≤ addressLimit
  /-- The symbol of the open function is no other's. -/
  own : ∀ f, t.function = some f → f.registered = true → ∀ s ∈ t.globals.symbols,
    s.name = f.name → s.isFunction = true

section
variable {base : Nat} {held : List (Symbol × Nat)} {t : SymbolTable} {f : OpenFunction}
  {x : String} {ty : Ty} {words : Nat}

/-- Storage stays where it is while the data and the record grow. -/
theorem Symbol.Kept.mono {dataEnd dataEnd' : Nat} {record record' : Option Record} {s : Symbol}
    (h : s.Kept base dataEnd record words) (hdata : dataEnd ≤ dataEnd')
    (hrecord : ∀ r', record' = some r' → ∃ r, record = some r ∧ r.size ≤ r'.size) :
    s.Kept base dataEnd' record' words where
  storage := h.storage
  single := h.single
  inData hs := ⟨(h.inData hs).1, Nat.le_trans (h.inData hs).2 hdata⟩
  inRecord hs r' hr' := by
    obtain ⟨r, hr, hle⟩ := hrecord r' hr'
    exact ⟨(h.inRecord hs r hr).1, Nat.le_trans (h.inRecord hs r hr).2 hle⟩

namespace SymbolTable.Houses

theorem initial {dataBase : Word} (h : dataBase.toNat ≤ addressLimit) :
    (SymbolTable.initial dataBase).Houses dataBase.toNat [] where
  start := Nat.le_refl _
  limit := h
  kept := nofun
  names := ⟨nofun, fun _ hs => .inl (List.mem_singleton.mp hs ▸ ⟨rfl, rfl⟩)⟩
  record := nofun
  own := nofun

/-- The symbol of the open function may learn its parameters; it is one of a function before and
    after. -/
theorem mem_addType (h : t.Houses base held) (hf : t.function = some f) {s : Symbol}
    (hs : s ∈ (t.addType f ty).symbols) :
    s ∈ t.globals.symbols ∨ s.isFunction = true ∧ s.isPlaceholder = false := by
  rw [addType] at hs
  split at hs
  · rename_i hregistered
    obtain ⟨s₀, hs₀, rfl⟩ := List.mem_map.mp hs
    split
    · rename_i hname
      have hfn := h.own f hf hregistered s₀ hs₀ (beq_iff_eq.mp hname)
      rcases h.names.file s₀ hs₀ with ⟨-, hplain⟩ | ⟨-, words, hheld⟩
      · exact .inr ⟨hfn, hplain⟩
      · have hstorage := (h.kept _ hheld).storage.1
        rw [hfn] at hstorage
        cases hstorage
    · exact .inl hs₀
  · exact .inl hs

/-- The open function changes: its record grows, and new storage in it comes with new names. -/
theorem update (h : t.Houses base held) (hf : t.function = some f) {t' : SymbolTable}
    {f' : OpenFunction} (new : List (Symbol × Nat)) (hdata : t'.dataEnd = t.dataEnd)
    (hf' : t'.function = some f') (hsame : f'.name = f.name ∧ f'.registered = f.registered)
    (hsize : f.record.size ≤ f'.record.size)
    (hrecord : f'.record.closed = false ∧ f'.record.size ≤ addressLimit)
    (hnew : ∀ y ∈ new, y.1.Kept base t.dataEnd (some f'.record) y.2)
    (hscopes : ∀ scope ∈ f'.scopes, ∀ s ∈ scope.symbols, ∃ words, (s, words) ∈ new ++ held)
    (hglobals : t'.globals = t.globals ∨ ∃ ty, t'.globals = t.addType f ty) :
    t'.Houses base (new ++ held) := by
  have hfile : ∀ s ∈ t'.globals.symbols,
      s ∈ t.globals.symbols ∨ s.isFunction = true ∧ s.isPlaceholder = false := by
    intro s hs
    rcases hglobals with heq | ⟨ty, heq⟩
    · exact .inl (heq ▸ hs)
    · exact h.mem_addType hf (heq ▸ hs)
  refine ⟨hdata ▸ h.start, hdata ▸ h.limit, fun y hy => ?_, ⟨?_, fun s hs => ?_⟩, ?_, ?_⟩
  · rw [hf', hdata]
    rcases List.mem_append.mp hy with hy | hy
    · exact hnew y hy
    · refine (h.kept y hy).mono (Nat.le_refl _) fun r hr => ⟨f.record, by rw [hf]; rfl, ?_⟩
      rw [← Option.some.inj hr]
      exact hsize
  · rw [innerScopes, hf']
    exact hscopes
  · rcases hfile s hs with hs | hfn
    · rcases h.names.file s hs with hfn | ⟨hglobal, words, hheld⟩
      · exact .inl hfn
      · exact .inr ⟨hglobal, words, List.mem_append_right _ hheld⟩
    · exact .inl hfn
  · intro f₁ hf₁
    obtain rfl := Option.some.inj (hf'.symm.trans hf₁)
    exact ⟨hrecord.1, Nat.le_trans (h.record f hf).2.1 hsize, hrecord.2⟩
  · intro f₁ hf₁ hregistered s hs hname
    obtain rfl := Option.some.inj (hf'.symm.trans hf₁)
    rcases hfile s hs with hs | hfn
    · exact h.own f hf (hsame.2 ▸ hregistered) s hs (hname.trans hsame.1)
    · exact hfn.1

/-- The open function changes, and nothing in its record is handed out. -/
theorem updateNone (h : t.Houses base held) (hf : t.function = some f) {t' : SymbolTable}
    {f' : OpenFunction} (hdata : t'.dataEnd = t.dataEnd) (hf' : t'.function = some f')
    (hsame : f'.name = f.name ∧ f'.registered = f.registered)
    (hsize : f.record.size ≤ f'.record.size)
    (hrecord : f'.record.closed = false ∧ f'.record.size ≤ addressLimit)
    (hscopes : ∀ scope ∈ f'.scopes, ∀ s ∈ scope.symbols, ∃ words, (s, words) ∈ held)
    (hglobals : t'.globals = t.globals ∨ ∃ ty, t'.globals = t.addType f ty) :
    t'.Houses base held :=
  h.update hf [] hdata hf' hsame hsize hrecord (List.forall_mem_nil _) hscopes hglobals

/-- No function is open any more, and the global data may have grown. -/
theorem outside (h : t.Houses base held) {t' : SymbolTable} (hf : t'.function = none)
    (hglobals : t'.globals = t.globals) (hdata : t.dataEnd ≤ t'.dataEnd)
    (hlimit : t'.dataEnd ≤ addressLimit) : t'.Houses base held := by
  refine ⟨Nat.le_trans h.start hdata, hlimit, fun y hy => (h.kept y hy).mono hdata ?_,
    ⟨?_, hglobals ▸ h.names.file⟩, ?_, ?_⟩
  all_goals simp [innerScopes, hf]

/-- The next words of a record. -/
theorem kept_cell {r : Record} (hsize : Record.header ≤ r.size) (hroom : r.HasRoom words)
    (hwords : words = 1 ∨ ∃ element : Ty, ty = element.arrayOf) (dataEnd : Nat) :
    (Symbol.cell x ty r.size false).Kept base dataEnd (some (r.grow words)) words where
  storage := ⟨rfl, rfl, rfl⟩
  single := hwords
  inData := nofun
  inRecord _ r' hr' := by
    obtain rfl := Option.some.inj hr'
    have hlimit : r.size + Word.size * words ≤ 2147483647 := hroom.2
    have hvalue : (Symbol.cell x ty r.size false).value.toNat = r.size :=
      Word.toNat_ofNat (by omega)
    rw [hvalue]
    exact ⟨hsize, Nat.le_refl _⟩

/-- The names of a scope, with one more that has storage. -/
theorem names_insert {scope : Scope} {address : Nat}
    (h : ∀ s ∈ scope.symbols, ∃ words, (s, words) ∈ held) (hfresh : scope.contains x = false) :
    ∀ s ∈ (scope.insert (.cell x ty address false)).symbols,
      ∃ words', (s, words') ∈ [(Symbol.cell x ty address false, words)] ++ held := by
  intro s hs
  rcases mem_insert_cell hfresh hs with hs | rfl
  · obtain ⟨words', hheld⟩ := h s hs
    exact ⟨words', List.mem_append_right _ hheld⟩
  · exact ⟨words, List.mem_cons_self ..⟩

theorem names_append {scope : Scope} (h : ∀ s ∈ scope.symbols, ∃ words, (s, words) ∈ held)
    (new : List (Symbol × Nat)) :
    ∀ s ∈ scope.symbols, ∃ words, (s, words) ∈ new ++ held := by
  intro s hs
  obtain ⟨words, hheld⟩ := h s hs
  exact ⟨words, List.mem_append_right _ hheld⟩

/-! ### Operations -/

theorem withLocal (h : t.Houses base held) (hf : t.function = some f)
    (hfresh : f.current.contains x = false) (hfits : f.record.fits words)
    (hwords : words = 1 ∨ ∃ element : Ty, ty = element.arrayOf) :
    (t.withLocal f x ty words).Houses base
      ([(.cell x ty f.record.size false, words)] ++ held) := by
  obtain ⟨hopen, hheader, -⟩ := h.record f hf
  have hroom := Record.hasRoom_of_fits hopen hfits
  have hinner := h.names.inner_of_function hf
  have hinsert : ∀ s, ((f.grow words).insert s).record = f.record.grow words ∧
      ((f.grow words).insert s).name = f.name ∧
      ((f.grow words).insert s).registered = f.registered := by
    intro s
    rw [OpenFunction.insert]
    split <;> exact ⟨rfl, rfl, rfl⟩
  obtain ⟨hrecord, hsame⟩ := hinsert (.cell x ty f.record.size false)
  refine h.update hf _ rfl rfl hsame ?_ ?_ (fun y hy => ?_) (fun scope hscope => ?_) (.inl rfl)
  · rw [hrecord]
    exact Nat.le_add_right ..
  · rw [hrecord]
    exact hroom
  · rw [hrecord, List.mem_singleton.mp hy]
    exact kept_cell hheader hroom hwords _
  · rw [OpenFunction.scopes_insert, List.mem_cons] at hscope
    rcases hscope with rfl | hscope
    · have hcurrent : f.current ∈ f.scopes := by
        rw [f.scopes_eq]
        exact List.mem_cons_self ..
      exact names_insert (hinner _ hcurrent) hfresh
    · exact names_append (hinner scope (List.mem_of_mem_tail hscope)) _

theorem withGlobal (h : t.Houses base held) (hf : t.function = none)
    (hfresh : t.globals.contains x = false) (hroom : t.hasRoom words)
    (hwords : words = 1 ∨ ∃ element : Ty, ty = element.arrayOf) :
    (t.withGlobal x ty words).Houses base ((.cell x ty t.dataEnd true, words) :: held) := by
  have hend : t.dataEnd + Word.size * words ≤ 1073741824 := (hasRoom_iff hf).mp hroom
  have hvalue : (Symbol.cell x ty t.dataEnd true).value.toNat = t.dataEnd :=
    Word.toNat_ofNat (by omega)
  have hstart := h.start
  have hfn : (t.withGlobal x ty words).function = none := hf
  have hlimit : t.dataEnd + Word.size * words ≤ addressLimit := Nat.le_trans hend (by decide)
  refine ⟨Nat.le_trans hstart (Nat.le_add_right ..), hlimit, fun y hy => ?_, ⟨?_, fun s hs => ?_⟩,
    ?_, ?_⟩
  · rw [hfn]
    rcases List.mem_cons.mp hy with rfl | hy
    · refine ⟨⟨rfl, rfl, rfl⟩, hwords, fun _ => ?_, by rintro ⟨⟩⟩
      rw [hvalue]
      exact ⟨hstart, Nat.le_refl _⟩
    · exact (h.kept y hy).mono (Nat.le_add_right ..) (by rintro _ ⟨⟩)
  · rw [innerScopes, hfn]
    rintro _ ⟨⟩
  · rcases mem_insert_cell hfresh hs with hs | rfl
    · rcases h.names.file s hs with hfunction | ⟨hglobal, words', hheld⟩
      · exact .inl hfunction
      · exact .inr ⟨hglobal, words', List.mem_cons_of_mem _ hheld⟩
    · exact .inr ⟨rfl, words, List.mem_cons_self ..⟩
  · rw [hfn]
    rintro _ ⟨⟩
  · rw [hfn]
    rintro _ ⟨⟩

/-- A function is opened, also if its name is taken. -/
theorem enter (h : t.Houses base held) (ty : Ty) (entry : Nat) {t' : SymbolTable}
    {registered : Bool} (hdata : t'.dataEnd = t.dataEnd)
    (hf' : t'.function = some { name := x, entry, registered })
    (hglobals : t'.globals = t.globals ∧ registered = false ∨
      t.globals.contains x = false ∧ t'.globals = t.globals.insert (functionSymbol x ty entry)) :
    t'.Houses base (held.filter (·.1.isGlobal)) := by
  have hfile : ∀ s ∈ t'.globals.symbols, s ∈ t.globals.symbols ∨ s = functionSymbol x ty entry := by
    intro s hs
    rcases hglobals with ⟨heq, -⟩ | ⟨hfresh, heq⟩
    · exact .inl (heq ▸ hs)
    · rwa [heq, Scope.symbols_insert (by exact hfresh), List.mem_append, List.mem_singleton] at hs
  refine ⟨hdata ▸ h.start, hdata ▸ h.limit, fun y hy => ?_, ⟨?_, fun s hs => ?_⟩, ?_, ?_⟩
  · obtain ⟨hy, hglobal⟩ := List.mem_filter.mp hy
    have hkept := h.kept y hy
    refine ⟨hkept.storage, hkept.single, hdata ▸ hkept.inData, fun hlocal => ?_⟩
    rw [hglobal] at hlocal
    cases hlocal
  · rw [innerScopes, hf']
    rintro scope hscope s hs
    rw [List.mem_singleton.mp hscope] at hs
    cases hs
  · rcases hfile s hs with hs | rfl
    · rcases h.names.file s hs with hfunction | ⟨hglobal, words, hheld⟩
      · exact .inl hfunction
      · exact .inr ⟨hglobal, words, List.mem_filter.mpr ⟨hheld, hglobal⟩⟩
    · exact .inl ⟨rfl, rfl⟩
  · intro f hf
    obtain rfl := Option.some.inj (hf'.symm.trans hf)
    exact ⟨rfl, Nat.le_refl _, (by decide : Record.header ≤ addressLimit)⟩
  · intro f hf hregistered s hs hname
    obtain rfl := Option.some.inj (hf'.symm.trans hf)
    rcases hglobals with ⟨-, hnot⟩ | ⟨hfresh, -⟩
    · rw [hnot] at hregistered
      cases hregistered
    · rcases hfile s hs with hs | rfl
      · rw [Scope.contains, List.any_eq_false] at hfresh
        exact absurd (beq_iff_eq.mpr hname) (hfresh s hs)
      · rfl

end SymbolTable.Houses

/-! ### Requests -/

/-- The table after a request and its events fit what is held. -/
def Request.Fits {ε α : Type} (r : Request ε α) (base : Nat) (held : List (Symbol × Nat))
    (t : SymbolTable) : Prop :=
  (r.run t).2.1.Houses base ((r.run t).2.2.foldl Event.note held)

namespace Request.Fits

variable {ε α : Type} {r : Request ε α} {t' : SymbolTable}

theorem of_ok {a : α} (hrun : r.operation t = .ok a t')
    (h : t'.Houses base ((r.events (.ok a)).foldl Event.note held)) : r.Fits base held t := by
  rw [Fits, Request.run, EStateM.run, hrun]
  exact h

theorem of_error {e : ε} (hrun : r.operation t = .error e t')
    (h : t'.Houses base ((r.events (.error e)).foldl Event.note held)) : r.Fits base held t := by
  rw [Fits, Request.run, EStateM.run, hrun]
  exact h

variable (h : t.Houses base held)
include h

theorem declare (hwords : words = 1 ∨ ∃ element : Ty, ty = element.arrayOf) :
    (Request.declare x ty words).Fits base held t := by
  cases hfresh : t.current.contains x with
  | true => exact .of_error (SymbolTable.declare_duplicate hfresh) h
  | false =>
    cases hroom : t.hasRoom words with
    | false => exact .of_error (SymbolTable.declare_tooLarge hfresh hroom) h
    | true =>
      cases hf : t.function with
      | none =>
        refine .of_ok (SymbolTable.declare_global hf hfresh hroom) (h.withGlobal hf ?_ hroom hwords)
        rwa [SymbolTable.current, hf] at hfresh
      | some f =>
        have hfits : f.record.fits words := by rwa [SymbolTable.hasRoom, hf] at hroom
        refine .of_ok (SymbolTable.declare_local hf (h.record f hf).1 hfresh hroom)
          (h.withLocal hf ?_ hfits hwords)
        rwa [SymbolTable.current, hf] at hfresh

theorem openFunction {entry : Nat} : (Request.openFunction x ty entry).Fits base held t := by
  cases hf : t.function with
  | some f =>
    exact .of_error (SymbolTable.openFunction_inside hf entry) h
  | none =>
    cases hdup : t.globals.contains x with
    | true =>
      exact .of_error (SymbolTable.openFunction_duplicate hf hdup entry)
        (h.enter ty entry rfl rfl (.inl ⟨rfl, rfl⟩))
    | false =>
      exact .of_ok (SymbolTable.openFunction_fresh hf hdup entry)
        (h.enter ty entry rfl rfl (.inr ⟨hdup, rfl⟩))

theorem addParameter : (Request.addParameter x ty).Fits base held t := by
  cases hf : t.function with
  | none => exact .of_error (SymbolTable.addParameter_outside hf) h
  | some f =>
    obtain ⟨hopen, hheader, hlimit⟩ := h.record f hf
    have hinner := h.names.inner_of_function hf
    cases hblocks : f.blocks with
    | cons block blocks => exact .of_error (SymbolTable.addParameter_inBlock hf hblocks) h
    | nil =>
      by_cases hroom : f.record.HasRoom 1
      · cases hfresh : f.outer.contains x with
        | true =>
          refine .of_error (SymbolTable.addParameter_duplicate hf hblocks hroom hfresh) ?_
          exact h.updateNone hf rfl rfl ⟨rfl, rfl⟩ (Nat.le_add_right ..) hroom hinner
            (.inr ⟨ty, rfl⟩)
        | false =>
          refine .of_ok (SymbolTable.addParameter_fresh hf hblocks hroom hfresh) ?_
          refine h.update hf [(.cell x ty f.record.size false, 1)] rfl rfl ⟨rfl, rfl⟩
            (Nat.le_add_right ..) hroom (fun y hy => ?_) (fun scope hscope => ?_) (.inr ⟨ty, rfl⟩)
          · rw [List.mem_singleton.mp hy]
            exact SymbolTable.Houses.kept_cell hheader hroom (.inl rfl) _
          · have hscope : scope ∈ f.blocks ++ [f.outer.insert _] := hscope
            rw [hblocks, List.nil_append, List.mem_singleton] at hscope
            rw [hscope]
            exact SymbolTable.Houses.names_insert
              (hinner f.outer (List.mem_append_right _ (List.mem_singleton_self _))) hfresh
      · obtain ⟨fault, hfault⟩ := Record.allocate_of_not_hasRoom hroom
        refine .of_error (SymbolTable.addParameter_stops hf hblocks hfault) ?_
        exact h.updateNone hf rfl rfl ⟨rfl, rfl⟩ (Nat.le_refl _) ⟨hopen, hlimit⟩ hinner
          (.inr ⟨ty, rfl⟩)

theorem openBlock : Request.openBlock.Fits base held t := by
  cases hf : t.function with
  | none => exact .of_error (SymbolTable.openBlock_outside hf) h
  | some f =>
    obtain ⟨hopen, -, hlimit⟩ := h.record f hf
    refine .of_ok (SymbolTable.openBlock_eq hf) ?_
    exact h.updateNone hf rfl rfl ⟨rfl, rfl⟩ (Nat.le_refl _) ⟨hopen, hlimit⟩
      (h.names.openBlock hf).inner (.inl rfl)

theorem closeBlock : Request.closeBlock.Fits base held t := by
  cases hf : t.function with
  | none => exact .of_error (SymbolTable.closeBlock_outside hf) h
  | some f =>
    cases hblocks : f.blocks with
    | nil => exact .of_error (SymbolTable.closeBlock_unmatched hf hblocks) h
    | cons block blocks =>
      obtain ⟨hopen, -, hlimit⟩ := h.record f hf
      refine .of_ok (SymbolTable.closeBlock_eq hf hblocks) ?_
      refine h.updateNone hf rfl rfl ⟨rfl, rfl⟩ (Nat.le_refl _) ⟨hopen, hlimit⟩
        (fun scope hscope => h.names.inner_of_function hf scope ?_) (.inl rfl)
      rw [OpenFunction.scopes, hblocks]
      exact List.mem_cons_of_mem _ hscope

theorem newTemporary {indexed : Bool} : (Request.newTemporary indexed).Fits base held t := by
  rcases t.newTemporary_cases indexed with ⟨fault, hrun, -⟩ | ⟨hspace, _, _, _, hrun⟩
  · exact .of_error hrun h
  · refine .of_ok hrun ?_
    rw [SymbolTable.HasSpace] at hspace
    simp only [SymbolTable.grow]
    cases hf : t.function with
    | some f =>
      have hinner := h.names.inner_of_function hf
      rw [hf] at hspace
      exact h.updateNone hf rfl rfl ⟨rfl, rfl⟩ (Nat.le_add_right ..) hspace hinner (.inl rfl)
    | none =>
      rw [hf] at hspace
      exact h.outside rfl rfl (Nat.le_add_right ..) hspace

theorem closeFunction : Request.closeFunction.Fits base held t := by
  cases hf : t.function with
  | none => exact .of_error (SymbolTable.closeFunction_outside hf) h
  | some f =>
    cases hblocks : f.blocks with
    | nil =>
      exact .of_ok (SymbolTable.closeFunction_eq hf hblocks (h.record f hf).1)
        (h.outside rfl rfl (Nat.le_refl _) h.limit)
    | cons block blocks =>
      exact .of_error (SymbolTable.closeFunction_inBlock hf hblocks)
        (h.outside rfl rfl (Nat.le_refl _) h.limit)

theorem of_known (hr : r.Known) : r.Fits base held t := by
  cases hr with
  | declare hwords => exact .declare h hwords
  | openFunction => exact .openFunction h
  | addParameter => exact .addParameter h
  | openBlock => exact .openBlock h
  | closeBlock => exact .closeBlock h
  | newTemporary => exact .newTemporary h
  | closeFunction => exact .closeFunction h

end Request.Fits

end

/-! ### Runs -/

theorem Event.note_of_not_isStorage {e : Event} (h : e.isStorage = false)
    (held : List (Symbol × Nat)) : e.note held = held := by
  cases e with
  | declared | parameterAdded | functionOpened => cases h
  | _ => rfl

/-- Unless a mistake is recorded, every visible name has its storage. -/
theorem Generator.stable_houses (base : Nat) :
    Generator.Stable fun g => g.diagnostics = #[] → g.symbols.Houses base g.holdings where
  similar := by
    rintro g g' ⟨-, hsymbols, hdiagnostics, htrace, -⟩ hg hempty
    rw [hsymbols, holdings, htrace]
    exact hg (hdiagnostics ▸ hempty)
  log := by
    intro g e he hg hempty
    rw [holdings, Array.toList_push, List.foldl_append, List.foldl_cons, List.foldl_nil,
      Event.note_of_not_isStorage he]
    exact hg hempty
  report := by
    intro g line cause _ hempty
    exact absurd hempty Array.push_ne_empty
  request := by
    intro ε α g r hr hg hempty
    have hfits := Request.Fits.of_known (hg hempty) hr
    have htrace : (g.after r).trace.toList = g.trace.toList ++ (r.run g.symbols).2.2 := by
      simp [after]
    rw [holdings, htrace, List.foldl_append]
    exact hfits
  placeholder _ _ hmistake _ hempty := absurd hempty hmistake

/-- A run that has recorded no mistake has given every visible name its storage. -/
theorem Gen.Ran.houses {l : Layout} (hl : l.dataBase.toNat ≤ addressLimit) {steps : List Step}
    {g : Generator} (h : Ran steps (Generator.initial l) g) (hempty : g.diagnostics = #[]) :
    g.symbols.Houses l.dataBase.toNat g.holdings := by
  have hend := Preserves.performAll steps _ (Generator.stable_houses l.dataBase.toNat)
    (Generator.initial l) fun _ => .initial hl
  rw [Generator.run, EStateM.run, h] at hend
  exact hend hempty

end OnePass
