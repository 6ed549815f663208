import OnePass.Proofs.Symbol.Table
import OnePass.Proofs.Word

/-!
# Storage never overlaps

The symbol table hands out storage from two places: the global data while no function is open, and
the record of the function that is. Both only grow. What a call can do to them is said once, in
`Usage.Moves`; a session of calls, whichever of them fail, then fills the global data and every
record from its start upwards, so that no two ranges share a cell. -/

namespace OnePass

/-! ### Calls -/

/-- A call of an operation of the symbol table. -/
inductive TableCall where
  /-- A variable has one word, an array any number of them. -/
  | declare (name : String) (ty : Ty) (words : Nat)
  | declarePlaceholder (name : String)
  | openFunction (name : String) (ty : Ty) (entry : Nat)
  | addParameter (name : String) (ty : Ty)
  | openBlock
  | closeBlock
  | newTemporary (indexed : Bool)
  | closeFunction
  deriving DecidableEq, Repr

/-- Words handed out from an address or an offset on. -/
structure Grant where
  value : Word
  words : Nat
  deriving DecidableEq, Repr

namespace Grant

/-- The first address, or offset. -/
def start (g : Grant) : Int := g.value.toInt

/-- The first address behind the words. -/
def stop (g : Grant) : Int := g.start + Word.size * g.words

/-- No cell belongs to two ranges. -/
def Apart (g h : Grant) : Prop :=
  ∀ a : Int, ¬ ((g.start ≤ a ∧ a < g.stop) ∧ h.start ≤ a ∧ a < h.stop)

end Grant

namespace TableCall

/-- The operation of a call; some give a symbol. -/
def operation : TableCall → TableM SymbolError (Option Symbol)
  | .declare name ty words => some <$> SymbolTable.declare name ty words
  | .declarePlaceholder name =>
    (fun _ => none) <$> SymbolTable.lift (SymbolTable.declarePlaceholder name)
  | .openFunction name ty entry => (fun _ => none) <$> SymbolTable.openFunction name ty entry
  | .addParameter name ty => some <$> SymbolTable.addParameter name ty
  | .openBlock => (fun _ => none) <$> SymbolTable.lift SymbolTable.openBlock
  | .closeBlock => (fun _ => none) <$> SymbolTable.lift SymbolTable.closeBlock
  | .newTemporary indexed => some <$> SymbolTable.lift (SymbolTable.newTemporary indexed)
  | .closeFunction => (fun _ => none) <$> SymbolTable.lift SymbolTable.closeFunction

/-- The table after a call, also after one that fails. -/
def after (c : TableCall) (t : SymbolTable) : SymbolTable :=
  match c.operation t with
  | .ok _ t' | .error _ t' => t'

/-- The error of a call that fails. -/
def error? (c : TableCall) (t : SymbolTable) : Option SymbolError :=
  match c.operation t with
  | .ok _ _ => none
  | .error e _ => some e

/-- The words that a call asks for. -/
def words : TableCall → Nat
  | .declare _ _ words => words
  | _ => 1

/-- What a call hands out: where its symbol is; and also where a parameter is whose name clashes. -/
def grant? (c : TableCall) (t : SymbolTable) : Option Grant :=
  match c, c.operation t with
  | _, .ok (some s) _ => some ⟨s.value, c.words⟩
  | .addParameter _ _, .error (.duplicate _) _ =>
    t.function.map fun f => ⟨BitVec.ofNat 32 f.record.size, 1⟩
  | _, _ => none

end TableCall

/-! ### What calls do to storage -/

/-- How far the global data and the open record reach. -/
structure Usage where
  dataEnd : Nat
  record : Option Record
  deriving DecidableEq, Repr

/-- How far the storage of a table reaches. -/
def SymbolTable.usage (t : SymbolTable) : Usage := ⟨t.dataEnd, t.function.map (·.record)⟩

/-- What a call can do: nothing, hand out words, open a function or close it. -/
inductive Usage.Moves : Usage → Usage → Option Grant → Prop
  | still {u} : Moves u u none
  | outside {dataEnd words} : dataEnd + Word.size * words ≤ addressLimit →
      Moves ⟨dataEnd, none⟩ ⟨dataEnd + Word.size * words, none⟩
        (some ⟨BitVec.ofNat 32 dataEnd, words⟩)
  | inside {dataEnd r words} : r.HasRoom words →
      Moves ⟨dataEnd, some r⟩ ⟨dataEnd, some (r.grow words)⟩ (some ⟨BitVec.ofNat 32 r.size, words⟩)
  | enter {dataEnd} : Moves ⟨dataEnd, none⟩ ⟨dataEnd, some {}⟩ none
  | leave {dataEnd r} : Moves ⟨dataEnd, some r⟩ ⟨dataEnd, none⟩ none

/-- A fault that is not about an address. -/
def Fault.Placed (fault : Fault) : Prop := ∀ address name, fault ≠ .addressOutOfRange address name

/-- An error that is not about an address. -/
def SymbolError.Placed (e : SymbolError) : Prop :=
  ∀ address name, e ≠ .fault (.addressOutOfRange address name)

theorem Fault.Placed.error {fault : Fault} (h : fault.Placed) :
    (SymbolError.fault fault).Placed := by
  rintro address name ⟨⟩
  exact h _ _ rfl

theorem Record.placed_of_allocate {r : Record} {words : Nat} {fault : Fault}
    (h : r.allocate words = .error fault) : fault.Placed := by
  rw [allocate] at h
  split at h
  · obtain rfl := Except.error.inj h
    rintro _ _ ⟨⟩
  · split at h
    · cases h
    · obtain rfl := Except.error.inj h
      rintro _ _ ⟨⟩

namespace SymbolTable

/-- Where the next storage starts: behind the record of the open function, or else behind the global
    data. -/
def storageEnd (t : SymbolTable) : Nat :=
  match t.function with
  | some f => f.record.size
  | none => t.dataEnd

/-- There is space for some words where the next storage starts. -/
def HasSpace (t : SymbolTable) (words : Nat) : Prop :=
  match t.function with
  | some f => f.record.HasRoom words
  | none => t.dataEnd + Word.size * words ≤ addressLimit

/-- The table with more words handed out. -/
def grow (t : SymbolTable) (words : Nat) : SymbolTable :=
  match t.function with
  | some f => { t with function := some (f.grow words) }
  | none => { t with dataEnd := t.dataEnd + Word.size * words }

/-- The symbol of the next storage. -/
def nextCell (t : SymbolTable) (name : String) (ty : Ty) : Symbol :=
  .cell name ty t.storageEnd t.function.isNone

theorem usage_insert (t : SymbolTable) (x : Symbol) : (t.insert x).usage = t.usage := by
  rw [insert]
  split
  · rename_i f hf
    rw [usage, usage, hf, OpenFunction.insert]
    split <;> rfl
  · rfl

section
variable {t : SymbolTable} {words : Nat}

theorem HasSpace.storageEnd_le (h : t.HasSpace words) : t.storageEnd ≤ addressLimit := by
  rw [HasSpace] at h
  rw [storageEnd]
  split at h
  · exact Nat.le_trans (Nat.le_add_right ..) h.2
  · exact Nat.le_trans (Nat.le_add_right ..) h

theorem HasSpace.moves (h : t.HasSpace words) :
    t.usage.Moves (t.grow words).usage (some ⟨BitVec.ofNat 32 t.storageEnd, words⟩) := by
  rw [HasSpace] at h
  rw [grow, storageEnd, usage]
  split at h
  · rename_i f hf
    simp only [hf]
    exact .inside h
  · rename_i hf
    simp only [hf]
    exact .outside h

variable (t words)

/-- Storage is taken, or the table stays as it is. -/
theorem allocate_cases :
    (∃ fault, allocate words t = .error fault t ∧ fault.Placed) ∨ t.HasSpace words ∧
      allocate words t = .ok (t.storageEnd, t.function.isNone) (t.grow words) := by
  rw [HasSpace, storageEnd, grow]
  cases hf : t.function with
  | some f =>
    by_cases hroom : f.record.HasRoom words
    · exact .inr ⟨hroom, allocate_local hf hroom⟩
    · obtain ⟨fault, hfault⟩ := Record.allocate_of_not_hasRoom hroom
      exact .inl ⟨fault, allocate_local_stops hf hfault, Record.placed_of_allocate hfault⟩
  | none =>
    by_cases hroom : t.dataEnd + Word.size * words ≤ addressLimit
    · exact .inr ⟨hroom, by rw [allocate_global hf hroom]; simp only [hf]; rfl⟩
    · exact .inl ⟨.dataSegmentFull, allocate_global_stops hf hroom, by rintro _ _ ⟨⟩⟩

/-- A declaration takes its words, or it leaves the table as it is. -/
theorem declare_cases (name : String) (ty : Ty) :
    (∃ e, declare name ty words t = .error e t ∧ e.Placed) ∨
      t.current.contains name = false ∧ t.HasSpace words ∧ declare name ty words t =
        .ok (t.nextCell name ty) ((t.grow words).insert (t.nextCell name ty)) := by
  cases hfresh : t.current.contains name with
  | true => exact .inl ⟨_, declare_duplicate hfresh, nofun⟩
  | false =>
    cases hroom : t.hasRoom words with
    | false => exact .inl ⟨_, declare_tooLarge hfresh hroom, nofun⟩
    | true =>
      rcases t.allocate_cases words with ⟨fault, halloc, hplaced⟩ | ⟨hspace, halloc⟩
      · exact .inl ⟨.fault fault, declare_stops hfresh hroom halloc, hplaced.error⟩
      · exact .inr ⟨rfl, hspace, declare_of_allocate hfresh hroom halloc hspace.storageEnd_le⟩

theorem newTemporary_cases (indexed : Bool) :
    (∃ fault, newTemporary indexed t = .error fault t ∧ fault.Placed) ∨
      t.HasSpace 1 ∧ ∃ name ty count, newTemporary indexed t =
        .ok (t.nextCell name ty) { t.grow 1 with temporaries := count } := by
  rcases t.allocate_cases 1 with ⟨fault, halloc, hplaced⟩ | ⟨hspace, halloc⟩
  · refine .inl ⟨fault, ?_, hplaced⟩
    simp only [newTemporary, bind, EStateM.bind, halloc]
  · refine .inr ⟨hspace, s!"t{(t.grow 1).temporaries}", if indexed then .indexed else .int,
      (t.grow 1).temporaries + 1, ?_⟩
    simp only [newTemporary, bind, EStateM.bind, halloc, Symbol.storage_of_le hspace.storageEnd_le]
    rfl

end

end SymbolTable

namespace TableCall

/-- What a call can do to a table: the outcome it has and the table it leaves. A function is opened,
    and a parameter takes its place, also if the name clashes; a function is given up even if blocks
    are still open in it. -/
inductive Does (t : SymbolTable) :
    TableCall → Except SymbolError (Option Symbol) → SymbolTable → Prop
  | stops {c fault} : fault.Placed → Does t c (.error (.fault fault)) t
  | rejects {x ty words e} : e.Placed → Does t (.declare x ty words) (.error e) t
  | declares {x ty words} : t.HasSpace words →
      Does t (.declare x ty words) (.ok (some (t.nextCell x ty)))
        ((t.grow words).insert (t.nextCell x ty))
  | standsIn {x} : Does t (.declarePlaceholder x) (.ok none) (t.insert (.placeholder x))
  | opens {x ty entry globals registered outcome} : t.function = none →
      outcome = .ok none ∨ outcome = .error (.duplicate x) →
      Does t (.openFunction x ty entry) outcome
        { t with globals, function := some { name := x, entry, registered } }
  | adds {x ty f globals params outer s outcome} : t.function = some f → f.blocks = [] →
      f.record.HasRoom 1 → s.value = BitVec.ofNat 32 f.record.size →
      outcome = .ok (some s) ∨ outcome = .error (.duplicate x) →
      Does t (.addParameter x ty) outcome
        { t with globals, function := some { f.grow 1 with params, outer } }
  | addsType {x ty f globals params fault} : t.function = some f → f.blocks = [] → fault.Placed →
      Does t (.addParameter x ty) (.error (.fault fault))
        { t with globals, function := some { f with params } }
  | opensBlock {f} : t.function = some f →
      Does t .openBlock (.ok none) { t with function := some { f with blocks := {} :: f.blocks } }
  | closesBlock {f block blocks} : t.function = some f → f.blocks = block :: blocks →
      Does t .closeBlock (.ok none) { t with function := some { f with blocks } }
  | makes {indexed name ty count} : t.HasSpace 1 →
      Does t (.newTemporary indexed) (.ok (some (t.nextCell name ty)))
        { t.grow 1 with temporaries := count }
  | closes {f outcome} : t.function = some f →
      outcome = .ok none ∨ (∃ fault : Fault, fault.Placed ∧ outcome = .error (.fault fault)) →
      Does t .closeFunction outcome { t with function := none }

/-- An outcome, with the table that is left. -/
def result (t : SymbolTable) :
    Except SymbolError (Option Symbol) → EStateM.Result SymbolError SymbolTable (Option Symbol)
  | .ok s? => .ok s? t
  | .error e => .error e t

/-- A call does one of these things. -/
def Acts (c : TableCall) (t : SymbolTable) : Prop :=
  ∃ outcome t', c.operation t = result t' outcome ∧ c.Does t outcome t'

section
variable {c : TableCall} {t t' : SymbolTable}

theorem acts_of_ok {s? : Option Symbol} (hop : c.operation t = .ok s? t')
    (h : c.Does t (.ok s?) t') : c.Acts t := ⟨.ok s?, t', hop, h⟩

theorem acts_of_error {e : SymbolError} (hop : c.operation t = .error e t')
    (h : c.Does t (.error e) t') : c.Acts t := ⟨.error e, t', hop, h⟩

end

section
open SymbolTable TableM

theorem addParameter_acts (t : SymbolTable) (name : String) (ty : Ty) :
    (TableCall.addParameter name ty).Acts t := by
  cases hf : t.function with
  | none =>
    exact acts_of_error (map_error (addParameter_outside hf) some) (.stops (by rintro _ _ ⟨⟩))
  | some f =>
    cases hblocks : f.blocks with
    | cons block blocks =>
      exact acts_of_error (map_error (addParameter_inBlock hf hblocks) some)
        (.stops (by rintro _ _ ⟨⟩))
    | nil =>
      by_cases hroom : f.record.HasRoom 1
      · cases hfresh : f.outer.contains name with
        | true =>
          exact acts_of_error (map_error
            (addParameter_duplicate hf hblocks hroom hfresh) some)
              (.adds (s := .cell name ty f.record.size false) hf hblocks hroom rfl (.inr rfl))
        | false =>
          exact acts_of_ok (map_ok (addParameter_fresh hf hblocks hroom hfresh) some)
            (.adds hf hblocks hroom rfl (.inl rfl))
      · obtain ⟨fault, hfault⟩ := Record.allocate_of_not_hasRoom hroom
        exact acts_of_error (map_error (addParameter_stops hf hblocks hfault) some)
          (.addsType hf hblocks (Record.placed_of_allocate hfault))

theorem closeFunction_acts (t : SymbolTable) : TableCall.closeFunction.Acts t := by
  cases hf : t.function with
  | none =>
    exact acts_of_error (map_error (lift_error (closeFunction_outside hf)) _)
      (.stops (by rintro _ _ ⟨⟩))
  | some f =>
    cases hblocks : f.blocks with
    | cons block blocks =>
      exact acts_of_error (map_error (lift_error (closeFunction_inBlock hf hblocks)) _)
        (.closes hf (.inr ⟨_, by rintro _ _ ⟨⟩, rfl⟩))
    | nil =>
      cases hclosed : f.record.closed with
      | true =>
        refine acts_of_error (e := .fault .recordClosedTwice) ?_
          (.closes hf (.inr ⟨_, by rintro _ _ ⟨⟩, rfl⟩))
        simp only [operation, Functor.map, EStateM.map, SymbolTable.lift, EStateM.adaptExcept,
          SymbolTable.closeFunction, bind, EStateM.bind, get, getThe, MonadStateOf.get, EStateM.get,
          hf, hblocks, Record.close, hclosed]
        rfl
      | false =>
        exact acts_of_ok (map_ok (lift_ok (closeFunction_eq hf hblocks hclosed)) _)
          (.closes hf (.inl rfl))

theorem acts (c : TableCall) (t : SymbolTable) : c.Acts t := by
  cases c with
  | declare name ty words =>
    rcases t.declare_cases words name ty with ⟨e, hrun, he⟩ | ⟨-, hspace, hrun⟩
    · exact acts_of_error (map_error hrun some) (.rejects he)
    · exact acts_of_ok (map_ok hrun some) (.declares hspace)
  | declarePlaceholder name => exact ⟨.ok none, _, rfl, .standsIn⟩
  | newTemporary indexed =>
    rcases t.newTemporary_cases indexed with ⟨fault, hrun, hplaced⟩ | ⟨hspace, _, _, _, hrun⟩
    · exact acts_of_error (map_error (lift_error hrun) some) (.stops hplaced)
    · exact acts_of_ok (map_ok (lift_ok hrun) some) (.makes hspace)
  | openFunction name ty entry =>
    cases hf : t.function with
    | some f =>
      exact acts_of_error (map_error (openFunction_inside hf entry) _) (.stops (by rintro _ _ ⟨⟩))
    | none =>
      cases hdup : t.globals.contains name with
      | true =>
        exact acts_of_error (map_error (openFunction_duplicate hf hdup entry) _)
          (.opens hf (.inr rfl))
      | false =>
        exact acts_of_ok (map_ok (openFunction_fresh hf hdup entry) _) (.opens hf (.inl rfl))
  | addParameter name ty => exact addParameter_acts t name ty
  | openBlock =>
    cases hf : t.function with
    | none =>
      exact acts_of_error (map_error (lift_error (openBlock_outside hf)) _)
        (.stops (by rintro _ _ ⟨⟩))
    | some f =>
      exact acts_of_ok (map_ok (lift_ok (openBlock_eq hf)) _) (.opensBlock hf)
  | closeBlock =>
    cases hf : t.function with
    | none =>
      exact acts_of_error (map_error (lift_error (closeBlock_outside hf)) _)
        (.stops (by rintro _ _ ⟨⟩))
    | some f =>
      cases hblocks : f.blocks with
      | nil =>
        exact acts_of_error (map_error
          (lift_error (closeBlock_unmatched hf hblocks)) _) (.stops (by rintro _ _ ⟨⟩))
      | cons block blocks =>
        exact acts_of_ok (map_ok (lift_ok (closeBlock_eq hf hblocks)) _) (.closesBlock hf hblocks)
  | closeFunction => exact closeFunction_acts t

end

theorem after_does (c : TableCall) (t : SymbolTable) :
    ∃ t', c.after t = t' ∧ ∃ outcome, c.Does t outcome t' := by
  obtain ⟨outcome, t', hop, hdoes⟩ := c.acts t
  refine ⟨t', ?_, outcome, hdoes⟩
  rw [after, hop]
  cases outcome <;> rfl

/-- A call does one of the moves, and no error of it is about an address. -/
theorem moves (c : TableCall) (t : SymbolTable) :
    t.usage.Moves (c.after t).usage (c.grant? t) ∧ ∀ e, c.error? t = some e → e.Placed := by
  obtain ⟨outcome, t', hop, hdoes⟩ := c.acts t
  rw [after, error?]
  cases hdoes with
  | stops hplaced =>
    have hgrant : c.grant? t = none := by cases c <;> simp only [grant?, hop, result]
    simp only [hop, result, hgrant]
    exact ⟨.still, by rintro _ ⟨⟩; exact hplaced.error⟩
  | rejects hplaced =>
    simp only [grant?, hop, result]
    exact ⟨.still, by rintro _ ⟨⟩; exact hplaced⟩
  | declares hspace =>
    simp only [grant?, hop, result, SymbolTable.usage_insert]
    exact ⟨hspace.moves, nofun⟩
  | standsIn =>
    simp only [grant?, hop, result, SymbolTable.usage_insert]
    exact ⟨.still, nofun⟩
  | opens hf houtcome =>
    rw [SymbolTable.usage, hf]
    rcases houtcome with rfl | rfl
    · simp only [grant?, hop, result]
      exact ⟨.enter, nofun⟩
    · simp only [grant?, hop, result]
      exact ⟨.enter, by rintro _ ⟨⟩; exact nofun⟩
  | adds hf _ hroom hs houtcome =>
    rw [SymbolTable.usage, hf]
    rcases houtcome with rfl | rfl
    · simp only [grant?, hop, result, hs]
      exact ⟨.inside hroom, nofun⟩
    · simp only [grant?, hop, result, hf]
      exact ⟨.inside hroom, by rintro _ ⟨⟩; exact nofun⟩
  | addsType hf _ hplaced =>
    simp only [grant?, hop, result, SymbolTable.usage, hf]
    exact ⟨.still, by rintro _ ⟨⟩; exact hplaced.error⟩
  | opensBlock hf | closesBlock hf =>
    simp only [grant?, hop, result, SymbolTable.usage, hf]
    exact ⟨.still, nofun⟩
  | makes hspace =>
    simp only [grant?, hop, result]
    exact ⟨hspace.moves, nofun⟩
  | closes hf houtcome =>
    rw [SymbolTable.usage, hf]
    rcases houtcome with rfl | ⟨fault, hplaced, rfl⟩
    · simp only [grant?, hop, result]
      exact ⟨.leave, nofun⟩
    · simp only [grant?, hop, result]
      exact ⟨.leave, by rintro _ ⟨⟩; exact hplaced.error⟩

end TableCall

/-! ### Sessions -/

/-- What was handed out while one function was open, newest first, and how far its record got. -/
structure Tenure where
  grants : List Grant
  size : Nat
  deriving DecidableEq, Repr

/-- All that was handed out, newest first. -/
structure Holdings where
  /-- Handed out while no function was open. -/
  outside : List Grant := []
  /-- One for each function that was opened. -/
  tenures : List Tenure := []
  deriving DecidableEq, Repr

/-- Files what a call hands out. -/
def Holdings.file (held : Holdings) (before after : Usage) (grant? : Option Grant) : Holdings :=
  match before.record, after.record with
  | none, none => { held with outside := grant?.toList ++ held.outside }
  | none, some r => { held with tenures := ⟨grant?.toList, r.size⟩ :: held.tenures }
  | some _, none => held
  | some _, some r =>
    { held with tenures := held.tenures.modifyHead fun h => ⟨grant?.toList ++ h.grants, r.size⟩ }

/-- A table and all that its calls handed out. -/
structure TableSession where
  table : SymbolTable
  held : Holdings := {}
  deriving DecidableEq, Repr

namespace TableSession

/-- Does a call, which may fail. -/
def call (s : TableSession) (c : TableCall) : TableSession :=
  { table := c.after s.table
    held := s.held.file s.table.usage (c.after s.table).usage (c.grant? s.table) }

/-- A session on the table of a new program. -/
def run (dataBase : Word) (calls : List TableCall) : TableSession :=
  calls.foldl call { table := .initial dataBase }

end TableSession

/-! ### Storage is handed out upwards -/

/-- Storage from `lo` to `hi` is handed out upwards, in whole words. -/
structure Filled (lo hi : Nat) (grants : List Grant) : Prop where
  le : lo ≤ hi
  aligned : hi % Word.size = lo % Word.size
  within : ∀ g ∈ grants, lo ≤ g.start ∧ g.stop ≤ hi ∧ g.stop ≤ addressLimit ∧
    g.start % Word.size = (lo % Word.size : Nat)
  upwards : grants.Pairwise fun g h => h.stop ≤ g.start

namespace Filled
variable {lo hi : Nat} {grants : List Grant}

theorem nil (lo : Nat) : Filled lo lo [] := ⟨Nat.le_refl lo, rfl, nofun, .nil⟩

/-- The next words go where the last ones end. -/
theorem push (h : Filled lo hi grants) {words : Nat}
    (hlimit : hi + Word.size * words ≤ addressLimit) :
    Filled lo (hi + Word.size * words) (⟨BitVec.ofNat 32 hi, words⟩ :: grants) := by
  have hstart : Grant.start ⟨BitVec.ofNat 32 hi, words⟩ = hi :=
    Word.toInt_ofNat (Nat.lt_of_le_of_lt (Nat.le_trans (Nat.le_add_right ..) hlimit) (by decide))
  have hle := h.le
  have haligned := h.aligned
  have hwithin := h.within
  simp only [Word.size] at *
  refine ⟨by omega, by simp only [Word.size]; omega, ?_, .cons ?_ h.upwards⟩
  · intro g hg
    rcases List.mem_cons.1 hg with rfl | hg
    · simp only [Grant.stop, hstart, Word.size]
      omega
    · have := hwithin g hg
      simp only [Word.size]
      omega
  · intro g hg
    rw [hstart]
    exact (hwithin g hg).2.1

theorem apart (h : Filled lo hi grants) : grants.Pairwise Grant.Apart :=
  h.upwards.imp fun hle a ha => by omega

end Filled

/-- The global data and every record are filled from their start to their end. -/
structure Holdings.Sound (dataBase : Word) (u : Usage) (held : Holdings) : Prop where
  outside : Filled dataBase.toNat u.dataEnd held.outside
  tenures : ∀ h ∈ held.tenures, Filled Record.header h.size h.grants
  /-- The newest record is the open one. -/
  current : ∀ r ∈ u.record, ∃ h rest, held.tenures = h :: rest ∧ h.size = r.size

section
variable {dataBase : Word} {u u' : Usage} {held : Holdings} {grant? : Option Grant}

theorem Holdings.Sound.file (h : held.Sound dataBase u) (hmoves : u.Moves u' grant?) :
    (held.file u u' grant?).Sound dataBase u' := by
  cases hmoves with
  | still =>
    obtain ⟨dataEnd, _ | r⟩ := u
    · exact h
    · obtain ⟨tenure, rest, htenures, hsize⟩ := h.current r rfl
      have hsame : held.file ⟨dataEnd, some r⟩ ⟨dataEnd, some r⟩ none = held := by
        simp only [Holdings.file, htenures, List.modifyHead, Option.toList, List.nil_append,
          ← hsize]
        rw [← htenures]
      rw [hsame]
      exact h
  | outside hlimit => exact ⟨h.outside.push hlimit, h.tenures, nofun⟩
  | @inside dataEnd r words hroom =>
    obtain ⟨tenure, rest, htenures, hsize⟩ := h.current r rfl
    have hall := h.tenures
    rw [htenures, List.forall_mem_cons] at hall
    simp only [Holdings.file, htenures, List.modifyHead, Option.toList]
    refine ⟨h.outside, List.forall_mem_cons.2 ⟨?_, hall.2⟩, ?_⟩
    · have hfilled := hall.1
      rw [hsize] at hfilled
      exact hfilled.push hroom.2
    · rintro _ ⟨⟩
      exact ⟨_, _, rfl, rfl⟩
  | enter =>
    refine ⟨h.outside, List.forall_mem_cons.2 ⟨.nil _, h.tenures⟩, ?_⟩
    rintro _ ⟨⟩
    exact ⟨_, _, rfl, rfl⟩
  | leave => exact ⟨h.outside, h.tenures, nofun⟩

/-- Neither place ever shrinks. -/
theorem Usage.Moves.le (hmoves : u.Moves u' grant?) :
    u.dataEnd ≤ u'.dataEnd ∧ ∀ r ∈ u.record, ∀ r' ∈ u'.record, r.size ≤ r'.size := by
  cases hmoves with
  | still =>
    refine ⟨Nat.le_refl _, fun r hr r' hr' => ?_⟩
    cases hr.symm.trans hr'
    exact Nat.le_refl _
  | outside => exact ⟨Nat.le_add_right .., nofun⟩
  | inside =>
    refine ⟨Nat.le_refl _, ?_⟩
    rintro _ ⟨⟩ _ ⟨⟩
    exact Nat.le_add_right ..
  | enter => exact ⟨Nat.le_refl _, nofun⟩
  | leave => exact ⟨Nat.le_refl _, fun _ _ => nofun⟩

theorem TableSession.sound_foldl (calls : List TableCall) :
    ∀ {s : TableSession}, s.held.Sound dataBase s.table.usage →
      (calls.foldl call s).held.Sound dataBase (calls.foldl call s).table.usage := by
  induction calls with
  | nil => exact id
  | cons c calls ih => exact fun h => ih (h.file (c.moves _).1)

end

theorem TableSession.sound_run (dataBase : Word) (calls : List TableCall) :
    (run dataBase calls).held.Sound dataBase (run dataBase calls).table.usage :=
  sound_foldl calls ⟨.nil _, nofun, nofun⟩

/-- In any session of calls, failing ones included, no two ranges that are handed out from the
    global data share a cell, and no two that are handed out from the record of one function. Each
    is at whole words from the start of its place and ends before the end of the place; none reaches
    the limit of the addresses, so that no call fails for an address, and no place shrinks. -/
theorem storage_never_overlaps (dataBase : Word) (calls : List TableCall) :
    let s := TableSession.run dataBase calls
    (s.held.outside.Pairwise Grant.Apart ∧ ∀ g ∈ s.held.outside,
      (g.start - dataBase.toNat) % 4 = 0 ∧ dataBase.toNat ≤ g.start ∧ g.stop ≤ s.table.dataEnd) ∧
    (∀ h ∈ s.held.tenures, h.grants.Pairwise Grant.Apart ∧ ∀ g ∈ h.grants,
      g.start % 4 = 0 ∧ 16 ≤ g.start ∧ g.stop ≤ h.size) ∧
    (∀ f ∈ s.table.function, ∃ h, s.held.tenures.head? = some h ∧ h.size = f.record.size) ∧
    (∀ g, g ∈ s.held.outside ∨ (∃ h ∈ s.held.tenures, g ∈ h.grants) →
      0 ≤ g.value.toInt ∧ g.stop ≤ 2147483647) ∧
    ∀ c : TableCall,
      (∀ address name, c.error? s.table ≠ some (.fault (.addressOutOfRange address name))) ∧
      s.table.dataEnd ≤ (c.after s.table).dataEnd ∧
      ∀ f ∈ s.table.function, ∀ f' ∈ (c.after s.table).function, f.record.size ≤ f'.record.size := by
  intro s
  have hsound : s.held.Sound dataBase s.table.usage := TableSession.sound_run dataBase calls
  refine ⟨⟨hsound.outside.apart, fun g hg => ?_⟩, fun h hh => ⟨(hsound.tenures h hh).apart,
    fun g hg => ?_⟩, ?_, ?_, ?_⟩
  · have hwithin := hsound.outside.within g hg
    simp only [Word.size] at hwithin
    refine ⟨by omega, hwithin.1, hwithin.2.1⟩
  · have hwithin := (hsound.tenures h hh).within g hg
    simp only [Word.size, Record.header] at hwithin
    exact ⟨by omega, hwithin.1, hwithin.2.1⟩
  · intro f hf
    obtain ⟨h, rest, htenures, hsize⟩ := hsound.current f.record (by
      rw [SymbolTable.usage, hf]
      rfl)
    exact ⟨h, by rw [htenures]; rfl, hsize⟩
  · rintro g (hg | ⟨h, hh, hg⟩)
    · obtain ⟨hstart, -, hstop, -⟩ := hsound.outside.within g hg
      exact ⟨Int.le_trans (Int.natCast_nonneg _) hstart, hstop⟩
    · obtain ⟨hstart, -, hstop, -⟩ := (hsound.tenures h hh).within g hg
      exact ⟨Int.le_trans (Int.natCast_nonneg _) hstart, hstop⟩
  · intro c
    obtain ⟨hmoves, hplaced⟩ := c.moves s.table
    refine ⟨fun address name he => hplaced _ he address name rfl, hmoves.le.1, ?_⟩
    intro f hf f' hf'
    refine hmoves.le.2 f.record ?_ f'.record ?_
    · rw [SymbolTable.usage, hf]
      rfl
    · rw [SymbolTable.usage, hf']
      rfl

end OnePass
