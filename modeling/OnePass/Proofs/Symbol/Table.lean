import Mathlib
import OnePass.Symbol.Table

/-!
# What operations of the symbol table do

Each operation is said once, for every table it can meet: what it gives and the table after it, or
that it fails. -/

namespace OnePass

namespace Scope

/-- A fresh symbol comes last. -/
theorem symbols_insert {s : Scope} {x : Symbol} (h : s.contains x.name = false) :
    (s.insert x).symbols = s.symbols ++ [x] := by
  rw [insert, if_neg (by simp [h])]

/-- Applying a function to the symbol of the last name, when no other has it. -/
theorem modify_last {s : Scope} {x : Symbol} (h : s.contains x.name = false)
    (f : Symbol → Symbol) :
    (⟨s.symbols ++ [x]⟩ : Scope).modify x.name f = ⟨s.symbols ++ [f x]⟩ := by
  have hsame : s.symbols.map (fun y => if y.name == x.name then f y else y) = s.symbols := by
    refine (List.map_congr_left fun y hy => if_neg ?_).trans (List.map_id' _)
    simp only [contains, List.any_eq_false] at h
    exact h y hy
  rw [modify, List.map_append, hsame]
  simp

end Scope

namespace Record

/-- A record takes more words as long as it is open and they fit the address range. -/
def HasRoom (r : Record) (words : Nat) : Prop :=
  r.closed = false ∧ r.size + Word.size * words ≤ addressLimit

/-- The record with more words laid out. -/
def grow (r : Record) (words : Nat) : Record := { r with size := r.size + Word.size * words }

theorem allocate_of_hasRoom {r : Record} {words : Nat} (h : r.HasRoom words) :
    r.allocate words = .ok (r.size, r.grow words) := by
  simp [allocate, grow, segmentEnd?, h.1, h.2]

theorem allocate_of_not_hasRoom {r : Record} {words : Nat} (h : ¬ r.HasRoom words) :
    ∃ fault, r.allocate words = .error fault := by
  simp only [allocate, segmentEnd?]
  split
  · exact ⟨_, rfl⟩
  rename_i hclosed
  split
  · rename_i size hsize
    split at hsize
    · rename_i hle
      exact absurd ⟨by simpa using hclosed, hle⟩ h
    · cases hsize
  · exact ⟨_, rfl⟩

theorem fits_iff {r : Record} {words : Nat} :
    r.fits words ↔ r.size + Word.size * words ≤ declaredLimit := by
  simp only [fits, segmentEnd?]
  split <;> simp_all

theorem hasRoom_of_fits {r : Record} {words : Nat} (hopen : r.closed = false)
    (h : r.fits words) : r.HasRoom words :=
  ⟨hopen, Nat.le_trans (fits_iff.mp h) (by decide)⟩

end Record

/-- A symbol for a cell or a row of cells. -/
def Symbol.cell (name : String) (ty : Ty) (address : Nat) (isGlobal : Bool) : Symbol :=
  { name, ty, value := BitVec.ofNat 32 address, isGlobal }

theorem Symbol.storage_of_le {name : String} {ty : Ty} {address : Nat} {isGlobal : Bool}
    (h : address ≤ addressLimit) :
    Symbol.storage name ty address isGlobal = .ok (.cell name ty address isGlobal) := if_pos h

namespace OpenFunction

/-- The function with more words in its record. -/
def grow (f : OpenFunction) (words : Nat) : OpenFunction := { f with record := f.record.grow words }

/-- The next temporary of a function. -/
def temporary (f : OpenFunction) (count : Nat) (indexed : Bool) : Symbol :=
  .cell s!"t{count}" (if indexed then .indexed else .int) f.record.size false

end OpenFunction

/-! ### Outcomes -/

namespace TableM
variable {α β ε : Type} {t t' : SymbolTable}

theorem map_ok {m : TableM ε α} {a : α} (h : m t = .ok a t') (k : α → β) :
    (k <$> m) t = .ok (k a) t' := by
  simp only [Functor.map, EStateM.map, h]

theorem map_error {m : TableM ε α} {e : ε} (h : m t = .error e t') (k : α → β) :
    (k <$> m) t = .error e t' := by
  simp only [Functor.map, EStateM.map, h]

theorem lift_ok {m : TableM Fault α} {a : α} (h : m t = .ok a t') :
    SymbolTable.lift m t = .ok a t' := by
  rw [SymbolTable.lift, EStateM.adaptExcept, h]

theorem lift_error {m : TableM Fault α} {fault : Fault} (h : m t = .error fault t') :
    SymbolTable.lift m t = .error (.fault fault) t' := by
  rw [SymbolTable.lift, EStateM.adaptExcept, h]

end TableM

namespace SymbolTable

variable {t : SymbolTable} {f : OpenFunction} {name : String} {ty : Ty} {words : Nat}

/-! ### Storage -/

theorem allocate_local (hf : t.function = some f) (hroom : f.record.HasRoom words) :
    allocate words t = .ok (f.record.size, false) { t with function := some (f.grow words) } := by
  simp only [allocate, bind, EStateM.bind, get, getThe, MonadStateOf.get, EStateM.get, hf,
    Record.allocate_of_hasRoom hroom]
  rfl

theorem allocate_global (hf : t.function = none)
    (hroom : t.dataEnd + Word.size * words ≤ addressLimit) :
    allocate words t =
      .ok (t.dataEnd, true) { t with dataEnd := t.dataEnd + Word.size * words } := by
  simp only [allocate, bind, EStateM.bind, get, getThe, MonadStateOf.get, EStateM.get, hf,
    segmentEnd?_eq_some_iff.mpr ⟨rfl, hroom⟩]
  rfl

theorem allocate_local_stops {fault : Fault} (hf : t.function = some f)
    (hfault : f.record.allocate words = .error fault) : allocate words t = .error fault t := by
  simp only [allocate, bind, EStateM.bind, get, getThe, MonadStateOf.get, EStateM.get, hf, hfault]
  rfl

theorem allocate_global_stops (hf : t.function = none)
    (hroom : ¬ t.dataEnd + Word.size * words ≤ addressLimit) :
    allocate words t = .error .dataSegmentFull t := by
  simp only [allocate, bind, EStateM.bind, get, getThe, MonadStateOf.get, EStateM.get, hf,
    segmentEnd?, if_neg hroom]
  rfl

theorem newTemporary_eq (hf : t.function = some f) (hroom : f.record.HasRoom 1) (indexed : Bool) :
    newTemporary indexed t = .ok (f.temporary t.temporaries indexed)
      { t with function := some (f.grow 1), temporaries := t.temporaries + 1 } := by
  have hle : f.record.size ≤ addressLimit := Nat.le_trans (Nat.le_add_right ..) hroom.2
  simp only [newTemporary, bind, EStateM.bind, allocate_local hf hroom, Symbol.storage_of_le hle]
  rfl

theorem newTemporary_stops (hf : t.function = some f) (hroom : ¬ f.record.HasRoom 1)
    (indexed : Bool) : ∃ fault, newTemporary indexed t = .error fault t := by
  obtain ⟨fault, hfault⟩ := Record.allocate_of_not_hasRoom hroom
  refine ⟨fault, ?_⟩
  simp only [newTemporary, bind, EStateM.bind, allocate_local_stops hf hfault]

theorem declare_duplicate (h : t.current.contains name) :
    declare name ty words t = .error (.duplicate name) t := by
  simp only [declare, bind, EStateM.bind, get, getThe, MonadStateOf.get, EStateM.get, h]
  rfl

theorem declare_tooLarge (h : t.current.contains name = false) (hroom : t.hasRoom words = false) :
    declare name ty words t = .error (.tooLarge name) t := by
  simp only [declare, bind, EStateM.bind, get, getThe, MonadStateOf.get, EStateM.get, h, hroom]
  rfl

/-- A declaration that fits takes its words, and its symbol joins the innermost scope. -/
theorem declare_of_allocate {t' : SymbolTable} {address : Nat} {isGlobal : Bool}
    (hfresh : t.current.contains name = false) (hroom : t.hasRoom words)
    (halloc : allocate words t = .ok (address, isGlobal) t') (hle : address ≤ addressLimit) :
    declare name ty words t = .ok (.cell name ty address isGlobal)
      (t'.insert (.cell name ty address isGlobal)) := by
  simp only [declare, bind, EStateM.bind, get, getThe, MonadStateOf.get, EStateM.get, hfresh,
    hroom, Bool.not_true, Bool.false_eq_true, ite_false, TableM.lift_ok halloc,
    Symbol.storage_of_le hle]
  rfl

theorem declare_stops {fault : Fault} {t' : SymbolTable} (hfresh : t.current.contains name = false)
    (hroom : t.hasRoom words) (halloc : allocate words t = .error fault t') :
    declare name ty words t = .error (.fault fault) t' := by
  simp only [declare, bind, EStateM.bind, get, getThe, MonadStateOf.get, EStateM.get, hfresh,
    hroom, Bool.not_true, Bool.false_eq_true, ite_false, TableM.lift_error halloc]

/-- A local declaration takes words from the record of the function. -/
theorem declare_local (hf : t.function = some f) (hopen : f.record.closed = false)
    (hfresh : t.current.contains name = false) (hroom : t.hasRoom words) :
    declare name ty words t = .ok (.cell name ty f.record.size false)
      { t with function := some ((f.grow words).insert (.cell name ty f.record.size false)) } := by
  have hfits : f.record.fits words := by
    rw [hasRoom, hf] at hroom
    exact hroom
  have hr := Record.hasRoom_of_fits hopen hfits
  exact declare_of_allocate hfresh hroom (allocate_local hf hr)
    (Nat.le_trans (Nat.le_add_right ..) hr.2)

theorem hasRoom_iff (hf : t.function = none) :
    t.hasRoom words ↔ t.dataEnd + Word.size * words ≤ declaredLimit := by
  simp only [hasRoom, hf, segmentEnd?]
  split <;> simp_all

/-- A global declaration takes words from the global data. -/
theorem declare_global (hf : t.function = none) (hfresh : t.current.contains name = false)
    (hroom : t.hasRoom words) :
    declare name ty words t = .ok (.cell name ty t.dataEnd true)
      { t with
        dataEnd := t.dataEnd + Word.size * words
        globals := t.globals.insert (.cell name ty t.dataEnd true) } := by
  have hend : t.dataEnd + Word.size * words ≤ addressLimit :=
    Nat.le_trans ((hasRoom_iff hf).mp hroom) (by decide)
  rw [declare_of_allocate hfresh hroom (allocate_global hf hend)
    (Nat.le_trans (Nat.le_add_right ..) hend), insert]
  simp only [hf]

/-! ### Functions -/

/-- The symbol of a function before its parameters are known. -/
def functionSymbol (name : String) (ty : Ty) (entry : Nat) : Symbol :=
  { name, ty, value := BitVec.ofNat 32 entry, args := some [], isFunction := true,
    isGlobal := true }

theorem openFunction_fresh (hf : t.function = none) (hfresh : t.globals.contains name = false)
    (entry : Nat) :
    openFunction name ty entry t = .ok ()
      { t with
        globals := t.globals.insert (functionSymbol name ty entry)
        function := some { name, entry, registered := true } } := by
  simp only [openFunction, bind, EStateM.bind, get, getThe, MonadStateOf.get, EStateM.get, hf,
    hfresh]
  rfl

theorem openFunction_duplicate (hf : t.function = none) (hdup : t.globals.contains name)
    (entry : Nat) :
    openFunction name ty entry t = .error (.duplicate name)
      { t with function := some { name, entry, registered := false } } := by
  simp only [openFunction, bind, EStateM.bind, get, getThe, MonadStateOf.get, EStateM.get, hf,
    hdup]
  rfl

theorem openFunction_inside (hf : t.function = some f) (entry : Nat) :
    openFunction name ty entry t = .error (.fault (.functionStillOpen name f.name)) t := by
  simp only [openFunction, bind, EStateM.bind, get, getThe, MonadStateOf.get, EStateM.get, hf]
  rfl

/-- The table with a parameter added to the type of the open function. -/
def addType (t : SymbolTable) (f : OpenFunction) (ty : Ty) : Scope :=
  if f.registered then
    t.globals.modify f.name fun x => { x with args := some (f.params ++ [ty]) }
  else t.globals

theorem addParameter_fresh (hf : t.function = some f) (hblocks : f.blocks = [])
    (hroom : f.record.HasRoom 1) (hfresh : f.outer.contains name = false) :
    addParameter name ty t = .ok (.cell name ty f.record.size false)
      { t with
        globals := t.addType f ty
        function := some
          { f.grow 1 with
            params := f.params ++ [ty]
            outer := f.outer.insert (.cell name ty f.record.size false) } } := by
  have hle : f.record.size ≤ addressLimit := Nat.le_trans (Nat.le_add_right ..) hroom.2
  have hempty : (!f.blocks.isEmpty) = false := by rw [hblocks]; rfl
  simp only [addParameter, lift, EStateM.adaptExcept, bind, EStateM.bind, get, getThe,
    MonadStateOf.get, EStateM.get, set, EStateM.set, pure, EStateM.pure, orFault, hf, hempty,
    Record.allocate_of_hasRoom hroom, hfresh, Bool.false_eq_true, ite_false,
    Symbol.storage_of_le hle]
  rfl

theorem addParameter_duplicate (hf : t.function = some f) (hblocks : f.blocks = [])
    (hroom : f.record.HasRoom 1) (hdup : f.outer.contains name) :
    addParameter name ty t = .error (.duplicate name)
      { t with
        globals := t.addType f ty
        function := some { f.grow 1 with params := f.params ++ [ty] } } := by
  have hempty : (!f.blocks.isEmpty) = false := by rw [hblocks]; rfl
  simp only [addParameter, lift, EStateM.adaptExcept, bind, EStateM.bind, get, getThe,
    MonadStateOf.get, EStateM.get, set, EStateM.set, pure, EStateM.pure, orFault, hf, hempty,
    Record.allocate_of_hasRoom hroom, hdup, Bool.false_eq_true, ite_false, ite_true]
  rfl

theorem addParameter_stops (hf : t.function = some f) (hblocks : f.blocks = []) {fault : Fault}
    (hfault : f.record.allocate 1 = .error fault) :
    addParameter name ty t = .error (.fault fault)
      { t with
        globals := t.addType f ty
        function := some { f with params := f.params ++ [ty] } } := by
  have hempty : (!f.blocks.isEmpty) = false := by rw [hblocks]; rfl
  simp only [addParameter, lift, EStateM.adaptExcept, bind, EStateM.bind, get, getThe,
    MonadStateOf.get, EStateM.get, set, EStateM.set, orFault, hf, hempty, hfault,
    Bool.false_eq_true, ite_false]
  rfl

theorem addParameter_outside (hf : t.function = none) :
    addParameter name ty t = .error (.fault (.parameterOutside name)) t := by
  simp only [addParameter, bind, EStateM.bind, get, getThe, MonadStateOf.get, EStateM.get, hf]
  rfl

theorem addParameter_inBlock {block : Scope} {blocks : List Scope} (hf : t.function = some f)
    (hblocks : f.blocks = block :: blocks) :
    addParameter name ty t = .error (.fault (.parameterAfterBody name)) t := by
  simp only [addParameter, bind, EStateM.bind, get, getThe, MonadStateOf.get, EStateM.get, hf,
    hblocks]
  rfl

theorem openBlock_outside (hf : t.function = none) : openBlock t = .error .scopeUpOutside t := by
  simp only [openBlock, bind, EStateM.bind, get, getThe, MonadStateOf.get, EStateM.get, hf]
  rfl

theorem openBlock_eq (hf : t.function = some f) :
    openBlock t = .ok () { t with function := some { f with blocks := {} :: f.blocks } } := by
  simp only [openBlock, bind, EStateM.bind, get, getThe, MonadStateOf.get, EStateM.get, hf]
  rfl

theorem closeBlock_outside (hf : t.function = none) :
    closeBlock t = .error .scopeDownOutside t := by
  simp only [closeBlock, bind, EStateM.bind, get, getThe, MonadStateOf.get, EStateM.get, hf]
  rfl

theorem closeBlock_unmatched (hf : t.function = some f) (hblocks : f.blocks = []) :
    closeBlock t = .error .scopeUnmatched t := by
  simp only [closeBlock, bind, EStateM.bind, get, getThe, MonadStateOf.get, EStateM.get, hf,
    hblocks]
  rfl

theorem closeBlock_eq {block : Scope} {blocks : List Scope} (hf : t.function = some f)
    (hblocks : f.blocks = block :: blocks) :
    closeBlock t = .ok () { t with function := some { f with blocks } } := by
  simp only [closeBlock, bind, EStateM.bind, get, getThe, MonadStateOf.get, EStateM.get, hf,
    hblocks]
  rfl

theorem closeFunction_outside (hf : t.function = none) :
    closeFunction t = .error .endOutside t := by
  simp only [closeFunction, bind, EStateM.bind, get, getThe, MonadStateOf.get, EStateM.get, hf]
  rfl

theorem closeFunction_inBlock {block : Scope} {blocks : List Scope} (hf : t.function = some f)
    (hblocks : f.blocks = block :: blocks) :
    closeFunction t = .error (.scopesUnclosed f.name f.blocks.length)
      { t with function := none } := by
  simp only [closeFunction, bind, EStateM.bind, get, getThe, MonadStateOf.get, EStateM.get, hf,
    hblocks]
  rfl

theorem closeFunction_eq (hf : t.function = some f) (hblocks : f.blocks = [])
    (hopen : f.record.closed = false) :
    closeFunction t = .ok ⟨f.name, f.entry, f.params, { f.record with closed := true }⟩
      { t with function := none } := by
  simp only [closeFunction, bind, EStateM.bind, get, getThe, MonadStateOf.get, EStateM.get, hf,
    hblocks, Record.close, hopen]
  rfl

end SymbolTable

end OnePass
