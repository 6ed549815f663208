import OnePass.Proofs.Symbol.Storage

/-!
# What the symbol table rejects

A declaration passes two tests, for its name and for its size, and takes its words only after both.
The size is tested against the end that declared storage may reach, which lies well below the last
address, and the record of an open function is never closed: so a declaration that passes the tests
succeeds, and one that fails has changed nothing. Temporaries and blocks change nothing either when
they fail. -/

namespace OnePass

namespace TableCall

/-- The table after some calls, whichever of them fail. -/
def runAll (t : SymbolTable) (calls : List TableCall) : SymbolTable :=
  calls.foldl (fun t c => c.after t) t

/-- An error that rejects a call as a whole: any error of a call that declares storage, makes a
    temporary, or opens or closes a block, and a fault of one that opens a function. A function
    whose name is taken is opened nevertheless, and a parameter whose name is taken has its
    place. -/
def Rejects : TableCall → SymbolError → Prop
  | .declare .., _ | .newTemporary _, _ | .openBlock, _ | .closeBlock, _ => True
  | .openFunction .., .fault _ => True
  | _, _ => False

/-! ### Calls that change nothing when they fail -/

section
variable (c : TableCall) {t t' : SymbolTable} {e : SymbolError} {s? : Option Symbol}

theorem error?_of_ok (h : c.operation t = .ok s? t') : c.error? t = none := by
  rw [error?, h]

theorem error?_of_error (h : c.operation t = .error e t') : c.error? t = some e := by
  rw [error?, h]

end

/-- A rejected call has changed nothing. -/
theorem Rejects.after_eq {c : TableCall} {t : SymbolTable} {e : SymbolError} (h : c.Rejects e)
    (he : c.error? t = some e) : c.after t = t := by
  obtain ⟨outcome, t', hop, hdoes⟩ := c.acts t
  simp only [error?, hop] at he
  simp only [after, hop]
  cases outcome with
  | ok s? => cases he
  | error e' =>
    cases he
    cases hdoes with
    | stops | rejects => rfl
    | opens _ houtcome =>
      rcases houtcome with houtcome | houtcome
      · cases houtcome
      · cases houtcome
        exact h.elim
    | adds | addsType | closes => exact h.elim

end TableCall

/-! ### Declarations fail for their name or their size alone -/

/-- The record that is open, if one is, still takes storage. -/
def Usage.Growing (u : Usage) : Prop := ∀ r ∈ u.record, r.closed = false

theorem Usage.Moves.growing {u u' : Usage} {grant? : Option Grant} (h : u.Moves u' grant?)
    (hu : u.Growing) : u'.Growing := by
  cases h with
  | still => exact hu
  | outside | leave => exact nofun
  | inside hroom =>
    rintro _ ⟨⟩
    exact hroom.1
  | enter =>
    rintro _ ⟨⟩
    rfl

theorem TableCall.growing_runAll (calls : List TableCall) :
    ∀ {t : SymbolTable}, t.usage.Growing → (runAll t calls).usage.Growing := by
  induction calls with
  | nil => exact id
  | cons c calls ih => exact fun h => ih ((c.moves _).1.growing h)

namespace SymbolTable
variable {t : SymbolTable}

theorem hasRoom_iff_storageEnd {words : Nat} :
    t.hasRoom words ↔ t.storageEnd + Word.size * words ≤ declaredLimit := by
  cases hf : t.function with
  | none =>
    rw [hasRoom_iff hf, storageEnd, hf]
  | some f =>
    rw [hasRoom, storageEnd, hf]
    exact Record.fits_iff

theorem current_contains_iff {name : String} :
    t.current.contains name ↔ ∃ x ∈ t.current.symbols, x.name = name := by
  simp only [Scope.contains, List.any_eq_true, beq_iff_eq]

/-- What passes the test for its size is allocated. -/
theorem declare_succeeds (h : t.usage.Growing) {name : String} {words : Nat}
    (hfresh : t.current.contains name = false) (hroom : t.hasRoom words) (ty : Ty) :
    ∃ s t', declare name ty words t = .ok s t' := by
  cases hf : t.function with
  | none => exact ⟨_, _, declare_global hf hfresh hroom⟩
  | some f =>
    have hopen : f.record.closed = false := by
      apply h
      rw [usage, hf]
      rfl
    exact ⟨_, _, declare_local hf hopen hfresh hroom⟩

end SymbolTable

theorem TableCall.declare_error? {t : SymbolTable} (h : t.usage.Growing) (name : String) (ty : Ty)
    (words : Nat) :
    (TableCall.declare name ty words).error? t =
      if ∃ x ∈ t.current.symbols, x.name = name then some (.duplicate name)
      else if 2 ^ 30 < t.storageEnd + 4 * words then some (.tooLarge name) else none := by
  simp only [← SymbolTable.current_contains_iff]
  split
  · rename_i hdup
    exact error?_of_error _ (TableM.map_error (SymbolTable.declare_duplicate hdup) some)
  rename_i hfresh
  rw [Bool.not_eq_true] at hfresh
  split
  · rename_i hlarge
    have hroom : t.hasRoom words = false := by
      rw [Bool.eq_false_iff, Ne, SymbolTable.hasRoom_iff_storageEnd]
      exact Nat.not_le.2 hlarge
    exact error?_of_error _ (TableM.map_error (SymbolTable.declare_tooLarge hfresh hroom) some)
  · rename_i hsmall
    have hroom : t.hasRoom words := SymbolTable.hasRoom_iff_storageEnd.2 (Nat.not_lt.1 hsmall)
    obtain ⟨s, t', hrun⟩ := SymbolTable.declare_succeeds h hfresh hroom ty
    exact error?_of_ok _ (TableM.map_ok hrun some)

/-- In any table that calls lead to, from any start of the global data, a rejected call leaves the
    whole table as it was. A declaration fails just if its name is bound in the innermost scope, or
    else if it ends beyond the storage that can be declared: none of the later steps fails. -/
theorem rejected_calls_change_nothing (dataBase : Word) (calls : List TableCall) :
    let t := TableCall.runAll (.initial dataBase) calls
    (∀ (c : TableCall) e, c.error? t = some e → c.Rejects e → c.after t = t) ∧
    ∀ name ty words, (TableCall.declare name ty words).error? t =
      if ∃ x ∈ t.current.symbols, x.name = name then some (.duplicate name)
      else if 2 ^ 30 < t.storageEnd + 4 * words then some (.tooLarge name) else none := by
  intro t
  have hgrowing : t.usage.Growing := TableCall.growing_runAll calls nofun
  exact ⟨fun c e he hrejects => hrejects.after_eq he, TableCall.declare_error? hgrowing⟩

/-- In a block with one variable, an array of its name and one that is a word too long are rejected;
    the longest that fits is not. -/
theorem rejected_calls_change_nothing_arrays :
    let t := TableCall.runAll (.initial 100)
      [.openFunction "f" .int 3, .openBlock, .declare "x" .int 1]
    (TableCall.declare "x" .arrayInt 5).after t = t ∧
      (TableCall.declare "y" .arrayInt (2 ^ 28 - 4)).after t = t ∧
      (TableCall.declare "y" .arrayInt (2 ^ 28 - 5)).error? t = none := by
  obtain ⟨hsame, herror⟩ := rejected_calls_change_nothing 100
    [.openFunction "f" .int 3, .openBlock, .declare "x" .int 1]
  refine ⟨hsame _ (.duplicate "x") ?_ trivial, hsame _ (.tooLarge "y") ?_ trivial, ?_⟩
  · rw [herror]
    decide
  · rw [herror]
    decide
  · rw [herror]
    decide

end OnePass
