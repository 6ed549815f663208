import OnePass.Proofs.Symbol.Rejected

/-!
# Blocks hide their names and keep their storage

While a block is open, calls reach only its own scope and those of blocks inside it: names are added
to the innermost scope alone, and parameters are refused. So when it closes every name stands for
what it did before. The record is shared: it has grown by what the block took, and storage for later
names goes behind that. -/

namespace OnePass

namespace TableCall

/-! ### Balanced calls -/

/-- How many blocks are open after a call, of those that were opened since some point. A block that
    was open before and the function itself are not closed. -/
def depth? : TableCall → Nat → Option Nat
  | .openBlock, depth => some (depth + 1)
  | .closeBlock, depth + 1 => some depth
  | .closeBlock, 0 | .closeFunction, _ => none
  | _, depth => some depth

/-- Calls of which each block that they open is closed again, and no other. Others may fail. -/
def Balanced (calls : List TableCall) : Prop :=
  calls.foldlM (fun depth c => c.depth? depth) 0 = some 0

instance (calls : List TableCall) : Decidable (Balanced calls) :=
  inferInstanceAs (Decidable (_ = _))

theorem not_mem_of_depth {calls : List TableCall} {depth depth' : Nat}
    (h : calls.foldlM (fun depth c => c.depth? depth) depth = some depth') :
    .closeFunction ∉ calls := by
  induction calls generalizing depth with
  | nil => exact List.not_mem_nil
  | cons c calls ih =>
    rw [List.foldlM_cons, Option.bind_eq_bind, Option.bind_eq_some_iff] at h
    obtain ⟨between, hc, hcalls⟩ := h
    refine List.not_mem_cons_of_ne_of_not_mem ?_ (ih hcalls)
    rintro rfl
    cases hc

/-- What calls hand out, in their order. -/
def grants (t : SymbolTable) : List TableCall → List Grant
  | [] => []
  | c :: calls => (c.grant? t).toList ++ grants (c.after t) calls

end TableCall

/-! ### Calls in a block -/

/-- What becomes of the table `t`, with its function `f` open, while `depth` new blocks are open:
    all is as it was but for these blocks, the record and the count of temporaries. -/
def SymbolTable.Nests (t : SymbolTable) (f : OpenFunction) (depth : Nat)
    (t' : SymbolTable) : Prop :=
  ∃ record temporaries inner, inner.length = depth ∧
    t' = { t with function := some { f with record, blocks := inner ++ f.blocks }, temporaries }

namespace SymbolTable.Nests
variable {t t' : SymbolTable} {f : OpenFunction} {depth : Nat}

theorem refl (hf : t.function = some f) : t.Nests f 0 t := by
  refine ⟨f.record, t.temporaries, [], rfl, ?_⟩
  rw [List.nil_append, ← hf]

/-- Words are handed out from the record. -/
theorem grow (h : t.Nests f depth t') (words : Nat) : t.Nests f depth (t'.grow words) := by
  obtain ⟨record, temporaries, inner, hlength, rfl⟩ := h
  exact ⟨record.grow words, temporaries, inner, hlength, rfl⟩

theorem count (h : t.Nests f depth t') (temporaries : Nat) :
    t.Nests f depth { t' with temporaries } := by
  obtain ⟨record, _, inner, hlength, rfl⟩ := h
  exact ⟨record, temporaries, inner, hlength, rfl⟩

/-- Names are added to the innermost of the new blocks. -/
theorem insert (h : t.Nests f (depth + 1) t') (x : Symbol) :
    t.Nests f (depth + 1) (t'.insert x) := by
  obtain ⟨record, temporaries, inner, hlength, rfl⟩ := h
  obtain ⟨block, rest, rfl⟩ := List.exists_cons_of_length_eq_add_one hlength
  exact ⟨record, temporaries, block.insert x :: rest, hlength, rfl⟩

theorem openBlock (h : t.Nests f depth t') :
    t.Nests f (depth + 1) (TableCall.openBlock.after t') := by
  obtain ⟨record, temporaries, inner, rfl, rfl⟩ := h
  exact ⟨record, temporaries, {} :: inner, rfl, rfl⟩

theorem closeBlock (h : t.Nests f (depth + 1) t') :
    t.Nests f depth (TableCall.closeBlock.after t') := by
  obtain ⟨record, temporaries, inner, hlength, rfl⟩ := h
  obtain ⟨block, rest, rfl⟩ := List.exists_cons_of_length_eq_add_one hlength
  exact ⟨record, temporaries, rest, Nat.succ.inj hlength, rfl⟩

/-- The function stays open, and a new block is its innermost one. -/
theorem function (h : t.Nests f (depth + 1) t') :
    ∃ f' block blocks, t'.function = some f' ∧ f'.blocks = block :: blocks := by
  obtain ⟨_, _, inner, hlength, rfl⟩ := h
  obtain ⟨block, rest, rfl⟩ := List.exists_cons_of_length_eq_add_one hlength
  exact ⟨_, block, _, rfl, rfl⟩

/-- A call that opens and closes nothing. There is an innermost block for new names, and it has no
    parameters. -/
theorem plain (h : t.Nests f (depth + 1) t') {c : TableCall} (hc : c.depth? 0 = some 0) :
    t.Nests f (depth + 1) (c.after t') := by
  obtain ⟨f', block, blocks, hf', hblocks⟩ := h.function
  obtain ⟨t₁, hafter, outcome, hdoes⟩ := c.after_does t'
  rw [hafter]
  cases hdoes with
  | stops | rejects => exact h
  | declares => exact (h.grow _).insert _
  | standsIn => exact h.insert _
  | makes => exact (h.grow 1).count _
  | opens hf =>
    rw [hf] at hf'
    cases hf'
  | adds hf hnone | addsType hf hnone =>
    cases hf'.symm.trans hf
    rw [hnone] at hblocks
    cases hblocks
  | opensBlock | closesBlock | closes => cases hc

/-- One call. -/
theorem call (h : t.Nests f (depth + 1) t') {c : TableCall} {depth' : Nat}
    (hc : c.depth? depth = some depth') : t.Nests f (depth' + 1) (c.after t') := by
  cases c with
  | openBlock =>
    cases hc
    exact h.openBlock
  | closeBlock =>
    cases depth with
    | zero => cases hc
    | succ depth =>
      cases hc
      exact h.closeBlock
  | closeFunction => cases hc
  | declare | declarePlaceholder | newTemporary | addParameter | openFunction =>
    cases hc
    exact h.plain rfl

theorem runAll (h : t.Nests f (depth + 1) t') {calls : List TableCall} {depth' : Nat}
    (hcalls : calls.foldlM (fun depth c => c.depth? depth) depth = some depth') :
    t.Nests f (depth' + 1) (TableCall.runAll t' calls) := by
  induction calls generalizing t' depth with
  | nil =>
    cases hcalls
    exact h
  | cons c calls ih =>
    rw [List.foldlM_cons, Option.bind_eq_bind, Option.bind_eq_some_iff] at hcalls
    obtain ⟨between, hc, hcalls⟩ := hcalls
    exact ih (h.call hc) hcalls

/-- With no new block open, names stand for what they did. -/
theorem find? (h : t.Nests f 0 t') (hf : t.function = some f) (name : String) :
    t'.find? name = t.find? name := by
  obtain ⟨record, temporaries, inner, hlength, rfl⟩ := h
  obtain rfl := List.length_eq_zero_iff.1 hlength
  simp only [SymbolTable.find?, scopes, hf]
  rfl

theorem globals_eq (h : t.Nests f depth t') : t'.globals = t.globals := by
  obtain ⟨_, _, _, _, rfl⟩ := h
  rfl

theorem dataEnd_eq (h : t.Nests f depth t') : t'.dataEnd = t.dataEnd := by
  obtain ⟨_, _, _, _, rfl⟩ := h
  rfl

end SymbolTable.Nests

theorem TableCall.runAll_append (t : SymbolTable) (calls later : List TableCall) :
    runAll t (calls ++ later) = runAll (runAll t calls) later :=
  List.foldl_append

/-- What is left of a block that has been opened and closed again. -/
theorem SymbolTable.nests_block {t : SymbolTable} {f : OpenFunction} (hf : t.function = some f)
    {inner : List TableCall} (hinner : TableCall.Balanced inner) :
    t.Nests f 0 (TableCall.runAll t (.openBlock :: inner ++ [.closeBlock])) := by
  have hopened : t.Nests f 1 (TableCall.openBlock.after t) := (Nests.refl hf).openBlock
  rw [List.cons_append, ← List.singleton_append, TableCall.runAll_append, TableCall.runAll_append]
  exact (hopened.runAll hinner).closeBlock

/-! ### Storage -/

/-- In a function, words are handed out at the end of its record. -/
theorem Usage.Moves.record_of_grant {u u' : Usage} {g : Grant} {r : Record}
    (h : u.Moves u' (some g)) (hr : u.record = some r) :
    ∃ words, r.HasRoom words ∧ g = ⟨BitVec.ofNat 32 r.size, words⟩ ∧
      u'.record = some (r.grow words) := by
  cases h with
  | outside => cases hr
  | inside hroom =>
    cases hr
    exact ⟨_, hroom, rfl, rfl⟩

namespace TableCall
variable {t : SymbolTable} {r : Record}

/-- A function stays open until it is closed. -/
theorem record_after {c : TableCall} (hc : c ≠ .closeFunction) (hr : t.usage.record = some r) :
    ∃ r', (c.after t).usage.record = some r' := by
  obtain ⟨f, hf, -⟩ := Option.map_eq_some_iff.1 hr
  obtain ⟨t', hafter, outcome, hdoes⟩ := c.after_does t
  rw [hafter]
  cases hdoes with
  | stops | rejects => exact ⟨r, hr⟩
  | declares hspace =>
    obtain ⟨words, -, -, h⟩ := hspace.moves.record_of_grant hr
    rw [SymbolTable.usage_insert]
    exact ⟨_, h⟩
  | makes hspace =>
    obtain ⟨words, -, -, h⟩ := hspace.moves.record_of_grant hr
    exact ⟨_, h⟩
  | standsIn =>
    rw [SymbolTable.usage_insert]
    exact ⟨r, hr⟩
  | opens hnone =>
    rw [hnone] at hf
    cases hf
  | adds | addsType | opensBlock | closesBlock => exact ⟨_, rfl⟩
  | closes => exact absurd rfl hc

/-- Until the function is closed a call keeps its record, or hands out words at its end. -/
theorem grant_within {c : TableCall} (hc : c ≠ .closeFunction) (hr : t.usage.record = some r) :
    ∃ r', (c.after t).usage.record = some r' ∧ r.size ≤ r'.size ∧
      ∀ g ∈ (c.grant? t).toList, (r.size : Int) ≤ g.start ∧ g.stop ≤ r'.size := by
  obtain ⟨r', hr'⟩ := record_after hc hr
  have hmoves := (c.moves t).1
  refine ⟨r', hr', hmoves.le.2 r hr r' hr', ?_⟩
  intro g hg
  rw [Option.mem_toList] at hg
  rw [hg] at hmoves
  obtain ⟨words, hroom, rfl, hgrow⟩ := hmoves.record_of_grant hr
  obtain rfl := Option.some.inj (hr'.symm.trans hgrow)
  have hstart : Grant.start ⟨BitVec.ofNat 32 r.size, words⟩ = r.size :=
    Word.toInt_ofNat (Nat.lt_of_le_of_lt (Nat.le_trans (Nat.le_add_right ..) hroom.2) (by decide))
  rw [Grant.stop, hstart]
  exact ⟨Int.le_refl _, by simp [Record.grow]⟩

theorem grants_within {calls : List TableCall} (hcalls : .closeFunction ∉ calls)
    (hr : t.usage.record = some r) :
    ∃ r', (runAll t calls).usage.record = some r' ∧ r.size ≤ r'.size ∧
      ∀ g ∈ grants t calls, (r.size : Int) ≤ g.start ∧ g.stop ≤ r'.size := by
  induction calls generalizing t r with
  | nil => exact ⟨r, hr, Nat.le_refl _, nofun⟩
  | cons c calls ih =>
    obtain ⟨between, hbetween, hle, hc⟩ :=
      grant_within (List.ne_of_not_mem_cons hcalls).symm hr
    obtain ⟨r', hr', hle', hrest⟩ := ih (List.not_mem_of_not_mem_cons hcalls) hbetween
    refine ⟨r', hr', Nat.le_trans hle hle', fun g hg => ?_⟩
    rcases List.mem_append.1 hg with hg | hg
    · have := hc g hg
      omega
    · have := hrest g hg
      omega

end TableCall

/-- A block that is opened in a function and closed again, with any calls between that are balanced,
    failing ones included, leaves every name with what it stood for and the globals with their end.
    Until the function is closed, whatever is handed out later lies behind all that was handed out
    inside. -/
theorem closed_block_restores_bindings {t : SymbolTable} {f : OpenFunction}
    (hf : t.function = some f) {inner : List TableCall} (hinner : TableCall.Balanced inner) :
    let calls := .openBlock :: inner ++ [.closeBlock]
    let t' := TableCall.runAll t calls
    (∀ name, t'.find? name = t.find? name) ∧ t'.globals = t.globals ∧ t'.dataEnd = t.dataEnd ∧
      ∀ later, .closeFunction ∉ later →
        ∀ g ∈ TableCall.grants t calls, ∀ h ∈ TableCall.grants t' later, g.stop ≤ h.start := by
  intro calls t'
  have hnests : t.Nests f 0 t' := SymbolTable.nests_block hf hinner
  refine ⟨hnests.find? hf, hnests.globals_eq, hnests.dataEnd_eq, ?_⟩
  intro later hlater g hg h hh
  have hcalls : .closeFunction ∉ calls := by
    have := TableCall.not_mem_of_depth hinner
    simp [calls, this]
  have hrecord : t.usage.record = some f.record := by rw [SymbolTable.usage, hf, Option.map_some]
  obtain ⟨r, hr, -, hinside⟩ := TableCall.grants_within hcalls hrecord
  obtain ⟨r', -, -, hbehind⟩ := TableCall.grants_within hlater hr
  exact Int.le_trans (hinside g hg).2 (hbehind h hh).1

/-- A block that hides a parameter by an array, with a block in it in which an array is too large,
    its name stands for a placeholder, and a parameter is refused. The next variable of the function
    goes behind the array and the temporary. -/
theorem closed_block_restores_bindings_nested :
    let t := TableCall.runAll (.initial 100) [.declare "a" .int 1, .openFunction "f" .int 3,
      .addParameter "x" .int, .openBlock, .declare "y" .int 1]
    let inner : List TableCall := [.declare "x" .arrayInt 3, .declare "x" .int 1, .openBlock,
      .declare "y" .arrayInt (2 ^ 28), .declarePlaceholder "y", .addParameter "z" .int,
      .newTemporary false, .closeBlock]
    let calls := .openBlock :: inner ++ [.closeBlock]
    let t' := TableCall.runAll t calls
    TableCall.Balanced inner ∧ (∀ name, t'.find? name = t.find? name) ∧ t'.dataEnd = 104 ∧
      (TableCall.grants t calls).map Grant.stop = [36, 40] ∧
      (TableCall.grants t' [.declare "z" .int 1]).map Grant.start = [40] := by
  have hbalanced : TableCall.Balanced [.declare "x" .arrayInt 3, .declare "x" .int 1, .openBlock,
      .declare "y" .arrayInt (2 ^ 28), .declarePlaceholder "y", .addParameter "z" .int,
      .newTemporary false, .closeBlock] := by decide
  have hrestores := closed_block_restores_bindings
    (t := TableCall.runAll (.initial 100) [.declare "a" .int 1, .openFunction "f" .int 3,
      .addParameter "x" .int, .openBlock, .declare "y" .int 1]) rfl hbalanced
  exact ⟨hbalanced, hrestores.1, hrestores.2.2.1, by decide, by decide⟩

end OnePass
