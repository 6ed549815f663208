import OnePass.Proofs.Storage.Weave

/-!
# Where jumps lead

The code of an expression jumps only to call. The code of a statement jumps besides within itself, or
to the position right after it. So all jumps in a function are calls, or stay in its body or lead to
its epilogue. -/

namespace OnePass

open Planned (plain settle)

/-! ### Instructions that do not jump -/

/-- An instruction names no position to jump to. -/
def Instruction.IsStraight (i : Instruction) : Prop := i.jumpTarget? = none

namespace Use

variable {l : Layout} {n : Nat} {s : Symbol}

theorem straight_field (pointer offset : Word) :
    ∀ i ∈ (field l n pointer offset).code, i.IsStraight := by
  rw [field]
  split
  · exact List.forall_mem_nil _
  · intro i hi
    obtain rfl := List.mem_singleton.mp hi
    rfl

theorem straight_cell : ∀ i ∈ (cell l n s).code, i.IsStraight := by
  rw [cell]
  split
  · exact List.forall_mem_nil _
  · exact straight_field _ _

theorem straight_through {u : Use} (h : ∀ i ∈ u.code, i.IsStraight) :
    ∀ i ∈ u.through.code, i.IsStraight := by
  rw [through]
  split
  · intro i hi
    rcases List.mem_append.mp hi with hi | hi
    · exact h i hi
    · obtain rfl := List.mem_singleton.mp hi
      rfl
  · exact h
  · exact h

theorem straight_value : ∀ i ∈ (value l n s).code, i.IsStraight := by
  rw [value, scalar]
  split
  · exact List.forall_mem_nil _
  split
  · exact List.forall_mem_nil _
  split
  · exact straight_through straight_cell
  · exact straight_cell

theorem straight_reference : ∀ i ∈ (reference l n s).code, i.IsStraight := by
  have harray : ∀ i ∈ (if s.isGlobal then number s.value
      else { operand := .direct (l.scratchCell n)
             code := [.add (.direct l.framePointer) (.immediate s.value)
               (.direct (l.scratchCell n))]
             cells := 1 }).code, i.IsStraight := by
    split
    · exact List.forall_mem_nil _
    · intro i hi
      obtain rfl := List.mem_singleton.mp hi
      rfl
  rw [reference, base]
  split
  · exact List.forall_mem_nil _
  split
  · exact harray
  · exact harray
  · exact straight_cell

theorem straight_argument (parameter : Ty) :
    ∀ i ∈ (argument l n parameter s).code, i.IsStraight := by
  rw [argument]
  split
  · exact straight_reference
  · exact straight_value

end Use

namespace Fragment

variable {l : Layout}

theorem straight_binary (op : BinaryOp) (a b c : Symbol) :
    ∀ i ∈ binary l op a b c, i.IsStraight := by
  intro i hi
  simp only [binary, List.mem_append, List.mem_singleton] at hi
  rcases hi with ((hi | hi) | hi) | rfl
  · exact Use.straight_value i hi
  · exact Use.straight_value i hi
  · exact Use.straight_value i hi
  · cases op <;> rfl

theorem straight_assign (a b : Symbol) : ∀ i ∈ assign l a b, i.IsStraight := by
  intro i hi
  simp only [assign, List.mem_append, List.mem_singleton] at hi
  rcases hi with (hi | hi) | rfl
  · exact Use.straight_value i hi
  · exact Use.straight_value i hi
  · rfl

theorem straight_index (a i e : Symbol) : ∀ x ∈ index l a i e, x.IsStraight := by
  intro x hx
  simp only [index, List.mem_append, List.mem_singleton] at hx
  rcases hx with (((hx | hx) | rfl) | hx) | rfl
  · exact Use.straight_value x hx
  · exact Use.straight_cell x hx
  · rfl
  · exact Use.straight_reference x hx
  · rfl

theorem straight_print (args : List Symbol) : ∀ i ∈ print l args, i.IsStraight := by
  intro i hi
  simp only [print, List.mem_append, List.mem_singleton] at hi
  rcases hi with hi | rfl
  · split at hi
    · exact Use.straight_value i hi
    · cases hi
  · rfl

theorem straight_arguments (params : List Ty) (args : List Symbol) :
    ∀ i ∈ arguments l params args, i.IsStraight := by
  intro i hi
  obtain ⟨x, -, hi⟩ := List.mem_flatMap.mp hi
  simp only [argument, List.mem_append, List.mem_singleton] at hi
  rcases hi with (hi | hi) | rfl
  · exact Use.straight_argument _ i hi
  · exact Use.straight_field _ _ i hi
  · rfl

theorem straight_fetch (s : Symbol) : ∀ i ∈ fetch l s, i.IsStraight := by
  intro i hi
  simp only [fetch, List.mem_append, List.mem_singleton] at hi
  rcases hi with hi | rfl
  · exact Use.straight_value i hi
  · rfl

theorem straight_storeReturn (s : Symbol) : ∀ i ∈ storeReturn l s, i.IsStraight := by
  intro i hi
  simp only [storeReturn, List.mem_append, List.mem_singleton] at hi
  rcases hi with (hi | hi) | rfl
  · exact Use.straight_value i hi
  · exact Use.straight_field _ _ i hi
  · rfl

theorem straight_prologue : ∀ i ∈ prologue l, i.IsStraight := by
  intro i hi
  simp only [prologue_eq, List.mem_cons, List.not_mem_nil, or_false] at hi
  rcases hi with rfl | rfl | rfl | rfl | rfl <;> rfl

theorem straight_epilogue : ∀ i ∈ epilogue l, i.IsStraight := by
  intro i hi
  simp only [epilogue_eq, List.mem_cons, List.not_mem_nil, or_false] at hi
  rcases hi with rfl | rfl | rfl | rfl | rfl | rfl | rfl <;> rfl

end Fragment

/-! ### Jumps of code under way -/

/-- An instruction jumps, if at all, to a known position between two others. -/
inductive Instruction.StaysWithin (lo hi : Nat) : Instruction → Prop
  | straight {i} : i.IsStraight → StaysWithin lo hi i
  | jump {target} : lo ≤ target → target ≤ hi → StaysWithin lo hi (.jump target)
  | jumpIfFalse {c target} : lo ≤ target → target ≤ hi → StaysWithin lo hi (.jumpIfFalse c target)

theorem Instruction.StaysWithin.mono {lo lo' hi : Nat} {i : Instruction} (h : i.StaysWithin lo hi)
    (hlo : lo' ≤ lo) : i.StaysWithin lo' hi := by
  cases h with
  | straight h => exact .straight h
  | jump h => exact .jump (Nat.le_trans hlo h) ‹_›
  | jumpIfFalse h => exact .jumpIfFalse (Nat.le_trans hlo h) ‹_›

/-- In code that stands at `pc`, the instruction `i` at offset `k` calls one of some functions: it
    jumps to the entry, right after the position behind it was stored. -/
def CallsAt (fns : List (FnDecl × Frame)) (pc : Nat) (ps : List Planned) (k : Nat)
    (i : Instruction) : Prop :=
  ∃ f frame k' dst, (f, frame) ∈ fns ∧ i = .jump (BitVec.ofNat 32 frame.entry).toNat ∧
    k = k' + 1 ∧ ps[k']? = some (.code (.assign (.immediate (BitVec.ofNat 32 (pc + k + 1))) dst))

/-- Code that stands at `pc` calls, or stays between two positions. -/
def Confined (fns : List (FnDecl × Frame)) (lo hi pc : Nat) (ps : List Planned) : Prop :=
  ∀ k i, ps[k]? = some (.code i) → i.StaysWithin lo hi ∨ CallsAt fns pc ps k i

variable {fns : List (FnDecl × Frame)} {lo hi pc : Nat} {ps qs : List Planned}

namespace Confined

/-- Code each of whose instructions stays is confined. -/
theorem of_forall {is : List Instruction} (h : ∀ i ∈ is, i.StaysWithin lo hi) :
    Confined fns lo hi pc (plain is) := by
  intro k i hk
  obtain ⟨i', hi', heq⟩ := List.mem_map.mp (List.mem_of_getElem? hk)
  cases heq
  exact .inl (h i hi')

theorem mono (h : Confined fns lo hi pc ps) {lo' : Nat} (hlo : lo' ≤ lo) :
    Confined fns lo' hi pc ps := fun k i hk => (h k i hk).imp_left (·.mono hlo)

theorem nil : Confined fns lo hi pc [] := by
  intro k i hk
  cases hk

theorem straight {is : List Instruction} (h : ∀ i ∈ is, i.IsStraight) :
    Confined fns lo hi pc (plain is) := of_forall fun i hi => .straight (h i hi)

theorem append (h : Confined fns lo hi pc ps) (h' : Confined fns lo hi (pc + ps.length) qs) :
    Confined fns lo hi pc (ps ++ qs) := by
  intro k i hk
  by_cases hlt : k < ps.length
  · rw [List.getElem?_append_left hlt] at hk
    refine (h k i hk).imp_right ?_
    rintro ⟨f, frame, k', dst, hf, rfl, rfl, hassign⟩
    refine ⟨f, frame, k', dst, hf, rfl, rfl, ?_⟩
    rwa [List.getElem?_append_left (by omega)]
  · rw [List.getElem?_append_right (by omega)] at hk
    refine (h' _ i hk).imp_right ?_
    rintro ⟨f, frame, k', dst, hf, rfl, hk', hassign⟩
    refine ⟨f, frame, ps.length + k', dst, hf, rfl, by omega, ?_⟩
    rw [List.getElem?_append_right (by omega), Nat.add_sub_cancel_left, hassign]
    have hpc : pc + ps.length + (k - ps.length) + 1 = pc + k + 1 := by omega
    rw [hpc]

/-- Jumps that become known stay too, if they lead between the two positions. -/
theorem settle (h : Confined fns lo hi pc ps) {kind : Planned} (hkind : kind.slot = none)
    {target : Nat} (hlo : lo ≤ target) (hhi : target ≤ hi) :
    Confined fns lo hi pc (ps.map (settle kind (.jump target))) := by
  have hcode : ∀ i, Planned.settle kind (.jump target) (.code i) = .code i := by
    intro i
    rw [Planned.settle, if_neg]
    rintro rfl
    cases hkind
  intro k i hk
  rw [List.getElem?_map, Option.map_eq_some_iff] at hk
  obtain ⟨p, hp, hsettle⟩ := hk
  rw [Planned.settle] at hsettle
  split at hsettle
  · cases hsettle
    exact .inl (.jump hlo hhi)
  · subst hsettle
    refine (h k i hp).imp_right ?_
    rintro ⟨f, frame, k', dst, hf, rfl, rfl, hassign⟩
    refine ⟨f, frame, k', dst, hf, rfl, rfl, ?_⟩
    rw [List.getElem?_map, hassign, Option.map_some, hcode]

/-- Code without open jumps, as instructions. -/
theorem finish (h : Confined fns lo hi pc ps) {epilogue : Nat} (hlo : lo ≤ epilogue)
    (hhi : epilogue ≤ hi) : Confined fns lo hi pc (plain (ps.map (Planned.finish epilogue))) := by
  intro k i hk
  rw [plain, List.getElem?_map, List.getElem?_map, Option.map_eq_some_iff] at hk
  obtain ⟨i', hi', heq⟩ := hk
  cases heq
  obtain ⟨p, hp, hfinish⟩ := Option.map_eq_some_iff.mp hi'
  cases p with
  | code i' =>
    obtain rfl : i' = i := hfinish
    refine (h k i' hp).imp_right ?_
    rintro ⟨f, frame, k', dst, hf, rfl, rfl, hassign⟩
    refine ⟨f, frame, k', dst, hf, rfl, rfl, ?_⟩
    rw [plain, List.getElem?_map, List.getElem?_map, hassign]
    rfl
  | leave =>
    obtain rfl : Instruction.jump epilogue = i := hfinish
    exact .inl (.jump hlo hhi)
  | back =>
    obtain rfl : Instruction.jump epilogue = i := hfinish
    exact .inl (.jump hlo hhi)

/-- The code that enters a function is a call. -/
theorem enter {l : Layout} {f : FnDecl} {frame : Frame} (hf : (f, frame) ∈ fns) :
    Confined fns lo hi pc (plain (Fragment.enter l pc (BitVec.ofNat 32 frame.entry))) := by
  let a := Use.field l 0 l.stackPointer (BitVec.ofNat 32 Record.returnAddress)
  have hstraight : Confined fns lo hi pc (plain a.code) := straight (Use.straight_field _ _)
  have hjump : Confined fns lo hi (pc + (plain a.code).length)
      [.code (.assign (.immediate (BitVec.ofNat 32 (pc + a.code.length + 2))) a.operand),
        .code (.jump (BitVec.ofNat 32 frame.entry).toNat)] := by
    intro k i hk
    match k, hk with
    | 0, hk =>
      cases hk
      exact .inl (.straight rfl)
    | 1, hk =>
      cases hk
      refine .inr ⟨f, frame, 0, a.operand, hf, rfl, rfl, ?_⟩
      rw [Planned.length_plain]
      rfl
  rw [Fragment.enter, Planned.plain_append]
  exact hstraight.append hjump

theorem call {l : Layout} {f : FnDecl} {frame : Frame} (hf : (f, frame) ∈ fns)
    (callee : Symbol) (hvalue : callee.value = BitVec.ofNat 32 frame.entry) (args : List Symbol) :
    Confined fns lo hi pc (plain (Fragment.call l pc callee args)) := by
  rw [Fragment.call, Planned.plain_append, hvalue]
  refine (straight (Fragment.straight_arguments _ _)).append ?_
  rw [Planned.length_plain]
  exact enter hf

theorem jump {target : Nat} (hlo : lo ≤ target) (hhi : target ≤ hi) :
    Confined fns lo hi pc (plain [.jump target]) := by
  refine .of_forall fun i hi => ?_
  obtain rfl := List.mem_singleton.mp hi
  exact .jump hlo hhi

/-- A jump that is still open leads nowhere yet. -/
theorem hole {kind : Planned} (h : kind.slot = none) : Confined fns lo hi pc [kind] := by
  intro k i hk
  obtain rfl := List.mem_singleton.mp (List.mem_of_getElem? hk)
  cases h

theorem test {is : List Instruction} (h : Confined fns lo hi pc (plain is)) (l : Layout)
    (s : Symbol) {target : Nat} (hlo : lo ≤ target) (hhi : target ≤ hi) :
    Confined fns lo hi pc (plain (Fragment.test l is s target)) := by
  rw [Fragment.test, Planned.plain_append, Planned.plain_append]
  refine (h.append (.straight Use.straight_value)).append (.of_forall ?_)
  intro i hi
  obtain rfl := List.mem_singleton.mp hi
  exact .jumpIfFalse hlo hhi

end Confined

/-- Woven code jumps to call, within itself, or right behind itself. -/
theorem Woven.confined {A : Area} {cs : List (Name × Args)} (h : Woven A fns pc ps cs)
    (hlo : lo ≤ pc) (hhi : pc + ps.length ≤ hi) : Confined fns lo hi pc ps := by
  induction h with
  | nil => exact .nil
  | append _ _ ih₁ ih₂ =>
    rw [List.length_append] at hhi
    exact (ih₁ hlo (by omega)).append (ih₂ (by omega) (by omega))
  | index => exact .straight (Fragment.straight_index _ _ _)
  | print => exact .straight (Fragment.straight_print _)
  | call h hname =>
    obtain ⟨f, frame, hf, rfl⟩ := h.callee hname
    exact .call hf _ rfl _
  | callValue h hname =>
    obtain ⟨f, frame, hf, rfl⟩ := h.callee hname
    rw [Planned.plain_append]
    exact (Confined.call hf _ rfl _).append (.straight (Fragment.straight_fetch _))
  | binary => exact .straight (Fragment.straight_binary _ _ _ _)
  | assign => exact .straight (Fragment.straight_assign _ _)
  | storeReturn => exact .straight (Fragment.straight_storeReturn _)
  | hole hkind => exact .hole hkind
  | ifThen _ _ hn _ ih₁ ih₂ =>
    simp only [List.length_append, Planned.length_plain, Fragment.length_test] at hhi hn ih₁
    refine ((ih₁ hlo (by omega)).test _ _ (by omega) (by omega)).append ?_
    rw [Planned.length_plain, Fragment.length_test, List.length_append, ← hn, ← Nat.add_assoc]
    exact ih₂ (by omega) (by omega)
  | ifElse _ _ hn _ _ ih₁ ih₂ ih₃ =>
    simp only [List.length_append, Planned.length_plain, Fragment.length_test, List.length_cons,
      List.length_nil] at hhi hn ih₁
    refine ((((ih₁ hlo (by omega)).test _ _ (by omega) (by omega)).append ?_).append
      (.jump (by omega) (by omega))).append ?_
    · rw [Planned.length_plain, Fragment.length_test, List.length_append, ← hn, ← Nat.add_assoc]
      exact ih₂ (by omega) (by omega)
    · simp only [List.length_append, Planned.length_plain, Fragment.length_test, List.length_cons,
        List.length_nil, ← hn, ← Nat.add_assoc]
      exact ih₃ (by omega) (by omega)
  | loop _ _ _ hn ih₁ ih₂ =>
    simp only [List.length_map, List.length_append, Planned.length_plain,
      Fragment.length_test] at hhi hn ih₂
    refine ((ih₁ hlo (by omega)).append ((ih₂ (by omega) (by omega)).test _ _ hlo ?_)).settle rfl
      ?_ ?_ <;> omega

end OnePass
