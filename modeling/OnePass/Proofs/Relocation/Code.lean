import OnePass.Proofs.Generator.Operand

/-!
# Code for another layout

The same program is placed by two layouts. What code for one of them says about a cell, code for the
other says about the cell that plays the same part there:

    frame pointer        ⟷  frame pointer
    stack pointer        ⟷  stack pointer
    scratch cell `k`     ⟷  scratch cell `k`
    data base + `d`      ⟷  data base + `d`

Numbers are the same, but for the address of a global array, which moves with the data. -/

namespace OnePass

/-- A scope has storage of a type at an address. -/
def Scope.Has (globals : Scope) (ty : Ty) (address : Word) : Prop :=
  ∃ s ∈ globals.symbols, s.isFunction = false ∧ s.ty = ty ∧ s.value = address

/-- All storage of a scope is found in another. -/
def Scope.Below (globals more : Scope) : Prop :=
  ∀ ty address, globals.Has ty address → more.Has ty address

theorem Scope.Below.refl (globals : Scope) : globals.Below globals := fun _ _ h => h

section
variable (l l' : Layout)

/-- Two addresses lie equally far into the data. -/
def Layout.Shifts (a a' : Word) : Prop :=
  ∃ d, a.toNat = l.dataBase.toNat + d ∧ a'.toNat = l'.dataBase.toNat + d

variable (globals : Scope)

/-- Two cells play the same part in two layouts. -/
inductive Word.Moved : Word → Word → Prop
  | framePointer : Moved l.framePointer l'.framePointer
  | stackPointer : Moved l.stackPointer l'.stackPointer
  | scratch {k : Nat} (hk : k < 3) : Moved (l.scratchCell k) (l'.scratchCell k)
  | data {a a' : Word} (hvariable : globals.Has .int a) (hshift : l.Shifts l' a a') : Moved a a'

/-- Two operands are of the same kind and say the same in two layouts. -/
inductive Operand.Moved : Operand → Operand → Prop
  | number (value : Word) : Moved (.immediate value) (.immediate value)
  | array {a a' : Word} (harray : globals.Has .arrayInt a) (hshift : l.Shifts l' a a') :
      Moved (.immediate a) (.immediate a')
  | direct {a a' : Word} (h : a.Moved l l' globals a') : Moved (.direct a) (.direct a')
  | indirect {a a' : Word} (h : a.Moved l l' globals a') : Moved (.indirect a) (.indirect a')

/-- Two instructions have the same operation and the same target, if they jump, and their other
    operands say the same in two layouts. -/
inductive Instruction.Moved : Instruction → Instruction → Prop
  | binary {op : BinaryOp} {a a' b b' dst dst' : Operand} (ha : a.Moved l l' globals a')
      (hb : b.Moved l l' globals b') (hdst : dst.Moved l l' globals dst') :
      Moved (op.instruction a b dst) (op.instruction a' b' dst')
  | assign {src src' dst dst' : Operand} (hsrc : src.Moved l l' globals src')
      (hdst : dst.Moved l l' globals dst') : Moved (.assign src dst) (.assign src' dst')
  | print {value value' : Operand} (h : value.Moved l l' globals value') :
      Moved (.print value) (.print value')
  | jumpIfFalse {cond cond' : Operand} (pc : Nat) (h : cond.Moved l l' globals cond') :
      Moved (.jumpIfFalse cond pc) (.jumpIfFalse cond' pc)
  | jump (pc : Nat) : Moved (.jump pc) (.jump pc)
  | jumpThrough {place place' : Word} (h : place.Moved l l' globals place') :
      Moved (.jumpThrough (.indirect place)) (.jumpThrough (.indirect place'))

/-- Two stores have the same slots waiting, all of them reserved, and instructions that say the same
    in two layouts. -/
structure Store.Moved (s s' : Store) : Prop where
  slots : List.Forall₂ (Option.Rel (Instruction.Moved l l' globals)) s.slots.toList s'.slots.toList
  pending : s'.pending = s.pending
  reserved : ∀ pc ∈ s.pending, pc < s.pc

end

variable {l l' : Layout} {globals more : Scope}

theorem Instruction.Moved.add {a a' b b' dst dst' : Operand} (ha : a.Moved l l' globals a')
    (hb : b.Moved l l' globals b') (hdst : dst.Moved l l' globals dst') :
    (Instruction.add a b dst).Moved l l' globals (.add a' b' dst') :=
  @Instruction.Moved.binary _ _ _ .add _ _ _ _ _ _ ha hb hdst

theorem Instruction.Moved.mul {a a' b b' dst dst' : Operand} (ha : a.Moved l l' globals a')
    (hb : b.Moved l l' globals b') (hdst : dst.Moved l l' globals dst') :
    (Instruction.mul a b dst).Moved l l' globals (.mul a' b' dst') :=
  @Instruction.Moved.binary _ _ _ .mul _ _ _ _ _ _ ha hb hdst

/-! ### More global storage -/

theorem Word.Moved.mono (hmore : globals.Below more) {a a' : Word}
    (h : a.Moved l l' globals a') : a.Moved l l' more a' := by
  cases h with
  | framePointer => exact .framePointer
  | stackPointer => exact .stackPointer
  | scratch hk => exact .scratch hk
  | data hvariable hshift => exact .data (hmore _ _ hvariable) hshift

theorem Operand.Moved.mono (hmore : globals.Below more) {o o' : Operand}
    (h : o.Moved l l' globals o') : o.Moved l l' more o' := by
  cases h with
  | number value => exact .number value
  | array harray hshift => exact .array (hmore _ _ harray) hshift
  | direct h => exact .direct (h.mono hmore)
  | indirect h => exact .indirect (h.mono hmore)

theorem Instruction.Moved.mono (hmore : globals.Below more) {i i' : Instruction}
    (h : i.Moved l l' globals i') : i.Moved l l' more i' := by
  cases h with
  | binary ha hb hdst => exact .binary (ha.mono hmore) (hb.mono hmore) (hdst.mono hmore)
  | assign hsrc hdst => exact .assign (hsrc.mono hmore) (hdst.mono hmore)
  | print h => exact .print (h.mono hmore)
  | jumpIfFalse pc h => exact .jumpIfFalse pc (h.mono hmore)
  | jump pc => exact .jump pc
  | jumpThrough h => exact .jumpThrough (h.mono hmore)

theorem Store.Moved.mono (hmore : globals.Below more) {s s' : Store}
    (h : s.Moved l l' globals s') : s.Moved l l' more s' where
  slots := by
    refine h.slots.imp fun i i' hi => ?_
    cases hi with
    | none => exact .none
    | some hi => exact .some (hi.mono hmore)
  pending := h.pending
  reserved := h.reserved

/-! ### Stores -/

namespace Store.Moved

variable {s s' : Store}

theorem pc (h : s.Moved l l' globals s') : s'.pc = s.pc := by
  have hlength := h.slots.length_eq
  simp only [Array.length_toList] at hlength
  exact hlength.symm

theorem emit (h : s.Moved l l' globals s') {i i' : Instruction} (hi : i.Moved l l' globals i') :
    (s.emit i).Moved l l' globals (s'.emit i') where
  slots := by
    simp only [Store.emit, Array.toList_push]
    exact List.rel_append h.slots (.cons (.some hi) .nil)
  pending := h.pending
  reserved pc hpc := by
    have hlt := h.reserved pc hpc
    rw [pc_emit]
    omega

theorem append {is is' : List Instruction}
    (hi : List.Forall₂ (Instruction.Moved l l' globals) is is') (h : s.Moved l l' globals s') :
    (s.append is).Moved l l' globals (s'.append is') := by
  induction hi generalizing s s' with
  | nil => exact h
  | cons hi _ ih => exact ih (h.emit hi)

theorem reserve (h : s.Moved l l' globals s') :
    s'.reserve.1 = s.reserve.1 ∧ s.reserve.2.Moved l l' globals s'.reserve.2 := by
  refine ⟨congrArg Hole.mk h.pc, ?_, ?_, ?_⟩
  · simp only [Store.reserve, Array.toList_push]
    exact List.rel_append h.slots (.cons .none .nil)
  · simp only [Store.reserve, h.pending, h.pc]
  · intro pc hpc
    rw [pc_reserve]
    rcases List.mem_append.mp hpc with hold | hnew
    · have hlt := h.reserved pc hold
      omega
    · rw [List.mem_singleton.mp hnew]
      omega

/-- A slot that is filled in one store is filled in the other. -/
theorem fill (h : s.Moved l l' globals s') (hole : Hole) {i i' : Instruction}
    (hi : i.Moved l l' globals i') :
    (∃ t t', s.fill hole i = .ok t ∧ s'.fill hole i' = .ok t' ∧ t.Moved l l' globals t') ∨
      ∃ fault, s.fill hole i = .error fault ∧ s'.fill hole i' = .error fault := by
  rw [Store.fill, Store.fill, h.pending]
  split
  · rename_i hpending
    refine .inl ⟨_, _, rfl, rfl, ?_, rfl, ?_⟩
    · simp only [Array.toList_setIfInBounds]
      exact forall₂_set h.slots (.some hi)
    · intro pc hpc
      have hlt := h.reserved pc (List.mem_of_mem_erase hpc)
      simpa [Store.pc] using hlt
  · exact .inr ⟨_, rfl, rfl⟩
where
  forall₂_set {α : Type} {rel : α → α → Prop} {x x' : α} : ∀ {xs xs' : List α} {n : Nat},
      List.Forall₂ rel xs xs' → rel x x' → List.Forall₂ rel (xs.set n x) (xs'.set n x')
    | _, _, _, .nil, _ => .nil
    | _, _, 0, .cons _ hxs, hx => .cons hx hxs
    | _, _, _ + 1, .cons hy hxs, hx => .cons hy (forall₂_set hxs hx)

end Store.Moved

end OnePass
