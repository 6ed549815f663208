import OnePass.Proofs.Translate.Rules

/-!
# Values that pass for others

Where a name is misspelt a placeholder stands for its value. It passes every check that the right
value passes, and its use takes no code at all. Other values of the misspelt program differ from
those of the right one in their places only: they pass the same checks, and their uses take code of
the same length. -/

namespace OnePass

/-! ### Symbols -/

/-- A symbol without its name and its place; what is left of the place of storage is whether it is
    the first of a record. -/
def Symbol.shape (s : Symbol) : Symbol :=
  { s with name := "", value := if s.isFunction ∨ s.value = 0 then 0 else 1 }

/-- A symbol passes for another: it is a placeholder, or has the other's shape. -/
def Symbol.PassesFor (s' s : Symbol) : Prop := (∃ x, s' = .placeholder x) ∨ s'.shape = s.shape

namespace Symbol

variable {s s' : Symbol}

section
variable (h : s'.shape = s.shape)
include h

theorem ty_of_shape : s'.ty = s.ty := (congrArg Symbol.ty h :)

theorem args_of_shape : s'.args = s.args := (congrArg Symbol.args h :)

theorem isFunction_of_shape : s'.isFunction = s.isFunction := (congrArg Symbol.isFunction h :)

theorem isGlobal_of_shape : s'.isGlobal = s.isGlobal := (congrArg Symbol.isGlobal h :)

theorem isConstant_of_shape : s'.isConstant = s.isConstant := (congrArg Symbol.isConstant h :)

theorem isPlaceholder_of_shape : s'.isPlaceholder = s.isPlaceholder :=
  (congrArg Symbol.isPlaceholder h :)

theorem value_of_shape (hfn : s.isFunction = false) : s'.value = 0 ↔ s.value = 0 := by
  have hvalue : s'.shape.value = s.shape.value := congrArg Symbol.value h
  simp only [shape, isFunction_of_shape h, hfn, Bool.false_eq_true, false_or] at hvalue
  split at hvalue <;> split at hvalue <;> simp_all

theorem IsArray.of_shape (hs : s.IsArray) : s'.IsArray := by
  rw [IsArray, isPlaceholder_of_shape h, isFunction_of_shape h, ty_of_shape h]
  exact hs

theorem IsCallable.of_shape (hs : s.IsCallable) : s'.IsCallable := by
  rw [IsCallable, isPlaceholder_of_shape h, isFunction_of_shape h]
  exact hs

end

namespace PassesFor

theorem of_shape (h : s'.shape = s.shape) : s'.PassesFor s := .inr h

theorem placeholder (x : String) (s : Symbol) : (Symbol.placeholder x).PassesFor s := .inl ⟨x, rfl⟩

theorem isInt (h : s'.PassesFor s) (hs : s.isInt) : s'.isInt := by
  rcases h with ⟨x, rfl⟩ | h
  · rfl
  · rw [Symbol.isInt, isPlaceholder_of_shape h, isFunction_of_shape h, ty_of_shape h]
    exact hs

theorem matchesParameter (h : s'.PassesFor s) {ty : Ty} (hs : s.matchesParameter ty) :
    s'.matchesParameter ty := by
  rcases h with ⟨x, rfl⟩ | h
  · rfl
  · rw [Symbol.matchesParameter, isPlaceholder_of_shape h, isFunction_of_shape h, ty_of_shape h]
    exact hs

end PassesFor

end Symbol

/-- A value on the stack passes for another. -/
def StackValue.PassesFor (v' v : StackValue) : Prop :=
  ∃ s' s, v'.operand? = some s' ∧ v.operand? = some s ∧ s'.PassesFor s

namespace StackValue

variable {v v' : StackValue} {s : Symbol}

theorem PassesFor.isInt (h : v'.PassesFor v) (hv : v.IsInt s) :
    ∃ s', v'.IsInt s' ∧ s'.PassesFor s := by
  obtain ⟨s', s₀, hs', hs, hpass⟩ := h
  obtain rfl := Option.some.inj (hs.symm.trans hv.1)
  exact ⟨s', ⟨hs', hpass.isInt hv.2⟩, hpass⟩

/-- The operands of some values pass for those of the values they pass for. -/
theorem exists_operands : ∀ {values values' : List StackValue} {ss : List Symbol},
    List.Forall₂ PassesFor values' values → values.map (·.operand?) = ss.map some →
      ∃ ss', values'.map (·.operand?) = ss'.map some ∧ List.Forall₂ Symbol.PassesFor ss' ss
  | [], [], [], .nil, _ => ⟨[], rfl, .nil⟩
  | v :: values, v' :: values', s :: ss, .cons hv hrest, hoperands => by
    obtain ⟨hs, hmap⟩ := List.cons.inj hoperands
    obtain ⟨s', s₀, hs', hs₀, hpass⟩ := hv
    obtain rfl := Option.some.inj (hs₀.symm.trans hs)
    obtain ⟨ss', hmap', hpasses⟩ := exists_operands hrest hmap
    exact ⟨s' :: ss', by rw [List.map_cons, List.map_cons, hs', hmap'], .cons hpass hpasses⟩
  | _ :: _, _ :: _, [], _, hoperands => by cases hoperands
  | [], [], _ :: _, _, hoperands => by cases hoperands

end StackValue

/-! ### Arguments -/

/-- Arguments that pass for others do so at every parameter. -/
theorem find?_mismatch_of_passes {args args' : List Symbol}
    (h : List.Forall₂ Symbol.PassesFor args' args) (types : List Ty) (k : Nat)
    (hnone : (((types.zip args).zipIdx k).find? fun ((ty, arg), _) => !arg.matchesParameter ty) =
      none) :
    (((types.zip args').zipIdx k).find? fun ((ty, arg), _) => !arg.matchesParameter ty) =
      none := by
  induction h generalizing types k with
  | nil => exact hnone
  | @cons arg' arg args' args harg hargs ih =>
    cases types with
    | nil => exact hnone
    | cons ty types =>
      rw [List.zip_cons_cons, List.zipIdx_cons, List.find?_cons] at hnone ⊢
      cases hmatch : arg.matchesParameter ty with
      | false => simp [hmatch] at hnone
      | true =>
        simp only [hmatch, harg.matchesParameter hmatch, Bool.not_true] at hnone ⊢
        exact ih types (k + 1) hnone

/-- A call with arguments that pass for the right ones has no mistake. -/
theorem argumentMistake?_of_passes {callee callee' : Symbol} {args args' : List Symbol}
    (hcallee : callee'.shape = callee.shape) (hargs : List.Forall₂ Symbol.PassesFor args' args)
    (h : Gen.argumentMistake? callee args = none) :
    Gen.argumentMistake? callee' args' = none := by
  rw [Gen.argumentMistake?] at h ⊢
  rw [Symbol.args_of_shape hcallee, hargs.length_eq]
  split at h
  · cases h
  · rename_i hlength
    rw [if_neg hlength, Option.map_eq_none_iff]
    exact find?_mismatch_of_passes hargs _ 0 (Option.map_eq_none_iff.mp h)

/-! ### Lengths of code -/

namespace Use

variable {s s' : Symbol} (l : Layout) (m n : Nat)

/-- The cell of a symbol, used directly or through the address it holds. -/
theorem length_cell_of_shape (h : s'.shape = s.shape) (hfn : s.isFunction = false) :
    (cell l m s').code.length = (cell l n s).code.length ∧
      (cell l m s').through.code.length = (cell l n s).through.code.length := by
  rw [cell, cell, Symbol.isGlobal_of_shape h, field, field]
  by_cases hzero : s.value = 0
  · rw [if_pos hzero, if_pos ((Symbol.value_of_shape h hfn).mpr hzero)]
    split <;> exact ⟨rfl, rfl⟩
  · rw [if_neg hzero, if_neg (mt (Symbol.value_of_shape h hfn).mp hzero)]
    split <;> exact ⟨rfl, rfl⟩

theorem length_value_of_shape (h : s'.shape = s.shape) :
    (value l m s').code.length = (value l n s).code.length := by
  rw [value, value, Symbol.isFunction_of_shape h, Symbol.ty_of_shape h]
  split
  · rfl
  · rename_i hkind
    have hfn : s.isFunction = false := by
      cases hf : s.isFunction <;> simp_all
    rw [scalar, scalar, Symbol.isConstant_of_shape h, Symbol.ty_of_shape h]
    split
    · rfl
    split
    · exact (length_cell_of_shape l m n h hfn).2
    · exact (length_cell_of_shape l m n h hfn).1

theorem length_reference_of_shape (h : s'.shape = s.shape) :
    (reference l m s').code.length = (reference l n s).code.length := by
  rw [reference, reference, Symbol.isFunction_of_shape h, Symbol.ty_of_shape h]
  split
  · rfl
  · rename_i hkind
    have hfn : s.isFunction = false := by
      cases hf : s.isFunction <;> simp_all
    rw [base, base, Symbol.isGlobal_of_shape h, Symbol.ty_of_shape h]
    split
    · split <;> rfl
    · split <;> rfl
    · exact (length_cell_of_shape l m n h hfn).1

theorem length_value_of_passes (h : s'.PassesFor s) :
    (value l m s').code.length ≤ (value l n s).code.length := by
  rcases h with ⟨x, rfl⟩ | h
  · exact Nat.zero_le _
  · exact Nat.le_of_eq (length_value_of_shape l m n h)

theorem length_argument_of_passes (h : s'.PassesFor s) (parameter : Ty) :
    (argument l m parameter s').code.length ≤ (argument l n parameter s).code.length := by
  rcases h with ⟨x, rfl⟩ | h
  · rw [argument, if_neg (by simp [Symbol.placeholder])]
    exact Nat.zero_le _
  · rw [argument, argument, Symbol.isPlaceholder_of_shape h]
    split
    · exact Nat.le_of_eq (length_reference_of_shape l m n h)
    · exact Nat.le_of_eq (length_value_of_shape l m n h)

theorem length_field_eq (pointer offset : Word) :
    (field l m pointer offset).code.length = (field l n pointer offset).code.length := by
  rw [field, field]
  split <;> rfl

end Use

namespace Fragment

variable (l : Layout) {a a' b b' c c' : Symbol}

theorem length_binary_of_passes (op : BinaryOp) (ha : a'.PassesFor a) (hb : b'.PassesFor b)
    (hc : c'.PassesFor c) : (binary l op a' b' c').length ≤ (binary l op a b c).length := by
  simp only [binary, List.length_append, List.length_singleton]
  refine Nat.add_le_add_right (Nat.add_le_add (Nat.add_le_add ?_ ?_) ?_) 1
  · exact Use.length_value_of_passes l _ _ ha
  · exact Use.length_value_of_passes l _ _ hb
  · exact Use.length_value_of_passes l _ _ hc

theorem length_assign_of_passes (ha : a'.PassesFor a) (hb : b'.PassesFor b) :
    (assign l a' b').length ≤ (assign l a b).length := by
  simp only [assign, List.length_append, List.length_singleton]
  refine Nat.add_le_add_right (Nat.add_le_add ?_ ?_) 1
  · exact Use.length_value_of_passes l _ _ hb
  · exact Use.length_value_of_passes l _ _ ha

theorem length_index_of_passes (ha : a'.shape = a.shape) (hb : b'.PassesFor b)
    (hc : c'.shape = c.shape) (hfn : c.isFunction = false) :
    (index l a' b' c').length ≤ (index l a b c).length := by
  simp only [index, List.length_append, List.length_singleton]
  refine Nat.add_le_add_right (Nat.add_le_add (Nat.add_le_add_right (Nat.add_le_add ?_ ?_) 1) ?_) 1
  · exact Use.length_value_of_passes l _ _ hb
  · exact Nat.le_of_eq (Use.length_cell_of_shape l _ _ hc hfn).1
  · exact Nat.le_of_eq (Use.length_reference_of_shape l _ _ ha)

theorem length_storeReturn_of_passes (h : a'.PassesFor a) :
    (storeReturn l a').length ≤ (storeReturn l a).length := by
  simp only [storeReturn, List.length_append, List.length_singleton]
  refine Nat.add_le_add_right (Nat.add_le_add ?_ ?_) 1
  · exact Use.length_value_of_passes l _ _ h
  · exact Nat.le_of_eq (Use.length_field_eq l _ _ _ _)

theorem length_fetch_of_passes (h : a'.PassesFor a) :
    (fetch l a').length ≤ (fetch l a).length := by
  simp only [fetch, List.length_append, List.length_singleton]
  exact Nat.add_le_add_right (Use.length_value_of_passes l _ _ h) 1

theorem length_print_of_passes {args args' : List Symbol}
    (h : List.Forall₂ Symbol.PassesFor args' args) :
    (print l args').length ≤ (print l args).length := by
  cases h with
  | nil => exact Nat.le_refl _
  | cons harg _ =>
    simp only [print, List.length_append, List.length_singleton]
    exact Nat.add_le_add_right (Use.length_value_of_passes l _ _ harg) 1

theorem length_arguments_of_passes {args args' : List Symbol}
    (h : List.Forall₂ Symbol.PassesFor args' args) (params : List Ty) :
    (arguments l params args').length ≤ (arguments l params args).length := by
  have hfrom : ∀ k, (((params.zip args').zipIdx k).flatMap fun ((parameter, arg), i) =>
      argument l parameter arg i).length ≤ (((params.zip args).zipIdx k).flatMap
        fun ((parameter, arg), i) => argument l parameter arg i).length := by
    induction h generalizing params with
    | nil => exact fun _ => Nat.le_refl _
    | cons harg _ ih =>
      intro k
      cases params with
      | nil => exact Nat.le_refl _
      | cons parameter params =>
        simp only [List.zip_cons_cons, List.zipIdx_cons, List.flatMap_cons, List.length_append]
        refine Nat.add_le_add ?_ (ih params (k + 1))
        simp only [argument, List.length_append, List.length_singleton]
        refine Nat.add_le_add_right (Nat.add_le_add ?_ ?_) 1
        · exact Use.length_argument_of_passes l _ _ harg parameter
        · exact Nat.le_of_eq (Use.length_field_eq l _ _ _ _)
  exact hfrom 0

theorem length_call_of_passes {args args' : List Symbol} (pc pc' : Nat)
    (ha : a'.shape = a.shape) (h : List.Forall₂ Symbol.PassesFor args' args) :
    (call l pc' a' args').length ≤ (call l pc a args).length := by
  have hpassed := length_arguments_of_passes l h (a.args.getD [])
  rw [call, call, Symbol.args_of_shape ha]
  simp only [enter_eq, List.length_append, List.length_cons, List.length_nil]
  omega

end Fragment

end OnePass
