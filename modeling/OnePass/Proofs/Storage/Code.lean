import OnePass.Proofs.Storage.Weave

/-!
# Code that stays within its area

Every fragment of code stays within the area of the function at hand, if the symbols it uses are
located there; so does all code that is woven of them. -/

namespace OnePass

open Planned (plain settle)

variable {A : Area}

/-! ### Fragments -/

theorem Use.field_ne_immediate {l : Layout} {n : Nat} {pointer offset : Word} (w : Word) :
    (Use.field l n pointer offset).operand ≠ .immediate w := by
  rw [Use.field]
  split <;> rintro ⟨⟩

namespace Area.Sound

variable (hA : A.Sound)
include hA

theorem within_binary (op : BinaryOp) {a b c : Symbol} (ha : a.Usable A) (hb : b.Usable A)
    (hc : c.Usable A) (hplace : ∀ n w, (Use.value A.layout n c).operand ≠ .immediate w) :
    ∀ i ∈ Fragment.binary A.layout op a b c, i.Within A := by
  have hslots := hA.slots
  have hcells := Use.value_cells_le A.layout 0 a
  have hcells' := Use.value_cells_le A.layout (Use.value A.layout 0 a).cells b
  have hfirst := hA.within_value (n := 0) (by omega) ha
  have hsecond := hA.within_value (n := (Use.value A.layout 0 a).cells) (by omega) hb
  have hthird := hA.within_value (n := (Use.value A.layout 0 a).cells
    + (Use.value A.layout (Use.value A.layout 0 a).cells b).cells) (by omega) hc
  intro i hi
  simp only [Fragment.binary, List.mem_append, List.mem_singleton] at hi
  rcases hi with ((hi | hi) | hi) | rfl
  · exact hfirst.code i hi
  · exact hsecond.code i hi
  · exact hthird.code i hi
  · exact .compute (by cases op <;> rfl) hfirst.operand hsecond.operand hthird.operand
      (hplace _) hfirst.pointer hsecond.pointer

theorem within_assign {a b : Symbol} (ha : a.Usable A) (hb : b.Usable A)
    (hplace : ∀ n w, (Use.value A.layout n a).operand ≠ .immediate w) :
    ∀ i ∈ Fragment.assign A.layout a b, i.Within A := by
  have hslots := hA.slots
  have hcells := Use.value_cells_le A.layout 0 b
  have hfirst := hA.within_value (n := 0) (by omega) hb
  have hsecond := hA.within_value (n := (Use.value A.layout 0 b).cells) (by omega) ha
  intro i hi
  simp only [Fragment.assign, List.mem_append, List.mem_singleton] at hi
  rcases hi with (hi | hi) | rfl
  · exact hfirst.code i hi
  · exact hsecond.code i hi
  · exact .assign hfirst.operand hsecond.operand (hplace _)

theorem within_index {a i e : Symbol} (ha : a.Usable A) (hi : i.Usable A) (he : e.Located A)
    (hfn : e.isFunction = false) (hty : e.ty ≠ .arrayInt) :
    ∀ x ∈ Fragment.index A.layout a i e, x.Within A := by
  have hslots := hA.slots
  have hcells := Use.value_cells_le A.layout 0 i
  have hcells' := Use.cell_cells_le A.layout (Use.value A.layout 0 i).cells e
  have hindex := hA.within_value (n := 0) (by omega) hi
  have helement := hA.within_cell (n := (Use.value A.layout 0 i).cells) (by omega) he hfn hty
  have harray := hA.within_reference (n := (Use.value A.layout 0 i).cells
    + (Use.cell A.layout (Use.value A.layout 0 i).cells e).cells) (by omega) ha
  have hplace := Gen.cell_operand_ne_immediate (n := (Use.value A.layout 0 i).cells) A.layout e
  intro x hx
  simp only [Fragment.index, List.mem_append, List.mem_singleton] at hx
  rcases hx with (((hx | hx) | rfl) | hx) | rfl
  · exact hindex.code x hx
  · exact helement.code x hx
  · exact .compute rfl hindex.operand (.immediate _) helement.operand hplace hindex.pointer nofun
  · exact harray.code x hx
  · exact .compute rfl helement.operand harray.operand helement.operand hplace helement.pointer
      harray.pointer

theorem within_print {args : List Symbol} (hargs : ∀ s ∈ args, s.Usable A) :
    ∀ i ∈ Fragment.print A.layout args, i.Within A := by
  have hslots := hA.slots
  have hprint : ∀ {u : Use}, u.Within A → ∀ i ∈ u.code ++ [.print u.operand], i.Within A := by
    intro u hu i hi
    rcases List.mem_append.mp hi with hi | hi
    · exact hu.code i hi
    · rw [List.mem_singleton.mp hi]
      exact .print hu.operand
  cases args with
  | nil => exact hprint (.number 0)
  | cons arg _ => exact hprint (hA.within_value (by omega) (hargs arg (List.mem_cons_self ..)))

/-- A cell of the record that is being made for a call. -/
theorem within_stackField {n : Nat} (hn : n < A.layout.scratchSlots.toNat) (offset : Word) :
    (Use.field A.layout n A.layout.stackPointer offset).Within A :=
  .field hn .stackPointer fun heq => absurd heq hA.stackPointer_ne

theorem within_arguments (params : List Ty) {args : List Symbol} (hargs : ∀ s ∈ args, s.Usable A) :
    ∀ i ∈ Fragment.arguments A.layout params args, i.Within A := by
  intro i hi
  obtain ⟨⟨⟨parameter, arg⟩, index⟩, hx, hi⟩ := List.mem_flatMap.mp hi
  have harg : arg.Usable A :=
    hargs arg (List.of_mem_zip (List.fst_mem_of_mem_zipIdx hx)).2
  have hslots := hA.slots
  have hcells := Use.argument_cells_le A.layout 0 parameter arg
  have hfirst := hA.within_argument (n := 0) (by omega) harg parameter
  have hsecond := hA.within_stackField (n := (Use.argument A.layout 0 parameter arg).cells)
    (by omega) (BitVec.ofNat 32 (Record.header + Word.size * index))
  simp only [Fragment.argument, List.mem_append, List.mem_singleton] at hi
  rcases hi with (hi | hi) | rfl
  · exact hfirst.code i hi
  · exact hsecond.code i hi
  · exact .assign hfirst.operand hsecond.operand Use.field_ne_immediate

theorem within_call (pc : Nat) (callee : Symbol) {args : List Symbol}
    (hargs : ∀ s ∈ args, s.Usable A) :
    ∀ i ∈ Fragment.call A.layout pc callee args, i.Within A := by
  have hslots := hA.slots
  have hreturn := hA.within_stackField (n := 0) (by omega) (BitVec.ofNat 32 Record.returnAddress)
  intro i hi
  simp only [Fragment.call, Fragment.enter, List.mem_append, List.mem_cons, List.not_mem_nil,
    or_false] at hi
  rcases hi with hi | hi | rfl | rfl
  · exact hA.within_arguments _ hargs i hi
  · exact hreturn.code i hi
  · exact .assign (.immediate _) hreturn.operand Use.field_ne_immediate
  · exact .jump _

theorem within_fetch {s : Symbol} (hs : s.Usable A)
    (hplace : ∀ n w, (Use.value A.layout n s).operand ≠ .immediate w) :
    ∀ i ∈ Fragment.fetch A.layout s, i.Within A := by
  have hslots := hA.slots
  have hvalue := hA.within_value (n := 0) (by omega) hs
  intro i hi
  simp only [Fragment.fetch, List.mem_append, List.mem_singleton] at hi
  rcases hi with hi | rfl
  · exact hvalue.code i hi
  · exact .assign (.indirect .stackPointer) hvalue.operand (hplace 0)

theorem within_storeReturn {s : Symbol} (hs : s.Usable A) :
    ∀ i ∈ Fragment.storeReturn A.layout s, i.Within A := by
  have hslots := hA.slots
  have hcells := Use.value_cells_le A.layout 0 s
  have hvalue := hA.within_value (n := 0) (by omega) hs
  have hreturn : (Use.field A.layout (Use.value A.layout 0 s).cells A.layout.framePointer
      (BitVec.ofNat 32 Record.returnValue)).Within A :=
    .field (by omega) .framePointer fun _ hne => absurd rfl hne
  intro i hi
  simp only [Fragment.storeReturn, List.mem_append, List.mem_singleton] at hi
  rcases hi with (hi | hi) | rfl
  · exact hvalue.code i hi
  · exact hreturn.code i hi
  · exact .assign hvalue.operand hreturn.operand Use.field_ne_immediate

theorem within_addStack {a : Word} (ha : A.Names a) (offset : Word) : (Instruction.add
    (.direct A.layout.stackPointer) (.immediate offset) (.direct a)).Within A :=
  .addPointer .stackPointer ha fun heq => absurd heq hA.stackPointer_ne

theorem within_prologue : ∀ i ∈ Fragment.prologue A.layout, i.Within A := by
  have hslots := hA.slots
  have hscratch : ∀ {k}, k < 3 → A.Names (A.layout.scratchCell k) :=
    fun hk => .scratch (by omega)
  intro i hi
  simp only [Fragment.prologue_eq, List.mem_cons, List.not_mem_nil, or_false] at hi
  rcases hi with rfl | rfl | rfl | rfl | rfl
  · exact hA.within_addStack (hscratch (by decide)) _
  · exact .assign (.direct .stackPointer) (.indirect (hscratch (by decide))) nofun
  · exact hA.within_addStack (hscratch (by decide)) _
  · exact .assign (.direct .framePointer) (.indirect (hscratch (by decide))) nofun
  · exact .assign (.direct .stackPointer) (.direct .framePointer) nofun

theorem within_epilogue : ∀ i ∈ Fragment.epilogue A.layout, i.Within A := by
  have hslots := hA.slots
  have hscratch : ∀ {k}, k < 3 → A.Names (A.layout.scratchCell k) :=
    fun hk => .scratch (by omega)
  intro i hi
  simp only [Fragment.epilogue_eq, List.mem_cons, List.not_mem_nil, or_false] at hi
  rcases hi with rfl | rfl | rfl | rfl | rfl | rfl | rfl
  · exact .addPointer .framePointer (hscratch (by decide)) fun _ => .savedStack
  · exact .assign (.indirect (hscratch (by decide))) (.direct .stackPointer) nofun
  · exact .addPointer .framePointer (hscratch (by decide)) fun _ => .savedFrame
  · exact .assign (.indirect (hscratch (by decide))) (.direct .framePointer) nofun
  · exact hA.within_addStack (hscratch (by decide)) _
  · exact .assign (.indirect (hscratch (by decide))) (.direct (hscratch (by decide))) nofun
  · exact .jumpThrough (hscratch (by decide))

theorem within_start (dataEnd pc : Nat) (entry : Word) :
    ∀ i ∈ Fragment.start A.layout dataEnd pc entry, i.Within A := by
  have hslots := hA.slots
  have hscratch : A.Names (A.layout.scratchCell 0) := .scratch (by omega)
  intro i hi
  simp only [Fragment.start_eq, List.mem_cons, List.not_mem_nil, or_false] at hi
  rcases hi with rfl | rfl | rfl | rfl | rfl
  · exact .assign (.immediate _) (.direct .stackPointer) nofun
  · exact .assign (.immediate _) (.direct .framePointer) nofun
  · exact hA.within_addStack hscratch _
  · exact .assign (.immediate _) (.indirect hscratch) nofun
  · exact .jump _

end Area.Sound

/-! ### Woven code -/

/-- All instructions of code under way stay within an area. -/
def Area.Covers (A : Area) (ps : List Planned) : Prop := ∀ i, .code i ∈ ps → i.Within A

namespace Area.Covers

theorem nil : A.Covers [] := fun _ hi => absurd hi List.not_mem_nil

theorem plain {is : List Instruction} (h : ∀ i ∈ is, i.Within A) : A.Covers (plain is) := by
  intro i hi
  obtain ⟨j, hj, heq⟩ := List.mem_map.mp hi
  cases heq
  exact h i hj

theorem hole {kind : Planned} (h : kind.slot = none) : A.Covers [kind] := by
  intro i hi
  rw [← List.mem_singleton.mp hi] at h
  cases h

theorem append {ps qs : List Planned} (hps : A.Covers ps) (hqs : A.Covers qs) :
    A.Covers (ps ++ qs) := by
  intro i hi
  rcases List.mem_append.mp hi with hi | hi
  · exact hps i hi
  · exact hqs i hi

theorem settle {ps : List Planned} (h : A.Covers ps) (kind : Planned) (target : Nat) :
    A.Covers (ps.map (settle kind (.jump target))) := by
  intro i hi
  obtain ⟨p, hp, heq⟩ := List.mem_map.mp hi
  rw [Planned.settle] at heq
  split at heq
  · cases heq
    exact .jump target
  · subst heq
    exact h i hp

theorem finish {ps : List Planned} (h : A.Covers ps) (epilogue : Nat) :
    ∀ i ∈ ps.map (Planned.finish epilogue), i.Within A := by
  intro i hi
  obtain ⟨p, hp, rfl⟩ := List.mem_map.mp hi
  cases p with
  | code i => exact h i hp
  | leave | back => exact .jump epilogue

/-- A condition and the jump that depends on it. -/
theorem test (hA : A.Sound) {is : List Instruction} {s : Symbol} (h : A.Covers (Planned.plain is))
    (hs : s.Usable A) (target : Nat) :
    A.Covers (Planned.plain (Fragment.test A.layout is s target)) := by
  have hslots := hA.slots
  have huse := hA.within_value (n := 0) (by omega) hs
  rw [Fragment.test, Planned.plain_append, Planned.plain_append]
  refine (h.append (.plain huse.code)).append (.plain fun i hi => ?_)
  obtain rfl := List.mem_singleton.mp hi
  exact .jumpIfFalse huse.operand target

end Area.Covers

/-- Woven code stays within its area. -/
theorem Woven.covers (hA : A.Sound) {fns : List (FnDecl × Frame)} {pc : Nat} {ps : List Planned}
    {cs : List (Name × Args)} (h : Woven A fns pc ps cs) : A.Covers ps := by
  induction h with
  | nil => exact .nil
  | append _ _ ih₁ ih₂ => exact ih₁.append ih₂
  | index ha hi he hfn hty => exact .plain (hA.within_index ha hi he hfn hty)
  | print h => exact .plain (hA.within_print h.usable)
  | call h => exact .plain (hA.within_call _ _ h.usable)
  | callValue h _ _ hlo hhi =>
    rw [Planned.plain_append]
    refine (Area.Covers.plain (hA.within_call _ _ h.usable)).append (.plain ?_)
    exact hA.within_fetch (.located (.cell (by decide) (by decide) hlo hhi)) fun n =>
      Use.value_ne_immediate rfl rfl rfl
  | binary ha hb hc hplace => exact .plain (hA.within_binary _ ha hb hc hplace)
  | assign ha hb hplace => exact .plain (hA.within_assign ha hb hplace)
  | storeReturn hs => exact .plain (hA.within_storeReturn hs)
  | hole hkind => exact .hole hkind
  | ifThen _ hs _ _ ih₁ ih₂ => exact (ih₁.test hA hs _).append ih₂
  | ifElse _ hs _ _ _ ih₁ ih₂ ih₃ =>
    refine (((ih₁.test hA hs _).append ih₂).append (.plain fun i hi => ?_)).append ih₃
    obtain rfl := List.mem_singleton.mp hi
    exact .jump _
  | loop _ _ hs _ ih₁ ih₂ => exact (ih₁.append (ih₂.test hA hs _)).settle _ _

end OnePass
