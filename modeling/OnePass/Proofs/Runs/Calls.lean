import OnePass.Proofs.Generator.Declaration
import OnePass.Proofs.Generator.Expression
import OnePass.Proofs.Runs.Uses

/-!
# Running a call

A record begins with a header: the result, the position to return to, and the two pointers of the
caller. The code of a call puts the arguments and the position behind it where the stack pointer
leads to; the prologue of the callee saves the pointers there and takes the record over; its epilogue
restores them and goes back. -/

namespace OnePass

open Machine (Reaches)

variable {l : Layout} {b s : Nat} {m m' : Memory}

/-- Memories that agree but for the cells of the layout and those between two addresses. -/
def Layout.Spares (l : Layout) (lo hi : Nat) (m m' : Memory) : Prop :=
  ∀ a, l.Free a → (a < lo ∨ hi ≤ a) → m' a = m a

/-! ### Words in a row -/

/-- A memory with values in cells in a row. -/
def Memory.setWords (m : Memory) (a : Nat) : List Word → Memory
  | [] => m
  | w :: ws => Memory.setWords (m.set a w) (a + Word.size) ws

namespace Memory

theorem setWords_of_outside (m : Memory) (a : Nat) (ws : List Word) {c : Int}
    (hc : c < a ∨ (a + Word.size * ws.length : Nat) ≤ c) : m.setWords a ws c = m c := by
  induction ws generalizing m a with
  | nil => rfl
  | cons w ws ih =>
    simp only [List.length_cons, Word.size] at hc ih ⊢
    rw [setWords, Word.size, ih _ _ (by omega), m.set_of_ne (by omega)]

theorem setWords_getElem? (m : Memory) (a : Nat) {ws : List Word} {k : Nat} {w : Word}
    (hk : ws[k]? = some w) : m.setWords a ws (a + Word.size * k : Nat) = w := by
  induction ws generalizing m a k with
  | nil => cases hk
  | cons v ws ih =>
    rw [setWords]
    cases k with
    | zero =>
      obtain rfl := Option.some.inj hk
      rw [setWords_of_outside _ _ _ (.inl (by simp only [Word.size]; omega))]
      exact m.set_self a v
    | succ k =>
      have hrest := ih (m.set a v) (a + Word.size) hk
      rwa [Nat.mul_succ, Nat.add_comm (_ * _), ← Nat.add_assoc]

end Memory

theorem Layout.Keeps.setWords {n : Nat} (h : l.Keeps n m m') (a : Nat) (ws : List Word) :
    l.Keeps n (m.setWords a ws) (m'.setWords a ws) := by
  induction ws generalizing m m' a with
  | nil => exact h
  | cons w ws ih => exact ih (h.set a w) _

/-! ### Arguments -/

namespace Symbol

/-- What a function gets for a parameter of a type: the value of an argument, or the address of its
    first element. -/
def passed (b : Nat) (m : Memory) (parameter : Ty) (arg : Symbol) : Word :=
  if parameter.isReference then arg.baseIn b m else arg.valueIn b m

/-- The cells that are read to pass an argument. -/
def passedCells (b : Nat) (m : Memory) (parameter : Ty) (arg : Symbol) : List Int :=
  if parameter.isReference then
    if arg.ty = .arrayInt ∨ arg.ty = .arrayVoid then [] else [(arg.place b : Int)]
  else arg.cells b m

/-- An argument can be passed: it fits the parameter, and its cells can be used. -/
structure Passes (l : Layout) (b : Nat) (m : Memory) (parameter : Ty) (arg : Symbol) : Prop where
  fits : arg.isPlaceholder = false ∧ arg.matchesParameter parameter
  free : ∀ a ∈ arg.passedCells b m parameter, l.Free a
  placed : arg.passedCells b m parameter ≠ [] → arg.Placed l b

variable {parameter : Ty} {arg : Symbol}

theorem passed_congr (h : ∀ a ∈ arg.passedCells b m parameter, m' a = m a) :
    arg.passed b m' parameter = arg.passed b m parameter := by
  rw [passedCells] at h
  rw [passed, passed]
  split
  · rename_i href
    rw [if_pos href] at h
    rw [baseIn, baseIn]
    split at h
    · rename_i harray
      rcases harray with hty | hty
      all_goals rw [hty]
    · split
      · rfl
      · rfl
      · exact h _ (List.mem_singleton_self _)
  · rename_i href
    rw [if_neg href] at h
    exact valueIn_congr h

theorem passedCells_congr (h : ∀ a ∈ arg.passedCells b m parameter, m' a = m a) :
    arg.passedCells b m' parameter = arg.passedCells b m parameter := by
  rw [passedCells] at h ⊢
  rw [passedCells]
  split
  · rfl
  · rename_i href
    rw [if_neg href] at h
    exact cells_congr h

theorem Passes.congr (h : arg.Passes l b m parameter)
    (hm : ∀ a ∈ arg.passedCells b m parameter, m' a = m a) : arg.Passes l b m' parameter := by
  refine ⟨h.fits, ?_, ?_⟩
  · rw [passedCells_congr hm]
    exact h.free
  · rw [passedCells_congr hm]
    exact h.placed

end Symbol

/-- An argument that can be passed gives what the parameter gets. -/
theorem Use.gives_argument {parameter : Ty} {arg : Symbol} (hl : l.Apart)
    (hslots : 0 < l.scratchSlots.toNat) (hm : m l.framePointer.toNat = BitVec.ofNat 32 b)
    (h : arg.Passes l b m parameter) :
    (argument l 0 parameter arg).Gives l 0 m (arg.passed b m parameter) := by
  obtain ⟨hreal, hmatches⟩ := h.fits
  have hfree := h.free
  have hplaced := h.placed
  simp only [Symbol.matchesParameter, hreal, Bool.false_or, Bool.and_eq_true,
    Bool.not_eq_true'] at hmatches
  rw [argument, hreal, Symbol.passed]
  rw [Symbol.passedCells] at hfree hplaced
  cases href : parameter.isReference with
  | true =>
    rw [href, if_pos rfl] at hmatches hplaced
    refine gives_reference hl hslots hm hmatches.1 hmatches.2 fun hint hvoid => hplaced ?_
    rw [if_neg (by rintro (h | h) <;> contradiction)]
    exact List.cons_ne_nil _ _
  | false =>
    rw [href, if_neg Bool.false_ne_true] at hmatches hplaced hfree
    refine gives_value hl hslots hm hmatches.1 hmatches.2 fun hc => ⟨hplaced ?_, hfree _ ?_⟩
    · exact List.ne_nil_of_mem (Symbol.place_mem_cells hc)
    · exact Symbol.target_mem_cells hc

/-! ### The record of the callee -/

/-- A record that can be used: its cells are free and can be addressed. -/
structure Layout.Room (l : Layout) (s size : Nat) : Prop where
  free : ∀ a : Int, s ≤ a → a < s + size → l.Free a
  bound : s + size ≤ 2147483648

namespace Layout.Room

variable {size : Nat} (h : l.Room s size)
include h

theorem outside {a : Int} (ha : ¬ l.Free a) : a < s ∨ s + size ≤ a := by
  rcases Int.lt_or_le a s with hlo | hlo
  · exact .inl hlo
  · rcases Int.lt_or_le a (s + size) with hhi | hhi
    · exact absurd (h.free a hlo hhi) ha
    · exact .inr hhi

theorem framePointer_outside : l.framePointer.toNat < s ∨ s + size ≤ l.framePointer.toNat := by
  have hout := h.outside fun hfree => hfree.framePointer rfl
  omega

theorem stackPointer_outside : l.stackPointer.toNat < s ∨ s + size ≤ l.stackPointer.toNat := by
  have hout := h.outside fun hfree => hfree.stackPointer rfl
  omega

theorem field {k : Nat} (hk : k < size) : l.Free (s + k : Nat) :=
  h.free _ (by omega) (by omega)

end Layout.Room

/-- A word goes to a field of the record that the stack pointer leads to. -/
theorem effects?_push {size n k : Nat} {u : Use} {w : Word} (offset : Nat) (hl : l.Apart)
    (hroom : l.Room s size) (hu : u.Gives l n m w) (hk : k = n + u.cells)
    (hcells : k < l.scratchSlots.toNat)
    (hm : m l.stackPointer.toNat = BitVec.ofNat 32 s) (hoffset : offset < size) :
    let v := Use.field l k l.stackPointer (BitVec.ofNat 32 offset)
    ∃ m', effects? (u.code ++ v.code ++ [.assign u.operand v.operand]) m = some m' ∧
      l.Keeps n (m.set (s + offset : Nat) w) m' := by
  intro v
  have hbound := hroom.bound
  have hv : v.cells ≤ 1 := Use.field_cells_le ..
  have hnat := Word.toNat_ofNat (n := offset) (by omega)
  refine effects?_assign hl hu (fun m₁ hkeeps => ?_) (by omega)
  have hleads : (Use.field l k l.stackPointer (BitVec.ofNat 32 offset)).Leads l k m₁ _ :=
    Use.leads_field hcells (.inr rfl) ((hkeeps.stackPointer hl).trans hm) (by omega)
  rw [hnat] at hleads
  exact hk ▸ hleads

section
variable {size : Nat} (hl : l.Apart) (hslots : 3 ≤ l.scratchSlots.toNat) (hroom : l.Room s size)
include hl hslots hroom

/-- The arguments of a call go to the cells of the parameters, one after the other. -/
theorem effects?_arguments : ∀ (pairs : List (Ty × Symbol)) (k : Nat) {m : Memory},
    m l.framePointer.toNat = BitVec.ofNat 32 b → m l.stackPointer.toNat = BitVec.ofNat 32 s →
    (∀ x ∈ pairs, x.2.Passes l b m x.1) →
    (∀ x ∈ pairs, ∀ a ∈ x.2.passedCells b m x.1, a < s ∨ s + size ≤ a) →
    Record.header + Word.size * (k + pairs.length) ≤ size →
    ∃ m', effects? ((pairs.zipIdx k).flatMap fun ((parameter, arg), index) =>
        Fragment.argument l parameter arg index) m = some m' ∧
      l.Keeps 0 (m.setWords (s + Record.header + Word.size * k)
        (pairs.map fun x => x.2.passed b m x.1)) m'
  | [], _, m, _, _, _, _, _ => ⟨m, rfl, .refl l 0 m⟩
  | (parameter, arg) :: pairs, k, m, hframe, hstack, hpass, houtside, hsize => by
    simp only [List.length_cons, Record.header, Word.size] at hsize
    obtain ⟨m₁, hrun₁, hkeeps₁⟩ := effects?_push (Record.header + Word.size * k) hl hroom
      (Use.gives_argument hl (by omega) hframe (hpass _ (List.mem_cons_self ..)))
      (Nat.zero_add _).symm (Nat.lt_of_le_of_lt (Use.argument_cells_le ..) (by omega)) hstack
      (by simp only [Record.header, Word.size]; omega)
    rw [← Nat.add_assoc] at hkeeps₁
    have hfree : l.Free (s + Record.header + Word.size * k : Nat) := by
      refine hroom.free _ ?_ ?_
      all_goals simp only [Record.header, Word.size]; omega
    obtain ⟨-, hframe₁, hstack₁, hothers⟩ := hkeeps₁.of_set hl hfree
    -- the arguments still to come are read as before
    have hsame : ∀ x ∈ pairs, ∀ a ∈ x.2.passedCells b m x.1, m₁ a = m a := by
      intro x hx a ha
      have hx := List.mem_cons_of_mem (parameter, arg) hx
      have hout := houtside x hx a ha
      refine hothers a ((hpass x hx).free a ha) ?_
      simp only [Record.header, Word.size]
      omega
    have hcells : ∀ x ∈ pairs, x.2.passedCells b m₁ x.1 = x.2.passedCells b m x.1 :=
      fun x hx => Symbol.passedCells_congr (hsame x hx)
    obtain ⟨m₂, hrun₂, hkeeps₂⟩ := effects?_arguments pairs (k + 1)
      (hframe₁.trans hframe) (hstack₁.trans hstack)
      (fun x hx => (hpass x (List.mem_cons_of_mem _ hx)).congr (hsame x hx))
      (fun x hx a ha => houtside x (List.mem_cons_of_mem _ hx) a (hcells x hx ▸ ha))
      (by simp only [Record.header, Word.size]; omega)
    refine ⟨m₂, ?_, ?_⟩
    · rw [List.zipIdx_cons, List.flatMap_cons, effects?_append]
      change (effects? (Fragment.argument l parameter arg k) m).bind _ = _
      rw [show effects? (Fragment.argument l parameter arg k) m = _ from hrun₁]
      exact hrun₂
    · rw [List.map_congr_left fun x hx => Symbol.passed_congr (hsame x hx)] at hkeeps₂
      exact (hkeeps₁.setWords _ _).trans hkeeps₂

variable {code : List Instruction} {pc : Nat} {printed : List Word}

/-- The code of a call passes the arguments and the position behind it, and jumps. -/
theorem reaches_call {callee : Symbol} {args : List Symbol}
    (hcode : CodeAt code pc (Fragment.call l pc callee args))
    (hentry : callee.value.toNat < 2147483648)
    (hframe : m l.framePointer.toNat = BitVec.ofNat 32 b)
    (hstack : m l.stackPointer.toNat = BitVec.ofNat 32 s)
    (hpass : ∀ x ∈ (callee.args.getD []).zip args, x.2.Passes l b m x.1)
    (houtside : ∀ x ∈ (callee.args.getD []).zip args, ∀ a ∈ x.2.passedCells b m x.1,
      a < s ∨ s + size ≤ a)
    (hsize : Record.header + Word.size * ((callee.args.getD []).zip args).length ≤ size) :
    ∃ m', Reaches code ⟨pc, m, printed⟩ ⟨callee.value.toNat, m', printed⟩ ∧
      l.Keeps 0 ((m.setWords (s + Record.header)
        (((callee.args.getD []).zip args).map fun x => x.2.passed b m x.1)).set
          (s + Record.returnAddress : Nat)
          (BitVec.ofNat 32 (pc + (Fragment.call l pc callee args).length))) m' := by
  have hheader : Record.returnAddress < size := by
    simp only [Record.header, Record.returnAddress] at hsize ⊢
    omega
  obtain ⟨m₁, hrun₁, hkeeps₁⟩ := effects?_arguments hl hslots hroom _ 0 hframe hstack hpass
    houtside (by rwa [Nat.zero_add])
  rw [Nat.mul_zero, Nat.add_zero] at hkeeps₁
  have hheld : m₁ l.stackPointer.toNat = BitVec.ofNat 32 s := by
    rw [hkeeps₁.stackPointer hl, m.setWords_of_outside, hstack]
    have hout := hroom.stackPointer_outside
    rw [List.length_map]
    omega
  let passed := Fragment.arguments l (callee.args.getD []) args
  have hback : pc + (Fragment.call l pc callee args).length = pc + passed.length + 3 := by
    rw [Fragment.call, List.length_append, ← Nat.add_assoc]
    rfl
  let u := Use.number (BitVec.ofNat 32 (pc + passed.length + 3))
  let v := Use.field l 0 l.stackPointer (BitVec.ofNat 32 Record.returnAddress)
  obtain ⟨m₂, hrun₂, hkeeps₂⟩ := effects?_push Record.returnAddress hl hroom (n := 0)
    (k := 0) (u := u) (Use.gives_number _) rfl (by omega) hheld hheader
  refine ⟨m₂, ?_, hback ▸ (hkeeps₁.set _ _).trans hkeeps₂⟩
  -- the return address is stored by two instructions, and the jump is the third
  have henter : CodeAt code (pc + passed.length) ((u.code ++ v.code ++
    [.assign u.operand v.operand]) ++ [.jump callee.value.toNat]) := hcode.right
  refine (Machine.reaches_of_effects hcode.left hrun₁).trans ?_
  refine (Machine.reaches_of_effects henter.left hrun₂).trans ?_
  exact Machine.reaches_jump henter.right.head hentry

/-! ### Entering and leaving a function -/

/-- A record in use: the frame pointer leads to it, and its header holds what its function was
    called with. -/
structure Layout.Active (l : Layout) (s : Nat) (caller : Word) (back : Nat) (m : Memory) : Prop where
  framePointer : m l.framePointer.toNat = BitVec.ofNat 32 s
  returnAddress : m (s + Record.returnAddress : Nat) = BitVec.ofNat 32 back
  savedStack : m (s + Record.savedStack : Nat) = BitVec.ofNat 32 s
  savedFrame : m (s + Record.savedFrame : Nat) = caller

/-- The first instructions of a function save the pointers and take its record over. -/
theorem reaches_prologue {back : Nat} (hheader : Record.header ≤ size)
    (hcode : CodeAt code pc (Fragment.prologue l ++ [Fragment.moveStack l size]))
    (hstack : m l.stackPointer.toNat = BitVec.ofNat 32 s)
    (hback : m (s + Record.returnAddress : Nat) = BitVec.ofNat 32 back) :
    ∃ m', Reaches code ⟨pc, m, printed⟩ ⟨pc + 6, m', printed⟩ ∧
      l.Active s (m l.framePointer.toNat) back m' ∧
      m' l.stackPointer.toNat = BitVec.ofNat 32 (s + size) ∧
      l.Spares (s + Record.savedStack) (s + Record.header) m m' := by
  have h4 : Record.returnAddress = 4 := rfl
  have h8 : Record.savedStack = 8 := rfl
  have h12 : Record.savedFrame = 12 := rfl
  have h16 : Record.header = 16 := rfl
  have hne : (l.framePointer.toNat : Int) ≠ l.stackPointer.toNat := by
    have := hl.pointers
    omega
  have hfree₀ := hroom.field (k := Record.returnAddress) (by omega)
  have hfree₁ := hroom.field (k := Record.savedStack) (by omega)
  have hfree₂ := hroom.field (k := Record.savedFrame) (by omega)
  -- the stack pointer goes to its field, then the frame pointer to its own
  let stack : Use := { operand := .direct l.stackPointer }
  let frame : Use := { operand := .direct l.framePointer }
  let first := Use.field l 0 l.stackPointer (BitVec.ofNat 32 Record.savedStack)
  let second := Use.field l 1 l.stackPointer (BitVec.ofNat 32 Record.savedFrame)
  obtain ⟨m₁, hrun₁, hkeeps₁⟩ := effects?_push Record.savedStack hl hroom (n := 0)
    (k := 0) (u := stack) (w := BitVec.ofNat 32 s)
    ⟨m, rfl, .refl l 0 m, fun m' h => (h.stackPointer hl).trans hstack⟩
    rfl (by omega) hstack (by omega)
  obtain ⟨hstored₁, hframe₁, hstack₁, hothers₁⟩ := hkeeps₁.of_set hl hfree₁
  obtain ⟨m₂, hrun₂, hkeeps₂⟩ := effects?_push Record.savedFrame hl hroom (n := 1)
    (k := 1) (u := frame) (w := m l.framePointer.toNat)
    ⟨m₁, rfl, .refl l 1 m₁, fun m' h => (h.framePointer hl).trans hframe₁⟩
    rfl (by omega) (hstack₁.trans hstack) (by omega)
  obtain ⟨hstored₂, -, hstack₂, hothers₂⟩ := hkeeps₂.of_set hl hfree₂
  have hpointer := hstack₂.trans (hstack₁.trans hstack)
  -- then the frame pointer takes the record over, and the stack pointer leaves it behind
  obtain ⟨m₃, hm₃⟩ : ∃ m₃ : Memory, m₃ = m₂.set l.framePointer.toNat (m₂ l.stackPointer.toNat) :=
    ⟨_, rfl⟩
  obtain ⟨m₄, hm₄⟩ : ∃ m₄ : Memory, m₄ = m₃.set l.stackPointer.toNat
    (m₃ l.stackPointer.toNat + BitVec.ofNat 32 size) := ⟨_, rfl⟩
  have hrun : effects? (Fragment.prologue l ++ [Fragment.moveStack l size]) m = some m₄ := by
    have hparts : Fragment.prologue l ++ [Fragment.moveStack l size] =
        (stack.code ++ first.code ++ [.assign stack.operand first.operand]) ++
        (frame.code ++ second.code ++ [.assign frame.operand second.operand]) ++
        [.assign (.direct l.stackPointer) (.direct l.framePointer),
          Fragment.moveStack l size] := rfl
    rw [hparts, effects?_append, effects?_append, hrun₁, Option.bind_some, hrun₂, hm₄, hm₃]
    rfl
  have hothers : ∀ a, l.Free a → m₄ a = m₂ a := fun a ha => by
    rw [hm₄, Memory.set_of_ne _ ha.stackPointer, hm₃, Memory.set_of_ne _ ha.framePointer]
  refine ⟨m₄, Machine.reaches_of_effects hcode hrun, ⟨?_, ?_, ?_, ?_⟩, ?_, fun a ha hout => ?_⟩
  · rw [hm₄, Memory.set_of_ne _ hne, hm₃, Memory.set_self, hpointer]
  · rw [hothers _ hfree₀, hothers₂ _ hfree₀ (by omega), hothers₁ _ hfree₀ (by omega), hback]
  · rw [hothers _ hfree₁, hothers₂ _ hfree₁ (by omega), hstored₁]
  · rw [hothers _ hfree₂, hstored₂]
  · rw [hm₄, Memory.set_self, hm₃, Memory.set_of_ne _ hne.symm, hpointer, BitVec.ofNat_add]
  · rw [hothers a ha, hothers₂ a ha (by omega), hothers₁ a ha (by omega)]

omit hslots in
/-- A field of the record that the frame pointer leads to goes to a pointer. -/
theorem effects?_pull {n : Nat} (hn : n + 1 ≤ l.scratchSlots.toNat) (offset : Nat) (pointer : Word)
    (hm : m l.framePointer.toNat = BitVec.ofNat 32 s) (hoffset : offset < size) :
    let u := Use.field l n l.framePointer (BitVec.ofNat 32 offset)
    ∃ m', effects? (u.code ++ [.assign u.operand (.direct pointer)]) m = some m' ∧
      l.Keeps n (m.set pointer.toNat (m (s + offset : Nat))) m' := by
  intro u
  have hbound := hroom.bound
  have hcells : u.cells ≤ 1 := Use.field_cells_le ..
  have hnat := Word.toNat_ofNat (n := offset) (by omega)
  have hleads : u.Leads l n m _ := Use.leads_field hn (.inl rfl) hm (by omega)
  rw [hnat] at hleads
  have hgives := hleads.gives hl (hroom.field hoffset) (by omega)
  have hrun := effects?_assign (v := { operand := .direct pointer }) (a := pointer.toNat) hl hgives
    (fun m' _ => ⟨m', rfl, .refl l _ m', fun _ _ => rfl⟩) (by rw [Nat.add_zero]; omega)
  rwa [List.append_nil] at hrun

/-- The last instructions of a function restore the pointers and go back. -/
theorem reaches_epilogue {caller : Word} {back : Nat} (hheader : Record.header ≤ size)
    (hcode : CodeAt code pc (Fragment.epilogue l)) (hm : l.Active s caller back m)
    (hback : back < 2147483648) :
    ∃ m', Reaches code ⟨pc, m, printed⟩ ⟨back, m', printed⟩ ∧
      m' l.stackPointer.toNat = BitVec.ofNat 32 s ∧ m' l.framePointer.toNat = caller ∧
      ∀ a, l.Free a → m' a = m a := by
  have h4 : Record.returnAddress = 4 := rfl
  have h8 : Record.savedStack = 8 := rfl
  have h12 : Record.savedFrame = 12 := rfl
  have h16 : Record.header = 16 := rfl
  have hbound := hroom.bound
  have hne : (l.framePointer.toNat : Int) ≠ l.stackPointer.toNat := by
    have := hl.pointers
    omega
  have hfree₀ := hroom.field (k := Record.returnAddress) (by omega)
  have hfree₂ := hroom.field (k := Record.savedFrame) (by omega)
  let first := Use.field l 0 l.framePointer (BitVec.ofNat 32 Record.savedStack)
  let second := Use.field l 1 l.framePointer (BitVec.ofNat 32 Record.savedFrame)
  let last := l.scratchCell 2
  -- the stack pointer comes from its field, then the frame pointer from its own
  obtain ⟨m₁, hrun₁, hkeeps₁⟩ := effects?_pull hl hroom (n := 0) (by omega)
    Record.savedStack l.stackPointer hm.framePointer (by omega)
  rw [hm.savedStack] at hkeeps₁
  have hstack₁ : m₁ l.stackPointer.toNat = BitVec.ofNat 32 s := by
    rw [hkeeps₁.stackPointer hl, Memory.set_self]
  have hframe₁ : m₁ l.framePointer.toNat = BitVec.ofNat 32 s := by
    rw [hkeeps₁.framePointer hl, Memory.set_of_ne _ hne, hm.framePointer]
  have hothers₁ : ∀ a, l.Free a → m₁ a = m a := fun a ha => by
    rw [hkeeps₁.of_free ha, Memory.set_of_ne _ ha.stackPointer]
  obtain ⟨m₂, hrun₂, hkeeps₂⟩ := effects?_pull hl hroom (n := 1) (by omega)
    Record.savedFrame l.framePointer hframe₁ (by omega)
  rw [hothers₁ _ hfree₂, hm.savedFrame] at hkeeps₂
  have hstack₂ : m₂ l.stackPointer.toNat = BitVec.ofNat 32 s := by
    rw [hkeeps₂.stackPointer hl, Memory.set_of_ne _ hne.symm, hstack₁]
  have hframe₂ : m₂ l.framePointer.toNat = caller := by
    rw [hkeeps₂.framePointer hl, Memory.set_self]
  have hothers₂ : ∀ a, l.Free a → m₂ a = m a := fun a ha => by
    rw [hkeeps₂.of_free ha, Memory.set_of_ne _ ha.framePointer, hothers₁ a ha]
  -- then a scratch cell takes the address of the return position, and the position itself
  obtain ⟨m₃, hm₃⟩ : ∃ m₃ : Memory, m₃ = m₂.set last.toNat
    (m₂ l.stackPointer.toNat + BitVec.ofNat 32 Record.returnAddress) := ⟨_, rfl⟩
  have hkeeps₃ : l.Keeps 2 m₂ m₃ := hm₃ ▸ .set_scratch (by omega) m₂ _
  have haddress : (m₃ last.toNat).toInt = (s + Record.returnAddress : Nat) := by
    rw [hm₃, Memory.set_self, hstack₂, ← BitVec.ofNat_add, Word.toInt_ofNat (by omega)]
  have hheld : m₃ (s + Record.returnAddress : Nat) = BitVec.ofNat 32 back := by
    rw [hkeeps₃.of_free hfree₀, hothers₂ _ hfree₀, hm.returnAddress]
  have hkeeps₄ : l.Keeps 2 m₃ (m₃.set last.toNat (BitVec.ofNat 32 back)) :=
    .set_scratch (by omega) m₃ _
  have hkeeps := hkeeps₃.trans hkeeps₄
  let restore := (first.code ++ [.assign first.operand (.direct l.stackPointer)]) ++
    (second.code ++ [.assign second.operand (.direct l.framePointer)]) ++
    [.add (.direct l.stackPointer) (.immediate (BitVec.ofNat 32 Record.returnAddress))
      (.direct last), .assign (.indirect last) (.direct last)]
  have hrun : effects? restore m = some (m₃.set last.toNat (BitVec.ofNat 32 back)) := by
    have hread : (Operand.indirect last).value m₃ = BitVec.ofNat 32 back := by
      rw [Operand.value, Operand.referent, haddress]
      exact hheld
    have hadd : (Instruction.add (.direct l.stackPointer)
        (.immediate (BitVec.ofNat 32 Record.returnAddress)) (.direct last)).effect? m₂ = some m₃ :=
      hm₃ ▸ rfl
    rw [effects?_append, effects?_append, hrun₁, Option.bind_some, hrun₂, Option.bind_some,
      effects?_cons, hadd, Option.bind_some, effects?_cons,
      effect?_assign hread (a := last.toNat) rfl]
    rfl
  have hparts : CodeAt code pc (restore ++ [.jumpThrough (.indirect last)]) := hcode
  refine ⟨_, (Machine.reaches_of_effects hparts.left hrun).trans
    (Machine.reaches_jumpThrough hparts.right.head hback (Memory.set_self _ _ _)), ?_, ?_, ?_⟩
  · rw [hkeeps.stackPointer hl, hstack₂]
  · rw [hkeeps.framePointer hl, hframe₂]
  · exact fun a ha => (hkeeps.of_free ha).trans (hothers₂ a ha)

/-- The result of a call goes to the cell of a symbol. -/
theorem effects?_fetch {result : Symbol} (hheader : Record.header ≤ size)
    (hstack : m l.stackPointer.toNat = BitVec.ofNat 32 s)
    (hframe : m l.framePointer.toNat = BitVec.ofNat 32 b) (hfn : result.isFunction = false)
    (hty : result.ty = .int) (hc : result.isConstant = false) (hresult : result.Placed l b) :
    ∃ m', effects? (Fragment.fetch l result) m = some m' ∧
      l.Keeps 0 (m.set (result.place b) (m (s + Record.returnValue : Nat))) m' := by
  have h0 : Record.returnValue = 0 := rfl
  have h16 : Record.header = 16 := rfl
  have hbound := hroom.bound
  let u := Use.field l 0 l.stackPointer (BitVec.ofNat 32 Record.returnValue)
  have hcells := Use.value_cells_le l 0 result
  have hleads : u.Leads l 0 m (s + Record.returnValue : Nat) :=
    Use.leads_field (by omega) (.inr rfl) hstack (by change s + 0 < _; omega)
  have hgives := hleads.gives hl (hroom.field (by omega)) (Nat.zero_le _)
  refine effects?_assign hl hgives (v := Use.value l 0 result) (fun m' hkeeps => ?_) ?_
  · rw [← result.target_of_ne (b := b) (m := m') (by rw [hty]; nofun)]
    exact Use.leads_value (n := 0) (by omega) ((hkeeps.framePointer hl).trans hframe) hresult hfn
      (by rw [hty]; rfl) hc
  · change 0 + 0 + (Use.value l 0 result).cells ≤ _
    omega

end

end OnePass
