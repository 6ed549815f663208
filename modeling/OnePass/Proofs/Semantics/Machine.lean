import OnePass.Code.Instruction
import OnePass.Proofs.Word

/-!
# The target machine

A memory of words, a position in the code and what has been printed. Addresses in the code are
unsigned; an address that a cell holds is signed, as all values are, so that cells are numbered by
integers. The machine halts at the end of the code and is stuck anywhere else outside of it. -/

namespace OnePass

/-! ### Instructions -/

/-- The cells of the machine. -/
abbrev Memory := Int → Word

/-- A memory with a new value in one cell. -/
def Memory.set (memory : Memory) (address : Int) (value : Word) : Memory :=
  fun a => if a = address then value else memory a

@[simp] theorem Memory.set_self (memory : Memory) (a : Int) (w : Word) : memory.set a w a = w :=
  if_pos rfl

theorem Memory.set_of_ne (memory : Memory) {a a' : Int} (h : a' ≠ a) (w : Word) :
    memory.set a w a' = memory a' := if_neg h

/-- What an operand stands for: a number, or a cell. -/
inductive Referent where
  | number (value : Word)
  | cell (address : Int)
  deriving DecidableEq, Repr

namespace Referent

/-- The value found there. -/
def value (memory : Memory) : Referent → Word
  | .number w => w
  | .cell a => memory a

/-- The memory after a value was left there; a number takes none. -/
def store? (memory : Memory) (value : Word) : Referent → Option Memory
  | .number _ => none
  | .cell a => some (memory.set a value)

end Referent

namespace Operand

/-- What an operand stands for. -/
def referent (memory : Memory) : Operand → Referent
  | .immediate value => .number value
  | .direct address => .cell address.toNat
  | .indirect address => .cell (memory address.toNat).toInt

/-- The value of an operand. -/
def value (memory : Memory) (o : Operand) : Word := (o.referent memory).value memory

/-- The position an operand names as the target of a jump. A position that a cell holds is a signed
    number on a machine of 64 bits. -/
def position? (memory : Memory) : Operand → Option Nat
  | .immediate _ => none
  | .direct position => some position.toNat
  | .indirect address => some ((memory address.toNat).signExtend 64).toNat

end Operand

/-- What an operation computes from two words, if it computes. -/
def Opcode.compute? : Opcode → Option (Word → Word → Word)
  | .add => some (· + ·)
  | .sub => some (· - ·)
  | .mul => some (· * ·)
  | .lt => some fun a b => if a.slt b then 1 else 0
  | .eq => some fun a b => if a = b then 1 else 0
  | _ => none

/-- What an instruction that neither jumps nor prints does to the memory. -/
def Instruction.effect? (i : Instruction) (memory : Memory) : Option Memory :=
  match i.op, i.a, i.b, i.c with
  | .assign, some src, some dst, _ => (dst.referent memory).store? memory (src.value memory)
  | op, some a, some b, some dst =>
    op.compute?.bind fun f =>
      (dst.referent memory).store? memory (f (a.value memory) (b.value memory))
  | _, _, _, _ => none

/-! ### Runs -/

/-- A state of the machine. It begins at the first instruction, with zeros everywhere. -/
structure Machine where
  pc : Nat := 0
  memory : Memory := fun _ => 0
  printed : List Word := []

namespace Machine

/-- The state at another position. -/
def jump (m : Machine) (pc : Nat) : Machine := { m with pc }

/-- Performs an instruction, unless it makes no sense. -/
def perform? (m : Machine) (i : Instruction) : Option Machine :=
  match i.op with
  | .jp => (i.a.bind (·.position? m.memory)).map m.jump
  | .jpf => i.a.bind fun cond =>
    if cond.value m.memory = 0 then (i.b.bind (·.position? m.memory)).map m.jump
    else some (m.jump (m.pc + 1))
  | .print => i.a.map fun a =>
    { m with pc := m.pc + 1, printed := m.printed ++ [a.value m.memory] }
  | _ => (i.effect? m.memory).map fun memory => { m with pc := m.pc + 1, memory }

/-- Performs the instruction at the position reached. -/
def step? (code : List Instruction) (m : Machine) : Option Machine :=
  code[m.pc]?.bind m.perform?

/-- Runs to the end of the code, in a number of steps at most. -/
def run? (code : List Instruction) : Nat → Machine → Option Machine
  | 0, m => if m.pc = code.length then some m else none
  | n + 1, m => if m.pc = code.length then some m else (m.step? code).bind (run? code n)

/-- One state leads to another. -/
inductive Reaches (code : List Instruction) : Machine → Machine → Prop
  | refl {m} : Reaches code m m
  | step {m m₁ m'} : m.step? code = some m₁ → Reaches code m₁ m' → Reaches code m m'

variable {code : List Instruction} {m m₁ m' : Machine}

theorem Reaches.trans (h : Reaches code m m₁) (h' : Reaches code m₁ m') : Reaches code m m' := by
  induction h with
  | refl => exact h'
  | step hstep _ ih => exact .step hstep (ih h')

/-- A run that gets to the end of the code halts there. -/
theorem Reaches.run? (h : Reaches code m m') (hend : m'.pc = code.length) :
    ∃ n, Machine.run? code n m = some m' := by
  induction h with
  | refl => exact ⟨0, if_pos hend⟩
  | step hstep _ ih =>
    rename_i m _ _ _
    obtain ⟨n, hn⟩ := ih hend
    have hinside : m.pc ≠ code.length := by
      intro hpc
      rw [Machine.step?, hpc, List.getElem?_eq_none (Nat.le_refl _)] at hstep
      cases hstep
    refine ⟨n + 1, ?_⟩
    rw [Machine.run?, if_neg hinside, hstep]
    exact hn

end Machine

/-! ### Pieces of code -/

/-- A piece of code stands at a position. -/
def CodeAt (code : List Instruction) (pc : Nat) (is : List Instruction) : Prop :=
  ∃ before after, code = before ++ is ++ after ∧ before.length = pc

namespace CodeAt

variable {code is js : List Instruction} {i : Instruction} {pc : Nat}

theorem left (h : CodeAt code pc (is ++ js)) : CodeAt code pc is := by
  obtain ⟨before, after, rfl, rfl⟩ := h
  exact ⟨before, js ++ after, by simp, rfl⟩

theorem right (h : CodeAt code pc (is ++ js)) : CodeAt code (pc + is.length) js := by
  obtain ⟨before, after, rfl, rfl⟩ := h
  exact ⟨before ++ is, after, by simp, by simp⟩

theorem head (h : CodeAt code pc (i :: is)) : code[pc]? = some i := by
  obtain ⟨before, after, rfl, rfl⟩ := h
  simp

theorem tail (h : CodeAt code pc (i :: is)) : CodeAt code (pc + 1) is :=
  right (show CodeAt code pc ([i] ++ is) from h)

theorem length_le (h : CodeAt code pc is) : pc + is.length ≤ code.length := by
  obtain ⟨before, after, rfl, rfl⟩ := h
  simp

theorem getElem? (h : CodeAt code pc is) {k : Nat} (hk : k < is.length) :
    code[pc + k]? = is[k]? := by
  obtain ⟨before, after, rfl, rfl⟩ := h
  rw [List.append_assoc, List.getElem?_append_right (by omega), Nat.add_sub_cancel_left,
    List.getElem?_append_left hk]

/-- Instructions that stand in a row at a position are a piece of code there. -/
theorem of_getElem? (hpc : pc ≤ code.length)
    (h : ∀ k i, is[k]? = some i → code[pc + k]? = some i) : CodeAt code pc is := by
  have hprefix : is <+: code.drop pc := by
    rw [List.prefix_iff_getElem?]
    intro k hk
    rw [List.getElem?_drop]
    exact h k _ (List.getElem?_eq_getElem hk)
  obtain ⟨after, hafter⟩ := hprefix
  refine ⟨code.take pc, after, ?_, List.length_take_of_le hpc⟩
  rw [List.append_assoc, hafter, List.take_append_drop]

end CodeAt

/-- What instructions that neither jump nor print do to the memory, in order. -/
def effects? (is : List Instruction) (memory : Memory) : Option Memory :=
  is.foldlM (fun memory i => i.effect? memory) memory

@[simp] theorem effects?_nil (memory : Memory) : effects? [] memory = some memory := rfl

@[simp] theorem effects?_cons (i : Instruction) (is : List Instruction) (memory : Memory) :
    effects? (i :: is) memory = (i.effect? memory).bind (effects? is) := rfl

theorem effects?_append (is js : List Instruction) (memory : Memory) :
    effects? (is ++ js) memory = (effects? is memory).bind (effects? js) :=
  List.foldlM_append ..

/-- Only computations and assignments have an effect on the memory. -/
theorem Instruction.effect?_eq_none {i : Instruction} (hop : i.op.compute? = none)
    (hassign : i.op ≠ .assign) (memory : Memory) : i.effect? memory = none := by
  rw [Instruction.effect?]
  split
  · rename_i h _ _
    exact absurd h hassign
  · rw [hop]
    rfl
  · rfl

namespace Machine

variable {code : List Instruction} {m : Machine} {memory' : Memory} {i : Instruction}

theorem perform?_of_effect (h : i.effect? m.memory = some memory') :
    m.perform? i = some { m with pc := m.pc + 1, memory := memory' } := by
  rw [perform?]
  split
  case h_4 => rw [h]; rfl
  all_goals
    rename_i hop
    rw [Instruction.effect?_eq_none (by rw [hop]; rfl) (by rw [hop]; nofun)] at h
    cases h

/-- Code that only has effects is run through. -/
theorem reaches_of_effects : ∀ {is : List Instruction} {pc : Nat} {memory memory' : Memory}
    {printed : List Word}, CodeAt code pc is → effects? is memory = some memory' →
      Reaches code ⟨pc, memory, printed⟩ ⟨pc + is.length, memory', printed⟩
  | [], pc, memory, memory', printed, _, h => by
    obtain rfl := Option.some.inj h
    exact .refl
  | i :: is, pc, memory, memory', printed, hcode, h => by
    rw [effects?_cons, Option.bind_eq_some_iff] at h
    obtain ⟨memory₁, hi, his⟩ := h
    have hstep : step? code ⟨pc, memory, printed⟩ = some ⟨pc + 1, memory₁, printed⟩ := by
      rw [step?, hcode.head]
      exact perform?_of_effect hi
    have hrest : Reaches code ⟨pc + 1, memory₁, printed⟩ _ := reaches_of_effects hcode.tail his
    rw [List.length_cons, Nat.add_comm is.length 1, ← Nat.add_assoc]
    exact .step hstep hrest

/-- Instructions that stand in a row are run through if they only have effects. -/
theorem reaches_of_getElem? {is : List Instruction} {pc : Nat} {memory memory' : Memory}
    {printed : List Word} (hcode : ∀ k i, is[k]? = some i → code[pc + k]? = some i)
    (h : effects? is memory = some memory') :
    Reaches code ⟨pc, memory, printed⟩ ⟨pc + is.length, memory', printed⟩ := by
  cases is with
  | nil =>
    obtain rfl := Option.some.inj h
    exact .refl
  | cons i is =>
    obtain ⟨hpc, -⟩ := List.getElem?_eq_some_iff.mp (hcode 0 i rfl)
    exact reaches_of_effects (.of_getElem? (Nat.le_of_lt hpc) hcode) h

section
variable {pc q : Nat} {memory : Memory} {printed : List Word}

theorem reaches_of_perform {m' : Machine} (h : code[pc]? = some i)
    (hi : perform? ⟨pc, memory, printed⟩ i = some m') :
    Reaches code ⟨pc, memory, printed⟩ m' := by
  refine .step ?_ .refl
  rw [step?, h]
  exact hi

theorem reaches_jump (h : code[pc]? = some (.jump q)) (hq : q < 2147483648) :
    Reaches code ⟨pc, memory, printed⟩ ⟨q, memory, printed⟩ := by
  refine reaches_of_perform h ?_
  simp only [perform?, Instruction.jump, Instruction.target, Operand.position?, Option.bind_some,
    Option.map_some, jump, Word.toNat_ofNat hq]

theorem reaches_jumpIfFalse {c : Operand} (h : code[pc]? = some (.jumpIfFalse c q))
    (hq : q < 2147483648) : Reaches code ⟨pc, memory, printed⟩
      ⟨if c.value memory = 0 then q else pc + 1, memory, printed⟩ := by
  refine reaches_of_perform h ?_
  simp only [perform?, Instruction.jumpIfFalse, Instruction.target, Operand.position?,
    Option.bind_some, Option.map_some, jump, Word.toNat_ofNat hq]
  split <;> rfl

theorem reaches_jumpThrough {a : Word} (h : code[pc]? = some (.jumpThrough (.indirect a)))
    (hq : q < 2147483648) (ha : memory a.toNat = BitVec.ofNat 32 q) :
    Reaches code ⟨pc, memory, printed⟩ ⟨q, memory, printed⟩ := by
  refine reaches_of_perform h ?_
  simp only [perform?, Instruction.jumpThrough, Operand.position?, Option.bind_some,
    Option.map_some, jump, ha, Word.toNat_signExtend_ofNat hq]

theorem reaches_print {a : Operand} (h : code[pc]? = some (.print a)) :
    Reaches code ⟨pc, memory, printed⟩ ⟨pc + 1, memory, printed ++ [a.value memory]⟩ :=
  reaches_of_perform h rfl

end

end Machine

end OnePass
