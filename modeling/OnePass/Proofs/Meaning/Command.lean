import OnePass.Proofs.Meaning.Expression
import OnePass.Proofs.Runs.Sites

/-!
# Running commands

The main function on its machine: its code takes the machine from one position to another as the
program goes from one state to another. This is so for the code of a condition, of a value that is
returned, and of every expression that may stand as a statement. -/

namespace OnePass

open Machine (Reaches)

/-! ### Programs on the machine -/

/-- The main function on its machine: where it lives, the code, where the code of the function ends,
    the functions of the program and which of them give a value. -/
structure Stage extends Residence where
  code : List Instruction
  stop : Nat
  fns : List (FnDecl × Frame)
  valued : String → Bool
  length_lt : code.length < 2147483648
  stop_le : stop ≤ code.length
  entries : Entries fns

/-- The machine gets from one position to another as the program does from one state to another. -/
def Stage.Advances (S : Stage) (pc : Nat) (x : Execution) (pc' : Nat) (x' : Execution) : Prop :=
  ∀ m, S.Mirrors x.cells m → ∃ m', Reaches S.code ⟨pc, m, x.printed⟩ ⟨pc', m', x'.printed⟩ ∧
    S.Mirrors x'.cells m'

variable {S : Stage}

namespace Stage.Advances

variable {pc pc₁ pc' : Nat} {x x₁ x' : Execution}

theorem refl (pc : Nat) (x : Execution) : S.Advances pc x pc x := fun m hm => ⟨m, .refl, hm⟩

theorem trans (h : S.Advances pc x pc₁ x₁) (h' : S.Advances pc₁ x₁ pc' x') :
    S.Advances pc x pc' x' := by
  intro m hm
  obtain ⟨m₁, hreaches, hm₁⟩ := h m hm
  obtain ⟨m', hreaches', hm'⟩ := h' m₁ hm₁
  exact ⟨m', hreaches.trans hreaches', hm'⟩

theorem jump {q : Nat} (h : S.code[pc]? = some (.jump q)) (hq : q ≤ S.code.length) :
    S.Advances pc x q x :=
  fun m hm => ⟨m, Machine.reaches_jump h (Nat.lt_of_le_of_lt hq S.length_lt), hm⟩

end Stage.Advances

/-! ### What is known where a statement stands -/

/-- A table knows the names of a running program, in a function with a header in its record. -/
structure Stage.Knows (S : Stage) (env : Environment) (t : SymbolTable) : Prop where
  names : S.Names env t
  linked : t.Linked S.fns
  values : t.Values S.valued
  header : Record.header ≤ t.recordSize

theorem Stage.Knows.of_extends {env : Environment} {t t' : SymbolTable} (h : S.Knows env t)
    (ht : t.Extends t') : S.Knows env t' :=
  ⟨h.names.of_extends ht, h.linked.of_extends ht, h.values.of_extends ht,
    Nat.le_trans h.header ht.recordSize_le⟩

/-! ### Expressions as statements -/

section
variable {env : Environment} {t t' : SymbolTable} {pc : Nat} {is : List Instruction}
  {v : StackValue} {x x' : Execution}

/-- The number that an expression gives can be used behind its code. -/
theorem Expr.reads {e : Expr} {cells : Cells} {w : Word} {m : Memory} (he : e.isPure)
    (h : e.Translates S.layout pc t is v t') (hnames : S.Names env t)
    (hclear : S.Clear (S.base + t.recordSize) (S.base + t'.recordSize))
    (hw : e.number? env cells = some w) (hm : S.Mirrors cells m) :
    ∃ m' s, effects? is m = some m' ∧ v.operand? = some s ∧ S.Mirrors cells m' ∧
      (Use.value S.layout 0 s).Gives S.layout 0 m' w := by
  have hslots := S.slots
  obtain ⟨m', hrun, hborrows, hleaves⟩ :=
    e.runs he h hnames (Expr.number?_eq_some.mp hw) hm hclear (Nat.le_refl _)
  obtain ⟨s, hoperand, hready, rfl⟩ := hleaves w rfl
  have hm' := hm.of_borrows hborrows hclear
  exact ⟨m', s, hrun, hoperand, hm', hready.gives S.apart hm'.active.framePointer (by omega)⟩

/-- The number is read where the operand of its use is ready. -/
theorem Expr.reads_operand {e : Expr} {cells : Cells} {w : Word} {m : Memory} (he : e.isPure)
    (h : e.Translates S.layout pc t is v t') (hnames : S.Names env t)
    (hclear : S.Clear (S.base + t.recordSize) (S.base + t'.recordSize))
    (hw : e.number? env cells = some w) (hm : S.Mirrors cells m) :
    ∃ m' s, effects? (is ++ (Use.value S.layout 0 s).code) m = some m' ∧ v.operand? = some s ∧
      S.Mirrors cells m' ∧ (Use.value S.layout 0 s).operand.value m' = w := by
  obtain ⟨m₁, s, hrun₁, hoperand, hm₁, m₂, hrun₂, hkeeps, hread⟩ :=
    Expr.reads he h hnames hclear hw hm
  refine ⟨m₂, s, ?_, hoperand, hm₁.of_keeps hkeeps, hread m₂ (.refl _ _ _)⟩
  rw [effects?_append, hrun₁]
  exact hrun₂

/-- A condition leads to one of two positions. -/
theorem Expr.Tests.advances {e : Expr} {c : Operand} {q : Nat} {w : Word} (he : e.isPure)
    (h : e.Tests S.layout pc t is c t') (hnames : S.Names env t)
    (hclear : S.Clear (S.base + t.recordSize) (S.base + t'.recordSize))
    (hcode : CodeAt S.code pc (is ++ [.jumpIfFalse c q])) (hq : q ≤ S.code.length)
    (hw : e.number? env x.cells = some w) :
    S.Advances pc x (if w = 0 then q else pc + is.length + 1) x := by
  cases h with
  | intro h hint =>
    rename_i js v s
    intro m hm
    obtain ⟨m', s', hrun, hoperand, hm', hread⟩ := Expr.reads_operand he h hnames hclear hw hm
    obtain rfl := Option.some.inj (hint.1.symm.trans hoperand)
    refine ⟨m', (Machine.reaches_of_effects hcode.left hrun).trans ?_, hm'⟩
    have hjump : Reaches S.code ⟨_, m', x.printed⟩ _ :=
      Machine.reaches_jumpIfFalse hcode.right.head (Nat.lt_of_le_of_lt hq S.length_lt)
    rwa [hread] at hjump

/-- A call of the built-in function prints. -/
theorem Expr.advances_print {f : Name} {opening closing : Nat} {e : Expr} {w : Word}
    (he : e.isPure) (hf : f.lexeme = outputName)
    (h : (Expr.call f opening (.last e closing)).Translates S.layout pc t is v t')
    (hknows : S.Knows env t) (hclear : S.Clear (S.base + t.recordSize) (S.base + t'.recordSize))
    (hcode : CodeAt S.code pc is) (hw : e.number? env x.cells = some w) :
    S.Advances pc x (pc + is.length) { x with printed := x.printed ++ [w] } := by
  -- no other function has that name
  have hname : ∀ {args : Args} {pc is values t₁ target callee ss},
      args.Translates S.layout pc t is values t₁ → t.find? f.lexeme = some target →
      Calls t₁ target values callee ss → callee.name = outputName := by
    intro args pc is values t₁ target callee ss hargs hfind hcalls
    have hext := hargs.extends
    rw [(SymbolTable.Linked.callee_eq (hknows.linked.of_extends hext) S.entries
      ((hext.find? _).trans hfind) hcalls).2, hf]
  cases h with
  | callVoid hfind hargs hcalls hne => exact absurd (hname hargs hfind hcalls) hne
  | callValue hfind hargs hcalls hne => exact absurd (hname hargs hfind hcalls) hne
  | print hfind hargs hcalls _ =>
    rename_i js values _ ss _
    cases hargs with
    | last h =>
      intro m hm
      obtain ⟨m', s, hrun, hoperand, hm', hread⟩ :=
        Expr.reads_operand he h hknows.names hclear hw hm
      obtain rfl : ss = [s] := by
        have hoperands := hcalls.operands
        rw [List.map_singleton, hoperand] at hoperands
        obtain ⟨s', rfl, hs⟩ := List.map_eq_singleton_iff.mp hoperands.symm
        rw [Option.some.inj hs]
      rw [Fragment.print, ← List.append_assoc] at hcode ⊢
      refine ⟨m', (Machine.reaches_of_effects hcode.left hrun).trans ?_, hm'⟩
      have hprint : Reaches S.code ⟨_, m', x.printed⟩ _ := Machine.reaches_print hcode.right.head
      rw [hread] at hprint
      simpa only [List.length_append, List.length_singleton, Nat.add_assoc] using hprint

/-- The value of a return goes to the cell of the result. -/
theorem Expr.advances_storeReturn {e : Expr} {s : Symbol} {w : Word} (he : e.isPure)
    (h : e.Translates S.layout pc t is v t') (hint : v.IsInt s) (hnames : S.Names env t)
    (hclear : S.Clear (S.base + t.recordSize) (S.base + t'.recordSize))
    (hcode : CodeAt S.code pc (is ++ Fragment.storeReturn S.layout s))
    (hw : e.number? env x.cells = some w) :
    S.Advances pc x (pc + (is ++ Fragment.storeReturn S.layout s).length) x := by
  intro m hm
  have hslots := S.slots
  have hbound := S.bound
  obtain ⟨m₁, s', hrun₁, hoperand, hm₁, hgives⟩ := Expr.reads he h hnames hclear hw hm
  obtain rfl := Option.some.inj (hint.1.symm.trans hoperand)
  let u := Use.value S.layout 0 s
  let r := Use.field S.layout u.cells S.layout.framePointer (BitVec.ofNat 32 Record.returnValue)
  have hu : u.cells ≤ 1 := Use.value_cells_le ..
  have hr : r.cells ≤ 1 := Use.field_cells_le ..
  obtain ⟨m₂, hrun₂, hkeeps⟩ := effects?_assign (u := u) (v := r)
    (a := (S.base + Record.returnValue : Nat)) S.apart hgives (fun m' hkeeps => by
      rw [Nat.zero_add]
      exact Use.leads_field (by omega) (.inl rfl)
        ((hkeeps.framePointer S.apart).trans hm₁.active.framePointer)
        (by change S.base + 0 < _; omega)) (by omega)
  have hrun : effects? (is ++ Fragment.storeReturn S.layout s) m = some m₂ := by
    rw [effects?_append, hrun₁]
    exact hrun₂
  exact ⟨m₂, Machine.reaches_of_effects hcode hrun, hm₁.setResult hkeeps⟩

/-- An assignment gives a variable its value. -/
theorem Expr.advances_assign {target value : Expr} {line : Nat} {w : Word} {k i : Nat}
    (hvalue : value.isPure)
    (h : (Expr.assign target line value).Translates S.layout pc t is v t') (hnames : S.Names env t)
    (hclear : S.Clear (S.base + t.recordSize) (S.base + t'.recordSize))
    (hcode : CodeAt S.code pc is)
    (hplace : target.place? env x.cells = some (k, i)) (hw : value.number? env x.cells = some w) :
    S.Advances pc x (pc + is.length) { x with cells := x.cells.set k i w } := by
  cases h with
  | assign h₁ hint₁ h₂ hint₂ =>
    rename_i js v₁ s₁ t₁ ks v₂ s₂
    intro m hm
    have hext := h₁.extends
    have hle₁ := hext.recordSize_le
    have hle₂ := h₂.extends.recordSize_le
    obtain ⟨m₁, s, hrun₁, hoperand, hc, hborrows₁, hready₁, hhome⟩ :=
      Expr.runs_place h₁ hnames hplace hm hclear (by omega)
    obtain rfl := Option.some.inj (hint₁.1.symm.trans hoperand)
    have hm₁ := hm.of_borrows hborrows₁ (hclear.mono (Nat.le_refl _) (by omega))
    have hclear₁ : S.Clear (S.base + t₁.recordSize) (S.base + t'.recordSize) :=
      hclear.mono (by omega) (Nat.le_refl _)
    obtain ⟨m₂, hrun₂, hborrows₂, hleaves⟩ := value.runs hvalue h₂ (hnames.of_extends hext)
      (Expr.number?_eq_some.mp hw) hm₁ hclear₁ (Nat.le_refl _)
    obtain ⟨hready₂, rfl⟩ := hleaves.operand hint₂
    have hm₂ := hm₁.of_borrows hborrows₂ hclear₁
    -- the target is still where the code of the target found it
    rw [← Symbol.target_congr hc (hready₁.same hborrows₂ (Nat.le_refl _))] at hhome
    obtain ⟨hready₁, -⟩ := hready₁.later hborrows₂ (by omega) (Nat.le_refl _)
    obtain ⟨m₃, hrun₃, hkeeps⟩ :=
      hready₁.effects?_assign hc hready₂ S.apart (Nat.le_of_succ_le S.slots) hm₂.active.framePointer
    have hrun : effects? (js ++ ks ++ Fragment.assign S.layout s₁ s₂) m = some m₃ := by
      rw [effects?_append, effects?_append, hrun₁, Option.bind_some, hrun₂]
      exact hrun₃
    exact ⟨m₃, Machine.reaches_of_effects hcode hrun, hm₂.assign hhome hkeeps⟩

/-- The code of an expression that stands as a statement does what the expression does. -/
theorem Expr.advances {e : Expr} (he : e.isCommand) (h : e.Translates S.layout pc t is v t')
    (hknows : S.Knows env t) (hclear : S.Clear (S.base + t.recordSize) (S.base + t'.recordSize))
    (hcode : CodeAt S.code pc is) (hx : e.perform? env x = some x') :
    S.Advances pc x (pc + is.length) x' := by
  -- an expression that neither prints nor assigns
  have hpure : ∀ {value}, e.isPure → e.evaluate? env x.cells = some value →
      S.Advances pc x (pc + is.length) x := by
    intro value he hvalue m hm
    obtain ⟨m', hrun, hborrows, -⟩ := e.runs he h hknows.names hvalue hm hclear (Nat.le_refl _)
    exact ⟨m', Machine.reaches_of_effects hcode hrun, hm.of_borrows hborrows hclear⟩
  match e with
  | .call f opening (.last e closing) =>
    obtain ⟨hf, he⟩ := Bool.and_eq_true_iff.mp he
    obtain ⟨w, hw, rfl⟩ := Option.map_eq_some_iff.mp hx
    exact advances_print he (beq_iff_eq.mp hf) h hknows hclear hcode hw
  | .assign target line value =>
    obtain ⟨-, hvalue⟩ := Bool.and_eq_true_iff.mp he
    obtain ⟨⟨k, i⟩, hplace, hx⟩ := Option.bind_eq_some_iff.mp hx
    obtain ⟨w, hw, rfl⟩ := Option.map_eq_some_iff.mp hx
    exact advances_assign hvalue h hknows.names hclear hcode hplace hw
  | .num _ | .name _ | .index _ _ _ _ | .paren _ _ _ | .binary _ _ _ _ =>
    obtain ⟨value, hvalue, rfl⟩ := Option.map_eq_some_iff.mp hx
    exact hpure he hvalue

end

end OnePass
