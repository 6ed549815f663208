import OnePass.Proofs.Patches.Targets
import OnePass.Proofs.Runs.Expression
import OnePass.Proofs.Safety.Compile
import OnePass.Proofs.Values.Visible

/-!
# The code of an expression computes its value

Wherever in the body of a function an expression without calls and assignments is read, its code
computes what the expression is worth in the memory that the code finds, whatever that memory is, as
long as the record of the function is where it can be used and indices are in bounds. The code is
run through, and changes scratch cells and the words of its own temporaries only. -/

namespace OnePass

open Gen
open Machine (Reaches)

/-- The names of a table, in a function whose record begins at `b`. -/
def SymbolTable.view (t : SymbolTable) (extent : String → Nat) (b : Nat) : View :=
  ⟨t.find?, extent, b⟩

/-- A memory in which code can run that was made between two states: the record of the open function
    begins at `b` and has `length` bytes, all of which can be addressed and used. -/
structure Generator.Seats (g g' : Generator) (extent : String → Nat) (b length : Nat)
    (m : Memory) : Prop where
  framePointer : m g.layout.framePointer.toNat = BitVec.ofNat 32 b
  size : g'.symbols.recordSize ≤ length
  bound : b + length ≤ 2147483648
  apart : ∀ a : Nat, b ≤ a → a < b + length →
    g.layout.Free a ∧ (a < g.layout.dataBase.toNat ∨ g.symbols.dataEnd ≤ a)
  /-- An array has the words with which it was declared. -/
  array : ∀ x s, g.symbols.find? x = some s → s.ty = .arrayInt → (s, extent x) ∈ g.holdings
  /-- A parameter refers to words that can be used and are no temporaries of the code. -/
  parameter : ∀ x s, g.symbols.find? x = some s → s.ty = .pointerInt → ∀ i < extent x, ∀ a : Int,
    a = (m (s.place b)).toInt + (Word.size * i : Nat) → a < 2147483648 ∧ g.layout.Free a ∧
      (a < (b + g.symbols.recordSize : Nat) ∨ (b + g'.symbols.recordSize : Nat) ≤ a)

/-! ### The storage of names -/

namespace SymbolTable.Houses

variable {base : Nat} {held : List (Symbol × Nat)} {t : SymbolTable}

theorem ready (h : t.Houses base held) : t.Ready := by
  refine ⟨fun scope hscope s hs => ?_, fun f hf => (h.record f hf).1⟩
  rw [scopes_eq_innerScopes, List.mem_append, List.mem_singleton] at hscope
  rcases hscope with hscope | rfl
  · obtain ⟨words, hheld⟩ := h.names.inner scope hscope s hs
    exact (h.kept _ hheld).storage.2.2
  · rcases h.names.file s hs with ⟨-, hplain⟩ | ⟨-, words, hheld⟩
    · exact hplain
    · exact (h.kept _ hheld).storage.2.2

/-- A name that stands for no function has storage. -/
theorem held_of_find? (h : t.Houses base held) {x : String} {s : Symbol}
    (hfind : t.find? x = some s) (hfn : s.isFunction = false) : ∃ words, (s, words) ∈ held := by
  rcases h.names.of_find? hfind with hheld | ⟨hfunction, -⟩ | ⟨-, hheld⟩
  · exact hheld
  · rw [hfn] at hfunction
    cases hfunction
  · exact hheld

end SymbolTable.Houses

namespace Generator.Seats

variable {g g' : Generator} {extent : String → Nat} {b length : Nat} {m : Memory} {s : Symbol}
  {f : OpenFunction}

/-- The words of what is declared can be used and are no temporaries of the code. -/
theorem word (h : g.Seats g' extent b length m) (hl : g.layout.Apart)
    (hhouses : g.symbols.Houses g.layout.dataBase.toNat g.holdings)
    (hf : g.symbols.function = some f)
    (hle : g.symbols.recordSize ≤ g'.symbols.recordSize) {words i : Nat}
    (hheld : (s, words) ∈ g.holdings) (hi : i < words) :
    s.place b + Word.size * i < 2147483648 ∧ g.layout.Free (s.place b + Word.size * i : Nat) ∧
      (s.place b + Word.size * i < b + g.symbols.recordSize ∨
        b + g'.symbols.recordSize ≤ s.place b + Word.size * i) := by
  have hsize := h.size
  have hbound := h.bound
  have hlimit : g.symbols.dataEnd ≤ 2147483647 := hhouses.limit
  have hkept : s.Kept _ _ _ words := hhouses.kept _ hheld
  cases hglobal : s.isGlobal with
  | true =>
    obtain ⟨hlo, hhi⟩ := hkept.inData hglobal
    rw [Symbol.place, hglobal, if_pos rfl]
    simp only [Word.size] at hhi ⊢
    refine ⟨by omega, hl.free (by omega), ?_⟩
    -- a cell of the record would not be one of the data
    by_contra hin
    have := (h.apart (s.value.toNat + 4 * i) (by omega) (by omega)).2
    omega
  | false =>
    obtain ⟨hlo, hhi⟩ := hkept.inRecord hglobal f.record (by rw [hf]; rfl)
    rw [Symbol.place, hglobal, if_neg Bool.false_ne_true]
    rw [SymbolTable.recordSize_eq hf] at hle ⊢
    simp only [Word.size] at hhi ⊢
    exact ⟨by omega, (h.apart _ (by omega) (by omega)).1, .inl (by omega)⟩

theorem hosts (h : g.Seats g' extent b length m) (hl : g.layout.Apart)
    (hslots : 3 ≤ g.layout.scratchSlots.toNat)
    (hhouses : g.symbols.Houses g.layout.dataBase.toNat g.holdings)
    (hf : g.symbols.function = some f)
    (hle : g.symbols.recordSize ≤ g'.symbols.recordSize) :
    (g.symbols.view extent b).Hosts g.layout (b + g.symbols.recordSize)
      (b + g'.symbols.recordSize) m := by
  have hsize := h.size
  have hbound := h.bound
  have hheader := (hhouses.record f hf).2.1
  rw [← SymbolTable.recordSize_eq hf, Record.header] at hheader
  refine ⟨hl, hslots, h.framePointer, Nat.lt_add_of_pos_right (by omega), by omega,
    fun a hlo hhi => (h.apart a (by omega) (by omega)).1, ?_, ?_⟩
  · intro x s hs hfn hty
    obtain ⟨words, hheld⟩ := hhouses.held_of_find? hs hfn
    have hkept := hhouses.kept _ hheld
    have hwords : words = 1 := by
      refine hkept.single.resolve_right ?_
      rintro ⟨element, harray⟩
      rw [harray] at hty
      cases element <;> simp [Ty.arrayOf] at hty
    obtain ⟨hend, hfree, hout⟩ := h.word hl hhouses hf hle hheld (i := 0) (by omega)
    refine ⟨hkept.storage.2.1, ⟨hfree, hend, fun hlocal hzero => ?_, fun hindexed => ?_⟩, hout⟩
    · have hoffset := (hkept.inRecord hlocal f.record (by rw [hf]; rfl)).1
      rw [hzero, Record.header] at hoffset
      cases hoffset
    · rw [hindexed] at hty
      simp at hty
  · intro x w a ha
    obtain ⟨s, hs, hfn, hty, i, -, hi, rfl⟩ := View.element?_eq_some.mp ha
    rcases hty with harray | hpointer
    · obtain ⟨hend, hfree, hout⟩ := h.word hl hhouses hf hle (h.array x s hs harray) hi
      have hbase : (s.baseIn b m).toInt = s.place b := by
        rw [Symbol.baseIn, harray, Word.toInt_ofNat (by omega)]
      rw [show (g.symbols.view extent b).base = b from rfl, hbase]
      exact ⟨by omega, hfree, by omega⟩
    · refine h.parameter x s hs hpointer i hi _ ?_
      rw [show (g.symbols.view extent b).base = b from rfl, Symbol.baseIn, hpointer]

end Generator.Seats

/-! ### The code of an expression -/

section
variable {l : Layout} {before after : List Step} {g g' gEnd : Generator}

/-- An expression that was read without mistakes in the body of a function has its translation, and
    nothing else was made of it. -/
theorem Gen.Ran.translates {f : OpenFunction} {e : Expr}
    (hbefore : Ran before (Generator.initial l) g) (hrun : Ran e.steps g g')
    (hlayout : l.flaw? = none) (hslots : 3 ≤ l.scratchSlots.toNat)
    (hf : g.symbols.function = some f) (hempty : g'.diagnostics = #[]) :
    g.symbols.Houses l.dataBase.toNat g.holdings ∧ ∃ is v t' used trace,
      e.Translates l g.code.pc g.symbols is v t' ∧ g' = (g.gives is v t').taking used trace := by
  obtain ⟨rfl, -⟩ := hbefore.pool
  have hsucceeds : Succeeds (e.steps ++ []) g := by
    rw [List.append_nil]
    exact ⟨g', hbefore.ends hrun, hempty⟩
  have hdata := Nat.le_trans (Nat.le_of_lt (Layout.dataBase_lt hlayout))
    (by decide : declaredLimit ≤ addressLimit)
  have hhouses := hbefore.houses hdata hsucceeds.diagnostics_eq_empty
  obtain ⟨is, v, t', ht⟩ := e.translates hslots hsucceeds ⟨rfl, rfl, rfl⟩ hhouses.ready hf
  obtain ⟨used, trace, hg'⟩ :=
    hbefore.eq_of_performed hrun (ht.performed hslots ⟨rfl, rfl, rfl⟩)
  exact ⟨hhouses, is, v, t', used, trace, ht, hg'⟩

/-- Instructions that were appended stand in the program that is made in the end. -/
theorem Gen.Ran.getElem?_appended (hbefore : Ran before (Generator.initial l) g) {s : Store}
    {is : List Instruction} (hs : g.code = s.append is) (hafter : Ran after g gEnd)
    {code : List Instruction} (hcode : gEnd.code.instructions = .ok code) (k : Nat)
    (i : Instruction) (hi : is[k]? = some i) : code[s.pc + k]? = some i := by
  refine hbefore.getElem?_instructions hafter hcode ?_
  rw [hs, Store.get?_append, if_neg (by omega), Nat.add_sub_cancel_left, hi]

end

/-- A symbol that can be read resolves to an operand with its value. -/
theorem Symbol.Ready.resolves {l : Layout} {b lo hi n : Nat} {m : Memory} {s : Symbol}
    (h : s.Ready l b lo hi m) (hl : l.Apart) (hm : m l.framePointer.toNat = BitVec.ofNat 32 b)
    {g : Generator} (hg : g.layout = l) (hn : n < l.scratchSlots.toNat) :
    ∃ u : Use, Does (resolveOperand s) g n (some ⟨u.operand, u.code.length⟩) (g.resolved u)
      (n + u.cells) ∧ u.Gives l n m (s.valueIn b m) := by
  subst hg
  have hscalar : (s.isFunction || !s.ty.isScalar) = false := by
    rw [h.storage, h.scalar]
    rfl
  exact ⟨_, does_resolveOperand s hscalar hn, h.gives hl hm hn⟩

/-- An expression is read in the body of a function, without mistakes. Then its code is run through
    in the program that is made in the end, changes no more than scratch cells and the words that
    the record has grown by, and leaves on the operand stack what resolves to an operand with the
    value of the expression. -/
theorem expression_code_computes {l : Layout} (hlayout : l.flaw? = none)
    (hslots : 3 ≤ l.scratchSlots.toNat) {before : List Step} {g g' : Generator} {f : OpenFunction}
    (hbefore : Ran before (Generator.initial l) g) (hf : g.symbols.function = some f) {e : Expr}
    (hrun : Ran e.steps g g') (hempty : g'.diagnostics = #[]) {extent : String → Nat}
    {b length : Nat} {m : Memory} (hm : g.Seats g' extent b length m) {w : Word}
    (hw : e.valueIn? (g.symbols.view extent b) m = some w) :
    ∃ m' v s, g'.stack = v :: g.stack ∧ v.operand? = some s ∧
      (∀ after gEnd code, Ran after g' gEnd → gEnd.code.instructions = .ok code → ∀ printed,
          Reaches code ⟨g.code.pc, m, printed⟩ ⟨g'.code.pc, m', printed⟩) ∧
      (∀ a : Int, ¬ l.IsScratch 0 a →
        a < (b + g.symbols.recordSize : Nat) ∨ (b + g'.symbols.recordSize : Nat) ≤ a →
          m' a = m a) ∧
      ∀ n < l.scratchSlots.toNat, ∃ u : Use,
        Does (resolveOperand s) g' n (some ⟨u.operand, u.code.length⟩) (g'.resolved u)
          (n + u.cells) ∧ u.Gives l n m' w := by
  have hl := Layout.apart_of_flaw? hlayout
  obtain ⟨hhouses, is, v, t', used, trace, ht, rfl⟩ :=
    hbefore.translates hrun hlayout hslots hf hempty
  obtain ⟨rfl, -⟩ := hbefore.pool
  have hhosts := hm.hosts hl hslots hhouses hf ht.extends.recordSize_le
  obtain ⟨m', s, heffects, hborrows, hoperand, hready, hvalue⟩ :=
    e.computes ht (fun _ _ hs => hs) hhosts (Nat.le_refl _) hw
  refine ⟨m', v, s, rfl, hoperand, fun after gEnd code hafter hcode printed => ?_,
    hborrows.others, fun n hn => ?_⟩
  · have hwritten := (hbefore.then hrun).getElem?_appended rfl hafter hcode
    have hreaches : Reaches code ⟨g.code.pc, m, printed⟩ _ :=
      Machine.reaches_of_getElem? hwritten heffects
    rwa [← Store.pc_append] at hreaches
  · rw [← hvalue]
    exact hready.resolves hl (hborrows.framePointer.trans hm.framePointer) rfl hn

/-- An element of a parameter, whose index is found with an element of a global array. -/
theorem expression_code_computes_element :
    let l : Layout := {}
    let e : Expr := .binary .add 3 (.index ⟨"p", 3⟩ 3 (.binary .mul 3
      (.index ⟨"a", 3⟩ 3 (.binary .sub 3 (.name ⟨"n", 3⟩) (.num ⟨"1", 3⟩)) 3) (.name ⟨"i", 3⟩)) 3)
      (.paren 3 (.binary .eq 3 (.name ⟨"n", 3⟩) (.num ⟨"2", 3⟩)) 3)
    let tree : Program := ⟨[.var ⟨⟨.int, 1⟩, ⟨"a", 1⟩, .array 1 ⟨"2", 1⟩ 1 1⟩,
      .fn ⟨⟨.int, 2⟩, ⟨"f", 2⟩, 2, .list ⟨⟨.int, 2⟩, ⟨"n", 2⟩, none⟩
        [(2, ⟨⟨.int, 2⟩, ⟨"p", 2⟩, some (2, 2)⟩)], 2,
        ⟨2, [⟨⟨.int, 2⟩, ⟨"i", 2⟩, .scalar 2⟩], [.returnValue 3 e 3], 3⟩⟩,
      .fn ⟨⟨.void, 4⟩, ⟨"main", 4⟩, 4, .void 4, 4, ⟨4, [], [], 4⟩⟩]⟩
    let before := (tree.steps (.stopMark 4)).take 19
    let after := (tree.steps (.stopMark 4)).drop (19 + e.steps.length)
    let extent : String → Nat := fun x => if x = "a" then 2 else 3
    let zero : Memory := fun _ => 0
    let m := (((((zero.set 200 1000).set 228 1).set 1016 2).set 1020 2000).set 1024 2).set 2008 40
    tree.steps (.stopMark 4) = before ++ e.steps ++ after ∧ l.flaw? = none ∧
      3 ≤ l.scratchSlots.toNat ∧ ∃ g g' gEnd f code m' v s u,
        Ran before (.initial l) g ∧ g.symbols.function = some f ∧ Ran e.steps g g' ∧
        g'.diagnostics = #[] ∧ g.Seats g' extent 1000 52 m ∧
        e.valueIn? (g.symbols.view extent 1000) m = some 41 ∧ Ran after g' gEnd ∧
        gEnd.code.instructions = .ok code ∧ g'.stack = v :: g.stack ∧ v.operand? = some s ∧
        Reaches code ⟨g.code.pc, m, []⟩ ⟨g'.code.pc, m', []⟩ ∧ m' 2008 = 40 ∧
        Does (resolveOperand s) g' 0 (some ⟨u.operand, u.code.length⟩) (g'.resolved u)
          (0 + u.cells) ∧ u.Gives l 0 m' 41 := by
  intro l e tree before after extent zero m
  have hl : l.flaw? = none := by decide
  have hslots : 3 ≤ l.scratchSlots.toNat := by decide
  have hsteps : tree.steps (.stopMark 4) = before ++ e.steps ++ after := by decide +kernel
  have hall : Ran (before ++ e.steps ++ after) (.initial l)
      (stateAfter l (before ++ e.steps ++ after)) := ran_stateAfter (by decide +kernel)
  obtain ⟨g', hboth, hafter⟩ := ran_append.mp hall
  obtain ⟨g, hbefore, hrun⟩ := ran_append.mp hboth
  obtain rfl := stateAfter_eq hbefore
  obtain rfl := stateAfter_eq hboth
  obtain ⟨f, hf⟩ := Option.isSome_iff_exists.mp
    (by decide +kernel : (stateAfter l before).symbols.function.isSome)
  have hempty : (stateAfter l (before ++ e.steps)).diagnostics = #[] := by decide +kernel
  have hsize : (stateAfter l (before ++ e.steps)).symbols.recordSize = 52 := by decide +kernel
  have hfree : ∀ a : Int, 224 ≤ a → l.Free a := fun a => (Layout.apart_of_flaw? hl).free
  have hw : e.valueIn? ((stateAfter l before).symbols.view extent 1000) m = some 41 := by
    decide +kernel
  have hm : (stateAfter l before).Seats (stateAfter l (before ++ e.steps)) extent 1000 52 m := by
    have hlayout : (stateAfter l before).layout = l := hbefore.pool.1
    have hend : (stateAfter l before).symbols.dataEnd ≤ 1000 := by decide +kernel
    have harrays : ∀ scope ∈ (stateAfter l before).symbols.scopes, ∀ s ∈ scope.symbols,
        s.ty = .arrayInt → (s, extent s.name) ∈ (stateAfter l before).holdings := by
      decide +kernel
    have hparameters : ∀ scope ∈ (stateAfter l before).symbols.scopes, ∀ s ∈ scope.symbols,
        s.ty = .pointerInt → m (s.place 1000) = 2000 := by
      decide +kernel
    refine ⟨by rw [hlayout]; rfl, Nat.le_of_eq hsize, by decide, fun a hlo hhi => ?_,
      fun x s hs harray => ?_, fun x s hs hpointer i hi a ha => ?_⟩
    · rw [hlayout]
      exact ⟨hfree a (by omega), .inr (by omega)⟩
    · obtain ⟨scope, hscope, hmem, rfl⟩ := SymbolTable.mem_of_find? hs
      exact harrays scope hscope s hmem harray
    · obtain ⟨scope, hscope, hmem, -⟩ := SymbolTable.mem_of_find? hs
      rw [hparameters scope hscope s hmem hpointer, show (2000 : Word).toInt = 2000 from rfl] at ha
      have hcount : extent x ≤ 3 := by
        simp only [extent]
        split <;> decide
      rw [hlayout, hsize]
      simp only [Word.size] at ha
      exact ⟨by omega, hfree a (by omega), .inr (by omega)⟩
  obtain ⟨code, hcode⟩ : ∃ code, (stateAfter l (before ++ e.steps ++ after)).code.instructions =
      .ok code := by
    have hok : (stateAfter l (before ++ e.steps ++ after)).code.instructions.isOk := by
      decide +kernel
    cases hcode : (stateAfter l (before ++ e.steps ++ after)).code.instructions with
    | ok code => exact ⟨code, rfl⟩
    | error fault =>
      rw [hcode] at hok
      cases hok
  obtain ⟨m', v, s, hstack, hoperand, hreaches, hothers, hresolves⟩ :=
    expression_code_computes hl hslots hbefore hf hrun hempty hm hw
  obtain ⟨u, hdoes, hgives⟩ := hresolves 0 (by decide)
  have hkept : m' 2008 = m 2008 := hothers 2008 (hfree 2008 (by decide)).scratch
    (.inr (by rw [hsize]; decide))
  exact ⟨hsteps, hl, hslots, _, _, _, f, code, m', v, s, u, hbefore, hf, hrun, hempty, hm, hw,
    hafter, hcode, hstack, hoperand, hreaches _ _ _ hafter hcode [], hkept, hdoes, hgives⟩

end OnePass
