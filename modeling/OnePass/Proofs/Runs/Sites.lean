import OnePass.Proofs.Storage.Program

/-!
# Where functions are called

Every call of a text has its place in the code: the code of its arguments, and behind it the code
that passes them and jumps. Places are in the order in which the calls are made, so that two calls
never share one. -/

namespace OnePass

open Planned (plain)

/-! ### What is called -/

/-- Functions with entries that tell them apart. -/
structure Entries (fns : List (FnDecl × Frame)) : Prop where
  bound : ∀ x ∈ fns, x.2.entry < 2147483648
  distinct : ∀ x ∈ fns, ∀ y ∈ fns, x.2.entry = y.2.entry → x = y

variable {fns : List (FnDecl × Frame)}

/-- Functions in a row have different entries. -/
theorem Tiled.entries {P : FnDecl → Frame → List Instruction → Prop} {pc : Nat}
    {is : List Instruction} (h : Tiled P pc is fns)
    (hP : ∀ f frame piece, P f frame piece → piece ≠ []) (hlength : pc + is.length ≤ 2147483648) :
    Entries fns := by
  obtain ⟨hordered, -⟩ := h.pairwise_entries hP
  rw [List.pairwise_append, List.map_map] at hordered
  obtain ⟨hordered, -, hbelow⟩ := hordered
  refine ⟨fun x hx => ?_, fun x hx y hy heq => ?_⟩
  · have hlt := hbelow _ (List.mem_map_of_mem hx) _ (List.mem_singleton_self _)
    exact Nat.lt_of_lt_of_le hlt hlength
  · exact List.inj_on_of_nodup_map (hordered.imp Nat.ne_of_lt) hx hy heq

namespace SymbolTable.Linked

variable {t : SymbolTable}

/-- Functions of a table with the same entry are the same. -/
theorem eq_of_value (h : t.Linked fns) (hfns : Entries fns) {a c : Symbol}
    (ha : a ∈ t.globals.symbols) (hc : c ∈ t.globals.symbols) (hafn : a.isFunction)
    (hcfn : c.isFunction) (heq : a.value = c.value) : a = c := by
  have hoff : ∀ x ∈ fns, output.value ≠ BitVec.ofNat 32 x.2.entry := by
    intro x hx hvalue
    have hbound := hfns.bound x hx
    have hnat := congrArg BitVec.toNat hvalue
    rw [Word.toNat_ofNat hbound] at hnat
    have : output.value.toNat = 4294967295 := by decide
    omega
  rcases h.file a ha hafn with rfl | ⟨f, frame, hf, rfl⟩
  · rcases h.file c hc hcfn with rfl | ⟨g, frame', hg, rfl⟩
    · rfl
    · exact absurd heq (hoff _ hg)
  · rcases h.file c hc hcfn with rfl | ⟨g, frame', hg, rfl⟩
    · exact absurd heq.symm (hoff _ hf)
    · have hnat := congrArg BitVec.toNat heq
      simp only [headSymbol, functionSymbol] at hnat
      rw [Word.toNat_ofNat (hfns.bound _ hf), Word.toNat_ofNat (hfns.bound _ hg)] at hnat
      obtain ⟨rfl, rfl⟩ := Prod.mk.inj (hfns.distinct _ hf _ hg hnat)
      rfl

/-- What is called is what the name stands for. -/
theorem callee_eq (h : t.Linked fns) (hfns : Entries fns) {x : String} {target callee : Symbol}
    {values : List StackValue} {args : List Symbol} (hfind : t.find? x = some target)
    (hcalls : Calls t target values callee args) : callee = target ∧ callee.name = x := by
  obtain ⟨scope, hscope, hmem, hname⟩ := mem_of_find? hfind
  have hglobal := h.mem_globals hscope hmem hcalls.callable.2
  suffices heq : callee = target from ⟨heq, heq ▸ hname⟩
  have hfound := hcalls.found
  rw [Gen.calleeOf] at hfound
  cases hat : t.functionAt? target.value with
  | none =>
    rw [hat] at hfound
    exact hfound.symm
  | some c =>
    rw [hat] at hfound
    obtain rfl : c = callee := hfound
    obtain ⟨scope', hscope', hc⟩ := List.exists_of_findSome?_eq_some hat
    have hfn := List.find?_some hc
    simp only [Bool.and_eq_true, beq_iff_eq] at hfn
    exact h.eq_of_value hfns (h.mem_globals hscope' (List.mem_of_find?_eq_some hc) hfn.1) hglobal
      hfn.1 hcalls.callable.2 hfn.2

end SymbolTable.Linked

/-! ### Sites -/

/-- A call in compiled code: where the code of its arguments begins, where they are passed, what
    is called with which operands, and where the result goes. -/
structure Site where
  name : Name
  args : Args
  start : Nat
  pc : Nat
  callee : FnDecl
  frame : Frame
  operands : List Symbol
  result : Option Symbol

namespace Site

/-- The call as it stands in the text. -/
def call (x : Site) : Name × Args := (x.name, x.args)

/-- The symbol of the function that is called. -/
def head (x : Site) : Symbol :=
  SymbolTable.headSymbol x.callee.name.lexeme x.callee.type.base.ty x.frame.entry
    x.callee.params.toList

/-- The code that passes the arguments and jumps. -/
def passing (l : Layout) (x : Site) : List Instruction := Fragment.call l x.pc x.head x.operands

/-- The position behind the jump. -/
def back (l : Layout) (x : Site) : Nat := x.pc + (x.passing l).length

/-- The code of the call behind that of its arguments. -/
def code (l : Layout) (x : Site) : List Instruction :=
  x.passing l ++ x.result.elim [] (Fragment.fetch l)

/-- What is known about a call in the code of a function. -/
structure Fits (A : Area) (fns : List (FnDecl × Frame)) (x : Site) : Prop where
  known : (x.callee, x.frame) ∈ fns
  name : x.callee.name.lexeme = x.name.lexeme
  /-- The operands are what the code of the arguments leaves, in their order. -/
  arguments : ∃ t is values t', x.args.Translates A.layout x.start t is values t' ∧
    x.pc = x.start + is.length ∧ values.map (·.operand?) = x.operands.map some
  matching : Gen.argumentMistake? x.head x.operands = none
  usable : ∀ s ∈ x.operands, s.Usable A
  /-- Just a function that gives a value has its result fetched, into a cell of the record. -/
  result : x.callee.type.base = .void ∧ x.result = none ∨
    x.callee.type.base = .int ∧ ∃ name offset, Record.header ≤ offset ∧
      offset + Word.size ≤ A.size ∧ x.result = some (.cell name .int offset false)

end Site

/-- Code has some calls at their places, one behind the other. -/
inductive Marked (l : Layout) : Nat → List Planned → List Site → Prop
  | nil {pc ps} : Marked l pc ps []
  | cons {pc ps qs x xs} : x.pc = pc + ps.length → Marked l (x.pc + (x.code l).length) qs xs →
      Marked l pc (ps ++ (plain (x.code l) ++ qs)) (x :: xs)

namespace Marked

variable {l : Layout} {pc : Nat} {ps qs : List Planned} {xs ys : List Site}

theorem cons_append (h : Marked l (pc + ps.length) qs ys) : Marked l pc (ps ++ qs) ys := by
  cases h with
  | nil => exact .nil
  | cons hpc hrest =>
    rw [← List.append_assoc]
    exact .cons (by rw [hpc, List.length_append, Nat.add_assoc]) hrest

theorem append (h : Marked l pc ps xs) (h' : Marked l (pc + ps.length) qs ys) :
    Marked l pc (ps ++ qs) (xs ++ ys) := by
  induction h with
  | nil => exact h'.cons_append
  | cons hpc hrest ih =>
    rw [List.append_assoc, List.append_assoc]
    refine .cons hpc (ih ?_)
    rw [hpc]
    simpa only [List.length_append, Planned.length_plain, Nat.add_assoc] using h'

/-- Filling in jumps leaves calls where they are. -/
theorem map (h : Marked l pc ps xs) {f : Planned → Planned} (hf : ∀ i, f (.code i) = .code i) :
    Marked l pc (ps.map f) xs := by
  induction h with
  | nil => exact .nil
  | cons hpc hrest ih =>
    have hplain : ∀ is, (plain is).map f = plain is := fun is => by
      rw [plain, List.map_map]
      exact List.map_congr_left fun i _ => hf i
    rw [List.map_append, List.map_append, hplain]
    exact .cons (by rw [hpc, List.length_map]) ih

/-- Every call has its code. -/
theorem codeAt {code is : List Instruction} (h : Marked l pc (plain is) xs)
    (hcode : CodeAt code pc is) : ∀ x ∈ xs, CodeAt code x.pc (x.code l) ∧ pc ≤ x.pc ∧
      x.pc + (x.code l).length ≤ pc + is.length := by
  generalize hps : plain is = ps at h
  induction h generalizing is with
  | nil => exact List.forall_mem_nil _
  | cons hpc hrest ih =>
    rename_i pc ps qs x xs
    obtain ⟨is₁, js, rfl, rfl, hjs⟩ := List.map_eq_append_iff.mp hps
    obtain ⟨is₂, is₃, rfl, his₂, rfl⟩ := List.map_eq_append_iff.mp hjs
    obtain rfl : is₂ = x.code l := List.map_injective_iff.mpr (fun _ _ => Planned.code.inj) his₂
    rw [List.length_map] at hpc
    have hsite : CodeAt code x.pc (x.code l) := hpc ▸ hcode.right.left
    simp only [List.length_append]
    intro y hy
    rcases List.mem_cons.mp hy with rfl | hy
    · exact ⟨hsite, by omega, by omega⟩
    · obtain ⟨hat, hlo, hhi⟩ := ih (hpc ▸ hcode.right.right) rfl y hy
      exact ⟨hat, by omega, by omega⟩

/-- Calls do not overlap. -/
theorem pairwise (h : Marked l pc ps xs) :
    xs.Pairwise (fun x y => x.pc + (x.code l).length ≤ y.pc) ∧ ∀ x ∈ xs, pc ≤ x.pc := by
  induction h with
  | nil => exact ⟨.nil, List.forall_mem_nil _⟩
  | cons hpc hrest ih =>
    rename_i pc ps qs x xs
    refine ⟨List.pairwise_cons.mpr ⟨ih.2, ih.1⟩, fun y hy => ?_⟩
    rcases List.mem_cons.mp hy with rfl | hy
    · omega
    · have := ih.2 y hy
      omega

end Marked

/-- The calls of a text have their places in code under way. -/
def Sited (A : Area) (fns : List (FnDecl × Frame)) (pc : Nat) (ps : List Planned)
    (calls : List (Name × Args)) : Prop :=
  ∃ xs, Marked A.layout pc ps xs ∧ xs.map Site.call = calls ∧ ∀ x ∈ xs, x.Fits A fns

namespace Sited

variable {A : Area} {pc : Nat} {ps qs : List Planned} {calls calls' : List (Name × Args)}

theorem nil : Sited A fns pc ps [] :=
  ⟨[], .nil, rfl, List.forall_mem_nil _⟩

theorem append (h : Sited A fns pc ps calls) (h' : Sited A fns (pc + ps.length) qs calls') :
    Sited A fns pc (ps ++ qs) (calls ++ calls') := by
  obtain ⟨xs, hmarked, rfl, hfits⟩ := h
  obtain ⟨ys, hmarked', rfl, hfits'⟩ := h'
  exact ⟨xs ++ ys, hmarked.append hmarked', List.map_append,
    List.forall_mem_append.mpr ⟨hfits, hfits'⟩⟩

theorem behind (h : Sited A fns pc ps calls) (qs : List Planned) :
    Sited A fns pc (ps ++ qs) calls := by
  rw [← List.append_nil calls]
  exact h.append nil

theorem single {x : Site} (hx : x.Fits A fns) :
    Sited A fns x.pc (plain (x.code A.layout)) [x.call] := by
  refine ⟨[x], ?_, rfl, fun y hy => List.mem_singleton.mp hy ▸ hx⟩
  have hmarked : Marked A.layout x.pc ([] ++ (plain (x.code A.layout) ++ [])) [x] := .cons rfl .nil
  rwa [List.nil_append, List.append_nil] at hmarked

theorem map (h : Sited A fns pc ps calls) {f : Planned → Planned}
    (hf : ∀ i, f (.code i) = .code i) : Sited A fns pc (ps.map f) calls := by
  obtain ⟨xs, hmarked, hcalls, hfits⟩ := h
  exact ⟨xs, hmarked.map hf, hcalls, hfits⟩

end Sited

/-! ### Woven code -/

variable {A : Area}

/-- A call of a function has its place behind its arguments. -/
theorem Invoked.sited (hfns : Entries fns) {x : Name} {args : Args} {pc : Nat} {callee : Symbol}
    {ss : List Symbol} (h : Invoked A fns pc x args callee ss) (hname : callee.name ≠ outputName)
    (result : Option Symbol)
    (hresult : callee.ty = .void ∧ result = none ∨ callee.ty ≠ .void ∧ ∃ name offset,
      Record.header ≤ offset ∧ offset + Word.size ≤ A.size ∧
        result = some (.cell name .int offset false)) :
    Sited A fns pc (plain (Fragment.call A.layout pc callee ss ++
      result.elim [] (Fragment.fetch A.layout)))
      (if x.lexeme = outputName then [] else [(x, args)]) := by
  obtain ⟨start, t, is, values, t₁, target, hargs, hpc, hlinked, hfind, hcalls⟩ := h.arguments
  obtain ⟨-, hx⟩ := hlinked.callee_eq hfns hfind hcalls
  obtain ⟨g, frame, hmem, rfl⟩ := h.callee hname
  rw [if_neg (hx ▸ hname)]
  refine Sited.single (x := ⟨x, args, start, pc, g, frame, ss, result⟩)
    ⟨hmem, hx, ⟨t, is, values, t₁, hargs, hpc, hcalls.operands⟩, hcalls.matching, h.usable, ?_⟩
  change g.type.base.ty = _ ∧ _ ∨ g.type.base.ty ≠ _ ∧ _ at hresult
  cases hbase : g.type.base with
  | int =>
    rw [hbase] at hresult
    exact .inr ⟨rfl, (hresult.resolve_left nofun).2⟩
  | void =>
    rw [hbase] at hresult
    exact .inl ⟨rfl, (hresult.resolve_right fun h => h.1 rfl).2⟩

theorem Sited.test {pc : Nat} {is : List Instruction} {calls : List (Name × Args)}
    (h : Sited A fns pc (plain is) calls) (s : Symbol) (target : Nat) :
    Sited A fns pc (plain (Fragment.test A.layout is s target)) calls := by
  rw [Fragment.test, Planned.plain_append, Planned.plain_append]
  exact (h.behind _).behind _

/-- The calls of a text have their places in the code that is woven for it. -/
theorem Woven.sited (hfns : Entries fns) {pc : Nat} {ps : List Planned}
    {cs : List (Name × Args)} (h : Woven A fns pc ps cs) : Sited A fns pc ps cs := by
  induction h with
  | nil | index | binary | assign | storeReturn | hole => exact .nil
  | append _ _ ih₁ ih₂ => exact ih₁.append ih₂
  | print h hname =>
    obtain ⟨_, _, _, _, _, _, -, -, hlinked, hfind, hcalls⟩ := h.arguments
    obtain ⟨-, hx⟩ := hlinked.callee_eq hfns hfind hcalls
    rw [if_pos (hx ▸ hname)]
    exact .nil
  | call h hname hty =>
    have hcall := h.sited hfns hname none (.inl ⟨hty, rfl⟩)
    rwa [Option.elim_none, List.append_nil] at hcall
  | callValue h hname hty hlo hhi =>
    exact h.sited hfns hname (some (.cell _ _ _ false)) (.inr ⟨hty, _, _, hlo, hhi, rfl⟩)
  | ifThen _ _ hn _ ih₁ ih₂ =>
    refine (ih₁.test _ _).append ?_
    rwa [Planned.length_plain, Fragment.length_test, ← hn, ← Nat.add_assoc]
  | ifElse _ _ hn _ _ ih₁ ih₂ ih₃ =>
    refine (((ih₁.test _ _).append ?_).behind _).append ?_
    · rwa [Planned.length_plain, Fragment.length_test, ← hn, ← Nat.add_assoc]
    · rw [List.length_append] at hn
      simp only [List.length_append, Planned.length_plain, Fragment.length_test,
        List.length_singleton, ← hn]
      simpa only [Nat.add_assoc] using ih₃
  | loop _ _ _ _ ih₁ ih₂ => exact (ih₁.append (ih₂.test _ _)).map fun i => if_neg nofun

end OnePass
