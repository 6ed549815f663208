import OnePass.Proofs.Runs.Calls
import OnePass.Proofs.Runs.Sites

/-!
# The calling convention

Caller and callee agree on the header of a record and on the cells of the parameters: for every call
in compiled code, the code of the call and the prologue of the callee lead to its body with all in
place, and its epilogue leads back behind the call with the pointers as they were. -/

namespace OnePass

open Machine (Reaches)
open Planned (plain)

/-! ### Operands of a call -/

/-- An argument that fits can be passed, if the cells it is read from can be used. -/
theorem Symbol.Usable.passes {A : Area} {l : Layout} {b : Nat} {m : Memory} {parameter : Ty}
    {arg : Symbol} (hs : arg.Usable A) (hsize : A.size ≤ addressLimit)
    (hmatches : arg.matchesParameter parameter)
    (hcells : ∀ a ∈ arg.passedCells b m parameter, l.Free a ∧ a < 2147483648) :
    arg.Passes l b m parameter := by
  have hreal : arg.isPlaceholder = false := by
    cases hs with
    | constant => rfl
    | voidResult => rfl
    | located h =>
      cases h with
      | function _ h => exact h
      | global | array | cell => rfl
  refine ⟨⟨hreal, hmatches⟩, fun a ha => (hcells a ha).1, fun hne => ?_⟩
  -- where cells are read, that of the argument is one of them
  have hplace : (arg.place b : Int) ∈ arg.passedCells b m parameter := by
    rw [passedCells] at hne ⊢
    split at hne
    · split at hne
      · exact absurd rfl hne
      · rename_i href harray
        rw [if_pos href, if_neg harray]
        exact List.mem_singleton_self _
    · rename_i href
      rw [if_neg href]
      refine place_mem_cells (eq_false_of_ne_true fun hc => hne ?_)
      rw [cells, if_pos hc]
  obtain ⟨hfree, hbound⟩ := hcells _ hplace
  simp only [matchesParameter, hreal, Bool.false_or, Bool.and_eq_true, Bool.not_eq_true'] at hmatches
  -- so the argument is a variable, a temporary or a parameter
  have hcell : (arg.isGlobal = false → arg.value ≠ 0) ∧
      (arg.ty = .indexed → arg.isGlobal = false) := by
    rw [passedCells] at hne
    cases hs with
    | constant =>
      cases href : parameter.isReference with
      | true =>
        rw [href] at hmatches
        cases hmatches.2
      | false =>
        rw [href] at hne
        exact absurd rfl hne
    | voidResult =>
      cases href : parameter.isReference with
      | true | false =>
        rw [href] at hmatches
        cases hmatches.2
    | located h =>
      cases h with
      | function h =>
        rw [hmatches.1] at h
        cases h
      | global =>
        rename_i d _ _
        refine ⟨by rintro ⟨⟩, fun hty => ?_⟩
        rcases d.ty_cases with h | h
        all_goals
          rw [show d.ty = .indexed from hty] at h
          cases h
      | array =>
        cases href : parameter.isReference with
        | true =>
          rw [href] at hne
          exact absurd rfl hne
        | false =>
          rw [href] at hmatches
          cases hmatches.2
      | cell harray hvoid hlo hhi =>
        rename_i offset
        simp only [Record.header, Word.size, addressLimit] at hlo hhi hsize
        exact ⟨fun _ => Word.ofNat_ne_zero (by omega) (by omega), fun _ => rfl⟩
  exact ⟨hfree, by omega, hcell.1, hcell.2⟩

/-- Arguments without a mistake fit their parameters. -/
theorem Gen.matches_of_argumentMistake? {callee : Symbol} {args : List Symbol}
    (h : Gen.argumentMistake? callee args = none) :
    (callee.args.getD []).length = args.length ∧
      ∀ x ∈ (callee.args.getD []).zip args, x.2.matchesParameter x.1 := by
  rw [argumentMistake?] at h
  split at h
  · cases h
  · rename_i hlength
    refine ⟨Decidable.not_not.mp hlength, fun x hx => ?_⟩
    rw [Option.map_eq_none_iff, List.find?_eq_none] at h
    obtain ⟨k, hk, rfl⟩ := List.mem_iff_getElem.mp hx
    have hmatch := h _ (List.mk_mem_zipIdx_iff_getElem?.mpr (List.getElem?_eq_getElem hk))
    simpa using hmatch

namespace Site

/-- The types of the parameters with what is passed for them. -/
def passes (x : Site) : List (Ty × Symbol) := (x.callee.params.toList.map Param.ty).zip x.operands

/-- The cells that are read to pass the arguments. -/
def reads (x : Site) (b : Nat) (m : Memory) : List Int :=
  x.passes.flatMap fun (parameter, arg) => arg.passedCells b m parameter

/-- What caller and callee of a call agree on, given where the code of the callee ends. -/
structure Obeys (l : Layout) (code : List Instruction) (x : Site) (stop : Nat) : Prop where
  /-- The callee begins with the arguments in place, and with what it needs to go back. -/
  enters : ∀ (m : Memory) (printed : List Word) (b s : Nat),
    m l.framePointer.toNat = BitVec.ofNat 32 b → m l.stackPointer.toNat = BitVec.ofNat 32 s →
    l.Room s x.frame.size →
    (∀ a ∈ x.reads b m, l.Free a ∧ a < 2147483648 ∧ (a < s ∨ s + x.frame.size ≤ a)) →
    ∃ m', Reaches code ⟨x.pc, m, printed⟩ ⟨x.frame.entry + 6, m', printed⟩ ∧
      m' l.stackPointer.toNat = BitVec.ofNat 32 (s + x.frame.size) ∧
      l.Active s (BitVec.ofNat 32 b) (x.back l) m' ∧
      (∀ i parameter arg, x.passes[i]? = some (parameter, arg) →
        m' (s + Record.header + Word.size * i : Nat) = arg.passed b m parameter) ∧
      l.Spares s (s + x.frame.size) m m'
  /-- The callee goes back behind the call, with the pointers of the caller. -/
  returns : ∀ (m : Memory) (printed : List Word) (b s : Nat), l.Room s x.frame.size →
    l.Active s (BitVec.ofNat 32 b) (x.back l) m →
    ∃ m', Reaches code ⟨stop - 7, m, printed⟩ ⟨x.back l, m', printed⟩ ∧
      m' l.stackPointer.toNat = BitVec.ofNat 32 s ∧
      m' l.framePointer.toNat = BitVec.ofNat 32 b ∧ ∀ a, l.Free a → m' a = m a
  /-- A result goes from the record of the callee to its cell in that of the caller. -/
  fetches : ∀ (m : Memory) (printed : List Word) (b s : Nat) (result : Symbol),
    x.result = some result → m l.framePointer.toNat = BitVec.ofNat 32 b →
    m l.stackPointer.toNat = BitVec.ofNat 32 s → l.Room s x.frame.size →
    result.place b < 2147483648 → l.Free (result.place b) →
    ∃ m', Reaches code ⟨x.back l, m, printed⟩ ⟨x.pc + (x.code l).length, m', printed⟩ ∧
      m' (result.place b) = m (s + Record.returnValue : Nat) ∧
      m' l.stackPointer.toNat = m l.stackPointer.toNat ∧
      m' l.framePointer.toNat = m l.framePointer.toNat ∧
      ∀ a, l.Free a → a ≠ result.place b → m' a = m a

end Site

/-! ### Functions -/

/-- What a call needs to know about the code of a function. -/
structure Hosts (A : Area) (fns : List (FnDecl × Frame)) (f : FnDecl) (frame : Frame)
    (is : List Instruction) : Prop where
  room : Record.header + Word.size * f.params.toList.length ≤ frame.size
  size_le : frame.size ≤ addressLimit
  code : ∃ body, is = Fragment.prologue A.layout ++ [Fragment.moveStack A.layout frame.size]
    ++ body ++ Fragment.epilogue A.layout
  sites : ∃ locals, Sited { A with locals, size := frame.size } fns frame.entry (plain is)
    f.body.stmt.calls

variable {l : Layout} {gs : List (VarDecl × Nat)} {fns : List (FnDecl × Frame)}

theorem FnDecl.Woven.hosts {f : FnDecl} {is : List Instruction} {frame : Frame}
    (h : f.Woven l gs fns frame is) (hfns : Entries fns) : Hosts (l.file gs) fns f frame is := by
  obtain ⟨places, ps, rfl, -, -, hwoven⟩ := h.code
  refine ⟨h.room, h.size_le, ⟨_, rfl⟩, places, ?_⟩
  rw [Fragment.function]
  simp only [Planned.plain_append]
  refine (Sited.append .nil ?_).behind _
  have hfinished := (hwoven.sited hfns).map (f := fun p => .code (p.finish
    (frame.entry + (Fragment.prologue l).length + 1 + ps.length))) fun _ => rfl
  rw [List.length_append, Planned.length_plain, Planned.length_plain, ← Nat.add_assoc]
  rwa [show plain (ps.map (Planned.finish _)) = _ from List.map_map]

/-! ### Calls -/

namespace Site

variable {A : Area} {code : List Instruction} {x : Site} {m : Memory} {printed : List Word}
  {b s : Nat}

/-- The operands of a call can be passed. -/
theorem Fits.passes (hx : x.Fits A fns) (hsize : A.size ≤ addressLimit)
    (hreads : ∀ a ∈ x.reads b m, A.layout.Free a ∧ a < 2147483648) :
    ∀ y ∈ x.passes, y.2.Passes A.layout b m y.1 := by
  intro y hy
  obtain ⟨-, hmatches⟩ := Gen.matches_of_argumentMistake? hx.matching
  exact (hx.usable _ (List.of_mem_zip hy).2).passes hsize (hmatches y hy) fun a ha =>
    hreads a (List.mem_flatMap.mpr ⟨y, hy, ha⟩)

/-- The code of a call leads to the body of the callee. -/
theorem Fits.enters (hl : A.layout.Apart) (hslots : 3 ≤ A.layout.scratchSlots.toNat)
    (hsize : A.size ≤ addressLimit) (hx : x.Fits A fns)
    (hat : CodeAt code x.pc (x.passing A.layout)) (hentry : x.frame.entry < 2147483648)
    (hhead : CodeAt code x.frame.entry
      (Fragment.prologue A.layout ++ [Fragment.moveStack A.layout x.frame.size]))
    (hroom : Record.header + Word.size * x.callee.params.toList.length ≤ x.frame.size)
    (hframe : m A.layout.framePointer.toNat = BitVec.ofNat 32 b)
    (hstack : m A.layout.stackPointer.toNat = BitVec.ofNat 32 s)
    (hrecord : A.layout.Room s x.frame.size)
    (hreads : ∀ a ∈ x.reads b m, A.layout.Free a ∧ a < 2147483648 ∧
      (a < s ∨ s + x.frame.size ≤ a)) :
    ∃ m', Reaches code ⟨x.pc, m, printed⟩ ⟨x.frame.entry + 6, m', printed⟩ ∧
      m' A.layout.stackPointer.toNat = BitVec.ofNat 32 (s + x.frame.size) ∧
      A.layout.Active s (BitVec.ofNat 32 b) (x.back A.layout) m' ∧
      (∀ i parameter arg, x.passes[i]? = some (parameter, arg) →
        m' (s + Record.header + Word.size * i : Nat) = arg.passed b m parameter) ∧
      A.layout.Spares s (s + x.frame.size) m m' := by
  have h4 : Record.returnAddress = 4 := rfl
  have h8 : Record.savedStack = 8 := rfl
  have h16 : Record.header = 16 := rfl
  have hvalue : x.head.value.toNat = x.frame.entry := Word.toNat_ofNat hentry
  have hfits : 16 + 4 * x.passes.length ≤ x.frame.size := by
    rw [Word.size] at hroom
    have hcount : x.passes.length ≤ x.callee.params.toList.length := by
      rw [Site.passes, List.length_zip, List.length_map]
      exact Nat.min_le_left ..
    omega
  have hframeOut := hrecord.framePointer_outside
  have hstackOut := hrecord.stackPointer_outside
  let values := x.passes.map fun y => y.2.passed b m y.1
  have houtside : ∀ a : Int, (a < s + 16 ∨ s + x.frame.size ≤ a) →
      m.setWords (s + Record.header) values a = m a := by
    intro a ha
    refine m.setWords_of_outside _ _ ?_
    rw [List.length_map, Word.size]
    omega
  -- the call passes the arguments and the return address, and leaves the pointers
  obtain ⟨m₁, hcall, hkeeps⟩ : ∃ m₁, Reaches code ⟨x.pc, m, printed⟩
      ⟨x.head.value.toNat, m₁, printed⟩ ∧ A.layout.Keeps 0 ((m.setWords (s + Record.header)
        values).set (s + Record.returnAddress : Nat) (BitVec.ofNat 32 (x.back A.layout))) m₁ :=
    reaches_call hl hslots hrecord hat (hvalue ▸ hentry) hframe hstack
      (hx.passes hsize fun a ha => ⟨(hreads a ha).1, (hreads a ha).2.1⟩)
      (fun y hy a ha => (hreads a (List.mem_flatMap.mpr ⟨y, hy, ha⟩)).2.2) hfits
  have hback : A.layout.Free (s + Record.returnAddress : Nat) := hrecord.field (by omega)
  obtain ⟨hreturn, hframe₁, hstack₁, hothers⟩ := hkeeps.of_set hl hback
  rw [houtside _ (by omega), hframe] at hframe₁
  rw [houtside _ (by omega), hstack] at hstack₁
  -- the prologue saves them and takes the record over
  obtain ⟨m₂, hprologue, hactive, hstack₂, hspares⟩ :
      ∃ m₂, Reaches code ⟨_, m₁, printed⟩ ⟨_, m₂, printed⟩ ∧ _ :=
    reaches_prologue hl hslots hrecord (by omega) hhead hstack₁ hreturn
  rw [hframe₁] at hactive
  refine ⟨m₂, (hvalue ▸ hcall).trans hprologue, hstack₂, hactive, ?_, fun a ha hout => ?_⟩
  · intro i parameter arg hi
    have hlt : i < x.passes.length := (List.getElem?_eq_some_iff.mp hi).1
    have hfree : A.layout.Free (s + Record.header + Word.size * i : Nat) := by
      rw [Nat.add_assoc, Word.size]
      exact hrecord.field (by omega)
    rw [hspares _ hfree (by omega), hothers _ hfree (by omega)]
    exact m.setWords_getElem? _ (by rw [List.getElem?_map, hi]; rfl)
  · rw [hspares a ha (by omega), hothers a ha (by omega), houtside a (by omega)]

end Site

/-- A call in compiled code keeps to the convention. -/
theorem Site.Fits.obeys {A : Area} {code piece : List Instruction} {x : Site}
    {locals : List (VarDecl × Nat)} {size : Nat} (hl : A.layout.Apart)
    (hslots : 3 ≤ A.layout.scratchSlots.toNat) (hsize : size ≤ addressLimit)
    (hx : x.Fits { A with locals, size } fns) (hat : CodeAt code x.pc (x.code A.layout))
    (hcallee : Hosts A fns x.callee x.frame piece) (hpiece : CodeAt code x.frame.entry piece)
    (hlength : code.length < 2147483648) :
    x.Obeys A.layout code (x.frame.entry + piece.length) := by
  have hroom := hcallee.room
  have hheader : Record.header ≤ x.frame.size := Nat.le_of_add_right_le hroom
  have hback : x.back A.layout ≤ code.length := hat.left.length_le
  have hend := hpiece.length_le
  obtain ⟨body, rfl⟩ := hcallee.code
  refine ⟨?_, ?_, ?_⟩
  · intro m printed b s hframe hstack hrecord hreads
    exact Fits.enters (A := { A with locals, size }) hl hslots hsize hx hat.left (by omega)
      hpiece.left.left hroom hframe hstack hrecord hreads
  · intro m printed b s hrecord hactive
    rw [List.length_append, ← Nat.add_assoc, show (Fragment.epilogue A.layout).length = 7 from rfl,
      Nat.add_sub_cancel]
    exact reaches_epilogue hl hslots hrecord hheader hpiece.right hactive (by omega)
  · intro m printed b s result hresult hframe hstack hrecord hbound hfree
    obtain ⟨name, offset, hlo, hhi, hcell⟩ := (hx.result.resolve_left fun h => by
      rw [hresult] at h
      cases h.2).2
    obtain rfl : result = .cell name .int offset false := Option.some.inj (hresult.symm.trans hcell)
    have hfetch : CodeAt code (x.back A.layout)
        (Fragment.fetch A.layout (.cell name .int offset false)) := by
      have hright := hat.right
      rwa [hresult] at hright
    have hplaced : (Symbol.cell name .int offset false).Placed A.layout b := by
      simp only [Record.header, Word.size, addressLimit] at hlo hhi hsize
      exact ⟨hfree, hbound, fun _ => Word.ofNat_ne_zero (by omega) (by omega), by rintro ⟨⟩⟩
    obtain ⟨m', hrun, hkeeps⟩ := effects?_fetch hl hslots hrecord hheader hstack hframe rfl rfl rfl
      hplaced
    obtain ⟨hstored, hframe', hstack', hothers⟩ := hkeeps.of_set hl hfree
    have hreaches : Reaches code ⟨_, m, printed⟩ _ := Machine.reaches_of_effects hfetch hrun
    have hbehind : x.pc + (x.code A.layout).length = x.back A.layout +
        (Fragment.fetch A.layout (.cell name .int offset false)).length := by
      rw [Site.code, hresult, List.length_append, ← Nat.add_assoc]
      rfl
    exact ⟨m', hbehind ▸ hreaches, hstored, hstack', hframe', hothers⟩

/-! ### Programs -/

/-- The calls of a function have their places in its code, in their order, and keep to the
    convention. -/
def FnDecl.Convenes (l : Layout) (code : List Instruction) (fns : List (FnDecl × Frame))
    (start : Nat) (f : FnDecl) (frame : Frame) : Prop :=
  ∃ (stop : Nat) (sites : List Site), (frame, stop) ∈ codeRanges start (fns.map (·.2)) ∧
    sites.map Site.call = f.body.stmt.calls ∧
    sites.Pairwise (fun x y => x.pc + (x.code l).length ≤ y.pc) ∧
    ∀ x ∈ sites, frame.entry ≤ x.pc ∧ x.pc + (x.code l).length ≤ stop ∧
      CodeAt code x.pc (x.code l) ∧
      (∃ A : Area, A.layout = l ∧ A.size = frame.size ∧ x.Fits A fns) ∧
      ∃ stop', (x.frame, stop') ∈ codeRanges start (fns.map (·.2)) ∧ x.Obeys l code stop'

/-- Functions that host their calls keep to the convention. -/
theorem Tiled.convenes {A : Area} {pc : Nat} {code is : List Instruction} (hl : A.layout.Apart)
    (hslots : 3 ≤ A.layout.scratchSlots.toNat) (h : Tiled (Hosts A fns) pc is fns)
    (hcode : CodeAt code pc is) (hlength : code.length < 2147483648) {f : FnDecl} {frame : Frame}
    (hf : (f, frame) ∈ fns) : f.Convenes A.layout code fns (pc + is.length) frame := by
  obtain ⟨piece, hpiece, hat, hrange⟩ := h.of_mem hcode hf
  obtain ⟨locals, sites, hmarked, hcalls, hfits⟩ := hpiece.sites
  refine ⟨_, sites, hrange, hcalls, hmarked.pairwise.1, fun x hx => ?_⟩
  obtain ⟨hsite, hlo, hhi⟩ := hmarked.codeAt hat x hx
  obtain ⟨piece', hpiece', hat', hrange'⟩ := h.of_mem hcode (hfits x hx).known
  exact ⟨hlo, hhi, hsite, ⟨{ A with locals, size := frame.size }, rfl, rfl, hfits x hx⟩, _, hrange',
    (hfits x hx).obeys hl hslots hpiece.size_le hsite hpiece' hat' hlength⟩

/-- All calls of a program keep to the convention. -/
structure Program.Convenes (p : Program) (l : Layout) (code : List Instruction)
    (frames : List Frame) (start : Nat) : Prop where
  begins : code[0]? = some (.jump start)
  functions : frames.map (·.name) = (Decl.functions p.decls).map (·.name.lexeme)
  calls : ∀ f frame, (f, frame) ∈ (Decl.functions p.decls).zip frames →
    f.Convenes l code ((Decl.functions p.decls).zip frames) start frame

theorem Program.Translates.convenes {p : Program} {code : List Instruction} {t : SymbolTable}
    {frames : List Frame} (h : p.Translates l code t frames) (hg : p.Grammatical) (hl : l.Apart)
    (hslots : 3 ≤ l.scratchSlots.toNat) (hlength : code.length < 2147483648) :
    ∃ start, p.Convenes l code frames start := by
  cases h with
  | intro hdecls hmain =>
    rename_i is main
    have hcode : CodeAt ([.jump (1 + is.length)] ++ is
        ++ Fragment.start l t.dataEnd (1 + is.length) main.value) 1 is := ⟨_, _, rfl, rfl⟩
    obtain ⟨hwoven, hcount, -⟩ := hdecls.tiled_woven hg rfl fun _ _ _ h => h
    have hnames := hwoven.names fun hpiece => hpiece.name
    rw [List.map_snd_zip (Nat.le_of_eq hcount.symm), List.map_fst_zip (Nat.le_of_eq hcount)]
      at hnames
    -- the entries of the functions are known to differ before their calls are looked at
    have hentries := hwoven.entries (fun _ _ _ hpiece => hpiece.nonempty)
      (Nat.le_of_lt (Nat.lt_of_le_of_lt hcode.length_le hlength))
    obtain ⟨htiled, -, -⟩ := hdecls.tiled_woven (P := Hosts (l.file (p.globals l)) _) hg rfl
      fun _ _ _ h => h.hosts hentries
    exact ⟨1 + is.length, rfl, hnames, fun f frame hf =>
      htiled.convenes hl hslots hcode hlength hf⟩

/-- In compiled code, the code of every call and the prologue and the epilogue of the function that
    is called agree. -/
theorem compile_calls_agree (layout : Layout) (source : String) (out : Output)
    (hlayout : layout.flaw? = none) (hcompile : compile layout source = .ok out)
    (hdiagnostics : out.diagnostics = []) (hlength : out.instructions.length < 2147483648) :
    ∃ p start, Program.IsTextOf p source ∧
      p.Convenes layout out.instructions out.frames start := by
  obtain ⟨hslots, p, code, t, frames, htext, htranslates, rfl⟩ :=
    translates_of_compile hcompile hdiagnostics
  obtain ⟨start, hconvenes⟩ := htranslates.convenes htext.grammatical
    (Layout.apart_of_flaw? hlayout) hslots hlength
  exact ⟨p, start, htext, hconvenes⟩

/-- A call inside the arguments of another, with an array and a number for parameters. -/
theorem compile_calls_agree_nested :
    let source := "int f(int a[],int n)\x7breturn a[n];\x7d" ++
      "void main(void)\x7bint b[2];b[0]=1;output(f(b,f(b,0)));\x7d"
    ({} : Layout).flaw? = none ∧ ∃ out, compile {} source = .ok out ∧ out.diagnostics = [] ∧
      out.frames.map (·.size) = [28, 36] ∧ out.instructions.length = 71 ∧
      ∃ p start, Program.IsTextOf p source ∧ p.Convenes {} out.instructions out.frames start := by
  intro source
  obtain ⟨out, hout, hdiagnostics, hsizes, hlength⟩ :
      ∃ out, out ∈ compileWithin? 400 {} source ∧ out.diagnostics = [] ∧
        out.frames.map (·.size) = [28, 36] ∧ out.instructions.length = 71 := by
    decide +kernel
  have hcompile := compile_of_within hout
  refine ⟨by decide, out, hcompile, hdiagnostics, hsizes, hlength, ?_⟩
  exact compile_calls_agree {} source out (by decide) hcompile hdiagnostics (by omega)

end OnePass
