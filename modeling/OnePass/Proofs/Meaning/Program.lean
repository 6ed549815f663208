import OnePass.Proofs.Flow.Program
import OnePass.Proofs.Meaning.Statement

/-!
# Compiled programs do what their text says

The main function lives behind the global data. The start of a compiled program makes it the owner
of a record there and calls it; it then takes the machine where the program goes, and returns to the
end of the code. So what the machine prints is what the program does. -/

namespace OnePass

open Machine (Reaches)

/-! ### Declarations before and behind the main function -/

/-- Variables are declared one after the other. -/
theorem Decl.listRun?_variables {fuel : Nat} (ds : List VarDecl) (rest : List Decl)
    (env : Environment) (n : Nat) : Decl.listRun? fuel (ds.map .var ++ rest) env n =
      Decl.listRun? fuel rest (env.declare n ds) (n + ds.length) := by
  induction ds generalizing env n with
  | nil => rfl
  | cons d ds ih =>
    rw [List.map_cons, List.cons_append, Decl.listRun?, ih, List.length_cons, Nat.add_assoc,
      Nat.add_comm 1]
    rfl

theorem Decl.ListTranslates.variables {l : Layout} {pc : Nat} {t t' : SymbolTable}
    {ds : List VarDecl} {rest : List Decl} {is : List Instruction} {frames : List Frame}
    (h : Decl.ListTranslates l pc t (ds.map .var ++ rest) is t' frames) :
    ∃ t₁, Chain VarDecl.Declares ds t t₁ ∧ Decl.ListTranslates l pc t₁ rest is t' frames := by
  induction ds generalizing t with
  | nil => exact ⟨t, .nil, h⟩
  | cons d ds ih =>
    cases h with
    | var hd h =>
      obtain ⟨t₁, hchain, hrest⟩ := ih h
      exact ⟨t₁, .cons hd hchain, hrest⟩

theorem Decl.variables_append (ds : List VarDecl) (f : FnDecl) (ds' : List VarDecl) :
    Decl.variables (ds.map .var ++ .fn f :: ds'.map .var) = ds ++ ds' := by
  have hvar : ∀ ds : List VarDecl, Decl.variables (ds.map .var) = ds := by
    intro ds
    rw [Decl.variables, List.filterMap_map]
    exact List.filterMap_some
  rw [Decl.variables, List.filterMap_append, List.filterMap_cons]
  exact congrArg₂ (· ++ ·) (hvar ds) (hvar ds')

theorem Chain.laid {l : Layout} {gs : List (VarDecl × Nat)} {ds : List VarDecl} {rest : List Decl}
    {t t' : SymbolTable} (h : Chain VarDecl.Declares ds t t')
    (ht : Laid l gs (ds.map .var ++ rest) t) : Laid l gs rest t' := by
  induction h with
  | nil => exact ht
  | cons hd _ ih => exact ih (ht.var hd)

/-! ### The main function at home -/

theorem Entries.singleton (f : FnDecl) {frame : Frame} (h : frame.entry < 2147483648) :
    Entries [(f, frame)] := by
  refine ⟨fun x hx => ?_, fun x hx y hy _ => ?_⟩
  · rw [List.mem_singleton.mp hx]
    exact h
  · rw [List.mem_singleton.mp hx, List.mem_singleton.mp hy]

/-- The main function lives behind the data: its variables are in its record, and those of the file
    that stand before it are in the data. -/
def Residence.ofMain (l : Layout) (hl : l.Apart) (hslots : 3 ≤ l.scratchSlots.toNat) (base : Nat)
    (globals : List VarDecl)
    (hglobals : l.dataBase.toNat + Word.size * VarDecl.listWords globals ≤ base)
    (body : Stmt) (valued : String → Bool)
    (hbound : base + Record.header + Word.size * body.words valued < 2147483648)
    (caller : Word) (back : Nat) : Residence where
  layout := l
  base := base
  size := Record.header + Word.size * body.words valued
  homes := VarDecl.layOut l.dataBase.toNat globals ++ body.places valued (base + Record.header)
  caller := caller
  back := back
  apart := hl
  slots := hslots
  data := by omega
  bound := by omega
  ordered := by
    have hbody : Ascending _ (body.places valued (base + Record.header)) _ :=
      (body.ascending _).mono (Nat.le_trans hglobals (Nat.le_add_right ..))
    rw [Nat.add_assoc] at hbody
    exact (VarDecl.ascending_layOut _ globals).append hbody (Nat.le_add_right ..) (by omega)
  header x hx := by
    rcases List.mem_append.mp hx with hx | hx
    · have := ((VarDecl.ascending_layOut _ globals).bounds x hx).2
      omega
    · exact .inr ((body.ascending _).bounds x hx).1

theorem SymbolTable.find?_withHead {t : SymbolTable} (hf : t.function = none) {name : String}
    (hfresh : t.globals.contains name = false) (ty : Ty) (entry : Nat) (x : String) :
    (t.withHead name ty entry []).find? x =
      if name = x then some (headSymbol name ty entry []) else t.find? x := by
  have hglobals : (t.withHead name ty entry []).globals =
      t.globals.insert (headSymbol name ty entry []) := by
    rw [Scope.insert, if_neg (by exact ne_true_of_eq_false hfresh)]
    rfl
  have hhead : (t.withHead name ty entry []).find? x =
      (t.withHead name ty entry []).globals.find? x := by
    have hscopes : (t.withHead name ty entry []).scopes =
        [{}, (t.withHead name ty entry []).globals] := rfl
    rw [find?, hscopes, List.findSome?_cons, List.findSome?_singleton]
    rfl
  have hbefore : t.find? x = t.globals.find? x := by
    rw [find?, scopes_eq_innerScopes, innerScopes, hf]
    exact List.findSome?_singleton
  rw [hhead, hglobals, Scope.find?_insert, hbefore]
  rfl

/-- At first the names are those of the built-in function. -/
theorem Residence.Names.initial (R : Residence) (dataBase : Word) :
    R.Names [(outputName, .function)] (.initial dataBase) := by
  intro x entity hx
  rw [List.lookup_cons] at hx
  split at hx
  · rename_i heq
    cases hx
    rw [eq_of_beq heq]
    exact ⟨SymbolTable.output, rfl, .function rfl⟩
  · cases hx

/-! ### From the start to the end -/

/-- The code of a program with one function. -/
def Fragment.program (l : Layout) (dataEnd size : Nat) (body : List Planned) : List Instruction :=
  [.jump (1 + (function l 1 size body).length)] ++ function l 1 size body ++
    start l dataEnd (1 + (function l 1 size body).length) (BitVec.ofNat 32 1)

namespace Fragment

variable (l : Layout) (dataEnd size : Nat) (body : List Planned)

theorem codeAt_function :
    CodeAt (program l dataEnd size body) 1 (function l 1 size body) := ⟨_, _, rfl, rfl⟩

theorem codeAt_start : CodeAt (program l dataEnd size body) (1 + (function l 1 size body).length)
    (start l dataEnd (1 + (function l 1 size body).length) (BitVec.ofNat 32 1)) :=
  ⟨_, [], (List.append_nil _).symm, List.length_append⟩

theorem codeAt_body : CodeAt (program l dataEnd size body) 7
    (body.map (Planned.resolve (7 + body.length) (7 + body.length))) := by
  rw [Planned.resolve_stop]
  exact (codeAt_function l dataEnd size body).left.right

theorem codeAt_epilogue : CodeAt (program l dataEnd size body) (7 + body.length) (epilogue l) := by
  have hright := (codeAt_function l dataEnd size body).right
  rw [List.length_append, List.length_map, ← Nat.add_assoc] at hright
  exact hright

theorem length_program :
    (program l dataEnd size body).length = 1 + (function l 1 size body).length + 5 := by
  rw [program, List.length_append, List.length_append, start_eq]
  rfl

end Fragment

section
variable {l : Layout} {b size pc : Nat} {code : List Instruction}

/-- The start of a program makes a record for the main function, which is to return behind it. -/
theorem reaches_start {entry : Word} (hl : l.Apart) (hslots : 3 ≤ l.scratchSlots.toNat)
    (hroom : l.Room b size) (hheader : Record.header ≤ size)
    (hcode : CodeAt code pc (Fragment.start l b pc entry)) (hentry : entry.toNat < 2147483648) :
    ∃ m : Memory, Reaches code ⟨pc, fun _ => 0, []⟩ ⟨entry.toNat, m, []⟩ ∧
      m l.stackPointer.toNat = BitVec.ofNat 32 b ∧
      m (b + Record.returnAddress : Nat) = BitVec.ofNat 32 (pc + 5) ∧
      ∀ a, l.Free a → a ≠ (b + Record.returnAddress : Nat) → m a = 0 := by
  have hne : (l.stackPointer.toNat : Int) ≠ l.framePointer.toNat := by
    have := hl.pointers
    omega
  have hfield : Record.returnAddress < size := Nat.lt_of_lt_of_le (by decide) hheader
  have hfree := hroom.field hfield
  let zero : Memory := fun _ => 0
  obtain ⟨m₀, hm₀⟩ : ∃ m₀ : Memory, m₀ = (zero.set l.stackPointer.toNat (BitVec.ofNat 32 b)).set
    l.framePointer.toNat (BitVec.ofNat 32 b) := ⟨_, rfl⟩
  have hstack : m₀ l.stackPointer.toNat = BitVec.ofNat 32 b := by
    rw [hm₀, Memory.set_of_ne _ hne, Memory.set_self]
  let u := Use.number (BitVec.ofNat 32 (pc + 5))
  let v := Use.field l 0 l.stackPointer (BitVec.ofNat 32 Record.returnAddress)
  obtain ⟨m, hrun, hkeeps⟩ := effects?_push Record.returnAddress hl hroom (n := 0) (k := 0) (u := u)
    (Use.gives_number _) rfl (by omega) hstack hfield
  obtain ⟨hheld, -, hstack', hothers⟩ := hkeeps.of_set hl hfree
  let pointers : List Instruction := [
    .assign (.immediate (BitVec.ofNat 32 b)) (.direct l.stackPointer),
    .assign (.immediate (BitVec.ofNat 32 b)) (.direct l.framePointer)]
  have hparts : CodeAt code pc ((pointers ++ (u.code ++ v.code ++
    [.assign u.operand v.operand])) ++ [.jump entry.toNat]) := hcode
  have heffects : effects? (pointers ++ (u.code ++ v.code ++ [.assign u.operand v.operand])) zero =
      some m := by
    rw [effects?_append, ← hrun, hm₀]
    rfl
  refine ⟨m, (Machine.reaches_of_effects hparts.left heffects).trans
    (Machine.reaches_jump hparts.right.head hentry), hstack'.trans hstack, hheld,
    fun a ha hne => ?_⟩
  rw [hothers a ha hne, hm₀, Memory.set_of_ne _ ha.framePointer, Memory.set_of_ne _ ha.stackPointer]

/-- A program with one function gets to the body of that function, with zeros everywhere but in the
    header of its record. -/
theorem reaches_body {body : List Planned} (hl : l.Apart) (hslots : 3 ≤ l.scratchSlots.toNat)
    (hroom : l.Room b size) (hheader : Record.header ≤ size)
    (hlength : (Fragment.program l b size body).length < 2147483648) :
    ∃ m caller, Reaches (Fragment.program l b size body) {} ⟨7, m, []⟩ ∧
      l.Active b caller (Fragment.program l b size body).length m ∧
      ∀ a, l.Free a → (a < b ∨ (b + Record.header : Nat) ≤ a) → m a = 0 := by
  have h4 : Record.returnAddress = 4 := rfl
  have h8 : Record.savedStack = 8 := rfl
  have h16 : Record.header = 16 := rfl
  have hstart := Fragment.codeAt_start l b size body
  have hend := hstart.length_le
  rw [Fragment.start_eq] at hend
  simp only [List.length_cons, List.length_nil] at hend
  have hbegin : Reaches (Fragment.program l b size body) ⟨0, fun _ => 0, []⟩ _ :=
    Machine.reaches_jump rfl (by omega)
  obtain ⟨m₁, hcall, hstack, hback, hzero⟩ :=
    reaches_start hl hslots hroom hheader hstart (by decide)
  obtain ⟨m₂, (henter : Reaches _ ⟨_, _, []⟩ _), hactive, -, hspares⟩ := reaches_prologue hl hslots
    hroom hheader (Fragment.codeAt_function l b size body).left.left hstack hback
  rw [Fragment.length_program]
  refine ⟨m₂, _, (hbegin.trans hcall).trans henter, hactive, fun a ha hout => ?_⟩
  exact (hspares a ha (by omega)).trans (hzero a ha (by omega))

end

/-- What is known about the translation of a program with one function. -/
theorem Program.Translates.single {p : Program} {l : Layout} {code : List Instruction}
    {t : SymbolTable} {frames : List Frame} {before after : List VarDecl} {main : FnDecl}
    (h : p.Translates l code t frames)
    (hdecls : p.decls = before.map Decl.var ++ Decl.fn main :: after.map Decl.var) :
    ∃ t₁ t₂ is frame, Chain VarDecl.Declares before (.initial l.dataBase) t₁ ∧
      main.Translates l 1 t₁ is t₂ frame ∧ frames = [frame] ∧
      code = [.jump (1 + is.length)] ++ is ++
        Fragment.start l t.dataEnd (1 + is.length) (BitVec.ofNat 32 1) := by
  cases h with
  | intro hlist hsymbol =>
    rename_i is symbol
    rw [hdecls] at hlist
    obtain ⟨t₁, hbefore, hrest⟩ := hlist.variables
    cases hrest with
    | fn hmain hrest =>
      rename_i is t₂ frame js frames
      rw [← List.append_nil (after.map Decl.var)] at hrest
      obtain ⟨t₃, hafter, hnil⟩ := hrest.variables
      cases hnil
      have hlinked : SymbolTable.Linked t [(main, frame)] := hafter.linked
        (hmain.linked (List.mem_singleton_self _) (hbefore.linked (.initial _)))
      obtain ⟨f, frame', hmem, -, -, hvalue⟩ := hlinked.main hsymbol
      obtain ⟨rfl, rfl⟩ := Prod.mk.inj (List.mem_singleton.mp hmem)
      rw [hmain.frame_eq.1] at hvalue
      refine ⟨t₁, t₂, is, _, hbefore, hmain, rfl, ?_⟩
      rw [List.append_nil, hvalue]

/-- All variables are zero at first. -/
theorem Residence.Mirrors.initial {R : Residence} {m : Memory}
    (hactive : R.layout.Active R.base R.caller R.back m)
    (hzero : ∀ a, R.layout.Free a → (a < R.base ∨ (R.base + Record.header : Nat) ≤ a) → m a = 0) :
    R.Mirrors (fun _ _ => 0) m := by
  refine ⟨hactive, fun ha => hzero _ ha.free ?_⟩
  have := ha.header
  simp only [Word.size] at this
  omega

/-- Before the body of the main function, all names are known, and its variables live in the record
    behind the header. -/
theorem Stage.Hosts.main {S : Stage} {before : List VarDecl} {main : FnDecl} {frame : Frame}
    {dataBase : Word} {t t' : SymbolTable} (hmain : main.IsMain) (hfns : S.fns = [(main, frame)])
    (hhomes : S.homes = VarDecl.layOut dataBase.toNat before ++
      main.body.stmt.places S.valued (S.base + Record.header))
    (hglobals : dataBase.toNat + Word.size * VarDecl.listWords before ≤ S.base)
    (hbefore : Chain VarDecl.Declares before (.initial dataBase) t) (hclosed : t.function = none)
    (hfresh : t.globals.contains main.name.lexeme = false)
    (hvalues : (t.withHead main.name.lexeme main.type.base.ty frame.entry []).Values S.valued)
    (hsize : t'.recordSize ≤ S.size) :
    S.Hosts
      ((main.name.lexeme, .function) :: Environment.declare [(outputName, .function)] 0 before)
      before.length (t.withHead main.name.lexeme main.type.base.ty frame.entry [])
      (main.body.stmt.places S.valued (S.base + Record.header)) t' := by
  have hnames : S.Names (Environment.declare [(outputName, .function)] 0 before) t :=
    hbefore.names (.initial _ _) ((List.nil_append _).trans hhomes.symm).symm
  have hlinked : t.Linked S.fns := hbefore.linked (.initial _)
  have hmem : (main, frame) ∈ S.fns := by
    rw [hfns]
    exact List.mem_singleton_self _
  have hlinked' := hlinked.withHead hmem
  rw [hmain.2.2] at hlinked'
  refine ⟨⟨hnames.cons (.function rfl) (SymbolTable.find?_withHead hclosed hfresh _ _), hlinked',
    hvalues, Nat.le_refl _⟩, ⟨VarDecl.layOut dataBase.toNat before, [], ?_,
    VarDecl.length_layOut .., fun x hx => ?_, nofun⟩, hsize⟩
  · rw [hhomes, List.append_nil]
  · have hend := ((VarDecl.ascending_layOut _ before).bounds x hx).2
    change _ ≤ S.base + Record.header
    omega

/-- A compiled program runs to the end of its code and prints what the program prints. -/
theorem Program.Translates.reaches_end {p : Program} {l : Layout} {code : List Instruction}
    {t : SymbolTable} {frames : List Frame} {fuel : Nat} {printed : List Word}
    (h : p.Translates l code t frames) (hg : p.Grammatical) (hl : l.Apart)
    (hslots : 3 ≤ l.scratchSlots.toNat) (hsimple : p.IsSimple) (hlength : code.length < 2147483648)
    (hroom : ∀ frame ∈ frames, p.dataEnd l + frame.size < 2147483648)
    (hrun : p.run? fuel = some printed) :
    ∃ m, Reaches code {} ⟨code.length, m, printed⟩ := by
  obtain ⟨before, main, after, hdecls, hmain, hbody⟩ := hsimple
  have hbase : t.dataEnd = p.dataEnd l := by
    cases h with
    | intro hlist => exact (hlist.sound hl hslots).2.1
  obtain ⟨t₁, t₂, is, frame, hbefore, hfn, rfl, hcode⟩ := h.single hdecls
  have hbound := hroom frame (List.mem_singleton_self _)
  have hlaid := Laid.initial (l := l) hg
  rw [hdecls] at hlaid
  have hlaid₁ := hbefore.laid hlaid
  have hfresh : t₁.globals.contains main.name.lexeme = false := by
    cases hfn with
    | intro _ hfresh => exact hfresh
  obtain ⟨hentry, -, -⟩ := hfn.frame_eq
  obtain ⟨valued, ps, t₃, t₄, rfl, ht₃, htranslates, -, hvalues, -, hsize, -⟩ := hfn.body
  rw [hmain.2.2] at ht₃
  rw [hentry] at htranslates hcode
  rw [hbase] at hcode
  replace hcode : code = Fragment.program l (p.dataEnd l) frame.size ps := hcode
  subst hcode
  -- the record holds a header and what the body takes
  have hhead : t₃.recordSize = Record.header := by rw [ht₃]; rfl
  have hwords := htranslates.recordSize_eq hvalues
  rw [hhead, hsize] at hwords
  have hglobals : l.dataBase.toNat + Word.size * VarDecl.listWords before ≤ p.dataEnd l := by
    rw [Program.dataEnd, hdecls, Decl.variables_append, VarDecl.listWords, VarDecl.listWords,
      List.map_append, List.sum_append, Nat.mul_add]
    omega
  have hspace : l.Room (p.dataEnd l) frame.size :=
    ⟨fun a ha _ => hl.free (by omega), Nat.le_of_lt hbound⟩
  obtain ⟨m, caller, hreaches, hactive, hzero⟩ := reaches_body hl hslots hspace (by omega) hlength
  have hepilogue := Fragment.codeAt_epilogue l (p.dataEnd l) frame.size ps
  let S : Stage := { Residence.ofMain l hl hslots (p.dataEnd l) before hglobals main.body.stmt
      valued (by omega) caller (Fragment.program l (p.dataEnd l) frame.size ps).length with
    code := Fragment.program l (p.dataEnd l) frame.size ps
    stop := 7 + ps.length
    fns := [(main, frame)]
    valued := valued
    length_lt := hlength
    stop_le := Nat.le_trans (Nat.le_add_right ..) hepilogue.length_le
    entries := .singleton main (by omega) }
  -- from the start of the body the code goes where the program does
  subst ht₃
  have hhosts := Stage.Hosts.main (S := S) hmain rfl rfl hglobals hbefore hlaid₁.closed hfresh
    hvalues (Nat.le_of_eq (hsize.trans hwords))
  rw [Program.run?, hdecls, Decl.listRun?_variables, Decl.listRun?, if_pos hmain, Nat.zero_add]
    at hrun
  obtain ⟨⟨flow, x⟩, hends, rfl⟩ := Option.map_eq_some_iff.mp hrun
  obtain ⟨m₁, hreaches₁, hm₁⟩ := main.body.stmt.runs (S := S) hbody htranslates hhosts
    (Fragment.codeAt_body ..) S.stop_le hends m (.initial hactive hzero)
  obtain ⟨m₂, (hreturn : Reaches _ ⟨_, _, x.printed⟩ _), -⟩ := reaches_epilogue hl hslots hspace
    (by omega) hepilogue hm₁.active hlength
  refine ⟨m₂, (hreaches.trans hreaches₁).trans ?_⟩
  -- however the body is left, control is at the epilogue
  cases flow <;> exact hreturn

/-- If a program without calls and without nested assignments comes to an end, then so does its
    compiled code, from a memory of zeros, and it has printed the same. -/
theorem compile_preserves_output (layout : Layout) (source : String) (p : Program) (out : Output)
    (fuel : Nat) (printed : List Word) (hlayout : layout.flaw? = none) (htext : p.IsTextOf source)
    (hsimple : p.IsSimple) (hcompile : compile layout source = .ok out)
    (hdiagnostics : out.diagnostics = []) (hlength : out.instructions.length < 2147483648)
    (hroom : ∀ frame ∈ out.frames, p.dataEnd layout + frame.size < 2147483648)
    (hrun : p.run? fuel = some printed) :
    ∃ n m, Machine.run? out.instructions n {} = some m ∧ m.printed = printed := by
  have hslots := (translates_of_compile hcompile hdiagnostics).1
  obtain ⟨code, t, frames, htranslates, rfl⟩ :=
    (compile_eq_ok_iff_translates hslots htext).mp ⟨hcompile, hdiagnostics⟩
  obtain ⟨m, hreaches⟩ := htranslates.reaches_end htext.grammatical
    (Layout.apart_of_flaw? hlayout) hslots hsimple hlength hroom hrun
  obtain ⟨n, hhalts⟩ := hreaches.run? rfl
  exact ⟨n, _, hhalts, rfl⟩

/-- Loops inside each other, where a block that is entered again finds its variables as it left
    them, and one of them hides a variable of the block around it. -/
theorem compile_preserves_output_reentry :
    let source := "int a[2];void main(void)\x7bint i;repeat\x7bint k;" ++
      "repeat\x7bint i;i=i+1;k=k+i;if(2<i)break;else output(i);\x7duntil(0)" ++
      "a[i]=k;i=i+1;\x7duntil(i==2)output(a[1]);return;\x7d"
    ({} : Layout).flaw? = none ∧ ∃ p out, Program.IsTextOf p source ∧ p.IsSimple ∧
      compile {} source = .ok out ∧ out.diagnostics = [] ∧ out.instructions.length = 68 ∧
      out.frames.map (·.size) = [56] ∧ p.dataEnd {} = 232 ∧ p.run? 3 = some [1, 2, 10] ∧
      ∃ n m, Machine.run? out.instructions n {} = some m ∧ m.printed = [1, 2, 10] := by
  intro source
  let one : Expr := .num ⟨"1", 1⟩
  let two : Expr := .num ⟨"2", 1⟩
  let i : Expr := .name ⟨"i", 1⟩
  let k : Expr := .name ⟨"k", 1⟩
  let a (e : Expr) : Expr := .index ⟨"a", 1⟩ 1 e 1
  let int (name : String) : VarDecl := ⟨⟨.int, 1⟩, ⟨name, 1⟩, .scalar 1⟩
  let set (target value : Expr) : Stmt := .expr (.assign target 1 value) 1
  let output (e : Expr) : Stmt := .expr (.call ⟨"output", 1⟩ 1 (.last e 1)) 1
  let inner : Stmt := .loop 1 (.block 1 [int "i"] [set i (.binary .add 1 i one),
    set k (.binary .add 1 k i), .ifElse 1 1 (.binary .lt 1 two i) 1 (.leave 1 1) 1 (output i)] 1)
    1 1 (.num ⟨"0", 1⟩) 1
  let outer : Stmt := .loop 1 (.block 1 [int "k"] [inner, set (a i) k,
    set i (.binary .add 1 i one)] 1) 1 1 (.binary .eq 1 i two) 1
  let main : FnDecl := ⟨⟨.void, 1⟩, ⟨"main", 1⟩, 1, .void 1, 1,
    ⟨1, [int "i"], [outer, output (a one), .return 1 1], 1⟩⟩
  let tree : Program := ⟨[.var ⟨⟨.int, 1⟩, ⟨"a", 1⟩, .array 1 ⟨"2", 1⟩ 1 1⟩, .fn main]⟩
  have hgrammatical : tree.Grammatical := by
    simp [tree, main, outer, inner, output, set, a, int, i, k, one, two, Program.Grammatical,
      Decl.Grammatical, Block.stmt, Stmt.Grammatical, Stmt.ListGrammatical, Expr.Grammatical,
      Args.Grammatical]
    decide
  obtain ⟨hscanned, htokens, out, hout, hdiagnostics, hlength, hsizes⟩ :
      (scan source).errors = [] ∧
      tree.tokens = (scan source).tokens.takeWhile (·.kind != .stop) ∧
      ∃ out, out ∈ compileWithin? 400 {} source ∧ out.diagnostics = [] ∧
        out.instructions.length = 68 ∧ out.frames.map (·.size) = [56] := by
    -- the text has to be one literal: put together, it would be put together at every look at it
    have hsource : source =
        "int a[2];void main(void)\x7bint i;repeat\x7bint k;repeat\x7bint i;i=i+1;k=k+i;if(2<i)break;else output(i);\x7duntil(0)a[i]=k;i=i+1;\x7duntil(i==2)output(a[1]);return;\x7d" := by
      decide +kernel
    rw [hsource]
    decide +kernel
  have htext : tree.IsTextOf source := ⟨hscanned, hgrammatical, htokens⟩
  have hcompile := compile_of_within hout
  have hsimple : tree.IsSimple := ⟨[_], main, [], rfl, by decide, by decide⟩
  have hend : tree.dataEnd {} = 232 := by decide +kernel
  have hrun : tree.run? 3 = some [1, 2, 10] := by decide +kernel
  refine ⟨by decide, tree, out, htext, hsimple, hcompile, hdiagnostics, hlength, hsizes, hend, hrun,
    ?_⟩
  refine compile_preserves_output {} source tree out 3 _ (by decide) htext hsimple hcompile
    hdiagnostics (by omega) (fun frame hframe => ?_) hrun
  have hsize := List.mem_map_of_mem (f := (·.size)) hframe
  rw [hsizes, List.mem_singleton] at hsize
  omega

end OnePass
