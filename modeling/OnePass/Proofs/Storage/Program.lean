import OnePass.Proofs.Storage.Code
import OnePass.Proofs.Translate.Accepted

/-!
# What compiled code touches

The code of a program names only the cells of the layout and its global variables, which lie in the
data. The code of a function uses its record from the header up to the size that its first
instructions add to the stack pointer, and all its variables have their places in there. -/

namespace OnePass

/-! ### Areas of one file -/

namespace Area

variable {A : Area}

/-- What an area names does not depend on its record. -/
theorem Names.withRecord {a : Word} (h : A.Names a) (locals : List (VarDecl × Nat)) (size : Nat) :
    Names { A with locals, size } a := by
  rcases h with _ | _ | hk | ⟨hmem, hty⟩
  · exact .framePointer
  · exact .stackPointer
  · exact .scratch hk
  · exact .variable hmem hty

theorem Sound.withRecord (h : A.Sound) (locals : List (VarDecl × Nat)) (size : Nat) :
    Sound { A with locals, size } := ⟨h.apart, h.slots, h.data⟩

end Area

/-- The area of what stands outside of functions. -/
def Layout.file (l : Layout) (globals : List (VarDecl × Nat)) : Area :=
  { layout := l, globals, locals := [], size := 0 }

/-- A symbol of the file is known in every function. -/
theorem Symbol.Located.withRecord {l : Layout} {globals : List (VarDecl × Nat)} {s : Symbol}
    (h : s.Located (l.file globals)) (locals : List (VarDecl × Nat)) (size : Nat) :
    s.Located { l.file globals with locals, size } := by
  cases h with
  | function hfn hreal => exact .function hfn hreal
  | global hmem => exact .global hmem
  | array hmem => cases hmem
  | cell _ _ _ hsize => cases hsize

/-! ### Functions -/

/-- What is known about the storage that the code of a function uses. -/
structure Contained (A : Area) (f : FnDecl) (frame : Frame) (is : List Instruction) : Prop where
  name : frame.name = f.name.lexeme
  /-- The instruction behind the prologue makes room for the record. -/
  room : is[5]? = some (Fragment.moveStack A.layout frame.size)
  size_le : frame.size ≤ addressLimit
  within : ∃ places, places.map (·.1) = f.body.stmt.declarations ∧
    Ascending (Record.header + Word.size * f.params.toList.length) places frame.size ∧
    ∀ i ∈ is, i.Within { A with locals := places, size := frame.size }

theorem Param.ty_ne_array (p : Param) : p.ty ≠ .arrayInt ∧ p.ty ≠ .arrayVoid := by
  rw [Param.ty]
  cases p.brackets.isSome
  all_goals decide

/-- A function whose head was read is within every area that has room for its parameters. -/
theorem SymbolTable.inside_withHead {A : Area} {t : SymbolTable} (hnone : t.function = none)
    (ht : ∀ s ∈ t.globals.symbols, s.Located A) {name : String} {ty : Ty} {entry : Nat}
    {ps : List Param} (hsize : Record.header + Word.size * ps.length ≤ A.size) :
    (t.withHead name ty entry ps).Inside A := by
  refine ⟨SymbolTable.Holds.withHead ⟨?_, ht⟩ ?_ ?_, ?_⟩
  · rw [SymbolTable.innerScopes, hnone]
    exact List.forall_mem_nil _
  · rintro ⟨p, k⟩ hp
    obtain ⟨harray, hvoid⟩ := p.ty_ne_array
    have hk : k < ps.length := (List.mem_zipIdx' hp).1
    refine .cell harray hvoid (Nat.le_add_right ..) (Nat.le_trans ?_ hsize)
    simp only [Word.size]
    omega
  · exact .function rfl rfl
  · exact Nat.le_add_right ..

variable {l : Layout} {gs : List (VarDecl × Nat)} {fns : List (FnDecl × Frame)}

/-- The code of a function is woven for the area of its record, in which all its variables have
    their places. -/
structure FnDecl.Woven (l : Layout) (gs : List (VarDecl × Nat)) (fns : List (FnDecl × Frame))
    (f : FnDecl) (frame : Frame) (is : List Instruction) : Prop where
  name : frame.name = f.name.lexeme
  size_le : frame.size ≤ addressLimit
  room : Record.header + Word.size * f.params.toList.length ≤ frame.size
  code : ∃ places ps, is = Fragment.function l frame.entry frame.size ps ∧
    places.map (·.1) = f.body.stmt.declarations ∧
    Ascending (Record.header + Word.size * f.params.toList.length) places frame.size ∧
    OnePass.Woven { l.file gs with locals := places, size := frame.size } fns
      (frame.entry + (Fragment.prologue l).length + 1) ps f.body.stmt.calls

/-- The body of a function is translated behind its header. -/
theorem FnDecl.Translates.body {f : FnDecl} {pc : Nat} {t t' : SymbolTable}
    {is : List Instruction} {frame : Frame} (h : f.Translates l pc t is t' frame) :
    ∃ valued ps t₁ t₂, is = Fragment.function l frame.entry frame.size ps ∧
      t₁ = t.withHead f.name.lexeme f.type.base.ty frame.entry f.params.toList ∧
      f.body.stmt.Translates l false (frame.entry + (Fragment.prologue l).length + 1) t₁ ps t₂ ∧
      t.function = none ∧ t₁.Values valued ∧ t₁.recordSize ≤ frame.size ∧
      t₂.recordSize = frame.size ∧ frame.size ≤ addressLimit := by
  obtain ⟨hentry, -, -⟩ := h.frame_eq
  cases h with
  | intro hnone hfresh hparams hbody hfn =>
    rename_i t₁ ps t₂ fn
    have hfits : t₁.recordSize ≤ addressLimit :=
      hparams.paramsSize_le (show Record.header ≤ addressLimit by decide)
    rw [SymbolTable.withEntry_eq_withHead hfresh] at hparams
    obtain ⟨rfl, -, -⟩ := Chain.withHead hfresh _ hparams List.nodup_nil
    have hsize : t₂.recordSize = fn.frame.size := by
      rw [SymbolTable.recordSize, hfn]
      rfl
    obtain ⟨valued, hvalues⟩ := SymbolTable.exists_values _
    have hgrown := hbody.extends.recordSize_le
    have hle := hbody.recordSize_le hfits
    rw [hsize] at hgrown hle
    subst hentry
    exact ⟨valued, ps, _, t₂, rfl, rfl, hbody, hnone, hvalues, hgrown, hsize, hle⟩

theorem FnDecl.Translates.woven {f : FnDecl} {pc : Nat} {t t' : SymbolTable}
    {is : List Instruction} {frame : Frame} (h : f.Translates l pc t is t' frame)
    (hg : f.body.stmt.Grammatical) (ht : ∀ s ∈ t.globals.symbols, s.Located (l.file gs))
    (hmem : (f, frame) ∈ fns) (hlinked : t.Linked fns) : f.Woven l gs fns frame is := by
  obtain ⟨-, hname, -⟩ := h.frame_eq
  obtain ⟨valued, ps, t₁, t₂, rfl, rfl, hbody, hnone, hvalues, hgrown, hsize, hle⟩ := h.body
  have hplaces : Ascending _ (f.body.stmt.places valued (t.withHead f.name.lexeme f.type.base.ty
    frame.entry f.params.toList).recordSize) _ := Stmt.ascending _ _
  rw [← hbody.recordSize_eq hvalues, hsize] at hplaces
  refine ⟨hname, hle, hgrown, _, ps, rfl, f.body.stmt.map_fst_places _, hplaces, ?_⟩
  exact hbody.woven hg (hlinked.withHead hmem) hvalues (SymbolTable.inside_withHead hnone
    (fun s hs => (ht s hs).withRecord _ _) hgrown) (fun _ hx => hx) (Nat.le_of_eq hsize)

theorem FnDecl.Woven.nonempty {f : FnDecl} {frame : Frame} {is : List Instruction}
    (h : f.Woven l gs fns frame is) : is ≠ [] := by
  obtain ⟨places, ps, rfl, -⟩ := h.code
  rw [Fragment.function, Fragment.prologue_eq]
  rintro ⟨⟩

/-- The code of a function uses its record and what the file has. -/
theorem FnDecl.Woven.contained {f : FnDecl} {frame : Frame} {is : List Instruction}
    (h : f.Woven l gs fns frame is) (hA : (l.file gs).Sound) :
    Contained (l.file gs) f frame is := by
  obtain ⟨places, ps, rfl, hplaces, hascending, hwoven⟩ := h.code
  have hrecord := hA.withRecord places frame.size
  refine ⟨h.name, ?_, h.size_le, places, hplaces, hascending, ?_⟩
  · rw [Fragment.function, Fragment.prologue_eq]
    rfl
  · rw [Fragment.function]
    simp only [List.forall_mem_append]
    refine ⟨⟨⟨hrecord.within_prologue, ?_⟩, (hwoven.covers hrecord).finish _⟩,
      hrecord.within_epilogue⟩
    intro i hi
    obtain rfl := List.mem_singleton.mp hi
    exact hrecord.within_addStack .stackPointer _

/-! ### Programs -/

/-- The global variables of a program with their addresses. -/
def Program.globals (p : Program) (l : Layout) : List (VarDecl × Nat) :=
  VarDecl.layOut l.dataBase.toNat (Decl.variables p.decls)

/-- The first address past the global variables of a program. -/
def Program.dataEnd (p : Program) (l : Layout) : Nat :=
  l.dataBase.toNat + Word.size * VarDecl.listWords (Decl.variables p.decls)

/-- A declaration outside of functions opens none. -/
theorem VarDecl.Declares.closed {d : VarDecl} {t t' : SymbolTable} (h : d.Declares t t')
    (hf : t.function = none) : t'.function = none := by
  obtain ⟨-, hstores⟩ := VarDecl.declares_iff.mp h
  cases hstores with
  | inner hf' =>
    rw [hf] at hf'
    cases hf'
  | outer => exact hf

/-- The data ends behind the global variables. -/
theorem Decl.ListTranslates.dataEnd_eq {pc : Nat} {t t' : SymbolTable} {ds : List Decl}
    {is : List Instruction} {frames : List Frame}
    (h : Decl.ListTranslates l pc t ds is t' frames) (hf : t.function = none)
    (hle : t.dataEnd ≤ declaredLimit) :
    t'.dataEnd = t.dataEnd + Word.size * VarDecl.listWords (Decl.variables ds) ∧
      t'.dataEnd ≤ declaredLimit := by
  induction h with
  | nil => exact ⟨rfl, hle⟩
  | var hd hds ih =>
    rename_i pc t d ds t₁ is t₂ frames
    obtain ⟨hfirst, hle₁⟩ := hd.dataEnd_eq hf
    obtain ⟨hrest, hle₂⟩ := ih (hd.closed hf) hle₁
    have hsum : VarDecl.listWords (Decl.variables (.var d :: ds)) =
      d.words + VarDecl.listWords (Decl.variables ds) := List.sum_cons
    rw [hsum, Nat.mul_add, ← Nat.add_assoc, ← hfirst]
    exact ⟨hrest, hle₂⟩
  | fn hfn hds ih =>
    obtain ⟨t₂, hext, rfl⟩ := hfn.extends_withHead
    have hsame := hext.dataEnd
    have hstep := ih rfl (le_of_eq_of_le hsame hle)
    rw [hsame] at hstep
    exact hstep

/-- Code is made for the area of the file, whose data holds all global variables. -/
theorem Decl.ListTranslates.sound {p : Program} {pc : Nat} {t : SymbolTable}
    {is : List Instruction} {frames : List Frame}
    (h : Decl.ListTranslates l pc (.initial l.dataBase) p.decls is t frames) (hl : l.Apart)
    (hslots : 3 ≤ l.scratchSlots.toNat) : (l.file (p.globals l)).Sound ∧
      t.dataEnd = p.dataEnd l ∧ p.dataEnd l ≤ declaredLimit := by
  obtain ⟨hend, hle⟩ := h.dataEnd_eq rfl hl.dataBase_le
  rw [hend] at hle
  refine ⟨⟨hl, hslots, fun x hx => ?_⟩, hend, hle⟩
  obtain ⟨hlo, hhi⟩ := (VarDecl.ascending_layOut _ _).bounds x hx
  exact ⟨hlo, Nat.le_trans (Nat.le_of_add_right_le hhi) hle⟩

/-- What is known between two declarations: names stand for what the file has, and the variables
    still to come have their places. -/
structure Laid (l : Layout) (gs : List (VarDecl × Nat)) (ds : List Decl) (t : SymbolTable) :
    Prop where
  closed : t.function = none
  holds : t.Holds (fun _ => True) (Symbol.Located (l.file gs))
  places : ∀ x ∈ VarDecl.layOut t.dataEnd (Decl.variables ds), x ∈ gs
  grammatical : ∀ d ∈ ds, d.Grammatical

namespace Laid

variable {t t' : SymbolTable} {ds : List Decl}

theorem initial {p : Program} (hg : p.Grammatical) :
    Laid l (p.globals l) p.decls (.initial l.dataBase) := by
  refine ⟨rfl, ⟨List.forall_mem_nil _, fun s hs => ?_⟩, fun x hx => hx, hg⟩
  obtain rfl := List.mem_singleton.mp hs
  exact .function rfl rfl

theorem var {d : VarDecl} (h : Laid l gs (.var d :: ds) t) (hd : d.Declares t t') :
    Laid l gs ds t' := by
  obtain ⟨-, hstores⟩ := VarDecl.declares_iff.mp hd
  refine ⟨hd.closed h.closed, ?_, fun x hx => ?_, fun d hd => h.grammatical d (.tail _ hd)⟩
  · exact h.holds.stores hstores (fun _ _ => trivial) fun _ =>
      .global (h.places _ (List.mem_cons_self ..))
  · rw [(hd.dataEnd_eq h.closed).1] at hx
    exact h.places x (List.mem_cons_of_mem _ hx)

theorem fn {f : FnDecl} {pc : Nat} {is : List Instruction} {frame : Frame}
    (h : Laid l gs (.fn f :: ds) t) (hf : f.Translates l pc t is t' frame) :
    Laid l gs ds t' := by
  obtain ⟨t₂, hext, rfl⟩ := hf.extends_withHead
  refine ⟨rfl, ((h.holds.withHead (fun _ _ => trivial) ?_).of_extends hext).close, fun x hx => ?_,
    fun d hd => h.grammatical d (.tail _ hd)⟩
  · exact .function rfl rfl
  · have hsame : t₂.dataEnd = t.dataEnd := hext.dataEnd
    simp only [hsame] at hx
    exact h.places x hx

end Laid

/-! ### Functions in a row -/

/-- What follows for the code of each function from how it is woven holds of the tiles. -/
theorem Decl.ListTranslates.tiled_woven {p : Program} {is : List Instruction} {t : SymbolTable}
    {frames : List Frame} {P : FnDecl → Frame → List Instruction → Prop}
    (h : Decl.ListTranslates l 1 (.initial l.dataBase) p.decls is t frames) (hg : p.Grammatical)
    (hfns : (Decl.functions p.decls).zip frames = fns)
    (hP : ∀ {f pc t is t' frame}, f.Translates l pc t is t' frame → (f, frame) ∈ fns →
      t.Linked fns → f.Woven l (p.globals l) fns frame is → P f frame is) :
    Tiled P 1 is fns ∧ (Decl.functions p.decls).length = frames.length ∧ t.Linked fns := by
  subst hfns
  obtain ⟨htiled, hcount, -, hlinked⟩ := h.tiled (P := P)
    (I := fun ds t => Laid l (p.globals l) ds t ∧ t.Linked _) (fun _ hx => hx)
    ⟨.initial hg, .initial _⟩ (fun hd ht => ⟨ht.1.var hd, hd.linked ht.2⟩)
    fun hf hmem ht => ⟨hP hf hmem ht.2 (hf.woven (ht.1.grammatical _ (List.mem_cons_self ..))
      ht.1.holds.file hmem ht.2), ht.1.fn hf, hf.linked hmem ht.2⟩
  exact ⟨htiled, hcount, hlinked⟩

namespace Tiled

variable {A : Area} {pc : Nat} {code is : List Instruction} {fns : List (FnDecl × Frame)}
  (h : Tiled (Contained A) pc is fns) (hcode : CodeAt code pc is)
include h hcode

/-- Every instruction stays within some record. -/
theorem exists_within {i : Instruction} (hi : i ∈ is) :
    ∃ locals size, i.Within { A with locals, size } := by
  obtain ⟨f, frame, piece, -, hpiece, -, hi⟩ := h.exists_piece hcode hi
  obtain ⟨places, -, -, hwithin⟩ := hpiece.within
  exact ⟨places, frame.size, hwithin i hi⟩

/-- The code of each function keeps to the record that it makes room for. -/
theorem records : ∀ x ∈ codeRanges (pc + is.length) (fns.map (·.2)), ∃ f ∈ fns.map (·.1),
    f.name.lexeme = x.1.name ∧ x.1.size ≤ addressLimit ∧
    code[x.1.entry + 5]? = some (Fragment.moveStack A.layout x.1.size) ∧
    ∃ places, places.map (·.1) = f.body.stmt.declarations ∧
      Ascending (Record.header + Word.size * f.params.toList.length) places x.1.size ∧
      ∀ pc i k, x.1.entry ≤ pc → pc < x.2 → code[pc]? = some i →
        i.addend? A.layout.framePointer = some k →
          Area.Offset { A with locals := places, size := x.1.size } k := by
  intro x hx
  obtain ⟨f, piece, hf, hpiece, hat, hstop⟩ := h.of_mem_codeRanges hcode x hx
  obtain ⟨places, hdeclared, hascending, hwithin⟩ := hpiece.within
  refine ⟨f, List.mem_map_of_mem hf, hpiece.name.symm, hpiece.size_le, ?_, places, hdeclared,
    hascending, fun pc i k hlo hhi hi hk => ?_⟩
  · obtain ⟨hlt, -⟩ := List.getElem?_eq_some_iff.mp hpiece.room
    exact (hat.getElem? hlt).trans hpiece.room
  · obtain ⟨n, rfl⟩ := Nat.exists_eq_add_of_le hlo
    rw [hat.getElem? (by omega)] at hi
    exact (hwithin i (List.mem_of_getElem? hi)).addend k hk

end Tiled

/-! ### Compiled programs -/

/-- What the code of a program touches. -/
structure Program.Occupies (p : Program) (l : Layout) (code : List Instruction)
    (frames : List Frame) (start : Nat) : Prop where
  begins : code[0]? = some (.jump start)
  shape : ∀ i ∈ code, i.HasShape
  destination : ∀ i ∈ code, ∀ w, i.destination? ≠ some (.immediate w)
  /-- Only cells of the layout and global variables are named. -/
  operands : ∀ i ∈ code, ∀ o ∈ i.dataOperands, o.Within (l.file (p.globals l))
  /-- The global variables lie in the data. -/
  data : Ascending l.dataBase.toNat (p.globals l) (p.dataEnd l)
  /-- The stack begins where the data ends. -/
  stack : p.dataEnd l ≤ declaredLimit ∧ code[start]? =
    some (.assign (.immediate (BitVec.ofNat 32 (p.dataEnd l))) (.direct l.stackPointer))
  functions : frames.map (·.name) = (Decl.functions p.decls).map (·.name.lexeme)
  /-- The code of a function makes room for its record, has all variables in there, and adds only
      their offsets to the frame pointer. -/
  records : ∀ x ∈ codeRanges start frames, ∃ f ∈ Decl.functions p.decls,
    f.name.lexeme = x.1.name ∧ x.1.size ≤ addressLimit ∧
    code[x.1.entry + 5]? = some (.add (.direct l.stackPointer)
      (.immediate (BitVec.ofNat 32 x.1.size)) (.direct l.stackPointer)) ∧
    ∃ places, places.map (·.1) = f.body.stmt.declarations ∧
      Ascending (Record.header + Word.size * f.params.toList.length) places x.1.size ∧
      ∀ pc i k, x.1.entry ≤ pc → pc < x.2 → code[pc]? = some i →
        i.addend? l.framePointer = some k →
          Area.Offset { l.file (p.globals l) with locals := places, size := x.1.size } k

theorem Program.Translates.occupies {p : Program} {code : List Instruction} {t : SymbolTable}
    {frames : List Frame} (h : p.Translates l code t frames) (hg : p.Grammatical) (hl : l.Apart)
    (hslots : 3 ≤ l.scratchSlots.toNat) : ∃ start, p.Occupies l code frames start := by
  cases h with
  | intro hdecls hmain =>
    rename_i is main
    obtain ⟨hA, hend, hle⟩ := hdecls.sound hl hslots
    obtain ⟨htiled, hcount, -⟩ := hdecls.tiled_woven (P := Contained (l.file (p.globals l))) hg rfl
      fun _ _ _ h => h.contained hA
    let code := [Instruction.jump (1 + is.length)] ++ is
      ++ Fragment.start l t.dataEnd (1 + is.length) main.value
    have hcode : CodeAt code 1 is := ⟨_, _, rfl, rfl⟩
    have hstart : CodeAt code (1 + is.length)
        (Fragment.start l t.dataEnd (1 + is.length) main.value) :=
      ⟨[.jump (1 + is.length)] ++ is, [], (List.append_nil _).symm, Nat.add_comm ..⟩
    have hwithin : ∀ i ∈ code, ∃ locals size,
        i.Within { l.file (p.globals l) with locals, size } := by
      intro i hi
      rw [List.mem_append, List.mem_append, List.mem_singleton] at hi
      rcases hi with (rfl | hi) | hi
      · exact ⟨[], 0, .jump _⟩
      · exact htiled.exists_within hcode hi
      · exact ⟨[], 0, hA.within_start _ _ _ i hi⟩
    have hnames := htiled.names fun hpiece => hpiece.name
    have hrecords := htiled.records hcode
    rw [List.map_snd_zip (Nat.le_of_eq hcount.symm), List.map_fst_zip (Nat.le_of_eq hcount)]
      at hnames hrecords
    refine ⟨1 + is.length, rfl, fun i hi => ?_, fun i hi => ?_, fun i hi o ho a ha => ?_,
      VarDecl.ascending_layOut _ _, ⟨hle, ?_⟩, hnames, hrecords⟩
    · obtain ⟨locals, size, hi⟩ := hwithin i hi
      exact hi.shape
    · obtain ⟨locals, size, hi⟩ := hwithin i hi
      exact hi.destination
    · obtain ⟨locals, size, hi⟩ := hwithin i hi
      exact (hi.operands o ho a ha).withRecord [] 0
    · rw [Fragment.start_eq, hend] at hstart
      exact hstart.head

/-- Compiled code names only the cells of the layout and global variables, and each function keeps
    to its record. -/
theorem compile_keeps_to_storage (layout : Layout) (source : String) (out : Output)
    (hlayout : layout.flaw? = none) (hcompile : compile layout source = .ok out)
    (hdiagnostics : out.diagnostics = []) :
    ∃ p start, Program.IsTextOf p source ∧
      p.Occupies layout out.instructions out.frames start := by
  obtain ⟨hslots, p, code, t, frames, htext, htranslates, rfl⟩ :=
    translates_of_compile hcompile hdiagnostics
  obtain ⟨start, hoccupies⟩ := htranslates.occupies htext.grammatical
    (Layout.apart_of_flaw? hlayout) hslots
  exact ⟨p, start, htext, hoccupies⟩

/-- A function with an array and a parameter, called on a global array. -/
theorem compile_keeps_to_storage_arrays :
    let source := "int g[3];int k;int f(int a[])\x7bint b[2];b[1]=a[k];return b[1]+a[0];\x7d" ++
      "void main(void)\x7bint x;k=2;x=f(g);output(x);\x7d"
    ({} : Layout).flaw? = none ∧ ∃ out, compile {} source = .ok out ∧ out.diagnostics = [] ∧
      out.frames.map (·.size) = [48, 24] ∧
      ∃ p start, Program.IsTextOf p source ∧
        p.Occupies {} out.instructions out.frames start := by
  intro source
  obtain ⟨out, hout, hdiagnostics, hsizes⟩ :
      ∃ out, out ∈ compileWithin? 400 {} source ∧ out.diagnostics = [] ∧
        out.frames.map (·.size) = [48, 24] := by
    decide +kernel
  have hcompile := compile_of_within hout
  refine ⟨by decide, out, hcompile, hdiagnostics, hsizes, ?_⟩
  exact compile_keeps_to_storage {} source out (by decide) hcompile hdiagnostics

end OnePass
