import OnePass.Proofs.Semantics.Machine
import OnePass.Proofs.Static.Table

/-!
# Functions of a program

The code of a program is tiled by its functions: each stands at the entry of its frame, and the next
begins where it ends. A table is linked to some functions when every function that it knows is one of
them, found at the entry of its frame, or the built-in one. So what a call jumps to is always the
entry of a function of the program. -/

namespace OnePass

namespace SymbolTable

/-! ### Symbols of a table -/

/-- Every symbol of the open function is as `P` says, and every symbol of the file as `Q` says. -/
structure Holds (P Q : Symbol → Prop) (t : SymbolTable) : Prop where
  inner : ∀ scope ∈ t.innerScopes, ∀ s ∈ scope.symbols, P s
  file : ∀ s ∈ t.globals.symbols, Q s

variable {t t' : SymbolTable} {fns : List (FnDecl × Frame)} {P Q : Symbol → Prop}

theorem mem_insert_cell {scope : Scope} {x : String} {ty : Ty} {address : Nat} {isGlobal : Bool}
    (hfresh : scope.contains x = false) {s : Symbol}
    (hs : s ∈ (scope.insert (.cell x ty address isGlobal)).symbols) :
    s ∈ scope.symbols ∨ s = .cell x ty address isGlobal := by
  rwa [Scope.symbols_insert (by exact hfresh), List.mem_append, List.mem_singleton] at hs

namespace Holds

theorem of_extends (h : t.Holds P Q) (ht : t.Extends t') : t'.Holds P Q := by
  refine ⟨?_, ?_⟩
  · rw [ht.innerScopes]
    exact h.inner
  · rw [ht.globals]
    exact h.file

/-- The scopes of the open function may change as long as their symbols are as they should. -/
theorem withFunction (h : t.Holds P Q) {f : OpenFunction}
    (hf : ∀ scope ∈ f.scopes, ∀ s ∈ scope.symbols, P s) : (t.withFunction f).Holds P Q :=
  ⟨hf, h.file⟩

theorem close (h : t.Holds P Q) : ({ t with function := none } : SymbolTable).Holds P Q :=
  ⟨nofun, h.file⟩

theorem inner_of_function (h : t.Holds P Q) {f : OpenFunction} (hf : t.function = some f) :
    ∀ scope ∈ f.scopes, ∀ s ∈ scope.symbols, P s := by
  have hinner := h.inner
  rw [innerScopes, hf] at hinner
  exact hinner

theorem openBlock (h : t.Holds P Q) {f : OpenFunction} (hf : t.function = some f) :
    (t.withFunction { f with blocks := {} :: f.blocks }).Holds P Q := by
  refine h.withFunction fun scope hscope => ?_
  rcases List.mem_cons.mp hscope with rfl | hscope
  · exact nofun
  · exact h.inner_of_function hf scope hscope

/-- A new name for storage adds one symbol. -/
theorem stores (h : t.Holds P Q) {x : String} {ty : Ty} {words : Nat}
    (hs : Stores x ty words t t')
    (hP : ∀ f, t.function = some f → P (.cell x ty f.record.size false))
    (hQ : t.function = none → Q (.cell x ty t.dataEnd true)) : t'.Holds P Q := by
  cases hs with
  | inner hf hopen hfresh hfits =>
    rename_i f
    have hinner := h.inner_of_function hf
    refine h.withFunction fun scope hscope s hs => ?_
    rw [OpenFunction.scopes_insert, List.mem_cons] at hscope
    rcases hscope with rfl | hscope
    · have hcurrent : f.current ∈ f.scopes := by
        rw [f.scopes_eq]
        exact List.mem_cons_self ..
      rcases mem_insert_cell hfresh hs with hs | rfl
      · exact hinner _ hcurrent s hs
      · exact hP f hf
    · exact hinner scope (List.mem_of_mem_tail hscope) s hs
  | outer hf hfresh hroom =>
    refine ⟨?_, fun s hs => ?_⟩
    · rw [innerScopes, withGlobal, hf]
      exact List.forall_mem_nil _
    · rcases mem_insert_cell hfresh hs with hs | rfl
      · exact h.file s hs
      · exact hQ hf

/-- The head of a function adds its symbol and its parameters. -/
theorem withHead (h : t.Holds P Q) {name : String} {ty : Ty} {entry : Nat} {ps : List Param}
    (hP : ∀ x ∈ ps.zipIdx,
      P (.cell x.1.name.lexeme x.1.ty (Record.header + Word.size * x.2) false))
    (hQ : Q (headSymbol name ty entry ps)) : (t.withHead name ty entry ps).Holds P Q := by
  refine ⟨fun scope hscope s hs => ?_, fun s hs => ?_⟩
  · obtain rfl := List.mem_singleton.mp hscope
    obtain ⟨x, hx, rfl⟩ := List.mem_map.mp hs
    exact hP x hx
  · rcases List.mem_append.mp hs with hs | hs
    · exact h.file s hs
    · rw [List.mem_singleton.mp hs]
      exact hQ

/-- A symbol that is found is one of the two. -/
theorem of_find? (h : t.Holds P Q) {x : String} {s : Symbol} (hfind : t.find? x = some s) :
    P s ∨ Q s := by
  obtain ⟨scope, hscope, hs, -⟩ := mem_of_find? hfind
  rw [scopes_eq_innerScopes, List.mem_append, List.mem_singleton] at hscope
  rcases hscope with hscope | rfl
  · exact .inl (h.inner scope hscope s hs)
  · exact .inr (h.file s hs)

end Holds

/-! ### Functions of a table -/

/-- Every function of a table is the built-in one or one of some functions with their frames. -/
def Linked (t : SymbolTable) (fns : List (FnDecl × Frame)) : Prop :=
  t.Holds (·.isFunction = false) fun s => s.isFunction → s = output ∨
    ∃ f frame, (f, frame) ∈ fns ∧
      s = headSymbol f.name.lexeme f.type.base.ty frame.entry f.params.toList

theorem Linked.initial (dataBase : Word) : (initial dataBase).Linked fns :=
  ⟨nofun, fun _ hs _ => .inl (List.mem_singleton.mp hs)⟩

end SymbolTable

variable {fns : List (FnDecl × Frame)}

theorem VarDecl.Declares.linked {d : VarDecl} {t t' : SymbolTable} (h : d.Declares t t')
    (ht : t.Linked fns) : t'.Linked fns :=
  ht.stores (VarDecl.declares_iff.mp h).2 (fun _ _ => rfl) fun _ => nofun

theorem Chain.linked {ds : List VarDecl} {t t' : SymbolTable} (h : Chain VarDecl.Declares ds t t')
    (ht : t.Linked fns) : t'.Linked fns := by
  induction h with
  | nil => exact ht
  | cons hd _ ih => exact ih (hd.linked ht)

namespace SymbolTable.Linked

variable {t : SymbolTable}

/-- A function that was read up to its body is linked too. -/
theorem withHead (h : t.Linked fns) {f : FnDecl} {frame : Frame} (hf : (f, frame) ∈ fns) :
    (t.withHead f.name.lexeme f.type.base.ty frame.entry f.params.toList).Linked fns :=
  Holds.withHead h (fun _ _ => rfl) fun _ => .inr ⟨f, frame, hf, rfl⟩

/-- A function that a table knows is in the file. -/
theorem mem_globals (h : t.Linked fns) {scope : Scope} {s : Symbol} (hscope : scope ∈ t.scopes)
    (hs : s ∈ scope.symbols) (hfn : s.isFunction) : s ∈ t.globals.symbols := by
  rw [scopes_eq_innerScopes, List.mem_append, List.mem_singleton] at hscope
  rcases hscope with hinner | rfl
  · rw [h.inner scope hinner s hs] at hfn
    cases hfn
  · exact hs

/-- What is called is the built-in function or a function of the program. -/
theorem callee (h : t.Linked fns) {x : String} {target callee : Symbol}
    {values : List StackValue} {args : List Symbol} (hfind : t.find? x = some target)
    (hcalls : Calls t target values callee args) (hname : callee.name ≠ outputName) :
    ∃ f frame, (f, frame) ∈ fns ∧
      callee = headSymbol f.name.lexeme f.type.base.ty frame.entry f.params.toList := by
  have hmem : callee ∈ t.globals.symbols ∧ callee.isFunction := by
    have hfound := hcalls.found
    rw [Gen.calleeOf] at hfound
    cases hat : t.functionAt? target.value with
    | none =>
      rw [hat] at hfound
      obtain rfl : target = callee := hfound
      obtain ⟨scope, hscope, hmem, -⟩ := mem_of_find? hfind
      exact ⟨h.mem_globals hscope hmem hcalls.callable.2, hcalls.callable.2⟩
    | some s =>
      rw [hat] at hfound
      obtain rfl : s = callee := hfound
      obtain ⟨scope, hscope, hs⟩ := List.exists_of_findSome?_eq_some hat
      have hfn := List.find?_some hs
      simp only [Bool.and_eq_true] at hfn
      exact ⟨h.mem_globals hscope (List.mem_of_find?_eq_some hs) hfn.1, hfn.1⟩
  rcases h.file callee hmem.1 hmem.2 with rfl | hlinked
  · exact absurd rfl hname
  · exact hlinked

end SymbolTable.Linked

/-! ### Functions in a row -/

/-- The functions among some declarations. -/
def Decl.functions (ds : List Decl) : List FnDecl :=
  ds.filterMap fun
    | .fn f => some f
    | .var _ => none

/-- Code is tiled by pieces that stand at the entries of frames, each as `P` says. -/
inductive Tiled (P : FnDecl → Frame → List Instruction → Prop) :
    Nat → List Instruction → List (FnDecl × Frame) → Prop
  | nil {pc} : Tiled P pc [] []
  | cons {pc f frame is js fns} : frame.entry = pc → P f frame is →
      Tiled P (pc + is.length) js fns → Tiled P pc (is ++ js) ((f, frame) :: fns)

/-- The code of each function, from its entry to the entry of the next function, that of the last
    function to a given end. -/
def codeRanges (stop : Nat) : List Frame → List (Frame × Nat)
  | [] => []
  | [frame] => [(frame, stop)]
  | frame :: next :: frames => (frame, next.entry) :: codeRanges stop (next :: frames)

namespace Tiled

variable {P : FnDecl → Frame → List Instruction → Prop} {pc : Nat} {code is : List Instruction}

/-- The code of each function is a tile. -/
theorem of_mem_codeRanges (h : Tiled P pc is fns) (hcode : CodeAt code pc is) :
    ∀ x ∈ codeRanges (pc + is.length) (fns.map (·.2)), ∃ f piece, (f, x.1) ∈ fns ∧
      P f x.1 piece ∧ CodeAt code x.1.entry piece ∧ x.2 = x.1.entry + piece.length := by
  induction h with
  | nil => exact nofun
  | cons hentry hP hrest ih =>
    rename_i pc f frame is js fns
    subst hentry
    have hfirst : ∃ g piece, (g, frame) ∈ (f, frame) :: fns ∧ P g frame piece ∧
        CodeAt code frame.entry piece ∧ frame.entry + is.length = frame.entry + piece.length :=
      ⟨f, is, List.mem_cons_self .., hP, hcode.left, rfl⟩
    intro x hx
    cases hrest with
    | nil =>
      obtain rfl := List.mem_singleton.mp hx
      rw [List.append_nil]
      exact hfirst
    | cons hnext hQ hmore =>
      rename_i g next ks ls gs
      rcases List.mem_cons.mp hx with rfl | hx
      · rw [hnext]
        exact hfirst
      · rw [List.length_append, ← Nat.add_assoc] at hx
        obtain ⟨g', piece, hmem, hpiece⟩ := ih hcode.right x hx
        exact ⟨g', piece, List.mem_cons_of_mem _ hmem, hpiece⟩

/-- Every instruction stands in a tile. -/
theorem exists_piece (h : Tiled P pc is fns) (hcode : CodeAt code pc is) {i : Instruction}
    (hi : i ∈ is) : ∃ f frame piece, (f, frame) ∈ fns ∧ P f frame piece ∧
      CodeAt code frame.entry piece ∧ i ∈ piece := by
  induction h with
  | nil => cases hi
  | cons hentry hP hrest ih =>
    rename_i pc f frame is js fns
    rcases List.mem_append.mp hi with hi | hi
    · exact ⟨f, frame, is, List.mem_cons_self .., hP, hentry ▸ hcode.left, hi⟩
    · obtain ⟨g, next, piece, hmem, hpiece⟩ := ih hcode.right hi
      exact ⟨g, next, piece, List.mem_cons_of_mem _ hmem, hpiece⟩

/-- Every function has a tile, which is its code. -/
theorem of_mem (h : Tiled P pc is fns) (hcode : CodeAt code pc is) {f : FnDecl} {frame : Frame}
    (hf : (f, frame) ∈ fns) : ∃ piece, P f frame piece ∧ CodeAt code frame.entry piece ∧
      (frame, frame.entry + piece.length) ∈ codeRanges (pc + is.length) (fns.map (·.2)) := by
  induction h with
  | nil => cases hf
  | cons hentry hP hrest ih =>
    rename_i pc g next is js fns
    subst hentry
    rcases List.mem_cons.mp hf with heq | hf
    · cases heq
      refine ⟨is, hP, hcode.left, ?_⟩
      cases hrest with
      | nil =>
        rw [List.append_nil]
        exact List.mem_singleton_self _
      | cons hnext =>
        rw [← hnext]
        exact List.mem_cons_self ..
    · obtain ⟨piece, hpiece, hat, hrange⟩ := ih hcode.right hf
      refine ⟨piece, hpiece, hat, ?_⟩
      cases hrest with
      | nil => cases hf
      | cons hnext =>
        rw [List.length_append, ← Nat.add_assoc]
        exact List.mem_cons_of_mem _ hrange

theorem names (h : Tiled P pc is fns)
    (hP : ∀ {f frame piece}, P f frame piece → frame.name = f.name.lexeme) :
    (fns.map (·.2)).map (·.name) = (fns.map (·.1)).map (·.name.lexeme) := by
  induction h with
  | nil => rfl
  | cons _ hpiece _ ih =>
    simp only [List.map_cons, List.cons.injEq]
    exact ⟨hP hpiece, ih⟩

/-- The first tile stands where the code does. -/
theorem head_entry (h : Tiled P pc is fns) (hne : fns ≠ []) :
    (fns.map (·.2)).head?.map (·.entry) = some pc := by
  cases h with
  | nil => exact absurd rfl hne
  | cons hentry hP hrest => exact congrArg some hentry

/-- Tiles that are not empty stand one behind the other. -/
theorem pairwise_entries (h : Tiled P pc is fns)
    (hP : ∀ f frame piece, P f frame piece → piece ≠ []) :
    ((fns.map (·.2)).map (·.entry) ++ [pc + is.length]).Pairwise (· < ·) ∧
      ∀ entry ∈ (fns.map (·.2)).map (·.entry) ++ [pc + is.length], pc ≤ entry := by
  induction h with
  | nil => simp
  | cons hentry hpiece hrest ih =>
    rename_i pc f frame is js fns
    have hlength : 0 < is.length := List.length_pos_iff.mpr (hP f frame is hpiece)
    rw [Nat.add_assoc, ← List.length_append] at ih
    obtain ⟨hordered, hbound⟩ := ih
    refine ⟨List.pairwise_cons.mpr ⟨fun entry hmem => ?_, hordered⟩, fun entry hmem => ?_⟩
    · have := hbound entry hmem
      change frame.entry < entry
      omega
    · rcases List.mem_cons.mp hmem with rfl | hmem
      · exact Nat.le_of_eq hentry.symm
      · have := hbound entry hmem
        omega

end Tiled

/-- The frame of a function is that of its declaration. -/
theorem FnDecl.Translates.frame_eq {l : Layout} {f : FnDecl} {pc : Nat} {t t' : SymbolTable}
    {is : List Instruction} {frame : Frame} (h : f.Translates l pc t is t' frame) :
    frame.entry = pc ∧ frame.name = f.name.lexeme ∧
      frame.params = f.params.toList.map Param.ty := by
  cases h with
  | intro hf hfresh hparams hbody hfn =>
    rw [SymbolTable.withEntry_eq_withHead hfresh] at hparams
    obtain ⟨rfl, -, -⟩ := Chain.withHead hfresh _ hparams List.nodup_nil
    obtain ⟨size, -, hfn'⟩ := hbody.extends.function _ rfl
    obtain rfl := Option.some.inj (hfn.symm.trans hfn')
    exact ⟨rfl, rfl, rfl⟩

/-- A function leaves the table that its head and its body leave. -/
theorem FnDecl.Translates.extends_withHead {l : Layout} {f : FnDecl} {pc : Nat}
    {t t' : SymbolTable} {is : List Instruction} {frame : Frame}
    (h : f.Translates l pc t is t' frame) :
    ∃ t₂, (t.withHead f.name.lexeme f.type.base.ty frame.entry f.params.toList).Extends t₂ ∧
      t' = { t₂ with function := none } := by
  obtain ⟨hentry, -, -⟩ := h.frame_eq
  cases h with
  | intro hnone hfresh hparams hbody hfn =>
    rw [SymbolTable.withEntry_eq_withHead hfresh] at hparams
    obtain ⟨rfl, -, -⟩ := Chain.withHead hfresh _ hparams List.nodup_nil
    rw [List.nil_append, ← hentry] at hbody
    exact ⟨_, hbody.extends, rfl⟩

theorem FnDecl.Translates.linked {l : Layout} {f : FnDecl} {pc : Nat} {t t' : SymbolTable}
    {is : List Instruction} {frame : Frame} (h : f.Translates l pc t is t' frame)
    (hmem : (f, frame) ∈ fns) (ht : t.Linked fns) : t'.Linked fns := by
  obtain ⟨t₂, hext, rfl⟩ := h.extends_withHead
  exact ((ht.withHead hmem).of_extends hext).close

/-- What holds of the code of each function holds of the tiles, and what declarations keep holds in
    the end; `I` may depend on the declarations still to come. -/
theorem Decl.ListTranslates.tiled {l : Layout} {P : FnDecl → Frame → List Instruction → Prop}
    {I : List Decl → SymbolTable → Prop} {pc : Nat} {t t' : SymbolTable} {ds : List Decl}
    {is : List Instruction} {frames : List Frame}
    (h : Decl.ListTranslates l pc t ds is t' frames)
    (hfns : ∀ x ∈ (Decl.functions ds).zip frames, x ∈ fns) (hI : I ds t)
    (hvar : ∀ {d ds t t'}, d.Declares t t' → I (.var d :: ds) t → I ds t')
    (hfn : ∀ {f ds pc t is t' frame}, f.Translates l pc t is t' frame → (f, frame) ∈ fns →
      I (.fn f :: ds) t → P f frame is ∧ I ds t') :
    Tiled P pc is ((Decl.functions ds).zip frames) ∧
      (Decl.functions ds).length = frames.length ∧ I [] t' := by
  induction h with
  | nil => exact ⟨.nil, rfl, hI⟩
  | var hd hds ih => exact ih hfns (hvar hd hI)
  | fn hf hds ih =>
    rename_i pc t f ds is t₁ frame js t₂ frames
    obtain ⟨hpiece, hI₁⟩ := hfn hf (hfns _ (List.mem_cons_self ..)) hI
    obtain ⟨htiled, hlength, hI₂⟩ := ih (fun x hx => hfns x (List.mem_cons_of_mem _ hx)) hI₁
    exact ⟨.cons hf.frame_eq.1 hpiece htiled, congrArg (· + 1) hlength, hI₂⟩

end OnePass
