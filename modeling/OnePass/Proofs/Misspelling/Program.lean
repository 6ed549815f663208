import OnePass.Proofs.Misspelling.Statement
import OnePass.Proofs.Translate.Accepted
import OnePass.Proofs.Translate.Linked

/-!
# Misspelt programs are reported name by name

Declaration by declaration a misspelt program keeps up with the right one: its table holds the same
file, and its functions begin no later. So it compiles to the end, and what it reports is that each
of its new names is not defined, in the order in which they stand in the text. -/

namespace OnePass

open Gen

/-! ### Heads of functions -/

section
variable {t t' t₁ : SymbolTable} {name : String} {ty : Ty} {entry : Nat}

theorem Param.Adds.withHead_other {p : Param} {ps : List Param}
    (h : p.Adds (t.withHead name ty entry ps) t₁) (hfresh : t'.globals.contains name = false)
    (entry' : Nat) :
    p.Adds (t'.withHead name ty entry' ps) (t'.withHead name ty entry' (ps ++ [p])) := by
  cases h with
  | intro hbase hf hblocks hroom hnew =>
    obtain rfl := Option.some.inj hf
    have hp : p.Adds (t'.withHead name ty entry' ps) _ :=
      .intro hbase rfl rfl (f := .head name entry' ps) hroom hnew
    rwa [SymbolTable.withParameter_withHead hfresh ty entry' ps p hnew] at hp

/-- Parameters get the places that they get in any other table. -/
theorem Chain.withHead_other (hfresh : t.globals.contains name = false)
    (hfresh' : t'.globals.contains name = false) (entry' : Nat) :
    ∀ (ps : List Param) {done : List Param},
      Chain Param.Adds ps (t.withHead name ty entry done) t₁ →
        Chain Param.Adds ps (t'.withHead name ty entry' done)
          (t'.withHead name ty entry' (done ++ ps))
  | [], done, _ => by
    rw [List.append_nil]
    exact .nil
  | p :: ps, done, h => by
    cases h with
    | cons hp hps =>
      obtain ⟨rfl, -, -⟩ := hp.withHead hfresh
      rw [List.append_cons]
      exact .cons (hp.withHead_other hfresh' entry')
        (Chain.withHead_other hfresh hfresh' entry' ps hps)

/-- The shape of a function does not tell where it is entered. -/
theorem SymbolTable.outline_withHead (t : SymbolTable) (name : String) (ty : Ty) (entry : Nat)
    (ps : List Param) : (t.withHead name ty entry ps).globals.outline =
      t.globals.outline ++ [(name, (headSymbol name ty 0 ps).shape)] := by
  rw [SymbolTable.withHead, Scope.outline, List.map_append]
  rfl

end

/-! ### Tables between declarations -/

/-- Two tables between declarations hold the same file, with functions entered at positions of
    their own. Those are words, wherever the code has come to since. -/
structure SymbolTable.Alongside (t t' : SymbolTable) (file : Bindings) (pc pc' : Nat) : Prop where
  left : t.Between file (min pc 2147483648)
  right : t'.Between file (min pc' 2147483648)
  outline : t'.globals.outline = t.globals.outline
  dataEnd : t'.dataEnd = t.dataEnd

namespace SymbolTable.Alongside

variable {t t' t₁ t₁' : SymbolTable} {file : Bindings} {pc pc' : Nat}

theorem initial (dataBase : Word) :
    (SymbolTable.initial dataBase).Alongside (.initial dataBase) Context.builtins 1 1 :=
  ⟨.initial dataBase, .initial dataBase, rfl, rfl⟩

theorem contains (h : t.Alongside t' file pc pc') {x : String}
    (hx : t.globals.contains x = false) : t'.globals.contains x = false :=
  (h.right.contains_eq_false_iff x).mpr ((h.left.contains_eq_false_iff x).mp hx)

theorem declares (h : t.Alongside t' file pc pc') {d : VarDecl} (hd : d.Declares t t₁) :
    ∃ t₁', d.Declares t' t₁' ∧ t₁.Alongside t₁' (file ++ [d.binding]) pc pc' := by
  have hleft := (hd.between h.left).2
  obtain ⟨htyped, hstores⟩ := VarDecl.declares_iff.mp hd
  cases hstores with
  | inner hf =>
    rw [h.left.function_eq_none] at hf
    cases hf
  | outer hf hfresh hroom =>
    have hf' := h.right.function_eq_none
    have hfresh' := h.contains hfresh
    have hroom' : t'.hasRoom d.words := by
      rw [SymbolTable.hasRoom_iff hf', h.dataEnd, ← SymbolTable.hasRoom_iff hf]
      exact hroom
    have hd' : d.Declares t' _ := VarDecl.declares_iff.mpr ⟨htyped, .outer hf' hfresh' hroom'⟩
    refine ⟨_, hd', hleft, (hd'.between h.right).2, ?_, ?_⟩
    · rw [SymbolTable.withGlobal, SymbolTable.withGlobal, Scope.outline_insert (by exact hfresh'),
        Scope.outline_insert (by exact hfresh), h.outline, h.dataEnd]
    · rw [SymbolTable.withGlobal, SymbolTable.withGlobal, h.dataEnd]

section
variable {name : String} (h : t.Alongside t' file pc pc') (hpc : pc < 2147483648)
  (hle : pc' ≤ pc) (hfresh : t.globals.contains name = false) (base : BaseType) (ps : List Param)
include h hpc hle hfresh

/-- After the head of a function both tables hold the function and its parameters. -/
theorem withHead :
    Mirrors
      ⟨file ++ [(name, .function base (ps.map (·.meaning.category)))], [ps.map Param.binding]⟩
      (t.withHead name base.ty pc ps) (t'.withHead name base.ty pc' ps) := by
  have hleft := h.left.mono (Nat.min_le_left ..)
  have hright := h.right.mono (Nat.min_le_left ..)
  refine ⟨hleft.models.withHead hfresh base (hleft.entry_ne hpc) ps,
    hright.models.withHead (h.contains hfresh) base
      (hright.entry_ne (Nat.lt_of_le_of_lt hle hpc)) ps, ?_, ⟨_, rfl, rfl⟩,
    Nat.le_add_right .., Nat.le_refl _⟩
  have houtline : ∀ (t : SymbolTable) (pc : Nat), (t.withHead name base.ty pc ps).outline =
      [(OpenFunction.head name 0 ps).outer.outline,
        (t.withHead name base.ty pc ps).globals.outline] := fun _ _ => rfl
  rw [houtline, houtline, outline_withHead, outline_withHead, h.outline]

theorem closeFunction (hext : (t.withHead name base.ty pc ps).Extends t₁)
    (hext' : (t'.withHead name base.ty pc' ps).Extends t₁') {n n' : Nat} (hn : 0 < n)
    (hn' : 0 < n') :
    Alongside { t₁ with function := none } { t₁' with function := none }
      (file ++ [(name, .function base (ps.map (·.meaning.category)))]) (pc + n) (pc' + n') := by
  have hpc' := Nat.lt_of_le_of_lt hle hpc
  have hleft := (h.left.mono (Nat.min_le_left ..)).closeFunction hpc hfresh base ps hext Nat.one_pos
  have hright := (h.right.mono (Nat.min_le_left ..)).closeFunction hpc' (h.contains hfresh) base ps
    hext' Nat.one_pos
  refine ⟨hleft.mono (by omega), hright.mono (by omega), ?_, ?_⟩
  · rw [hext.globals, hext'.globals, outline_withHead, outline_withHead, h.outline]
  · rw [hext.dataEnd, hext'.dataEnd]
    exact h.dataEnd

end

/-- Where one program begins, so does the other. -/
theorem exists_main (h : t.Alongside t' file pc pc') {main : Symbol}
    (hmain : (t.find? "main").filter isMain = some main) :
    ∃ main', (t'.find? "main").filter isMain = some main' := by
  obtain ⟨hs, hfilter⟩ := Option.filter_eq_some_iff.mp hmain
  have hfind := (h.right.models.find? "main").trans (h.left.models.find? "main").symm
  rw [hs, Option.map_some, (h.left.isMain_iff (Nat.min_le_right ..) hs).mp hfilter,
    Option.map_eq_some_iff] at hfind
  obtain ⟨s', hs', hmeaning⟩ := hfind
  exact ⟨s', Option.filter_eq_some_iff.mpr
    ⟨hs', (h.right.isMain_iff (Nat.min_le_right ..) hs').mpr hmeaning⟩⟩

end SymbolTable.Alongside

/-! ### States between declarations -/

/-- A state between declarations in which a misspelt program is read in place of another. -/
structure Generator.KeepsUp (g : Generator) (l : Layout) (file : Bindings) (pc : Nat)
    (t : SymbolTable) : Prop where
  layout : g.layout = l
  symbols : t.Alongside g.symbols file pc g.code.pc
  behind : g.code.pc ≤ pc
  body : g.body = none
  tidy : g.code.Tidy

/-- A state with the code and the frames of some declarations added. -/
def Generator.adding (g : Generator) (is : List Instruction) (t : SymbolTable)
    (frames : List Frame) : Generator :=
  { g with code := g.code.append is, symbols := t, frames := g.frames ++ frames.toArray }

theorem Generator.adding_adding (g : Generator) (xs ys : List Name) (is js : List Instruction)
    (t t' : SymbolTable) (frames frames' : List Frame) :
    ((((g.reports xs).adding is t frames).reports ys).adding js t' frames') =
      (g.reports (xs ++ ys)).adding (is ++ js) t' (frames ++ frames') := by
  simp [Generator.adding, Generator.reports]

/-- What the steps of some misspelt declarations leave beside what the right ones become: code that
    is not longer, and a table of the same file. -/
structure ToleratesDecls (steps : List Step) (g : Generator) (xs : List Name) (file : Bindings)
    (pc : Nat) (is : List Instruction) (t : SymbolTable) (is' : List Instruction)
    (t' : SymbolTable) (frames' : List Frame) : Prop where
  performed : Performed steps g ((g.reports xs).adding is' t' frames')
  length : is'.length ≤ is.length
  symbols : t.Alongside t' file (pc + is.length) (g.code.pc + is'.length)

section
variable {l : Layout} {unknown : String → Prop} {file : Bindings} {t t₁ : SymbolTable} {pc : Nat}
  {is : List Instruction} {g : Generator} {xs : List Name}

theorem Generator.KeepsUp.adding (hg : g.KeepsUp l file pc t) {steps : List Step}
    {file' : Bindings} {is' : List Instruction} {t₁' : SymbolTable} {frames' : List Frame}
    (hrec : ToleratesDecls steps g xs file' pc is t₁ is' t₁' frames') :
    ((g.reports xs).adding is' t₁' frames').KeepsUp l file' (pc + is.length) t₁ := by
  have hcode : ((g.reports xs).adding is' t₁' frames').code = g.code.append is' := rfl
  have hpc : (g.code.append is').pc = g.code.pc + is'.length := Store.pc_append ..
  refine ⟨hg.layout, ?_, ?_, hg.body, ?_⟩
  · rw [hcode, hpc]
    exact hrec.symbols
  · rw [hcode, hpc]
    exact Nat.add_le_add hg.behind hrec.length
  · rw [hcode, Store.append_eq_plan]
    exact hg.tidy.plan _

/-! ### Declarations -/

/-- A declaration of storage is read as it is. -/
theorem VarDecl.Declares.tolerates {d : VarDecl} (h : d.Declares t t₁)
    (hg : g.KeepsUp l file pc t) :
    ∃ t₁', ToleratesDecls d.steps g [] (file ++ [d.binding]) pc [] t₁ [] t₁' [] := by
  obtain ⟨t₁', hd', hsymbols⟩ := hg.symbols.declares h
  refine ⟨t₁', ?_, Nat.le_refl _, hsymbols⟩
  have hsame : (g.reports []).adding [] t₁' [] = g.withSymbols t₁' := by
    simp [Generator.adding, Generator.withSymbols]
  rw [hsame]
  exact hd'.performed rfl

theorem Fragment.length_function_pos (l : Layout) (entry size : Nat) (ps : List Planned) :
    0 < (Fragment.function l entry size ps).length := by
  simp only [Fragment.function, Fragment.prologue_eq, List.length_append, List.length_cons]
  omega

/-- The body of a function sees the file, the function itself and its parameters. -/
theorem FnDecl.avoids {f : FnDecl} (hnew : ∀ x ∈ (Decl.fn f).declared, ¬ unknown x)
    (hfile : ∀ b ∈ file, ¬ unknown b.1) :
    Context.Avoids ⟨file ++ [f.binding], [f.params.toList.map Param.binding]⟩ unknown := by
  obtain ⟨hname, hrest⟩ := List.forall_mem_cons.mp hnew
  refine Context.Avoids.enter (Γ := ⟨file ++ [f.binding], []⟩) ?_ fun b hb => ?_
  · intro bs hbs b hb
    obtain rfl := List.mem_singleton.mp hbs
    rcases List.mem_append.mp hb with hb | hb
    · exact hfile b hb
    · rw [List.mem_singleton.mp hb]
      exact hname
  · obtain ⟨p, hp, rfl⟩ := List.mem_map.mp hb
    exact hrest _ (List.mem_append_left _ (List.mem_map.mpr ⟨p, hp, rfl⟩))

/-- A misspelt function is tolerated. -/
theorem FnDecl.Translates.tolerates {f : FnDecl} {body : List Stmt} {frame : Frame}
    (hslots : 3 ≤ l.scratchSlots.toNat) (h : f.Translates l pc t is t₁ frame)
    (hbody : Stmt.ListMisspelt unknown f.body.body body xs)
    (hnew : ∀ x ∈ (Decl.fn f).declared, ¬ unknown x) (hfile : ∀ b ∈ file, ¬ unknown b.1)
    (hg : g.KeepsUp l file pc t) (hpc : pc < 2147483648) :
    ∃ is' t₁' frame', ToleratesDecls (f.withBody body).steps g xs (file ++ [f.binding]) pc is t₁
      is' t₁' [frame'] := by
  obtain rfl := hg.layout
  cases h with
  | intro hf hfresh hparams hstmt hfn =>
    have hfresh' := hg.symbols.contains hfresh
    rw [SymbolTable.withEntry_eq_withHead hfresh] at hparams
    have hparams' := Chain.withHead_other hfresh hfresh' g.code.pc _ hparams
    obtain ⟨rfl, -, -⟩ := Chain.withHead hfresh _ hparams List.nodup_nil
    rw [List.nil_append] at hstmt hparams'
    rw [← SymbolTable.withEntry_eq_withHead hfresh'] at hparams'
    have hhead := hg.symbols.withHead hpc hg.behind hfresh f.type.base f.params.toList
    obtain ⟨ps', t₂', hrec⟩ := hbody.withBody.tolerates hslots f.body.close hstmt
      (fun x hx => hnew x (List.mem_cons_of_mem _ (List.mem_append_right _ hx)))
      (FnDecl.avoids hnew hfile) (g := g.starting f.name.lexeme _)
      ⟨rfl, hhead, nofun, rfl, hg.tidy.plan _⟩
    have hleave := mt hrec.leave hstmt.leave_notMem
    obtain ⟨size, -, hfn'⟩ := hrec.extends.function _ rfl
    obtain ⟨hblocks, hopen⟩ := hparams'.closable hrec.extends hfn'
    have hbody' : Performed _ (g.starting f.name.lexeme _)
        (((g.reports xs).starting f.name.lexeme _).planned ps' t₂') := hrec.performed
    have hrun := performed_function (f := f.withBody body) hg.symbols.right.function_eq_none hg.body
      hfresh' hparams' hbody' hleave hfn' hblocks hopen hg.body hg.tidy hslots hslots
    rw [Array.push_eq_append] at hrun
    refine ⟨_, _, _, hrun, ?_, hg.symbols.closeFunction hpc hg.behind hfresh f.type.base
      f.params.toList hstmt.extends hrec.extends (Fragment.length_function_pos ..)
      (Fragment.length_function_pos ..)⟩
    have hlength := hrec.length
    simp only [Fragment.function, List.length_append, List.length_map, List.length_singleton,
      Generator.reports_layout]
    omega

/-- The declarations of a file are read one after another. -/
theorem ToleratesDecls.append {steps steps' : List Step} {ys : List Name} {file' : Bindings}
    {is' js js' : List Instruction} {t₁' t₂ t₂' : SymbolTable} {frames frames' : List Frame}
    (h : ToleratesDecls steps g xs file pc is t₁ is' t₁' frames)
    (h' : ToleratesDecls steps' ((g.reports xs).adding is' t₁' frames) ys file' (pc + is.length) js
      t₂ js' t₂' frames') :
    ToleratesDecls (steps ++ steps') g (xs ++ ys) file' pc (is ++ js) t₂ (is' ++ js') t₂'
      (frames ++ frames') := by
  have hpc : ((g.reports xs).adding is' t₁' frames).code.pc = g.code.pc + is'.length :=
    Store.pc_append ..
  refine ⟨?_, ?_, ?_⟩
  · rw [← Generator.adding_adding]
    exact .append h.performed h'.performed
  · rw [List.length_append, List.length_append]
    exact Nat.add_le_add h.length h'.length
  · rw [List.length_append, List.length_append, ← Nat.add_assoc, ← Nat.add_assoc, ← hpc]
    exact h'.symbols

theorem Decl.avoids_binding {d : Decl} (hnew : ∀ x ∈ d.declared, ¬ unknown x)
    (hfile : ∀ b ∈ file, ¬ unknown b.1) : ∀ b ∈ file ++ [d.binding], ¬ unknown b.1 := by
  have hmem : d.binding.1 ∈ d.declared := by
    cases d with
    | var d =>
      rw [Decl.binding, d.binding_eq]
      exact List.mem_singleton_self _
    | fn f => exact List.mem_cons_self ..
  refine List.forall_mem_append.mpr ⟨hfile, ?_⟩
  rw [List.forall_mem_singleton]
  exact hnew _ hmem

end

/-- Misspelt declarations are tolerated. -/
theorem Decl.ListMisspelt.tolerates {l : Layout} {unknown : String → Prop}
    (hslots : 3 ≤ l.scratchSlots.toNat) {ds ds' : List Decl} {xs : List Name}
    (h : Decl.ListMisspelt unknown ds ds' xs) :
    ∀ {file : Bindings} {pc : Nat} {t t₁ : SymbolTable} {is : List Instruction}
      {frames : List Frame} {g : Generator}, Decl.ListTranslates l pc t ds is t₁ frames →
      (∀ x ∈ ds.flatMap Decl.declared, ¬ unknown x) → (∀ b ∈ file, ¬ unknown b.1) →
      g.KeepsUp l file pc t → (∀ frame ∈ frames, frame.entry < 2147483648) →
        ∃ is' t₁' frames', ToleratesDecls (ds'.flatMap Decl.steps) g xs
          (file ++ ds.map Decl.binding) pc is t₁ is' t₁' frames' := by
  induction h with
  | nil =>
    intro file pc t t₁ is frames g htranslates hnew hfile hg hentries
    cases htranslates
    refine ⟨[], g.symbols, [], ?_, Nat.le_refl _, ?_⟩
    · have hsame : (g.reports []).adding [] g.symbols [] = g := by
        simp [Generator.adding]
      rw [hsame]
      exact .nil
    · rw [List.map_nil, List.append_nil]
      exact hg.symbols
  | var hds ih =>
    intro file pc t t₁ is frames g htranslates hnew hfile hg hentries
    cases htranslates with
    | var hd hrest =>
      obtain ⟨hnew, hnews⟩ := List.forall_mem_append.mp hnew
      obtain ⟨t', hfirst⟩ := hd.tolerates hg
      obtain ⟨is', t₁', frames', hrec⟩ := ih hrest hnews (Decl.avoids_binding hnew hfile)
        (hg.adding hfirst) hentries
      rw [List.map_cons, List.append_cons]
      exact ⟨is', t₁', frames', hfirst.append hrec⟩
  | fn hbody hds ih =>
    intro file pc t t₁ is frames g htranslates hnew hfile hg hentries
    cases htranslates with
    | fn hf hrest =>
      obtain ⟨hnew, hnews⟩ := List.forall_mem_append.mp hnew
      obtain ⟨hentry, hentries⟩ := List.forall_mem_cons.mp hentries
      rw [hf.frame_eq.1] at hentry
      obtain ⟨is', t', frame', hfirst⟩ := hf.tolerates hslots hbody hnew hfile hg hentry
      obtain ⟨js', t₁', frames', hrec⟩ := ih hrest hnews (Decl.avoids_binding hnew hfile)
        (hg.adding hfirst) hentries
      rw [List.map_cons, List.append_cons]
      exact ⟨is' ++ js', t₁', frame' :: frames', hfirst.append hrec⟩

/-! ### Programs -/

/-- A misspelt program is read to its end, and what is reported is that its new names are not
    defined. -/
theorem Program.Misspelt.performed {l : Layout} (hslots : 3 ≤ l.scratchSlots.toNat)
    {p p' : Program} {xs : List Name} {is : List Instruction} {t : SymbolTable}
    {frames : List Frame} (h : p.Misspelt p' xs) (htranslates : p.Translates l is t frames)
    (hentries : ∀ frame ∈ frames, frame.entry < 2147483648) (stop : Token) :
    ∃ g is', Performed (p'.steps stop) (Generator.initial l) g ∧
      g.diagnostics = (xs.map Name.notDefined).toArray ∧ g.code.instructions = .ok is' ∧
      g.stack = [] := by
  cases htranslates with
  | intro hdecls hmain =>
    have hbegun : (Generator.begun l).KeepsUp l Context.builtins 1 (.initial l.dataBase) :=
      ⟨rfl, .initial l.dataBase, Nat.le_refl _, rfl, Store.tidy_empty.plan _⟩
    have hknown : ∀ x ∈ p.decls.flatMap Decl.declared, ¬ p.Unknown x := fun x hx hun => hun.1 hx
    have hbuiltins : ∀ b ∈ Context.builtins, ¬ p.Unknown b.1 := by
      intro b hb hun
      obtain rfl := List.mem_singleton.mp hb
      exact hun.2 rfl
    obtain ⟨is', t', frames', hrec⟩ := Decl.ListMisspelt.tolerates hslots h hdecls hknown hbuiltins
      hbegun hentries
    obtain ⟨main', hmain'⟩ := hrec.symbols.exists_main hmain
    have hend : ((Generator.begun l).reports xs).adding is' t' frames' =
        { Generator.declared l is' t' frames' with
          diagnostics := (xs.map Name.notDefined).toArray } := by
      rw [← Generator.declared_eq]
      simp [Generator.adding, Generator.reports, Generator.begun, Generator.initial]
    exact ⟨_, _, performed_program hslots (hend ▸ hrec.performed)
      hrec.symbols.right.function_eq_none hmain' stop, rfl, Store.instructions_append _, rfl⟩

theorem Generator.exists_output {g : Generator} {is : List Instruction}
    (hcode : g.code.instructions = .ok is) (hstack : g.stack = []) : ∃ out, g.output = .ok out := by
  rw [Generator.output, hstack, hcode]
  cases g.diagnostics.isEmpty <;> exact ⟨_, rfl⟩

theorem Name.message_notDefined (xs : List Name) :
    (xs.map Name.notDefined).map (fun d => (d.line, d.cause.message)) =
      xs.map fun x => (x.line, s!"'{x.lexeme}' is not defined.") := by
  rw [List.map_map]
  rfl

/-- A source that compiles without diagnostics is the text of a tree. Let some names in the
    expressions of the tree be replaced, each by a name that the program declares nowhere and that
    is not built in. Then a text of the new tree compiles, and it has one diagnostic for each new
    name, in the order and on the lines in which they stand there: the name is not defined. The
    functions of the first source are entered at positions that fit in a word: a later position
    would wrap, and two functions could have the same entry. -/
theorem misspelt_names_alone_reported (layout : Layout) (source : String) (out : Output)
    (hcompile : compile layout source = .ok out) (hclean : out.diagnostics = [])
    (hentries : ∀ frame ∈ out.frames, frame.entry < 2147483648) :
    (∃ p : Program, p.IsTextOf source) ∧
    ∀ (p p' : Program) (xs : List Name) (source' : String), p.IsTextOf source →
      p.Misspelt p' xs → (scan source').errors = [] →
      p'.tokens = (scan source').tokens.takeWhile (·.kind != .stop) →
        ∃ out', compile layout source' = .ok out' ∧ out'.diagnostics = xs.map Name.notDefined ∧
          out'.diagnostics.map (fun d => (d.line, d.cause.message)) =
            xs.map (fun x => (x.line, s!"'{x.lexeme}' is not defined.")) ∧
          (xs.map Name.token).Sublist (scan source').tokens := by
  obtain ⟨hslots, -⟩ := translates_of_compile hcompile hclean
  refine ⟨exists_isTextOf_of_compile hcompile, ?_⟩
  intro p p' xs source' htext hmisspelt hscan htokens
  obtain ⟨is, t, frames, htranslates, rfl⟩ :=
    (compile_eq_ok_iff_translates hslots htext).mp ⟨hcompile, hclean⟩
  have htext' : p'.IsTextOf source' := ⟨hscan, hmisspelt.grammatical htext.grammatical, htokens⟩
  obtain ⟨g, is', hperformed, hreported, hcode, hstack⟩ := hmisspelt.performed hslots htranslates
    hentries (splitStop (scan source').tokens).2
  obtain ⟨n, trace, hrun⟩ := hperformed.run
  obtain ⟨out', hout⟩ := Generator.exists_output (g := g.taking n trace) hcode hstack
  have hdiagnostics : out'.diagnostics = xs.map Name.notDefined :=
    (Generator.output_diagnostics hout).trans (congrArg Array.toList hreported)
  refine ⟨out', (compile_eq_ok_iff_run htext').mpr ⟨_, hrun, hout⟩, hdiagnostics, ?_, ?_⟩
  · rw [hdiagnostics]
    exact Name.message_notDefined xs
  · refine hmisspelt.sublist.trans ?_
    rw [htokens]
    exact List.takeWhile_sublist _

/-- Every part of a sum, of an assignment and of two calls is misspelt somewhere: an array that is
    indexed, one that is passed on, an index, a target and a function. -/
theorem misspelt_names_alone_reported_calls :
    let source := "int a[3];\nint f(int x, int v[]) \x7b\n return x + v[x];\n\x7d\n" ++
      "void main(void) \x7b\n int i;\n i = 1;\n i = f(a[i], a);\n output(f(a[i], a));\n\x7d\n"
    let source' := "int a[3];\nint f(int x, int v[]) \x7b\n return p + q[r];\n\x7d\n" ++
      "void main(void) \x7b\n int i;\n i = 1;\n s = g(a[z], a);\n output(f(u[i], w));\n\x7d\n"
    ∃ out p p' xs, compile {} source = .ok out ∧ out.diagnostics = [] ∧
      (∀ frame ∈ out.frames, frame.entry < 2147483648) ∧ Program.IsTextOf p source ∧
      p.Misspelt p' xs ∧
      (scan source').errors = [] ∧
      p'.tokens = (scan source').tokens.takeWhile (·.kind != .stop) ∧
      ∃ out', compile {} source' = .ok out' ∧ out'.diagnostics =
        [⟨3, .notDefined "p"⟩, ⟨3, .notDefined "q"⟩, ⟨3, .notDefined "r"⟩,
          ⟨8, .notDefined "s"⟩, ⟨8, .notDefined "g"⟩, ⟨8, .notDefined "z"⟩,
          ⟨9, .notDefined "u"⟩, ⟨9, .notDefined "w"⟩] := by
  intro source source'
  let tree (x v y target callee i a b : String) : Program := ⟨[
    .var ⟨⟨.int, 1⟩, ⟨"a", 1⟩, .array 1 ⟨"3", 1⟩ 1 1⟩,
    .fn ⟨⟨.int, 2⟩, ⟨"f", 2⟩, 2, .list ⟨⟨.int, 2⟩, ⟨"x", 2⟩, none⟩
        [(2, ⟨⟨.int, 2⟩, ⟨"v", 2⟩, some (2, 2)⟩)], 2,
      ⟨2, [], [.returnValue 3 (.binary .add 3 (.name ⟨x, 3⟩)
        (.index ⟨v, 3⟩ 3 (.name ⟨y, 3⟩) 3)) 3], 4⟩⟩,
    .fn ⟨⟨.void, 5⟩, ⟨"main", 5⟩, 5, .void 5, 5,
      ⟨5, [⟨⟨.int, 6⟩, ⟨"i", 6⟩, .scalar 6⟩],
        [.expr (.assign (.name ⟨"i", 7⟩) 7 (.num ⟨"1", 7⟩)) 7,
          .expr (.assign (.name ⟨target, 8⟩) 8 (.call ⟨callee, 8⟩ 8
            (.more (.index ⟨"a", 8⟩ 8 (.name ⟨i, 8⟩) 8) 8 (.last (.name ⟨"a", 8⟩) 8)))) 8,
          .expr (.call ⟨"output", 9⟩ 9 (.last (.call ⟨"f", 9⟩ 9
            (.more (.index ⟨a, 9⟩ 9 (.name ⟨"i", 9⟩) 9) 9 (.last (.name ⟨b, 9⟩) 9))) 9)) 9],
        10⟩⟩]⟩
  let right := tree "x" "v" "x" "i" "f" "i" "a" "a"
  let wrong := tree "p" "q" "r" "s" "g" "z" "u" "w"
  have hgrammatical : right.Grammatical := by
    simp [right, tree, Program.Grammatical, Decl.Grammatical, Block.stmt, Stmt.Grammatical,
      Stmt.ListGrammatical, Expr.Grammatical, Args.Grammatical]
    decide
  obtain ⟨hscanned, htokens, out, hout, hclean, hentries⟩ :
      (scan source).errors = [] ∧
      right.tokens = (scan source).tokens.takeWhile (·.kind != .stop) ∧
      ∃ out, out ∈ compileWithin? 400 {} source ∧ out.diagnostics = [] ∧
        ∀ frame ∈ out.frames, frame.entry < 2147483648 := by
    -- the text has to be one literal: put together, it would be put together at every look at it
    have hsource : source = "int a[3];\nint f(int x, int v[]) \x7b\n return x + v[x];\n\x7d
void main(void) \x7b\n int i;\n i = 1;\n i = f(a[i], a);\n output(f(a[i], a));\n\x7d\n" := by
      decide +kernel
    rw [hsource]
    decide +kernel
  obtain ⟨hscanned', htokens'⟩ : (scan source').errors = [] ∧
      wrong.tokens = (scan source').tokens.takeWhile (·.kind != .stop) := by
    have hsource : source' = "int a[3];\nint f(int x, int v[]) \x7b\n return p + q[r];\n\x7d
void main(void) \x7b\n int i;\n i = 1;\n s = g(a[z], a);\n output(f(u[i], w));\n\x7d\n" := by
      decide +kernel
    rw [hsource]
    decide +kernel
  have htext : right.IsTextOf source := ⟨hscanned, hgrammatical, htokens⟩
  have hcompile := compile_of_within hout
  have hname : ∀ (x : String) {y : String} (line : Nat), right.Unknown y →
      Name.Misspelt right.Unknown ⟨x, line⟩ ⟨y, line⟩ [⟨y, line⟩] :=
    fun x _ line => .replace ⟨x, line⟩
  have hmisspelt : right.Misspelt wrong _ :=
    .var (.fn (.cons (.returnValue (.binary (.name (hname _ _ (by decide)))
      (.index (hname _ _ (by decide)) (.name (hname _ _ (by decide)))))) .nil)
    (.fn (.cons (.expr (.assign (.name (.keep _)) (.num _)))
      (.cons (.expr (.assign (.name (hname _ _ (by decide))) (.call (hname _ _ (by decide))
        (.more (.index (.keep _) (.name (hname _ _ (by decide)))) (.last (.name (.keep _)))))))
      (.cons (.expr (.call (.keep _) (.last (.call (.keep _)
        (.more (.index (hname _ _ (by decide)) (.name (.keep _)))
          (.last (.name (hname _ _ (by decide)))))))))
      .nil))) .nil))
  obtain ⟨out', hcompile', hdiagnostics, -⟩ :=
    (misspelt_names_alone_reported {} source out hcompile hclean hentries).2 right wrong _ source'
      htext hmisspelt hscanned' htokens'
  exact ⟨out, right, wrong, _, hcompile, hclean, hentries, htext, hmisspelt, hscanned', htokens',
    out', hcompile', hdiagnostics⟩

end OnePass
