import OnePass.Command
import OnePass.Proofs.Command.Files

/-!
# What a run of the command line writes

The words of a command line fall into items, one or two words each, that set an option each; a later
item takes the place of an earlier one. A run writes nothing unless the words are such items, the
layout and the source can be read, and the source compiles. Then it writes the listing, and after
it the diagnostics, and no other file. -/

namespace OnePass.Command

/-! ### What a command line asks for -/

/-- One thing that a command line says. -/
inductive Item where
  | output (file : String)
  | errors (file : String)
  | layout (file : String)
  | verbose
  | input (file : String)

/-- The words that say it. What follows an option is a file name, whatever it looks like. -/
def Item.Spelt : Item → List String → Prop
  | .output file, words => words = ["-o", file] ∨ words = ["--output", file]
  | .errors file, words => words = ["-e", file] ∨ words = ["--errors", file]
  | .layout file, words => words = ["--config", file]
  | .verbose, words => words = ["-v"] ∨ words = ["--verbose"]
  | .input file, words => words = [file] ∧ file.startsWith "-" = false

/-- The source file that an item names. -/
def Item.input? : Item → Option String
  | .input file => some file
  | _ => none

/-- The options with an item in place of what was said before. -/
def Options.set (options : Options) : Item → Options
  | .output file => { options with output := file }
  | .errors file => { options with errors := file }
  | .layout file => { options with layout := some file }
  | .verbose => { options with verbose := true }
  | .input file => { options with input := file }

/-- Words that say some items, one after the other. -/
inductive Says : List Item → List String → Prop
  | nil : Says [] []
  | cons {item : Item} {items : List Item} {words more : List String} :
      item.Spelt words → Says items more → Says (item :: items) (words ++ more)

/-- At most one source file is named, and that one last: a name of no letters does not count. -/
def OneInput (files : List String) : Prop := ∀ file ∈ files.dropLast, file = ""

/-- A command line asks for a compilation with these options. -/
def Asks (args : List String) (options : Options) : Prop :=
  ∃ items, Says items args ∧ OneInput (items.filterMap Item.input?) ∧
    options = items.foldl Options.set {} ∧ options.input ≠ ""

/-- A command line asks how the program is called, before anything is wrong with it. -/
def AsksHelp (args : List String) : Prop :=
  ∃ items words word rest, args = words ++ word :: rest ∧ (word = "-h" ∨ word = "--help") ∧
    Says items words ∧ OneInput (items.filterMap Item.input?)

theorem oneInput_cons_empty {files : List String} : OneInput ("" :: files) ↔ OneInput files := by
  cases files <;> simp [OneInput]

theorem oneInput_cons_cons {file next : String} {files : List String} :
    OneInput (file :: next :: files) ↔ file = "" ∧ OneInput (next :: files) := by
  simp [OneInput]

/-- An item is read, unless it names a source file after another. -/
theorem readArguments_item {options : Options} {item : Item} {words : List String}
    (hspelt : item.Spelt words) (hinput : item.input?.isSome → options.input = "")
    (rest : List String) :
    readArguments options (words ++ rest) = readArguments (options.set item) rest := by
  cases item with
  | output file | errors file | verbose =>
    rcases hspelt with rfl | rfl <;> exact readArguments.eq_def ..
  | layout file =>
    obtain rfl := hspelt
    exact readArguments.eq_def ..
  | input file =>
    obtain ⟨rfl, hfile⟩ := hspelt
    rw [List.singleton_append, readArguments.eq_def]
    split <;> simp_all [Item.input?, Options.set]

/-- Items are read one after the other. -/
theorem Says.readArguments {items : List Item} {words : List String} (h : Says items words)
    (options : Options) (hone : OneInput (options.input :: items.filterMap Item.input?))
    (rest : List String) :
    readArguments options (words ++ rest) =
      readArguments (items.foldl Options.set options) rest := by
  induction h generalizing options with
  | nil => rfl
  | @cons item items words more hspelt _ ih =>
    rw [List.append_assoc, List.foldl_cons]
    cases item with
    | input file =>
      obtain ⟨hinput, hone⟩ := oneInput_cons_cons.mp hone
      rw [readArguments_item hspelt fun _ => hinput]
      exact ih _ hone
    | _ =>
      rw [readArguments_item hspelt fun h => nomatch h]
      exact ih _ hone

/-- The words are items up to their end, up to a word for help, or up to a mistake. -/
def Splits (options : Options) (args : List String) : Prop :=
  ∃ items words rest, args = words ++ rest ∧ Says items words ∧
    OneInput (options.input :: items.filterMap Item.input?) ∧
    (rest = [] ∨ (∃ word more, rest = word :: more ∧ (word = "-h" ∨ word = "--help")) ∨
      ∃ halt, halt ≠ .help ∧ readArguments options args = .error halt)

theorem Splits.of_error {options : Options} {args : List String} (halt : Halt) (hne : halt ≠ .help)
    (h : readArguments options args = .error halt) : Splits options args :=
  ⟨[], [], args, rfl, .nil, by simp [OneInput], .inr (.inr ⟨halt, hne, h⟩)⟩

theorem Splits.help {word : String} (options : Options) (rest : List String)
    (h : word = "-h" ∨ word = "--help") : Splits options (word :: rest) :=
  ⟨[], [], word :: rest, rfl, .nil, by simp [OneInput], .inr (.inl ⟨word, rest, rfl, h⟩)⟩

/-- An item in front of the rest. -/
theorem Splits.item {options : Options} {args : List String} (item : Item) (words : List String)
    (h : Splits (options.set item) args) (hspelt : item.Spelt words)
    (hinput : item.input?.isSome → options.input = "") : Splits options (words ++ args) := by
  obtain ⟨items, more, rest, rfl, hline, hone, hend⟩ := h
  refine ⟨item :: items, words ++ more, rest, (List.append_assoc ..).symm, .cons hspelt hline, ?_,
    ?_⟩
  · cases item with
    | input file => exact oneInput_cons_cons.mpr ⟨hinput rfl, hone⟩
    | _ => exact hone
  · rw [readArguments_item hspelt hinput]
    exact hend

theorem splits (options : Options) (args : List String) : Splits options args := by
  fun_induction readArguments options args with
  | case1 | case2 => exact ⟨[], [], [], rfl, .nil, by simp [OneInput], .inl rfl⟩
  | case3 options file rest ih => exact ih.item (.output file) ["-o", file] (.inl rfl) nofun
  | case5 options file rest ih => exact ih.item (.output file) ["--output", file] (.inr rfl) nofun
  | case7 options file rest ih => exact ih.item (.errors file) ["-e", file] (.inl rfl) nofun
  | case9 options file rest ih => exact ih.item (.errors file) ["--errors", file] (.inr rfl) nofun
  | case11 options file rest ih => exact ih.item (.layout file) ["--config", file] rfl nofun
  | case13 options rest ih => exact ih.item .verbose ["-v"] (.inl rfl) nofun
  | case14 options rest ih => exact ih.item .verbose ["--verbose"] (.inr rfl) nofun
  | case4 | case6 => exact .of_error (.missingFilename "-o") nofun (readArguments.eq_def ..)
  | case8 | case10 => exact .of_error (.missingFilename "-e") nofun (readArguments.eq_def ..)
  | case12 => exact .of_error (.missingFilename "--config") nofun (readArguments.eq_def ..)
  | case15 options rest => exact .help options rest (.inl rfl)
  | case16 options rest => exact .help options rest (.inr rfl)
  | case17 options arg rest _ _ _ _ _ _ _ _ _ harg =>
    refine .of_error (.unknownOption arg) nofun ?_
    rw [readArguments.eq_def]
    split <;> simp_all
  | case18 options arg rest _ _ _ _ _ _ _ _ _ harg hinput ih =>
    exact ih.item (.input arg) [arg] ⟨rfl, by simpa using harg⟩ fun _ => by simpa using hinput
  | case19 options arg rest _ _ _ _ _ _ _ _ _ harg hinput =>
    refine .of_error .severalInputs nofun ?_
    rw [readArguments.eq_def]
    split <;> simp_all

/-- The options that are read are those that are asked for. -/
theorem readArguments_eq_ok_iff {args : List String} {options : Options} :
    readArguments {} args = .ok options ↔ Asks args options := by
  constructor
  · intro h
    obtain ⟨items, words, rest, rfl, hline, hone, hend⟩ := splits {} args
    rcases hend with rfl | ⟨word, more, rfl, hword⟩ | ⟨halt, -, herror⟩
    · rw [hline.readArguments {} hone, readArguments] at h
      split at h
      · cases h
      · rename_i hinput
        cases h
        exact ⟨items, by simpa using hline, oneInput_cons_empty.mp hone, rfl, by simpa using hinput⟩
    · rw [hline.readArguments {} hone] at h
      rcases hword with rfl | rfl <;> cases h
    · rw [herror] at h
      cases h
  · rintro ⟨items, hline, hone, rfl, hinput⟩
    have hread := hline.readArguments {} (oneInput_cons_empty.mpr hone) []
    rw [List.append_nil] at hread
    rw [hread, readArguments, if_neg (by simpa using hinput)]

/-- Help is given where it is asked for. -/
theorem readArguments_eq_help_iff {args : List String} :
    readArguments {} args = .error .help ↔ AsksHelp args := by
  constructor
  · intro h
    obtain ⟨items, words, rest, rfl, hline, hone, hend⟩ := splits {} args
    rcases hend with rfl | ⟨word, more, rfl, hword⟩ | ⟨halt, hne, herror⟩
    · rw [hline.readArguments {} hone, readArguments] at h
      split at h <;> cases h
    · exact ⟨items, words, word, more, rfl, hword, hline, oneInput_cons_empty.mp hone⟩
    · rw [herror] at h
      cases h
      exact absurd rfl hne
  · rintro ⟨items, words, word, rest, rfl, hword, hline, hone⟩
    rw [hline.readArguments {} (oneInput_cons_empty.mpr hone)]
    rcases hword with rfl | rfl <;> exact readArguments.eq_def ..

/-! ### What a run does -/

/-- The layout that a compilation is for: the usual one, or that of a file. -/
def Loads (d : Directory) : Option String → Layout → Prop
  | none, layout => layout = {}
  | some name, layout => ∃ text, d.readText name = .ok text ∧ Layout.load text = .ok layout

/-- The files of a directory hold a source that compiles as some options say. -/
def Compiles (d : Directory) (options : Options) (output : Output) : Prop :=
  ∃ layout source, Loads d options.layout layout ∧ d.readText options.input = .ok source ∧
    compile layout source = .ok output

section
variable (options : Options) (output : Output) (d : Directory)

/-- A computation goes on with what came before it. -/
theorem run_bind_eq {α β : Type} {x : StateM Directory α} {f : α → StateM Directory β}
    {d d' : Directory} {a : α} (h : x.run d = (a, d')) : (x >>= f).run d = (f a).run d' := by
  rw [StateT.run_bind, h]
  rfl

/-- Reading changes nothing. -/
theorem run_readText (name : String) :
    (FileAccess.readText name : StateM Directory (Except FileError String)).run d =
      (d.readText name, d) := rfl

/-- Writing puts a file where its name leads to. -/
theorem run_writeText_of_ok {d : Directory} {name : String} {p : Path} (h : d.target name = .ok p)
    (text : String) :
    (FileAccess.writeText name text : StateM Directory (Except FileError Unit)).run d =
      (.ok (), d.put p text.toUTF8) := by
  have hwrite : d.writeText name text = .ok (d.put p text.toUTF8) := by
    rw [Directory.writeText, h]
    rfl
  simp only [FileAccess.writeText, StateT.run_bind, StateT.run_get, pure_bind, hwrite]
  rfl

/-- Writing changes nothing where the name leads nowhere. -/
theorem run_writeText_of_error {d : Directory} {name : String} {e : FileError}
    (h : d.target name = .error e) (text : String) :
    (FileAccess.writeText name text : StateM Directory (Except FileError Unit)).run d =
      (.error e, d) := by
  have hwrite : d.writeText name text = .error e := by
    rw [Directory.writeText, h]
    rfl
  simp only [FileAccess.writeText, StateT.run_bind, StateT.run_get, pure_bind, hwrite]
  rfl

/-- A layout is loaded or refused, and nothing is written for it. -/
theorem exists_run_loadLayout (name : Option String) :
    ∃ r, (loadLayout name : StateM Directory (Except String Layout)).run d = (r, d) ∧
      ∀ layout, r = .ok layout ↔ Loads d name layout := by
  cases name with
  | none => exact ⟨.ok {}, rfl, fun layout => by simp [Loads, eq_comm]⟩
  | some name =>
    refine ⟨_, rfl, fun layout => ?_⟩
    rw [Loads]
    cases htext : d.readText name with
    | error e => simp [Except.mapError]
    | ok text =>
      cases hload : Layout.load text with
      | error e => simp [hload, Except.mapError]
      | ok found => simp [hload, Except.mapError]

section
variable {options : Options} {output : Output} {d : Directory} {p q : Path} {e : FileError}

/-- Nothing is written where the listing cannot be. -/
theorem run_writeOutput_of_error (hp : d.target options.output = .error e) :
    (writeOutput options output : StateM Directory (Option String)).run d =
      (some s!"Error writing '{options.output}': {e.message}", d) := by
  rw [writeOutput, run_bind_eq (run_writeText_of_error hp _)]
  rfl

/-- The listing alone is written where the diagnostics cannot be. -/
theorem run_writeOutput_of_half (hp : d.target options.output = .ok p)
    (hq : (d.put p output.listing.toUTF8).target options.errors = .error e) :
    (writeOutput options output : StateM Directory (Option String)).run d =
      (some s!"Error writing '{options.errors}': {e.message}",
        d.put p output.listing.toUTF8) := by
  rw [writeOutput, run_bind_eq (run_writeText_of_ok hp _)]
  refine (run_bind_eq (run_writeText_of_error hq _)).trans ?_
  rfl

theorem run_writeOutput_of_ok (hp : d.target options.output = .ok p)
    (hq : (d.put p output.listing.toUTF8).target options.errors = .ok q) :
    (writeOutput options output : StateM Directory (Option String)).run d =
      (none, (d.put p output.listing.toUTF8).put q output.diagnosticsText.toUTF8) := by
  rw [writeOutput, run_bind_eq (run_writeText_of_ok hp _)]
  refine (run_bind_eq (run_writeText_of_ok hq _)).trans ?_
  rfl

/-- Where the source compiles, a run ends with the writing of the results. -/
theorem run_compileFile_of_compiles (h : Compiles d options output) {message : Option String}
    {d' : Directory}
    (hwrite : (writeOutput options output : StateM Directory (Option String)).run d =
      (message, d')) :
    ∃ exit, (compileFile options : StateM Directory Exit).run d = (exit, d') ∧
      exit.code = if message.isSome then 1 else if output.diagnostics = [] then 0 else 2 := by
  obtain ⟨layout, source, hlayout, hsource, hcompile⟩ := h
  obtain ⟨r, hload, hr⟩ := exists_run_loadLayout d options.layout
  obtain rfl := (hr layout).mpr hlayout
  rw [compileFile, run_bind_eq hload]
  simp only [run_bind_eq (run_readText d options.input), hsource, hcompile, run_bind_eq hwrite]
  cases message with
  | some message => exact ⟨_, rfl, rfl⟩
  | none =>
    refine ⟨_, rfl, ?_⟩
    simp [Output.correct]

/-- Where the source does not compile, nothing is written. -/
theorem run_compileFile_of_not_compiles (h : ∀ output, ¬ Compiles d options output) :
    ∃ exit, (compileFile options : StateM Directory Exit).run d = (exit, d) ∧ exit.code = 1 := by
  obtain ⟨r, hload, hr⟩ := exists_run_loadLayout d options.layout
  rw [compileFile, run_bind_eq hload]
  cases r with
  | error message => exact ⟨_, rfl, rfl⟩
  | ok layout =>
    have hlayout := (hr layout).mp rfl
    simp only [run_bind_eq (run_readText d options.input)]
    cases hsource : d.readText options.input with
    | error e => exact ⟨fail _ _, rfl, rfl⟩
    | ok source =>
      dsimp only
      cases hcompile : compile layout source with
      | error failure => exact ⟨fail _ _, rfl, rfl⟩
      | ok output => exact absurd ⟨layout, source, hlayout, hsource, hcompile⟩ (h output)

end

end

/-- What is not given is refused. -/
theorem exists_eq_error {α : Type} {x : Except FileError α} (h : ∀ a, x ≠ .ok a) :
    ∃ e, x = .error e := by
  cases x with
  | error e => exact ⟨e, rfl⟩
  | ok a => exact absurd rfl (h a)

/-- What a run in a directory prints, and the directory after it. -/
def runIn (program : String) (args : List String) (d : Directory) : Exit × Directory :=
  (run program args : StateM Directory Exit).run d

/-- A command line that can be read is compiled as it asks. -/
theorem runIn_of_asks {args : List String} {options : Options} (h : Asks args options)
    (program : String) (d : Directory) :
    runIn program args d = (compileFile options : StateM Directory Exit).run d := by
  have hread := readArguments_eq_ok_iff.mpr h
  cases args with
  | nil => cases hread
  | cons => simp only [runIn, run, List.isEmpty_cons, hread, Bool.false_eq_true, if_false]

/-- A command line that cannot be read has nothing written. -/
theorem exists_runIn_of_error {args : List String} {halt : Halt}
    (h : readArguments {} args = .error halt) (program : String) (d : Directory) :
    ∃ exit, runIn program args d = (exit, d) ∧ (exit.code = if halt = .help then 0 else 1) := by
  cases args with
  | nil =>
    cases h
    exact ⟨_, rfl, rfl⟩
  | cons =>
    refine ⟨halt.exit program, ?_, by cases halt <;> rfl⟩
    simp only [runIn, run, List.isEmpty_cons, h, Bool.false_eq_true, if_false]
    rfl

end OnePass.Command
