import OnePass.Compile
import OnePass.Proofs.Grammar.Recover
import OnePass.Proofs.Safety.Goals
import OnePass.Proofs.Token.Scan

/-!
# Compiling never faults

Parsing a program from the initial state keeps to the rules of its goals, so every step is
performed, whatever mistakes the program has. What a compilation may end in are lexical errors, a
syntax error, or code; a parse succeeds for the texts of the trees that the grammar builds and for
no others, and then it performs the steps of the tree. -/

namespace OnePass

open Gen

/-! ### A text has no more tokens than characters -/

namespace Scanner

/-- The pieces of a scanner, with the one being read. -/
def count (s : Scanner) : Nat := s.pieces.size + if s.mode = .ground then 0 else 1

theorem count_flush (s : Scanner) : s.flush.count = s.count := by
  rw [flush]
  split
  · rfl
  · rename_i h
    simpa [count, close] using h

/-- A first character adds a piece at most. -/
theorem count_begin (s : Scanner) (c : Char) (h : s.mode = .ground) :
    (s.begin c).count ≤ s.count + 1 := by
  rw [begin]
  repeat' split
  all_goals simp [count, single, enter, h]

theorem count_flush_begin (s : Scanner) (c : Char) : (s.flush.begin c).count ≤ s.count + 1 := by
  rw [← count_flush s]
  exact count_begin s.flush c (mode_flush s)

/-- A character adds a piece at most. -/
theorem count_read (s : Scanner) (c : Char) : (s.read c).count ≤ s.count + 1 := by
  rw [read]
  split
  case h_1 h => exact count_begin s c h
  all_goals
    rename_i h
    repeat' split
    all_goals first
      | exact count_flush_begin s c
      | simp [count, extend, close, h]

theorem count_step (s : Scanner) (c : Char) : (s.step c).count ≤ s.count + 1 := by
  rw [step]
  split
  · exact count_read s c
  · exact count_read s c

theorem count_foldl (cs : List Char) (s : Scanner) :
    (cs.foldl step s).count ≤ s.count + cs.length := by
  induction cs generalizing s with
  | nil => exact Nat.le_refl _
  | cons c cs ih =>
    have hrest := ih (s.step c)
    have hstep := count_step s c
    rw [List.foldl_cons, List.length_cons]
    omega

theorem size_pieces_run (text : String) : (run text).pieces.size ≤ text.length := by
  have hall := count_foldl text.toList {}
  rw [← count_flush] at hall
  have hstart : ({} : Scanner).count = 0 := rfl
  have hpieces : (run text).pieces.size ≤ (run text).count := Nat.le_add_right ..
  rw [run] at hpieces ⊢
  rw [← String.length_toList]
  omega

end Scanner

theorem splitStop_fst (tokens : List Token) :
    (splitStop tokens).1 = tokens.takeWhile (·.kind != .stop) := by
  rw [splitStop]
  split <;> rfl

/-- The parser reads no more tokens than the text has characters. -/
theorem length_splitStop_scan (text : String) :
    (splitStop (scan text).tokens).1.length ≤ text.length := by
  have hstop : ∀ line, (Token.stopMark line).kind = .stop := fun _ => rfl
  rw [splitStop_fst, scan, List.takeWhile_append]
  have htokens : ((Scanner.run text).pieces.toList.filterMap Piece.token?).length ≤ text.length :=
    Nat.le_trans (List.length_filterMap_le ..) (Scanner.size_pieces_run text)
  split
  · simpa [hstop] using htokens
  · exact Nat.le_trans (List.takeWhile_sublist _).length_le htokens

/-! ### The initial state and the final one -/

theorem Layout.dataBase_lt {layout : Layout} (h : layout.flaw? = none) :
    layout.dataBase.toNat < declaredLimit := by
  simp only [Layout.flaw?, Option.map_eq_none_iff, List.find?_eq_none] at h
  have htest := h (declaredLimit ≤ layout.dataBase.toNat, .dataTooHigh layout.dataBase)
    (by simp [Layout.tests])
  simpa using htest

theorem Fits.initial {layout : Layout} (hlayout : layout.flaw? = none)
    (hslots : 3 ≤ layout.scratchSlots.toNat) {k : Nat} (hk : k ≤ maxWords) :
    Fits [] k (Generator.initial layout) where
  stacked := .nil
  place := ⟨rfl, rfl, rfl⟩
  waits := .refl _
  sound := .empty
  slots := hslots
  data := Nat.le_of_lt (Layout.dataBase_lt hlayout)
  room := ⟨hk, nofun⟩
  frames := nofun

/-- Everything that was opened is closed, no slot waits, and all storage is within range. -/
structure Generator.Settled (g : Generator) : Prop where
  stack : g.stack = []
  argCounts : g.argCounts = []
  breaks : g.breaks = []
  start : g.start = none
  body : g.body = none
  function : g.symbols.function = none
  pending : g.code.pending = []
  filled : ∃ is, g.code.instructions = .ok is ∧ g.code.slots.toList = is.map some
  data : g.symbols.dataEnd ≤ declaredLimit
  frames : ∀ f ∈ g.frames, f.size ≤ addressLimit

theorem Fits.settled {k : Nat} {g : Generator} (hg : Fits [] k g) : g.Settled := by
  obtain ⟨hstart, hbody, hfunction⟩ := hg.place
  have hstacked := hg.stacked
  generalize hstack : g.stack = stack, hcounts : g.argCounts = counts,
    hbreaks : g.breaks = breaks at hstacked
  cases hstacked
  have hpending : g.code.pending = [] := by
    have hwaits := hg.waits
    rw [Generator.holes, hstack, hbreaks, hbody, hstart] at hwaits
    exact List.nil_perm.mp hwaits
  exact ⟨hstack, hcounts, hbreaks, hstart, hbody, hfunction, hpending,
    hg.sound.instructions hpending, hg.data, hg.frames⟩

theorem Generator.Settled.output {g : Generator} (hg : g.Settled) : ∃ out, g.output = .ok out := by
  obtain ⟨is, his, -⟩ := hg.filled
  rw [Generator.output, hg.stack, his]
  cases g.diagnostics.isEmpty <;> exact ⟨_, rfl⟩

/-! ### Parsing and performing -/

theorem parse_eq_readGoals (tokens : List Token) :
    parse tokens = readGoals (splitStop tokens).2 (splitStop tokens).1 programGoals := rfl

/-- A parse calls for steps that keep to their rules, and for the end of the program if there is no
    syntax error. -/
theorem walks_parse (tokens : List Token) :
    ∃ steps held, Walked steps [] held ∧ stepsWords steps ≤ (splitStop tokens).1.length ∧
      ((∃ t, held = [.program] ∧ parse tokens = ⟨steps ++ [⟨.endProgram, t⟩], none⟩) ∨
        (parse tokens).steps = steps ∧ (parse tokens).error ≠ none) := by
  have hgoals : Chain Goal.Turns [.performHere .beginProgram, .declarations] [] [.program] :=
    .cons (.performHere fun _ => .beginProgram) (.one .declarations)
  obtain ⟨steps, held, hsteps, hwords, hread⟩ := hgoals.walks (splitStop tokens).2
    (splitStop tokens).1 [.performHere .endProgram]
  refine ⟨steps, held, hsteps, hwords, ?_⟩
  rcases hread with ⟨rest, hheld, hread⟩ | hread
  · rw [readGoals_performHere, readGoals_nil] at hread
    exact .inl ⟨_, hheld, hread⟩
  · exact .inr hread

/-- Steps that were performed from the initial state end the same way when they are run. -/
theorem Gen.Performed.run {steps : List Step} {layout : Layout} {g : Generator}
    (h : Performed steps (Generator.initial layout) g) :
    ∃ n trace, (Generator.initial layout).run (steps.forM perform) = (.ok (), g.taking n trace) := by
  obtain ⟨n, trace, hrun⟩ := h 0 (Generator.initial layout).trace
  refine ⟨n, trace, ?_⟩
  have hstart : (Generator.initial layout).taking 0 (Generator.initial layout).trace =
      Generator.initial layout := rfl
  rw [hstart] at hrun
  rw [Generator.run, EStateM.run, hrun]

/-- All steps of a parse are performed, and nothing is left open where it succeeds. -/
theorem run_parse {layout : Layout} (hlayout : layout.flaw? = none)
    (hslots : 3 ≤ layout.scratchSlots.toNat) {tokens : List Token}
    (hlen : (splitStop tokens).1.length ≤ maxWords) :
    ∃ g, (Generator.initial layout).run ((parse tokens).steps.forM perform) = (.ok (), g) ∧
      ((parse tokens).error = none → g.Settled) := by
  obtain ⟨steps, held, hsteps, hwords, hparse⟩ := walks_parse tokens
  obtain ⟨g, hperformed, hg⟩ := hsteps.performed (k := 0)
    (.initial hlayout hslots (by omega))
  rcases hparse with ⟨t, rfl, hparse⟩ | ⟨hparse, herror⟩
  · obtain ⟨g', hend, hg'⟩ := hg.endProgram (t := t)
    obtain ⟨n, trace, hrun⟩ := (hperformed.append (.cons hend .nil)).run
    rw [hparse]
    exact ⟨_, hrun, fun _ => { hg'.settled with }⟩
  · obtain ⟨n, trace, hrun⟩ := hperformed.run
    rw [hparse]
    exact ⟨_, hrun, fun hnone => absurd hnone herror⟩

section
variable {layout : Layout} {tokens : List Token} {g : Generator}

theorem compileParse_of_error {e : SyntaxError}
    (hrun : (Generator.initial layout).run ((parse tokens).steps.forM perform) = (.ok (), g))
    (herror : (parse tokens).error = some e) :
    (Generator.initial layout).compileParse (parse tokens) = (.error (.syntactic e), g) := by
  rw [Generator.compileParse, hrun]
  simp only [herror]

theorem compileParse_of_none
    (hrun : (Generator.initial layout).run ((parse tokens).steps.forM perform) = (.ok (), g))
    (herror : (parse tokens).error = none) :
    (Generator.initial layout).compileParse (parse tokens) = (.ok (), g) := by
  rw [Generator.compileParse, hrun]
  simp only [herror]

end

/-- Compiling a text of less than 2^28 characters ends in lexical errors, in a syntax error, or in
    code. Code comes from a state in which everything is closed and no slot waits. -/
theorem compile_never_faults (layout : Layout) (source : String) (hlayout : layout.flaw? = none)
    (hslots : 3 ≤ layout.scratchSlots.toNat) (hlen : source.length < 268435456) :
    (∃ first more, compile layout source = .error (.lexical first more)) ∨
      (∃ e, compile layout source = .error (.syntactic e)) ∨
      ∃ out g, compile layout source = .ok out ∧
        (Generator.initial layout).compileParse (parse (scan source).tokens) = (.ok (), g) ∧
        g.output = .ok out ∧ g.Settled := by
  simp only [compile, traceCompile]
  cases hscan : (scan source).errors with
  | cons first more =>
    simp only [tokenize, hscan]
    exact .inl ⟨first, more, rfl⟩
  | nil =>
    have htokens : tokenize (scan source) = .ok (scan source).tokens := by
      simp only [tokenize, hscan]
    have hwords : (splitStop (scan source).tokens).1.length ≤ maxWords :=
      Nat.le_trans (length_splitStop_scan source) (Nat.le_of_lt_succ hlen)
    obtain ⟨g, hrun, hsettled⟩ := run_parse hlayout hslots hwords
    refine .inr ?_
    cases herror : (parse (scan source).tokens).error with
    | some e =>
      simp only [htokens, compileParse_of_error hrun herror]
      exact .inl ⟨e, rfl⟩
    | none =>
      have hg := hsettled herror
      obtain ⟨out, hout⟩ := hg.output
      simp only [htokens, compileParse_of_none hrun herror, hout]
      exact .inr ⟨out, g, rfl, rfl, hout, hg⟩

/-- A text with an unknown name, an index into a variable and a break outside a loop. -/
theorem compile_never_faults_mistakes :
    let source := "int x; void main(void) \x7b break; y = x[1]; \x7d"
    ({} : Layout).flaw? = none ∧ source.length < 268435456 ∧
      ((∃ first more, compile {} source = .error (.lexical first more)) ∨
        (∃ e, compile {} source = .error (.syntactic e)) ∨
        ∃ out g, compile {} source = .ok out ∧
          (Generator.initial {}).compileParse (parse (scan source).tokens) = (.ok (), g) ∧
          g.output = .ok out ∧ g.Settled) :=
  ⟨by decide, by decide, compile_never_faults {} _ (by decide) (by decide) (by decide)⟩

/-! ### The language of the parser -/

theorem parse_of_tree {tokens : List Token} {p : Program} (hp : p.Grammatical)
    (htokens : p.tokens = tokens.takeWhile (·.kind != .stop)) :
    parse tokens = ⟨p.steps (splitStop tokens).2, none⟩ := by
  rw [parse_eq_readGoals, splitStop_fst, ← htokens, p.readGoals_tokens _ hp]

/-- A parse succeeds for the texts of the trees that the grammar builds. -/
theorem error_parse_eq_none_iff {tokens : List Token} :
    (parse tokens).error = none ↔
      ∃ p : Program, p.Grammatical ∧ p.tokens = tokens.takeWhile (·.kind != .stop) := by
  constructor
  · intro h
    rw [parse_eq_readGoals, splitStop_fst] at h
    obtain ⟨p, hp, htokens⟩ := recovers_program h
    exact ⟨p, hp, htokens.symm⟩
  · rintro ⟨p, hp, htokens⟩
    rw [parse_of_tree hp htokens]

/-- The parser accepts the tokens before the first stop mark if and only if they are the text of a
    tree; it then performs the steps of that tree, and otherwise it ends in a syntax error. -/
theorem parse_accepts_exactly_trees (layout : Layout) (tokens : List Token)
    (hlayout : layout.flaw? = none) (hslots : 3 ≤ layout.scratchSlots.toNat)
    (hlen : tokens.length < 268435456) :
    ((∃ g, (Generator.initial layout).compileParse (parse tokens) = (.ok (), g)) ↔
      ∃ p : Program, p.Grammatical ∧ p.tokens = tokens.takeWhile (·.kind != .stop)) ∧
    (∀ p : Program, p.Grammatical → p.tokens = tokens.takeWhile (·.kind != .stop) →
      ∃ g, (Generator.initial layout).compileParse (parse tokens) = (.ok (), g) ∧
        (Generator.initial layout).run ((p.steps (splitStop tokens).2).forM perform) =
          (.ok (), g)) ∧
    ((¬ ∃ p : Program, p.Grammatical ∧ p.tokens = tokens.takeWhile (·.kind != .stop)) →
      ∃ e g, (Generator.initial layout).compileParse (parse tokens) =
        (.error (.syntactic e), g)) := by
  have hwords : (splitStop tokens).1.length ≤ maxWords := by
    rw [splitStop_fst]
    exact Nat.le_trans (List.takeWhile_sublist _).length_le (Nat.le_of_lt_succ hlen)
  obtain ⟨g, hrun, -⟩ := run_parse hlayout hslots hwords
  refine ⟨⟨?_, ?_⟩, ?_, ?_⟩
  · rintro ⟨g', haccepts⟩
    rw [← error_parse_eq_none_iff]
    cases herror : (parse tokens).error with
    | none => rfl
    | some e =>
      rw [compileParse_of_error hrun herror] at haccepts
      cases haccepts
  · intro htree
    exact ⟨g, compileParse_of_none hrun (error_parse_eq_none_iff.mpr htree)⟩
  · intro p hp htokens
    have hparse := parse_of_tree hp htokens
    refine ⟨g, compileParse_of_none hrun (by rw [hparse]), ?_⟩
    rw [hparse] at hrun
    exact hrun
  · intro hnone
    rw [← error_parse_eq_none_iff] at hnone
    obtain ⟨e, herror⟩ := Option.ne_none_iff_exists'.mp hnone
    exact ⟨e, g, compileParse_of_error hrun herror⟩

/-- What follows a stop mark does not count. -/
theorem parse_accepts_exactly_trees_stop :
    let tree : Program := ⟨[.var ⟨⟨.int, 1⟩, ⟨"x", 1⟩, .scalar 1⟩]⟩
    let tokens : List Token := tree.tokens ++ [.stopMark 2, .symbolAt "\x7d" 3, .stopMark 3]
    tokens.length < 268435456 ∧ tree.tokens = tokens.takeWhile (·.kind != .stop) ∧
      ∃ g, (Generator.initial {}).compileParse (parse tokens) = (.ok (), g) ∧
        (Generator.initial {}).run ((tree.steps (.stopMark 2)).forM perform) = (.ok (), g) :=
  ⟨by decide, by decide,
    (parse_accepts_exactly_trees {} _ (by decide) (by decide) (by decide)).2.1 _
      (by simp [Program.Grammatical, Decl.Grammatical]) (by decide)⟩

end OnePass
