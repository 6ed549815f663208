import OnePass.Proofs.Twins.Steps

/-!
# Programs for another layout

One program is compiled for two layouts that both have room for its global data: to the same frames,
to the same mistakes, and to code that differs in nothing but the cells it names. -/

namespace OnePass

open Gen Generator

variable {l l' : Layout}

/-- Two generators have finished the same program for two layouts. -/
structure Generator.Finished (l l' : Layout) (g g' : Generator) : Prop where
  code : ∃ (s s' : Store) (stub stub' : List Instruction), s.Moved l l' g.symbols.globals s' ∧
    StartMoved l l' g.symbols.globals g.symbols.dataEnd g'.symbols.dataEnd stub stub' ∧
    g.code = s.append stub ∧ g'.code = s'.append stub'
  data : ∃ d, g.symbols.dataEnd = l.dataBase.toNat + d ∧ g'.symbols.dataEnd = l'.dataBase.toNat + d
  stack : g'.stack.length = g.stack.length
  frames : g'.frames = g.frames
  diagnostics : g'.diagnostics = g.diagnostics

/-! ### One program, two layouts -/

/-- Every name is paired with itself. -/
def Naming.same : Naming where
  Pairs := Eq
  one := by
    rintro a _ a' _ rfl rfl
    exact Iff.rfl
  main := rfl
  output := rfl

/-- The same program is compiled twice, for two layouts. -/
def Twins.ofLayouts (l l' : Layout) (hslots : 3 ≤ l.scratchSlots.toNat)
    (hslots' : 3 ≤ l'.scratchSlots.toNat) : Twins where
  names := .same
  line := Eq
  fault := Eq
  l
  l'
  fault_of f := congrArg f
  room := .inr ⟨hslots, hslots'⟩

theorem Diagnostic.Cause.Renamed.eq {c c' : Diagnostic.Cause} (h : c.Renamed .same c') :
    c = c' := by
  cases h with
  | literalRange | operandType | breakOutsideLoop | noMain => rfl
  | alreadyDefined h | notDefined h | tooLarge h | illegalVoid h | notArray h | notFunction h
  | argumentCount h | argumentType _ h =>
    cases h
    rfl

section
variable {hslots : 3 ≤ l.scratchSlots.toNat} {hslots' : 3 ≤ l'.scratchSlots.toNat}

theorem Step.Twin.same (s : Step) : s.Twin (.ofLayouts l l' hslots hslots') s :=
  ⟨rfl, rfl, fun _ => rfl, fun _ _ => rfl⟩

theorem Generator.Ended.finished {g g' : Generator}
    (h : g.Ended (.ofLayouts l l' hslots hslots') g') : g.Finished l l' g' where
  code := h.code
  data := h.data
  stack := h.stack
  frames := by
    refine (Array.toList_inj.mp (List.forall₂_eq_eq_eq ▸ h.frames.imp ?_)).symm
    rintro f _ ⟨_, rfl, rfl⟩
    rfl
  diagnostics := by
    refine (Array.toList_inj.mp (List.forall₂_eq_eq_eq ▸ h.diagnostics.imp ?_)).symm
    rintro ⟨line, cause⟩ ⟨_, cause'⟩ ⟨rfl, hcause⟩
    rw [show cause = cause' from hcause.eq]

end

/-! ### The code of a program -/

/-- Slots that say the same in two layouts give instructions that do, or one of them is empty. -/
theorem mapM_slotInstruction_moved {globals : Scope} {slots slots' : List (Option Instruction)}
    (h : List.Forall₂ (Option.Rel (Instruction.Moved l l' globals)) slots slots')
    (stub stub' : List Instruction) (pc : Nat) :
    (∃ fault, ((slots ++ stub.map some).zipIdx pc).mapM Store.slotInstruction = .error fault ∧
      ((slots' ++ stub'.map some).zipIdx pc).mapM Store.slotInstruction = .error fault) ∨
    ∃ is is', List.Forall₂ (Instruction.Moved l l' globals) is is' ∧
      ((slots ++ stub.map some).zipIdx pc).mapM Store.slotInstruction = .ok (is ++ stub) ∧
      ((slots' ++ stub'.map some).zipIdx pc).mapM Store.slotInstruction = .ok (is' ++ stub') := by
  induction h generalizing pc with
  | nil =>
    have hfull : ∀ is : List Instruction,
        ((is.map some).zipIdx pc).mapM Store.slotInstruction = .ok is := by
      intro is
      obtain ⟨js, hjs, hsome⟩ := Store.mapM_slotInstruction (is.map some) pc (by simp)
      rw [(List.map_inj_right fun _ _ => Option.some.inj).mp hsome, ← hjs, hsome]
    exact .inr ⟨[], [], .nil, hfull stub, hfull stub'⟩
  | cons hslot _ ih =>
    simp only [List.cons_append, List.zipIdx_cons, List.mapM_cons]
    cases hslot with
    | none => exact .inl ⟨_, rfl, rfl⟩
    | some hi =>
      rcases ih (pc + 1) with ⟨fault, hf, hf'⟩ | ⟨is, is', hmoved, his, his'⟩
      · exact .inl ⟨fault, by rw [hf]; rfl, by rw [hf']; rfl⟩
      · exact .inr ⟨_ :: is, _ :: is', .cons hi hmoved, by rw [his]; rfl, by rw [his']; rfl⟩

/-- So do stores, with the same slots waiting. -/
theorem Store.Moved.instructions {globals : Scope} {s s' : Store} (h : s.Moved l l' globals s')
    (stub stub' : List Instruction) :
    (∃ fault, (s.append stub).instructions = .error fault ∧
      (s'.append stub').instructions = .error fault) ∨
    ∃ is is', List.Forall₂ (Instruction.Moved l l' globals) is is' ∧
      (s.append stub).instructions = .ok (is ++ stub) ∧
      (s'.append stub').instructions = .ok (is' ++ stub') := by
  rw [Store.instructions, Store.instructions, pending_append, pending_append, h.pending]
  cases s.pending with
  | cons pc _ => exact .inl ⟨_, rfl, rfl⟩
  | nil =>
    simp only [slots_append]
    exact mapM_slotInstruction_moved h.slots stub stub' 0

theorem StartMoved.length_eq {globals : Scope} {dataEnd dataEnd' : Nat}
    {stub stub' : List Instruction} (h : StartMoved l l' globals dataEnd dataEnd' stub stub') :
    stub'.length = stub.length := by
  cases h with
  | none => rfl
  | main h => simp [h.length_eq]

/-- Two outputs of a program, for two layouts: the same diagnostics, the same frames, and code that
    says the same, ended by the code that starts the program. -/
structure Output.Moved (l l' : Layout) (globals : Scope) (dataEnd dataEnd' : Nat)
    (o o' : Output) : Prop where
  diagnostics : o'.diagnostics = o.diagnostics
  frames : o'.frames = o.frames
  length : o'.instructions.length = o.instructions.length
  instructions : ∃ is is' stub stub', o.instructions = is ++ stub ∧ o'.instructions = is' ++ stub' ∧
    List.Forall₂ (Instruction.Moved l l' globals) is is' ∧
    StartMoved l l' globals dataEnd dataEnd' stub stub'

/-- What comes of two programs that were finished alike. -/
theorem Generator.Finished.output {g g' : Generator} (h : g.Finished l l' g') :
    (∃ fault, g.output = .error fault ∧ g'.output = .error fault) ∨
      ∃ o o', g.output = .ok o ∧ g'.output = .ok o' ∧
        o.Moved l l' g.symbols.globals g.symbols.dataEnd g'.symbols.dataEnd o' := by
  have hstack : g'.stack.isEmpty = g.stack.isEmpty := by
    rw [Bool.eq_iff_iff, List.isEmpty_iff_length_eq_zero, List.isEmpty_iff_length_eq_zero, h.stack]
  rw [Generator.output, Generator.output, hstack, h.stack, h.diagnostics, h.frames]
  cases g.stack.isEmpty with
  | false => exact .inl ⟨_, rfl, rfl⟩
  | true =>
    cases g.diagnostics.isEmpty with
    | false => exact .inr ⟨_, _, rfl, rfl, rfl, rfl, rfl, [], [], [], [], rfl, rfl, .nil, .none⟩
    | true =>
      obtain ⟨s, s', stub, stub', hcode, hstub, hs, hs'⟩ := h.code
      rw [hs, hs']
      let o (is : List Instruction) : Output := ⟨is, g.diagnostics.toList, g.frames.toList⟩
      rcases hcode.instructions stub stub' with ⟨fault, hf, hf'⟩ | ⟨is, is', hmoved, his, his'⟩
      · exact .inl ⟨fault, by rw [hf]; rfl, by rw [hf']; rfl⟩
      · refine .inr ⟨o (is ++ stub), o (is' ++ stub'), by rw [his]; rfl, by rw [his']; rfl, rfl,
          rfl, ?_, is, is', stub, stub', rfl, rfl, hmoved, hstub⟩
        simp [o, hmoved.length_eq, hstub.length_eq]

/-! ### Compilations -/

section
variable {source : String} (hscan : (scan source).errors = [])
  (hparse : (parse (scan source).tokens).error = none)

include hscan

theorem compile_of_fault {fault : Fault} {g : Generator}
    (hrun : (Generator.initial l).run ((parse (scan source).tokens).steps.forM perform) =
      (.error fault, g)) : compile l source = .error (.fault fault) := by
  have hcompile : (Generator.initial l).compileParse (parse (scan source).tokens) =
      (.error (.fault fault), g) := by rw [Generator.compileParse, hrun]
  simp only [compile, traceCompile, tokenize, hscan, hcompile]

include hparse

/-- Two compilations of one program end in related outputs if the program was finished alike. -/
theorem compile_of_finished {g g' : Generator}
    (hrun : (Generator.initial l).run ((parse (scan source).tokens).steps.forM perform) =
      (.ok (), g))
    (hrun' : (Generator.initial l').run ((parse (scan source).tokens).steps.forM perform) =
      (.ok (), g'))
    (h : g.Finished l l' g') :
    (∃ fault, g.output = .error fault ∧ compile l source = .error (.fault fault) ∧
      compile l' source = .error (.fault fault)) ∨
    ∃ o o', compile l source = .ok o ∧ compile l' source = .ok o' ∧
      o.Moved l l' g.symbols.globals g.symbols.dataEnd g'.symbols.dataEnd o' := by
  have hcompile := compileParse_of_none hrun hparse
  have hcompile' := compileParse_of_none hrun' hparse
  simp only [compile, traceCompile, tokenize, hscan, hcompile, hcompile']
  rcases h.output with ⟨fault, ho, ho'⟩ | ⟨o, o', ho, ho', hmoved⟩
  · rw [ho, ho']
    exact .inl ⟨fault, rfl, rfl, rfl⟩
  · rw [ho, ho']
    exact .inr ⟨o, o', rfl, rfl, hmoved⟩

end

/-- A program whose global data fits two layouts is compiled to the same end for both of them: to
    the same diagnostics and frames and to code that differs in nothing but the cells it names, or
    else to the same fault, and that only if its text has 2^28 characters or more. -/
theorem compile_relocates (l l' : Layout) (source : String)
    (hl : l.flaw? = none) (hl' : l'.flaw? = none)
    (hslots : 3 ≤ l.scratchSlots.toNat) (hslots' : 3 ≤ l'.scratchSlots.toNat)
    (hscan : (scan source).errors = []) (hparse : (parse (scan source).tokens).error = none)
    (hfits : ¬ ((Generator.initial l).compileParse (parse (scan source).tokens)).2.Overfull)
    (hfits' : ¬ ((Generator.initial l').compileParse (parse (scan source).tokens)).2.Overfull) :
    let g := ((Generator.initial l).compileParse (parse (scan source).tokens)).2
    let g' := ((Generator.initial l').compileParse (parse (scan source).tokens)).2
    (∃ o o', compile l source = .ok o ∧ compile l' source = .ok o' ∧ g.Finished l l' g' ∧
      o.Moved l l' g.symbols.globals g.symbols.dataEnd g'.symbols.dataEnd o') ∨
    maxWords < source.length ∧ ∃ fault, compile l source = .error (.fault fault) ∧
      compile l' source = .error (.fault fault) := by
  have hstate : ∀ layout : Layout,
      ((Generator.initial layout).compileParse (parse (scan source).tokens)).2 =
        ((Generator.initial layout).run ((parse (scan source).tokens).steps.forM perform)).2 := by
    intro layout
    rw [Generator.compileParse]
    split <;> rename_i hrun <;> simp only [hrun, hparse]
  simp only [hstate] at hfits hfits' ⊢
  have halike : Alike (.ofLayouts l l' hslots hslots') (Ended (.ofLayouts l l' hslots hslots'))
      ((Generator.initial l).run ((parse (scan source).tokens).steps.forM perform))
      ((Generator.initial l').run ((parse (scan source).tokens).steps.forM perform)) := by
    have h := alike_parse (T := .ofLayouts l l' hslots hslots') (scan source).tokens
      (List.forall₂_same.mpr fun s _ => .same s) fun _ => ⟨hfits, hfits'⟩
    simp only [hparse, ne_eq, not_true, false_and, or_false] at h
    exact h
  have hshort : source.length ≤ maxWords → ∃ g, (Generator.initial l).run
      ((parse (scan source).tokens).steps.forM perform) = (.ok (), g) ∧ ∃ o, g.output = .ok o := by
    intro hlen
    obtain ⟨g, hrun, hsettled⟩ :=
      run_parse hl hslots (Nat.le_trans (length_splitStop_scan source) hlen)
    exact ⟨g, hrun, (hsettled hparse).output⟩
  generalize hr : (Generator.initial l).run ((parse (scan source).tokens).steps.forM perform) = r,
    hr' : (Generator.initial l').run ((parse (scan source).tokens).steps.forM perform) = r' at *
  obtain ⟨outcome, g⟩ := r
  obtain ⟨outcome', g'⟩ := r'
  cases outcome with
  | error fault =>
    cases outcome' with
    | ok => exact halike.elim
    | error fault' =>
      obtain rfl : fault = fault' := halike.1
      refine .inr ⟨?_, fault, compile_of_fault hscan hr, compile_of_fault hscan hr'⟩
      by_contra hlen
      obtain ⟨g, hrun, -⟩ := hshort (Nat.le_of_not_lt hlen)
      cases hrun
  | ok =>
    cases outcome' with
    | error => exact halike.elim
    | ok =>
      have hmoved : g.Finished l l' g' := Ended.finished halike
      rcases compile_of_finished hscan hparse hr hr' hmoved with
        ⟨fault, hout, hfault⟩ | ⟨o, o', ho, ho', hout⟩
      · refine .inr ⟨?_, fault, hfault⟩
        by_contra hlen
        obtain ⟨g, hrun, o, ho⟩ := hshort (Nat.le_of_not_lt hlen)
        cases hrun
        rw [hout] at ho
        cases ho
      · exact .inl ⟨o, o', ho, ho', hmoved, hout⟩

/-- An array, a variable, a parameter and two mistakes, placed twice. -/
theorem compile_relocates_arrays :
    let l : Layout := {}
    let l' : Layout := ⟨400, 300, 500, 7, 1000⟩
    let source := "int a[3]; int n; int f(int b[]) \x7b return b[n] + x; \x7d\n" ++
      "void main(void) \x7b n = 2; a[n] = 5; output(f(a)); break; \x7d"
    let g := ((Generator.initial l).compileParse (parse (scan source).tokens)).2
    let g' := ((Generator.initial l').compileParse (parse (scan source).tokens)).2
    l.flaw? = none ∧ l'.flaw? = none ∧ (scan source).errors = [] ∧
      (parse (scan source).tokens).error = none ∧ ¬ g.Overfull ∧ ¬ g'.Overfull ∧
      ((∃ o o', compile l source = .ok o ∧ compile l' source = .ok o' ∧ g.Finished l l' g' ∧
        o.Moved l l' g.symbols.globals g.symbols.dataEnd g'.symbols.dataEnd o') ∨
      maxWords < source.length ∧ ∃ fault, compile l source = .error (.fault fault) ∧
        compile l' source = .error (.fault fault)) := by
  intro l l' source
  have hl : l.flaw? = none := by decide
  have hl' : l'.flaw? = none := by decide
  have hscan : (scan source).errors = [] := by decide +kernel
  obtain ⟨q, hq, herror, hmistakes, hmistakes'⟩ : ∃ q, q ∈ parseWithin? 400 (scan source).tokens ∧
      q.error = none ∧ ((Generator.initial l).compileParse q).2.diagnostics =
        #[⟨1, .notDefined "x"⟩, ⟨2, .breakOutsideLoop⟩] ∧
      ((Generator.initial l').compileParse q).2.diagnostics =
        #[⟨1, .notDefined "x"⟩, ⟨2, .breakOutsideLoop⟩] := by
    decide +kernel
  obtain rfl := parse_of_within hq
  have hslots : 3 ≤ l.scratchSlots.toNat ∧ 3 ≤ l'.scratchSlots.toNat := by decide
  -- The rest holds of any layouts and texts with these mistakes: nothing is left to compute.
  clear_value l l' source
  have hfits : ¬ ((Generator.initial l).compileParse (parse (scan source).tokens)).2.Overfull := by
    simp [Overfull, hmistakes]
  have hfits' :
      ¬ ((Generator.initial l').compileParse (parse (scan source).tokens)).2.Overfull := by
    simp [Overfull, hmistakes']
  exact ⟨hl, hl', hscan, herror, hfits, hfits',
    compile_relocates l l' source hl hl' hslots.1 hslots.2 hscan herror hfits hfits'⟩

end OnePass
