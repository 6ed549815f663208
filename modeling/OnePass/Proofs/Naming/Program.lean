import OnePass.Proofs.Naming.Parse

/-!
# Code does not depend on names

Two programs that differ only in the names they use and in where their lines end are compiled to the
same code. -/

namespace OnePass

/-! ### Renaming -/

section
variable (ρ : String → String)

/-- A token with its name changed, if it is one. -/
def Token.rename (t : Token) : Token :=
  if t.kind = .id then { t with lexeme := ρ t.lexeme } else t

/-- A frame with its name changed. -/
def Frame.rename (f : Frame) : Frame := { f with name := ρ f.name }

/-- A mistake with the name it is about changed. -/
def Diagnostic.Cause.rename : Diagnostic.Cause → Diagnostic.Cause
  | .alreadyDefined name => .alreadyDefined (ρ name)
  | .notDefined name => .notDefined (ρ name)
  | .tooLarge name => .tooLarge (ρ name)
  | .illegalVoid name => .illegalVoid (ρ name)
  | .notArray name => .notArray (ρ name)
  | .notFunction name => .notFunction (ρ name)
  | .argumentCount callee => .argumentCount (ρ callee)
  | .argumentType position callee expected found =>
    .argumentType position (ρ callee) expected found
  | .literalRange lexeme => .literalRange lexeme
  | .operandType found => .operandType found
  | .breakOutsideLoop => .breakOutsideLoop
  | .noMain => .noMain

/-- A token is another with its name changed, at any line. -/
def Token.IsRenamed (t t' : Token) : Prop :=
  t'.kind = t.kind ∧ t'.lexeme = (t.rename ρ).lexeme

instance : DecidableRel (Token.IsRenamed ρ) :=
  fun t t' => inferInstanceAs (Decidable (t'.kind = t.kind ∧ t'.lexeme = (t.rename ρ).lexeme))

end

/-- The names in some tokens, and the two that mean something to the compiler. -/
def namesIn (tokens : List Token) : List String :=
  "main" :: outputName :: (tokens.filter (·.kind == .id)).map (·.lexeme)

/-- Two compilations end in the same kind of way. -/
inductive SameEnd : Except Failure Unit → Except Failure Unit → Prop
  | ok : SameEnd (.ok ()) (.ok ())
  | syntactic {e e' : SyntaxError} (h : e'.expected = e.expected) :
      SameEnd (.error (.syntactic e)) (.error (.syntactic e'))
  | fault (f f' : Fault) : SameEnd (.error (.fault f)) (.error (.fault f'))

/-- Names are paired with what they are changed to. -/
def Naming.ofRenaming (ρ : String → String) (names : List String)
    (hinj : ∀ a ∈ names, ∀ b ∈ names, ρ a = ρ b → a = b)
    (hmain : "main" ∈ names ∧ ρ "main" = "main")
    (houtput : outputName ∈ names ∧ ρ outputName = outputName) : Naming where
  Pairs a b := a ∈ names ∧ b = ρ a
  one := by
    rintro a _ a' _ ⟨ha, rfl⟩ ⟨ha', rfl⟩
    exact ⟨congrArg ρ, hinj a ha a' ha'⟩
  main := ⟨hmain.1, hmain.2.symm⟩
  output := ⟨houtput.1, houtput.2.symm⟩

theorem Diagnostic.Cause.Renamed.eq_rename {N : Naming} {ρ : String → String}
    (hN : ∀ a b, N.Pairs a b → b = ρ a) {c c' : Diagnostic.Cause} (h : c.Renamed N c') :
    c.rename ρ = c' := by
  cases h with
  | literalRange | operandType | breakOutsideLoop | noMain => rfl
  | alreadyDefined h | notDefined h | tooLarge h | illegalVoid h | notArray h | notFunction h
  | argumentCount h | argumentType _ h =>
    obtain rfl := hN _ _ h
    rfl

section
variable {ρ : String → String} {names : List String}
  {hinj : ∀ a ∈ names, ∀ b ∈ names, ρ a = ρ b → a = b}
  {hmain : "main" ∈ names ∧ ρ "main" = "main"}
  {houtput : outputName ∈ names ∧ ρ outputName = outputName}

theorem Token.IsRenamed.renamed {t t' : Token} (h : t.IsRenamed ρ t')
    (hname : t.kind = .id → t.lexeme ∈ names) :
    t.Renamed (.ofRenaming ρ names hinj hmain houtput) t' := by
  obtain ⟨hkind, htext⟩ := h
  refine ⟨hkind, fun hid => ⟨hname hid, ?_⟩, fun hid _ => ?_⟩
  · rw [htext, Token.rename, if_pos hid]
  · rw [htext, Token.rename, if_neg hid]

end

theorem mem_namesIn {tokens : List Token} {t : Token} (ht : t ∈ tokens) (hid : t.kind = .id) :
    t.lexeme ∈ namesIn tokens := by
  refine List.mem_cons_of_mem _ (List.mem_cons_of_mem _ (List.mem_map_of_mem ?_))
  exact List.mem_filter.mpr ⟨ht, beq_iff_eq.mpr hid⟩

/-! ### Code for one layout -/

section
variable {l : Layout} {globals : Scope}

theorem Word.Moved.eq {a a' : Word} (h : a.Moved l l globals a') : a' = a := by
  cases h with
  | framePointer | stackPointer | scratch => rfl
  | data _ hshift =>
    obtain ⟨d, hd, hd'⟩ := hshift
    exact BitVec.eq_of_toNat_eq (hd'.trans hd.symm)

theorem Operand.Moved.eq {o o' : Operand} (h : o.Moved l l globals o') : o' = o := by
  cases h with
  | number value => rfl
  | array _ hshift =>
    obtain ⟨d, hd, hd'⟩ := hshift
    rw [BitVec.eq_of_toNat_eq (hd'.trans hd.symm)]
  | direct h | indirect h => rw [h.eq]

theorem Instruction.Moved.eq {i i' : Instruction} (h : i.Moved l l globals i') : i' = i := by
  cases h with
  | binary ha hb hdst => rw [ha.eq, hb.eq, hdst.eq]
  | assign hsrc hdst => rw [hsrc.eq, hdst.eq]
  | print h | jumpIfFalse _ h | jumpThrough h => rw [h.eq]
  | jump pc => rfl

/-- Code that says the same in one layout is the same. -/
theorem Store.Moved.eq {s s' : Store} (h : s.Moved l l globals s') : s' = s := by
  obtain ⟨slots, pending⟩ := s
  obtain ⟨slots', pending'⟩ := s'
  have hslots : slots' = slots := by
    refine (Array.toList_inj.mp (List.forall₂_eq_eq_eq ▸ h.slots.imp ?_)).symm
    intro i i' hi
    cases hi with
    | none => rfl
    | some hi => rw [hi.eq]
  rw [hslots, show pending' = pending from h.pending]

end

/-! ### Two compilations -/

/-- Two programs are compiled for one layout, whatever the lines of their tokens. -/
def Twins.ofNaming (N : Naming) (layout : Layout) : Twins where
  names := N
  line _ _ := True
  fault _ _ := True
  l := layout
  l' := layout
  fault_of _ _ _ _ := trivial
  room := .inl rfl

/-- Two generators have the same code, and frames and mistakes under paired names. -/
def Generator.SameUnder (N : Naming) (g g' : Generator) : Prop :=
  ∃ layout globals, g.SameOutput ((Twins.ofNaming N layout).over globals) g'

/-- Parses that correspond are compiled alike. -/
theorem compileParse_renamed {N : Naming} (layout : Layout) (tokens : List Token) {p' : Parse}
    (h : (parse tokens).Renamed N p') :
    SameEnd ((Generator.initial layout).compileParse (parse tokens)).1
        ((Generator.initial layout).compileParse p').1 ∧
      ((Generator.initial layout).compileParse (parse tokens)).2.SameUnder N
        ((Generator.initial layout).compileParse p').2 := by
  have hsteps : List.Forall₂ (Step.Twin (.ofNaming N layout)) (parse tokens).steps p'.steps :=
    h.steps.imp fun _ _ hs => ⟨hs.action, trivial, hs.token.name, hs.token.text⟩
  have hrun : Alike _ _ ((Generator.initial layout).run ((parse tokens).steps.forM Gen.perform))
      ((Generator.initial layout).run (p'.steps.forM Gen.perform)) :=
    alike_parse tokens hsteps fun hno => absurd rfl hno
  have herror := h.error
  rw [Generator.compileParse, Generator.compileParse]
  generalize (Generator.initial layout).run ((parse tokens).steps.forM Gen.perform) = r,
    (Generator.initial layout).run (p'.steps.forM Gen.perform) = r' at hrun
  obtain ⟨outcome, g⟩ := r
  obtain ⟨outcome', g'⟩ := r'
  cases outcome with
  | error fault =>
    cases outcome' with
    | error fault' => exact ⟨.fault _ _, layout, hrun.2 rfl⟩
    | ok => exact hrun.elim
  | ok =>
    cases outcome' with
    | error => exact hrun.elim
    | ok =>
      have hout : g.SameUnder N g' := by
        rcases hrun with hended | ⟨-, held, globals, n, hbetween⟩
        · exact ⟨layout, hended.sameOutput rfl⟩
        · exact ⟨layout, globals, hbetween.toSameOutput⟩
      revert herror
      cases (parse tokens).error <;> cases p'.error <;> intro herror <;> cases herror
      · exact ⟨.ok, hout⟩
      · exact ⟨.syntactic ‹_›, hout⟩

/-- Tokens with their names changed one for one, where the main function and the one that prints keep
    theirs, are compiled to the same end, whatever their lines: the same code or the same fault in its
    place, the same frames under the changed names, and for each mistake the same one about the
    changed name. -/
theorem compile_invariant_under_renaming (layout : Layout) (ρ : String → String)
    (tokens tokens' : List Token)
    (hinj : ∀ a ∈ namesIn tokens, ∀ b ∈ namesIn tokens, ρ a = ρ b → a = b)
    (hmain : ρ "main" = "main") (houtput : ρ outputName = outputName)
    (htokens : List.Forall₂ (Token.IsRenamed ρ) tokens tokens') :
    let first := (Generator.initial layout).compileParse (parse tokens)
    let second := (Generator.initial layout).compileParse (parse tokens')
    SameEnd first.1 second.1 ∧
      second.2.code.instructions = first.2.code.instructions ∧
      second.2.frames.toList = first.2.frames.toList.map (Frame.rename ρ) ∧
      second.2.diagnostics.toList.map (·.cause) =
        first.2.diagnostics.toList.map (·.cause.rename ρ) := by
  let N := Naming.ofRenaming ρ (namesIn tokens) hinj ⟨List.mem_cons_self .., hmain⟩
    ⟨List.mem_cons_of_mem _ (List.mem_cons_self ..), houtput⟩
  have hrenamed : List.Forall₂ (Token.Renamed N) tokens tokens' := by
    have hnames : ∀ t ∈ tokens, t.kind = .id → t.lexeme ∈ namesIn tokens := fun _ => mem_namesIn
    exact ((List.forall₂_and_left _ _).mpr ⟨hnames, htokens⟩).imp fun _ _ h => h.2.renamed h.1
  obtain ⟨hend, _, _, hcode, hframes, hdiagnostics⟩ :=
    compileParse_renamed layout tokens (parse_renamed hrenamed)
  refine ⟨hend, congrArg Store.instructions hcode.eq, Eq.symm ?_, Eq.symm ?_⟩
  · rw [← List.forall₂_eq_eq_eq, List.forall₂_map_left_iff]
    refine hframes.imp ?_
    rintro f _ ⟨_, ⟨-, rfl⟩, rfl⟩
    rfl
  · rw [← List.forall₂_eq_eq_eq, List.forall₂_map_left_iff, List.forall₂_map_right_iff]
    have hpairs : ∀ a b, N.Pairs a b → b = ρ a := fun _ _ hpair => hpair.2
    exact hdiagnostics.imp fun _ _ h => Diagnostic.Cause.Renamed.eq_rename hpairs h.2

/-- Two names change places, and the lines differ; one of the names is not defined. -/
theorem compile_invariant_under_renaming_swap :
    let ρ : String → String := fun x => if x = "f" then "g" else if x = "g" then "f" else x
    let tokens := (scan "int f; void main(void) \x7b f = g; \x7d").tokens
    let tokens' := (scan "int g;\nvoid main(void)\n\x7b g = f; \x7d").tokens
    let first := (Generator.initial {}).compileParse (parse tokens)
    let second := (Generator.initial {}).compileParse (parse tokens')
    (∀ a ∈ namesIn tokens, ∀ b ∈ namesIn tokens, ρ a = ρ b → a = b) ∧
      List.Forall₂ (Token.IsRenamed ρ) tokens tokens' ∧ SameEnd first.1 second.1 ∧
      second.2.code.instructions = first.2.code.instructions ∧
      second.2.frames.toList = first.2.frames.toList.map (Frame.rename ρ) ∧
      second.2.diagnostics.toList.map (·.cause) =
        first.2.diagnostics.toList.map (·.cause.rename ρ) := by
  intro ρ tokens tokens' first second
  have hinj : ∀ a ∈ namesIn tokens, ∀ b ∈ namesIn tokens, ρ a = ρ b → a = b := by decide +kernel
  have htokens : List.Forall₂ (Token.IsRenamed ρ) tokens tokens' := by decide +kernel
  exact ⟨hinj, htokens, compile_invariant_under_renaming {} ρ tokens tokens' hinj rfl rfl htokens⟩

end OnePass
