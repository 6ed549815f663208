import OnePass.Proofs.Token.Scan

/-!
# A text has one cut

The spelling of a piece says where the piece ends. So a text is cut into pieces in one way only, and
the scanner finds it: whatever pieces stand one after the other, scanning their text gives them
back. What a text scans to is then settled by writing its pieces down.

`Scanner.Holds` says what the scanner has in hand while it reads one piece; a piece that is spelled
as its role says takes it from the ground to the piece. -/

namespace OnePass

/-! ### Cuts in a row -/

/-- The same piece further down in the text. -/
def Piece.later (n : Nat) (p : Piece) : Piece := { p with line := p.line + n }

theorem Piece.textOf_later (n : Nat) (ps : List Piece) : textOf (ps.map (later n)) = textOf ps := by
  rw [textOf, List.flatMap_map]
  rfl

/-- The same token further down in the text. -/
def Token.later (n : Nat) (t : Token) : Token := { t with line := t.line + n }

/-- The same error further down in the text. -/
def LexicalError.later (n : Nat) (e : LexicalError) : LexicalError := { e with line := e.line + n }

theorem Piece.filterMap_token?_later (n : Nat) (ps : List Piece) :
    (ps.map (later n)).filterMap token? = (ps.filterMap token?).map (Token.later n) := by
  rw [List.filterMap_map, List.map_filterMap]
  refine List.filterMap_congr fun p _ => ?_
  rw [Function.comp_apply, token?, token?]
  cases h : p.role <;> simp only [later, h] <;> rfl

theorem Piece.filterMap_error?_later (n : Nat) (ps : List Piece) :
    (ps.map (later n)).filterMap error? = (ps.filterMap error?).map (LexicalError.later n) := by
  rw [List.filterMap_map, List.map_filterMap]
  refine List.filterMap_congr fun p _ => ?_
  rw [Function.comp_apply, error?, error?]
  cases h : p.role <;> simp only [later, h] <;> rfl

theorem neverCloses_concat {text : List Char} {c : Char} :
    NeverCloses (text ++ [c]) ↔ NeverCloses text ∧ (text.getLast? = some '*' → c ≠ '/') := by
  refine ⟨fun h => ⟨fun hinfix => h (List.infix_append_of_infix_left hinfix), ?_⟩,
    fun h => h.1.concat h.2⟩
  rintro hlast rfl
  obtain ⟨front, rfl⟩ := List.getLast?_eq_some_iff.mp hlast
  exact h ⟨front, [], by simp⟩

theorem lineAfter_append (text rest : List Char) :
    lineAfter (text ++ rest) = lineAfter rest + text.count '\n' := by
  rw [lineAfter, lineAfter, List.count_append]
  omega

namespace IsCut

variable {ps qs : List Piece} {next : Option Char}

/-- The pieces before the last stand before its first character. -/
theorem front {p : Piece} (h : IsCut (ps ++ [p]) next) :
    IsCut ps (p.text.toList.head?.or next) := by
  intro before q after heq
  have hq := h before q (after ++ [p]) (by rw [heq, List.append_assoc, List.cons_append])
  rwa [Piece.textOf_append, Piece.textOf_singleton, List.head?_append, Option.or_assoc] at hq

theorem last {p : Piece} (h : IsCut (ps ++ [p]) next) : p.Stands (Piece.textOf ps) next :=
  h ps p [] rfl

/-- Two cut texts one after the other are cut where each of them is, if the first text is cut as it
    stands before the second. The lines of the second go on from those of the first. -/
theorem append (hps : IsCut ps ((Piece.textOf qs).head?.or next)) (hqs : IsCut qs next) :
    IsCut (ps ++ qs.map (Piece.later ((Piece.textOf ps).count '\n'))) next := by
  intro before p after heq
  -- a piece of the second text stands as it did, further down
  have hsecond : ∀ mid, before = ps ++ mid →
      qs.map (Piece.later ((Piece.textOf ps).count '\n')) = mid ++ p :: after →
      p.Stands (Piece.textOf before) ((Piece.textOf after).head?.or next) := by
    rintro mid rfl hmap
    obtain ⟨front, tail, rfl, rfl, htail⟩ := List.map_eq_append_iff.mp hmap
    obtain ⟨q, rest, rfl, rfl, rfl⟩ := List.map_eq_cons_iff.mp htail
    have hq := hqs front q rest rfl
    rw [Piece.textOf_append, Piece.textOf_later, Piece.textOf_later]
    exact ⟨(congrArg (· + _) hq.line).trans (lineAfter_append ..).symm, hq.spells⟩
  rcases List.append_eq_append_iff.mp heq with ⟨mid, hbefore, hmap⟩ | ⟨mid, hfirst, hrest⟩
  · exact hsecond mid hbefore hmap
  · cases mid with
    | nil =>
      rw [List.append_nil] at hfirst
      exact hsecond [] (by rw [hfirst, List.append_nil]) hrest.symm
    | cons q mid =>
      obtain ⟨rfl, hafter⟩ := List.cons.inj hrest
      have hp := hps before p mid hfirst
      rwa [hafter, List.append_eq, Piece.textOf_append, Piece.textOf_later, List.head?_append,
        Option.or_assoc]

/-- A piece that stands by itself is a cut. -/
theorem singleton {role : Role} {text : List Char} (h : role.Spells text next) :
    IsCut [⟨role, String.ofList text, 1⟩] next := by
  intro before p after heq
  obtain ⟨rfl, hsingle⟩ | ⟨front, -, hnil⟩ := List.cons_eq_append_iff.mp heq
  · obtain ⟨rfl, rfl⟩ := List.cons.inj hsingle
    refine ⟨rfl, ?_⟩
    rw [String.toList_ofList]
    exact h
  · simp at hnil

end IsCut

/-- No piece is without text. -/
theorem Role.Spells.ne_nil {role : Role} {text : List Char} {next : Option Char}
    (h : role.Spells text next) : text ≠ [] := by
  rintro rfl
  cases role with
  | blank => obtain ⟨c, htext, -⟩ := h; cases htext
  | comment => obtain ⟨body, htext, -⟩ | ⟨body, htext, -⟩ := h <;> cases htext
  | token kind =>
    cases kind with
    | num => exact h.1 rfl
    | id | keyword => obtain ⟨c, rest, htext, -⟩ := h.1.start; cases htext
    | symbol => exact absurd h.1 (by decide)
    | stop => exact h
  | invalid flaw =>
    cases flaw with
    | stray => obtain ⟨c, htext, -⟩ | ⟨htext, -⟩ := h <;> cases htext
    | unmatchedClose => cases h
    | badNumber => obtain ⟨digits, c, tail, htext, -⟩ := h; simp at htext
    | unclosedComment => obtain ⟨body, htext, -⟩ := h; cases htext

/-! ### Classes of characters -/

theorem isDigit_of_isAlpha {c : Char} (h : c.isAlpha) : c.isDigit = false := by
  simp only [Char.isAlpha, Char.isUpper, Char.isLower, Bool.or_eq_true, Bool.and_eq_true,
    decide_eq_true_eq, UInt32.le_iff_toNat_le, ge_iff_le] at h
  rw [Char.isDigit, Bool.and_eq_false_iff, decide_eq_false_iff_not, decide_eq_false_iff_not,
    ge_iff_le, UInt32.le_iff_toNat_le, UInt32.le_iff_toNat_le]
  have hA : 'A'.val.toNat = 65 := rfl
  have ha : 'a'.val.toNat = 97 := rfl
  have h9 : '9'.val.toNat = 57 := rfl
  omega

/-- No letter or digit is blank. -/
theorem isBlank_of_isAlphanum {c : Char} (h : c.isAlphanum) : isBlank c = false := by
  simp only [Char.isAlphanum, Char.isAlpha, Char.isUpper, Char.isLower, Char.isDigit,
    Bool.or_eq_true, Bool.and_eq_true, decide_eq_true_eq, UInt32.le_iff_toNat_le, ge_iff_le] at h
  have hrange : (65 ≤ c.toNat ∧ c.toNat ≤ 90 ∨ 97 ≤ c.toNat ∧ c.toNat ≤ 122) ∨
      48 ≤ c.toNat ∧ c.toNat ≤ 57 := h
  simp only [isBlank, blankCodes, List.contains_eq_mem, decide_eq_false_iff_not, List.mem_cons,
    List.not_mem_nil, or_false]
  omega

theorem isAlphanum_of_isBlank {c : Char} (h : isBlank c) : c.isAlphanum = false := by
  by_contra hc
  rw [isBlank_of_isAlphanum (eq_true_of_ne_false hc)] at h
  cases h

theorem ne_of_isAlphanum {c d : Char} (hc : c.isAlphanum) (hd : d.isAlphanum = false) : c ≠ d := by
  rintro rfl
  rw [hc] at hd
  cases hd

theorem isAlphanum_of_mem_symbolChars {c : Char} (hc : c ∈ symbolChars) : c.isAlphanum = false := by
  have hall : symbolChars.all (fun c => !c.isAlphanum) := by decide
  simpa using List.all_eq_true.mp hall c hc

/-! ### Reading one piece -/

/-- A character with which the piece being read goes on and the mode stays. -/
def Mode.GoesOn (c : Char) : Mode → Prop
  | .word | .badNumber => c.isAlphanum
  | .number => c.isDigit
  | .lineComment => c ≠ '\n'
  | _ => False

namespace Scanner

/-- What the scanner has in hand: the mode, the text and the first line of the piece being read, and
    the pieces before it. -/
structure Holds (s : Scanner) (mode : Mode) (text : List Char) (start : Nat) (ps : List Piece) :
    Prop where
  mode : s.mode = mode
  text : s.text.toList = text
  start : s.start = start
  pieces : s.pieces.toList = ps

/-- The scanner has found pieces, and the last of them does not go on with the next character. -/
structure Finds (s : Scanner) (ps : List Piece) (next : Option Char) : Prop where
  stops : s.mode.Stops next
  pieces : s.flush.pieces.toList = ps

variable {s : Scanner} {mode : Mode} {text : List Char} {start : Nat} {ps : List Piece} {c : Char}

/-- A character that a piece does not go on with is read as if the piece was closed. -/
theorem step_flush (h : s.mode.Stops (some c)) : s.flush.step c = s.step c := by
  have hread : s.flush.read c = s.read c := by
    have hground : s.flush.read c = s.flush.begin c := by rw [read, mode_flush]
    rw [hground, read]
    cases hmode : s.mode <;> rw [hmode] at h <;> simp only
    case ground => rw [flush, hmode]
    case word | badNumber => rw [if_neg (by simpa [Mode.Stops] using h)]
    case number =>
      have hc : c.isAlpha = false ∧ c.isDigit = false := by
        simpa [Mode.Stops, Char.isAlphanum] using h
      rw [if_neg (by simp [hc.2]), if_neg (by simp [hc.1])]
    case equals | star => rw [if_neg (by simpa [Mode.Stops] using h)]
    case slash =>
      have hc : c ≠ '/' ∧ c ≠ '*' := by simpa [Mode.Stops] using h
      rw [if_neg (by simpa using hc.1), if_neg (by simpa using hc.2)]
    case lineComment => rw [if_pos (by simpa [Mode.Stops] using h)]
    case blockComment | blockStar => cases h
  rw [step, step, hread]

/-- The end of a piece is found when the scanner holds all of it. -/
theorem Holds.finds {next : Option Char} (h : s.Holds mode text start ps) (hmode : mode ≠ .ground)
    (hstops : mode.Stops next) :
    s.Finds (ps ++ [⟨mode.role (String.ofList text), String.ofList text, start⟩]) next := by
  obtain ⟨rfl, rfl, rfl, rfl⟩ := h
  refine ⟨hstops, ?_⟩
  rw [flush]
  split
  · contradiction
  · rw [close, Array.toList_push, String.ofList_toList]

theorem Holds.finds_ground {next : Option Char} (h : s.Holds .ground text start ps) :
    s.Finds ps next := by
  obtain ⟨hmode, -, -, rfl⟩ := h
  refine ⟨by rw [hmode]; trivial, ?_⟩
  rw [flush, hmode]

section
variable (h : s.Holds mode text start ps)
include h

/-- A step that adds its character to the piece. -/
theorem Holds.extend {mode' : Mode} (hread : s.read c = s.extend mode' c) :
    (s.step c).Holds mode' (text ++ [c]) start ps := by
  obtain ⟨-, rfl, rfl, rfl⟩ := h
  rw [step, hread]
  split <;> exact ⟨rfl, String.toList_push .., rfl, rfl⟩

/-- A step that ends the piece with its character. -/
theorem Holds.close {mode' : Mode} {role : Role}
    (hread : s.read c = (s.extend mode' c).close role) :
    (s.step c).Holds .ground [] start
      (ps ++ [⟨role, String.ofList (text ++ [c]), start⟩]) := by
  obtain ⟨-, rfl, rfl, rfl⟩ := h
  have hpush : s.text.push c = String.ofList (s.text.toList ++ [c]) := by
    rw [← String.toList_push, String.ofList_toList]
  rw [step, hread, ← hpush]
  split <;> exact ⟨rfl, rfl, rfl, Array.toList_push⟩

end

/-- A character that starts a piece. -/
theorem Holds.enter (h : s.Holds .ground text start ps) (hbegin : s.begin c = s.enter mode c) :
    (s.step c).Holds mode [c] s.line ps := by
  rw [step, read, h.mode]
  simp only [hbegin]
  split <;> exact ⟨rfl, toList_toString c, rfl, h.pieces⟩

/-- A character that is a piece by itself. -/
theorem Holds.single {role : Role} (h : s.Holds .ground [] start ps)
    (hbegin : s.begin c = s.single role c) :
    (s.step c).Holds .ground [] start (ps ++ [⟨role, String.ofList [c], s.line⟩]) := by
  have hc : c.toString = String.ofList [c] := by rw [← toList_toString, String.ofList_toList]
  obtain ⟨hmode, htext, hstart, rfl⟩ := h
  rw [step, read, hmode]
  simp only [hbegin, ← hc]
  split <;> exact ⟨hmode, htext, hstart, Array.toList_push⟩

/-! ### How pieces start -/

theorem begin_of_isAlphanum (s : Scanner) (hc : c.isAlphanum) :
    s.begin c = s.enter (if c.isDigit then .number else .word) c := by
  have hne : ∀ d : Char, d.isAlphanum = false → (c == d) = false := fun d hd =>
    beq_eq_false_iff_ne.mpr (ne_of_isAlphanum hc hd)
  have hsymbol : symbolChars.contains c = false := by
    by_contra hmem
    exact ne_of_isAlphanum hc (isAlphanum_of_mem_symbolChars (by simpa using hmem)) rfl
  rw [begin, isBlank_of_isAlphanum hc, hne '/' rfl, hne '=' rfl, hne '*' rfl, hsymbol]
  cases hdigit : c.isDigit with
  | true => rfl
  | false =>
    have halpha : c.isAlpha := by simpa [Char.isAlphanum, hdigit] using hc
    simp [halpha]

theorem begin_of_symbol (s : Scanner) (hc : c ∈ symbolChars) :
    s.begin c = s.single (.token .symbol) c := by
  have hmarks : ∀ c ∈ symbolChars, isBlank c = false ∧ c ≠ '/' ∧ c ≠ '=' ∧ c ≠ '*' := by
    simp [symbolChars, isBlank, blankCodes]
  obtain ⟨hblank, hslash, hequals, hstar⟩ := hmarks c hc
  simp [begin, hblank, hslash, hequals, hstar, hc]

theorem begin_of_stray (s : Scanner) (hc : IsStray c) :
    s.begin c = s.single (.invalid .stray) c := by
  have hsymbol := mt toString_mem_symbolTexts.mpr hc.symbol
  have halphanum := hc.alphanum
  simp only [Char.isAlphanum, Bool.or_eq_false_iff] at halphanum
  simp_all [begin, hc.blank, hc.slash]

/-! ### How pieces go on -/

/-- A piece goes on with a row of characters, in the same mode. -/
theorem Holds.row (h : s.Holds mode text start ps) (rest : List Char)
    (hrest : ∀ c ∈ rest, mode.GoesOn c) :
    (rest.foldl step s).Holds mode (text ++ rest) start ps := by
  induction rest generalizing s text with
  | nil => rwa [List.append_nil]
  | cons c rest ih =>
    rw [List.forall_mem_cons] at hrest
    have hread : s.read c = s.extend mode c := by
      rw [read, h.mode]
      cases mode with
      | word | badNumber | number => exact if_pos hrest.1
      | lineComment => exact if_neg (by simpa [Mode.GoesOn] using hrest.1)
      | _ => cases hrest.1
    have hlast := ih (h.extend hread) hrest.2
    rwa [List.append_assoc, List.singleton_append] at hlast

/-- A letter makes a number a bad one. -/
theorem Holds.spoil (h : s.Holds .number text start ps) (hc : c.isAlpha) :
    (s.step c).Holds .badNumber (text ++ [c]) start ps :=
  h.extend (by
    rw [read, h.mode]
    exact (if_neg (by simp [isDigit_of_isAlpha hc])).trans (if_pos hc))

/-- A block comment goes on as long as it is not closed; a star may close it. -/
theorem Holds.block {body : List Char} (hbody : NeverCloses body)
    (h : s.Holds .blockComment ['/', '*'] start ps) :
    (body.foldl step s).Holds (if body.getLast? = some '*' then .blockStar else .blockComment)
      ('/' :: '*' :: body) start ps := by
  induction body using List.reverseRecOn with
  | nil => exact h
  | append_singleton body c ih =>
    obtain ⟨hfront, hc⟩ := neverCloses_concat.mp hbody
    have hmid := ih hfront
    rw [List.foldl_append, List.foldl_cons, List.foldl_nil, List.getLast?_concat,
      ← List.cons_append, ← List.cons_append]
    refine hmid.extend ?_
    by_cases hstar : body.getLast? = some '*'
    · rw [if_pos hstar] at hmid
      rw [read, hmid.mode]
      simp [hc hstar]
    · rw [if_neg hstar] at hmid
      rw [read, hmid.mode]
      simp

/-! ### The pieces, role by role -/

section
variable {next : Option Char} (hs : s.Holds .ground [] start ps)
include hs

/-- A word is found. -/
theorem Holds.finds_word (h : IsWord text next) :
    (text.foldl step s).Finds
      (ps ++ [⟨.token (wordKind (String.ofList text)), String.ofList text, s.line⟩]) next := by
  obtain ⟨c, rest, rfl, hc⟩ := h.start
  have halphanum : c.isAlphanum := h.inside c (List.mem_cons_self ..)
  have hfirst : (s.step c).Holds .word [c] s.line ps :=
    hs.enter (by rw [begin_of_isAlphanum s halphanum, isDigit_of_isAlpha hc]; rfl)
  have hword := hfirst.row rest fun d hd => h.inside d (List.mem_cons_of_mem _ hd)
  exact hword.finds nofun h.stop

/-- A row of digits is held as a number. -/
theorem Holds.digits (hne : text ≠ []) (h : ∀ c ∈ text, c.isDigit) :
    (text.foldl step s).Holds .number text s.line ps := by
  obtain ⟨c, rest, rfl⟩ := List.exists_cons_of_ne_nil hne
  have hdigit : c.isDigit := h c (List.mem_cons_self ..)
  have hfirst : (s.step c).Holds .number [c] s.line ps :=
    hs.enter (by rw [begin_of_isAlphanum s (by simp [Char.isAlphanum, hdigit]), hdigit]; rfl)
  exact hfirst.row rest fun d hd => h d (List.mem_cons_of_mem _ hd)

/-- The start of a block comment is held as one. -/
theorem Holds.open_block {body : List Char} (hbody : NeverCloses body) :
    (('/' :: '*' :: body).foldl step s).Holds
      (if body.getLast? = some '*' then .blockStar else .blockComment)
      ('/' :: '*' :: body) s.line ps := by
  have hslash : (s.step '/').Holds .slash ['/'] s.line ps := hs.enter rfl
  have hstar : ((s.step '/').step '*').Holds .blockComment ['/', '*'] s.line ps :=
    hslash.extend (by rw [read, hslash.mode]; rfl)
  exact hstar.block hbody

/-- A symbol is found. -/
theorem Holds.finds_symbol (h : (Role.token .symbol).Spells text next) :
    (text.foldl step s).Finds (ps ++ [⟨.token .symbol, String.ofList text, s.line⟩]) next := by
  have hcases : ∀ x ∈ symbolTexts, (∃ c ∈ symbolChars, x.toList = [c]) ∨ x.toList = ['='] ∨
      x.toList = ['=', '='] ∨ x.toList = ['*'] := by simp [symbolTexts, symbolChars]
  have hmem := hcases _ h.1
  rw [String.toList_ofList] at hmem
  obtain ⟨c, hc, rfl⟩ | rfl | rfl | rfl := hmem
  · exact (hs.single (begin_of_symbol s hc)).finds_ground
  · have hfirst : (s.step '=').Holds .equals ['='] s.line ps := hs.enter rfl
    exact hfirst.finds (by decide) (h.2.1 rfl)
  · have hfirst : (s.step '=').Holds .equals ['='] s.line ps := hs.enter rfl
    have hlast : ((s.step '=').step '=').Holds .ground [] s.line _ :=
      hfirst.close (by rw [read, hfirst.mode]; rfl)
    exact hlast.finds_ground
  · have hfirst : (s.step '*').Holds .star ['*'] s.line ps := hs.enter rfl
    exact hfirst.finds (by decide) (h.2.2 rfl)

/-- A comment is found. -/
theorem Holds.finds_comment (h : Role.comment.Spells text next) :
    (text.foldl step s).Finds (ps ++ [⟨.comment, String.ofList text, s.line⟩]) next := by
  obtain ⟨body, rfl, hbody⟩ | ⟨body, rfl, hbody, hnext⟩ := h
  · have hopen := hs.open_block hbody
    rw [if_pos (List.getLast?_concat ..)] at hopen
    have hclosed := hopen.close (c := '/') (by rw [read, hopen.mode]; rfl)
    have htext : '/' :: '*' :: (body ++ ['*', '/']) = ('/' :: '*' :: (body ++ ['*'])) ++ ['/'] := by
      simp
    rw [htext, List.foldl_append]
    exact hclosed.finds_ground
  · have hslash : (s.step '/').Holds .slash ['/'] s.line ps := hs.enter rfl
    have hopen : ((s.step '/').step '/').Holds .lineComment ['/', '/'] s.line ps :=
      hslash.extend (by rw [read, hslash.mode]; rfl)
    have hline := hopen.row body fun c hc heq => hbody (heq ▸ hc)
    exact hline.finds (by decide) hnext

/-- A piece that is no part of the language is found. -/
theorem Holds.finds_invalid {flaw : LexicalFlaw} (h : (Role.invalid flaw).Spells text next) :
    (text.foldl step s).Finds (ps ++ [⟨.invalid flaw, String.ofList text, s.line⟩]) next := by
  cases flaw with
  | stray =>
    obtain ⟨c, rfl, hc⟩ | ⟨rfl, hnext⟩ := h
    · exact (hs.single (begin_of_stray s hc)).finds_ground
    · have hslash : (s.step '/').Holds .slash ['/'] s.line ps := hs.enter rfl
      exact hslash.finds (by decide) hnext
  | unmatchedClose =>
    obtain rfl : text = ['*', '/'] := h
    have hstar : (s.step '*').Holds .star ['*'] s.line ps := hs.enter rfl
    have hclosed := hstar.close (c := '/') (by rw [read, hstar.mode]; rfl)
    exact hclosed.finds_ground
  | badNumber =>
    obtain ⟨digits, c, tail, rfl, hne, hdigits, hc, htail, hnext⟩ := h
    have hbad := (hs.digits hne hdigits).spoil hc
    have hlast := hbad.row tail htail
    rw [List.foldl_append, List.foldl_cons]
    rw [List.append_assoc, List.singleton_append] at hlast
    exact hlast.finds (by decide) hnext
  | unclosedComment =>
    obtain ⟨body, rfl, hbody, rfl⟩ := h
    have hopen := hs.open_block hbody
    split at hopen
    · exact hopen.finds (by decide) rfl
    · exact hopen.finds (by decide) rfl

/-- Every piece that is spelled as its role says is found. -/
theorem Holds.finds_piece {role : Role} (h : role.Spells text next) :
    (text.foldl step s).Finds (ps ++ [⟨role, String.ofList text, s.line⟩]) next := by
  cases role with
  | blank =>
    obtain ⟨c, rfl, hc⟩ := h
    exact (hs.single (by rw [begin, if_pos hc])).finds_ground
  | comment => exact hs.finds_comment h
  | token kind =>
    cases kind with
    | num => exact (hs.digits h.1 h.2.1).finds (by decide) h.2.2
    | id =>
      have hword := hs.finds_word h.1
      rwa [wordKind, if_neg h.2] at hword
    | keyword =>
      have hword := hs.finds_word h.1
      rwa [wordKind, if_pos h.2] at hword
    | symbol => exact hs.finds_symbol h
    | stop => cases h
  | invalid flaw => exact hs.finds_invalid h

end

/-- The scanner finds every cut. The induction is on the pieces from the last one back: the pieces
    before it are found, and its first character closes what the scanner still holds of them. -/
theorem finds_cut {next : Option Char} (h : IsCut ps next) :
    ((Piece.textOf ps).foldl step {}).Finds ps next := by
  induction ps using List.reverseRecOn generalizing next with
  | nil => exact ⟨trivial, rfl⟩
  | append_singleton ps p ih =>
    have hp := h.last
    obtain ⟨c, rest, htext⟩ := List.exists_cons_of_ne_nil hp.spells.ne_nil
    have hfront := h.front
    rw [htext] at hfront
    have hfinds := ih hfront
    obtain ⟨hreads, hline⟩ := reads_foldl (Piece.textOf ps)
    set s := (Piece.textOf ps).foldl step {} with hs
    have hcuts := hreads.flush hfinds.stops
    have hground : s.flush.Holds .ground [] s.flush.start ps :=
      ⟨hcuts.mode, by rw [hcuts.rest]; rfl, rfl, hfinds.pieces⟩
    have hfound := hground.finds_piece hp.spells
    rw [String.ofList_toList, line_flush, hline, ← hp.line, htext, List.foldl_cons,
      step_flush hfinds.stops, ← List.foldl_cons, ← htext] at hfound
    rwa [Piece.textOf_append, Piece.textOf_singleton, List.foldl_append, ← hs]

end Scanner

/-- A text has one cut, and the scanner finds it. -/
theorem pieces_eq_of_isCut {text : String} {ps : List Piece} (h : IsCut ps none)
    (htext : Piece.textOf ps = text.toList) : pieces text = ps := by
  rw [pieces, Scanner.run, ← htext]
  exact (Scanner.finds_cut h).pieces

/-- The pieces of a text are a cut of it. -/
theorem isCut_pieces (text : String) : IsCut (pieces text) none := (Scanner.cuts_run text).1.cut

theorem textOf_pieces (text : String) : Piece.textOf (pieces text) = text.toList :=
  (Scanner.cuts_run text).1.text

/-- What a text scans to, by its pieces. -/
theorem scan_eq (text : String) :
    scan text = { tokens := (pieces text).filterMap Piece.token? ++
                    [Token.stopMark (lineAfter text.toList)]
                  errors := (pieces text).filterMap Piece.error? } := by
  rw [scan, (Scanner.cuts_run text).2]
  rfl

end OnePass
