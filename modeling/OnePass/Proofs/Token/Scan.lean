import Mathlib
import OnePass.Token.Scan

/-!
# Scanning loses nothing

The pieces of a text, one after the other, are the text. Each is spelled as its role says and starts
on the line that the text before it leads to. How a piece is spelled also says where it ends: a word,
a number, a comment or a symbol that could go on with the next character does.

`Scanner.Reads` says what the scanner knows of the text read so far; every character keeps it. -/

namespace OnePass

/-! ### How pieces are spelled -/

/-- The symbols of the language. -/
def symbolTexts : List String :=
  [";", ":", ",", "[", "]", "(", ")", "\x7b", "\x7d", "+", "-", "<", "=", "==", "*"]

theorem toList_toString (c : Char) : c.toString.toList = [c] := by simp [Char.toString]

/-- The symbols of one character. -/
theorem toString_mem_symbolTexts {c : Char} :
    c.toString ∈ symbolTexts ↔ symbolChars.contains c ∨ c = '=' ∨ c = '*' := by
  simp only [symbolTexts, symbolChars, List.mem_cons, ← String.toList_inj, toList_toString]
  simp [or_assoc]

/-- The end of a block comment does not occur in a text. -/
def NeverCloses (text : List Char) : Prop := ¬ ['*', '/'] <:+: text

theorem neverCloses_nil : NeverCloses [] := by
  intro h
  simp at h

/-- A text that never closes goes on to do so, unless a slash follows a star. -/
theorem NeverCloses.concat {text : List Char} {c : Char} (h : NeverCloses text)
    (hc : text.getLast? = some '*' → c ≠ '/') : NeverCloses (text ++ [c]) := by
  intro hinfix
  rcases List.infix_concat_iff.mp hinfix with hsuffix | hinfix
  · obtain hnil | ⟨front, hfront, hstar⟩ := List.suffix_concat_iff.mp hsuffix
    · cases hnil
    · have hsplit : ['*'] ++ ['/'] = front ++ [c] := hfront
      obtain ⟨rfl, hslash⟩ := List.append_inj' hsplit rfl
      exact hc (List.singleton_suffix_iff_getLast?_eq_some.mp hstar) (List.singleton_inj.mp hslash).symm
  · exact h hinfix

/-- A letter, then letters and digits, as far as they go. -/
structure IsWord (text : List Char) (next : Option Char) : Prop where
  start : ∃ c rest, text = c :: rest ∧ c.isAlpha
  inside : ∀ c ∈ text, c.isAlphanum
  stop : ∀ c ∈ next, c.isAlphanum = false

/-- A character that no token or comment starts with. -/
structure IsStray (c : Char) : Prop where
  blank : isBlank c = false
  alphanum : c.isAlphanum = false
  symbol : c.toString ∉ symbolTexts
  slash : c ≠ '/'

/-- How a piece is spelled, given the character after it. -/
def Role.Spells (text : List Char) (next : Option Char) : Role → Prop
  | .blank => ∃ c, text = [c] ∧ isBlank c
  | .comment =>
    (∃ body, text = '/' :: '*' :: (body ++ ['*', '/']) ∧ NeverCloses (body ++ ['*'])) ∨
      ∃ body, text = '/' :: '/' :: body ∧ '\n' ∉ body ∧ ∀ c ∈ next, c = '\n'
  | .token .num =>
    text ≠ [] ∧ (∀ c ∈ text, c.isDigit) ∧ ∀ c ∈ next, c.isAlphanum = false
  | .token .id => IsWord text next ∧ String.ofList text ∉ keywords
  | .token .keyword => IsWord text next ∧ String.ofList text ∈ keywords
  | .token .symbol =>
    String.ofList text ∈ symbolTexts ∧ (text = ['='] → next ≠ some '=') ∧
      (text = ['*'] → next ≠ some '/')
  | .token .stop => False
  | .invalid .stray =>
    (∃ c, text = [c] ∧ IsStray c) ∨ text = ['/'] ∧ next ≠ some '/' ∧ next ≠ some '*'
  | .invalid .unmatchedClose => text = ['*', '/']
  | .invalid .badNumber =>
    ∃ digits c tail, text = digits ++ c :: tail ∧ digits ≠ [] ∧ (∀ d ∈ digits, d.isDigit) ∧
      c.isAlpha ∧ (∀ d ∈ tail, d.isAlphanum) ∧ ∀ d ∈ next, d.isAlphanum = false
  | .invalid .unclosedComment =>
    ∃ body, text = '/' :: '*' :: body ∧ NeverCloses body ∧ next = none

/-- The text of some pieces. -/
def Piece.textOf (pieces : List Piece) : List Char := pieces.flatMap (·.text.toList)

/-- The line that a text leads to. -/
def lineAfter (text : List Char) : Nat := 1 + text.count '\n'

/-- A piece stands after a text and before a character: it starts on the line it says and is spelled
    as it says. -/
structure Piece.Stands (p : Piece) (before : List Char) (next : Option Char) : Prop where
  line : p.line = lineAfter before
  spells : p.role.Spells p.text.toList next

/-- Pieces stand one after the other, given the character after the last. -/
def IsCut (pieces : List Piece) (next : Option Char) : Prop :=
  ∀ before p after, pieces = before ++ p :: after →
    p.Stands (Piece.textOf before) ((Piece.textOf after).head?.or next)

namespace Piece

theorem textOf_append (ps qs : List Piece) : textOf (ps ++ qs) = textOf ps ++ textOf qs :=
  List.flatMap_append

theorem textOf_singleton (p : Piece) : textOf [p] = p.text.toList := List.flatMap_singleton ..

end Piece

theorem isCut_nil (next : Option Char) : IsCut [] next := by
  intro before p after h
  simp at h

/-- A piece is added to those before it, which knew how it starts. -/
theorem IsCut.concat {pieces : List Piece} {p : Piece} {c : Char} {next : Option Char}
    (h : IsCut pieces (some c)) (hc : p.text.toList.head? = some c)
    (hp : p.Stands (Piece.textOf pieces) next) : IsCut (pieces ++ [p]) next := by
  intro before q after heq
  rcases List.eq_nil_or_concat after with rfl | ⟨after, r, rfl⟩
  · obtain ⟨rfl, hlast⟩ := List.append_inj' heq rfl
    obtain rfl := List.singleton_inj.mp hlast
    exact hp
  · rw [List.concat_eq_append] at heq ⊢
    rw [← List.cons_append, ← List.append_assoc] at heq
    obtain ⟨hpieces, hlast⟩ := List.append_inj' heq rfl
    obtain rfl := List.singleton_inj.mp hlast
    have hq := h before q after hpieces
    rw [Piece.textOf_append, Piece.textOf_singleton, List.head?_append, hc]
    cases hafter : (Piece.textOf after).head? with
    | none => rwa [hafter] at hq
    | some d => rwa [hafter] at hq

/-! ### What the scanner knows of a piece under way -/

namespace Mode

/-- What the text of the piece being read looks like. -/
def Reads (text : List Char) : Mode → Prop
  | .ground => text = []
  | .word => (∃ c rest, text = c :: rest ∧ c.isAlpha) ∧ ∀ c ∈ text, c.isAlphanum
  | .number => text ≠ [] ∧ ∀ c ∈ text, c.isDigit
  | .badNumber =>
    ∃ digits c tail, text = digits ++ c :: tail ∧ digits ≠ [] ∧ (∀ d ∈ digits, d.isDigit) ∧
      c.isAlpha ∧ ∀ d ∈ tail, d.isAlphanum
  | .equals => text = ['=']
  | .star => text = ['*']
  | .slash => text = ['/']
  | .lineComment => ∃ body, text = '/' :: '/' :: body ∧ '\n' ∉ body
  | .blockComment =>
    ∃ body, text = '/' :: '*' :: body ∧ NeverCloses body ∧ body.getLast? ≠ some '*'
  | .blockStar => ∃ body, text = '/' :: '*' :: (body ++ ['*']) ∧ NeverCloses (body ++ ['*'])

/-- The piece being read does not go on with the next character. -/
def Stops (next : Option Char) : Mode → Prop
  | .ground => True
  | .word | .number | .badNumber => ∀ c ∈ next, c.isAlphanum = false
  | .equals => next ≠ some '='
  | .star => next ≠ some '/'
  | .slash => next ≠ some '/' ∧ next ≠ some '*'
  | .lineComment => ∀ c ∈ next, c = '\n'
  | .blockComment | .blockStar => next = none

theorem Reads.ne_nil {m : Mode} {text : List Char} (h : m.Reads text) (hm : m ≠ .ground) :
    text ≠ [] := by
  rintro rfl
  cases m <;> simp_all [Reads]

/-- A piece that stops is spelled as its mode says. -/
theorem Reads.spells {m : Mode} {text : String} {next : Option Char} (h : m.Reads text.toList)
    (hm : m ≠ .ground) (hstops : m.Stops next) : (m.role text).Spells text.toList next := by
  cases m with
  | ground => exact absurd rfl hm
  | word =>
    have hword : IsWord text.toList next := ⟨h.1, h.2, hstops⟩
    rw [role, wordKind]
    split
    · exact ⟨hword, by rwa [String.ofList_toList]⟩
    · exact ⟨hword, by rwa [String.ofList_toList]⟩
  | number => exact ⟨h.1, h.2, hstops⟩
  | badNumber =>
    obtain ⟨digits, c, tail, htext, hne, hdigits, hc, htail⟩ := h
    exact ⟨digits, c, tail, htext, hne, hdigits, hc, htail, hstops⟩
  | equals =>
    have htext : text.toList = ['='] := h
    rw [htext]
    exact ⟨by decide, fun _ => hstops, by simp⟩
  | star =>
    have htext : text.toList = ['*'] := h
    rw [htext]
    exact ⟨by decide, by simp, fun _ => hstops⟩
  | slash => exact .inr ⟨h, hstops⟩
  | lineComment =>
    obtain ⟨body, htext, hbody⟩ := h
    exact .inr ⟨body, htext, hbody, hstops⟩
  | blockComment =>
    obtain ⟨body, htext, hbody, -⟩ := h
    exact ⟨body, htext, hbody, hstops⟩
  | blockStar =>
    obtain ⟨body, htext, hbody⟩ := h
    exact ⟨body ++ ['*'], htext, hbody, hstops⟩

section
variable {text : List Char} {c : Char}

theorem Reads.word (h : Mode.word.Reads text) (hc : c.isAlphanum) :
    Mode.word.Reads (text ++ [c]) := by
  obtain ⟨⟨first, rest, rfl, hfirst⟩, hall⟩ := h
  refine ⟨⟨first, rest ++ [c], rfl, hfirst⟩, ?_⟩
  rw [List.forall_mem_append, List.forall_mem_singleton]
  exact ⟨hall, hc⟩

theorem Reads.number (h : Mode.number.Reads text) (hc : c.isDigit) :
    Mode.number.Reads (text ++ [c]) := by
  refine ⟨List.append_ne_nil_of_left_ne_nil h.1 _, ?_⟩
  rw [List.forall_mem_append, List.forall_mem_singleton]
  exact ⟨h.2, hc⟩

/-- A letter makes a number a bad one. -/
theorem Reads.spoil (h : Mode.number.Reads text) (hc : c.isAlpha) :
    Mode.badNumber.Reads (text ++ [c]) :=
  ⟨text, c, [], rfl, h.1, h.2, hc, nofun⟩

theorem Reads.badNumber (h : Mode.badNumber.Reads text) (hc : c.isAlphanum) :
    Mode.badNumber.Reads (text ++ [c]) := by
  obtain ⟨digits, letter, tail, rfl, hne, hdigits, hletter, htail⟩ := h
  refine ⟨digits, letter, tail ++ [c], by simp, hne, hdigits, hletter, ?_⟩
  rw [List.forall_mem_append, List.forall_mem_singleton]
  exact ⟨htail, hc⟩

theorem Reads.lineComment (h : Mode.lineComment.Reads text) (hc : c ≠ '\n') :
    Mode.lineComment.Reads (text ++ [c]) := by
  obtain ⟨body, rfl, hbody⟩ := h
  refine ⟨body ++ [c], rfl, ?_⟩
  rw [List.mem_append, List.mem_singleton]
  exact not_or.mpr ⟨hbody, hc.symm⟩

/-- A block comment goes on unless a slash follows a star; a star may end it. -/
theorem reads_block {body : List Char} (h : NeverCloses body)
    (hc : body.getLast? = some '*' → c ≠ '/') :
    (if c == '*' then Mode.blockStar else .blockComment).Reads ('/' :: '*' :: body ++ [c]) := by
  split
  · rename_i hstar
    obtain rfl := beq_iff_eq.mp hstar
    exact ⟨body, rfl, h.concat hc⟩
  · rename_i hstar
    refine ⟨body ++ [c], rfl, h.concat hc, ?_⟩
    simpa using hstar

end

end Mode

/-! ### What the scanner knows of the text read so far -/

/-- The scanner has read a text: the pieces before the one being read are cut off, and that one looks
    like its mode. -/
structure Scanner.Reads (s : Scanner) (text : List Char) : Prop where
  text : Piece.textOf s.pieces.toList ++ s.text.toList = text
  start : s.mode ≠ .ground → s.start = lineAfter (Piece.textOf s.pieces.toList)
  cut : ∀ next, IsCut s.pieces.toList (s.text.toList.head?.or next)
  mode : s.mode.Reads s.text.toList

/-- The scanner has cut a text into pieces and comes to a character. -/
structure Scanner.Cuts (s : Scanner) (text : List Char) (next : Option Char) : Prop where
  mode : s.mode = .ground
  rest : s.text = ""
  text : Piece.textOf s.pieces.toList = text
  cut : IsCut s.pieces.toList next

namespace Scanner

variable {s : Scanner} {text : List Char} {next : Option Char} {c : Char}

/-- A piece that does not go on is cut off. -/
theorem Reads.flush (h : s.Reads text) (hstops : s.mode.Stops next) : s.flush.Cuts text next := by
  rw [Scanner.flush]
  split
  · rename_i hmode
    have hrest : s.text.toList = [] := by
      have hreads := h.mode
      rwa [hmode] at hreads
    have htext := h.text
    have hcut := h.cut next
    rw [hrest] at htext hcut
    rw [List.append_nil] at htext
    exact ⟨hmode, String.toList_eq_nil_iff.mp hrest, htext, hcut⟩
  · rename_i m hm
    have hmode : s.mode ≠ .ground := hm
    obtain ⟨c, hc⟩ := Option.ne_none_iff_exists'.mp
      (mt List.head?_eq_none_iff.mp (h.mode.ne_nil hmode))
    refine ⟨rfl, rfl, ?_, ?_⟩
    · rw [close, Array.toList_push, Piece.textOf_append, Piece.textOf_singleton]
      exact h.text
    · have hcut := h.cut none
      rw [hc] at hcut
      rw [close, Array.toList_push]
      exact hcut.concat hc ⟨h.start hmode, h.mode.spells hmode hstops⟩

section
variable (h : s.Cuts text (some c))
include h

/-- A character is a piece by itself. -/
theorem Cuts.single {role : Role} (hline : s.line = lineAfter text)
    (hrole : ∀ next, role.Spells [c] next) : (s.single role c).Reads (text ++ [c]) := by
  let p : Piece := ⟨role, c.toString, s.line⟩
  have hp : p.text.toList = [c] := toList_toString c
  have hpieces : (s.single role c).pieces.toList = s.pieces.toList ++ [p] := Array.toList_push
  have hrest : (s.single role c).text.toList = [] := by rw [Scanner.single, h.rest]; rfl
  refine ⟨?_, fun hmode => absurd h.mode hmode, fun next => ?_, ?_⟩
  · rw [hpieces, hrest, Piece.textOf_append, Piece.textOf_singleton, h.text, List.append_nil, hp]
  · rw [hpieces, hrest]
    refine h.cut.concat (by rw [hp]; rfl) ⟨hline.trans (congrArg lineAfter h.text.symm), ?_⟩
    rw [hp]
    exact hrole next
  · rw [hrest, Scanner.single, h.mode]
    rfl

/-- A character starts a piece. -/
theorem Cuts.enter {mode : Mode} (hline : s.line = lineAfter text) (hmode : mode.Reads [c]) :
    (s.enter mode c).Reads (text ++ [c]) := by
  have hrest : (s.enter mode c).text.toList = [c] := toList_toString c
  refine ⟨?_, fun _ => hline.trans (congrArg lineAfter h.text.symm), fun next => ?_, ?_⟩
  · rw [hrest]
    exact congrArg (· ++ [c]) h.text
  · rw [hrest]
    exact h.cut
  · rwa [hrest]

/-- The first character of a piece decides what it may be. -/
theorem Cuts.begin (hline : s.line = lineAfter text) : (s.begin c).Reads (text ++ [c]) := by
  rw [Scanner.begin]
  split
  · rename_i hblank
    exact h.single hline fun _ => ⟨c, rfl, hblank⟩
  rename_i hblank
  split
  · rename_i hslash
    exact h.enter hline (by rw [beq_iff_eq.mp hslash]; rfl)
  rename_i hslash
  split
  · rename_i hequals
    exact h.enter hline (by rw [beq_iff_eq.mp hequals]; rfl)
  rename_i hequals
  split
  · rename_i hstar
    exact h.enter hline (by rw [beq_iff_eq.mp hstar]; rfl)
  rename_i hstar
  split
  · rename_i hsymbol
    refine h.single hline fun next => ⟨?_, ?_, ?_⟩
    · rw [← toList_toString, String.ofList_toList]
      exact toString_mem_symbolTexts.mpr (.inl hsymbol)
    · exact fun heq => absurd (List.singleton_inj.mp heq) (by simpa using hequals)
    · exact fun heq => absurd (List.singleton_inj.mp heq) (by simpa using hstar)
  rename_i hsymbol
  split
  · rename_i hdigit
    exact h.enter hline ⟨List.cons_ne_nil _ _, by simpa using hdigit⟩
  rename_i hdigit
  split
  · rename_i halpha
    exact h.enter hline ⟨⟨c, [], rfl, halpha⟩, by simp [Char.isAlphanum, halpha]⟩
  rename_i halpha
  refine h.single hline fun next => .inl ⟨c, rfl, ⟨eq_false_of_ne_true hblank, ?_, ?_, ?_⟩⟩
  · simp [Char.isAlphanum, halpha, hdigit]
  · rw [toString_mem_symbolTexts]
    simp_all
  · simpa using hslash

end

section
variable (h : s.Reads text) (hmode : s.mode ≠ .ground)
include h hmode

/-- The piece being read goes on. -/
theorem Reads.extend {mode : Mode} (hreads : mode.Reads (s.text.toList ++ [c])) :
    (s.extend mode c).Reads (text ++ [c]) := by
  have hrest : (s.extend mode c).text.toList = s.text.toList ++ [c] := String.toList_push ..
  refine ⟨?_, fun _ => h.start hmode, fun next => ?_, ?_⟩
  · rw [hrest, ← List.append_assoc]
    exact congrArg (· ++ [c]) h.text
  · rw [hrest, List.head?_append, Option.or_assoc]
    exact h.cut _
  · rwa [hrest]

/-- The piece being read ends with a character, whatever follows. -/
theorem Reads.extend_close {mode : Mode} {role : Role}
    (hrole : ∀ next, role.Spells (s.text.toList ++ [c]) next) :
    ((s.extend mode c).close role).Reads (text ++ [c]) := by
  let p : Piece := ⟨role, s.text.push c, s.start⟩
  have hp : p.text.toList = s.text.toList ++ [c] := String.toList_push ..
  have hpieces : ((s.extend mode c).close role).pieces.toList = s.pieces.toList ++ [p] :=
    Array.toList_push
  obtain ⟨first, hfirst⟩ := Option.ne_none_iff_exists'.mp
    (mt List.head?_eq_none_iff.mp (h.mode.ne_nil hmode))
  refine ⟨?_, fun hground => absurd rfl hground, fun next => ?_, rfl⟩
  · rw [hpieces, Piece.textOf_append, Piece.textOf_singleton, hp, ← List.append_assoc, h.text]
    exact List.append_nil _
  · have hcut := h.cut none
    rw [hfirst] at hcut
    rw [hpieces]
    refine hcut.concat (by rw [hp, List.head?_append, hfirst]; rfl) ⟨h.start hmode, ?_⟩
    rw [hp]
    exact hrole next

end

theorem mode_flush (s : Scanner) : s.flush.mode = .ground := by
  rw [flush]
  split
  · assumption
  · rfl

theorem line_flush (s : Scanner) : s.flush.line = s.line := by
  rw [flush]
  split <;> rfl

/-- What comes after a piece that does not go on is the start of the next. -/
theorem Reads.flush_begin (h : s.Reads text) (hstops : s.mode.Stops (some c))
    (hline : s.line = lineAfter text) : (s.flush.begin c).Reads (text ++ [c]) :=
  (h.flush hstops).begin ((line_flush s).trans hline)

/-- Every character goes into a piece. -/
theorem Reads.read (h : s.Reads text) (hline : s.line = lineAfter text) :
    (s.read c).Reads (text ++ [c]) := by
  have hreads := h.mode
  have hflush : s.mode.Stops (some c) → (s.flush.begin c).Reads (text ++ [c]) :=
    fun hstops => h.flush_begin hstops hline
  rw [Scanner.read]
  cases hmode : s.mode <;> rw [hmode] at hreads hflush <;> simp only
  case ground =>
    have hrest : s.text = "" := String.toList_eq_nil_iff.mp hreads
    have hcut := h.cut (some c)
    have htext := h.text
    rw [hrest] at hcut htext
    exact Cuts.begin ⟨hmode, hrest, (List.append_nil _).symm.trans htext, hcut⟩ hline
  all_goals have hinside : s.mode ≠ .ground := by rw [hmode]; nofun
  case word =>
    split
    · rename_i hc
      exact h.extend hinside (hreads.word hc)
    · rename_i hc
      exact hflush (by simpa [Mode.Stops] using hc)
  case number =>
    split
    · rename_i hc
      exact h.extend hinside (hreads.number hc)
    rename_i hdigit
    split
    · rename_i hc
      exact h.extend hinside (hreads.spoil hc)
    · rename_i hc
      exact hflush (by simp [Mode.Stops, Char.isAlphanum, hdigit, hc])
  case badNumber =>
    split
    · rename_i hc
      exact h.extend hinside (hreads.badNumber hc)
    · rename_i hc
      exact hflush (by simpa [Mode.Stops] using hc)
  case equals =>
    split
    · rename_i hc
      obtain rfl := beq_iff_eq.mp hc
      refine h.extend_close hinside fun next => ?_
      rw [show s.text.toList = ['='] from hreads]
      exact ⟨by decide, by simp, by simp⟩
    · rename_i hc
      exact hflush (by simpa [Mode.Stops] using hc)
  case star =>
    split
    · rename_i hc
      obtain rfl := beq_iff_eq.mp hc
      refine h.extend_close hinside fun next => ?_
      rw [show s.text.toList = ['*'] from hreads]
      rfl
    · rename_i hc
      exact hflush (by simpa [Mode.Stops] using hc)
  case slash =>
    have htext : s.text.toList = ['/'] := hreads
    split
    · rename_i hc
      obtain rfl := beq_iff_eq.mp hc
      refine h.extend hinside ?_
      rw [htext]
      exact ⟨[], rfl, nofun⟩
    rename_i hslash
    split
    · rename_i hc
      obtain rfl := beq_iff_eq.mp hc
      refine h.extend hinside ?_
      rw [htext]
      exact ⟨[], rfl, neverCloses_nil, nofun⟩
    · rename_i hstar
      exact hflush (by simp_all [Mode.Stops])
  case lineComment =>
    split
    · rename_i hc
      exact hflush (by simpa [Mode.Stops] using hc)
    · rename_i hc
      exact h.extend hinside (hreads.lineComment (by simpa using hc))
  case blockComment =>
    obtain ⟨body, htext, hbody, hlast⟩ := hreads
    refine h.extend hinside ?_
    rw [htext]
    exact Mode.reads_block hbody fun hstar => absurd hstar hlast
  case blockStar =>
    obtain ⟨body, htext, hbody⟩ := hreads
    split
    · rename_i hc
      obtain rfl := beq_iff_eq.mp hc
      refine h.extend_close hinside fun next => .inl ⟨body, ?_, hbody⟩
      rw [htext]
      simp
    · rename_i hc
      refine h.extend hinside ?_
      rw [htext]
      exact Mode.reads_block hbody fun _ => by simpa using hc

theorem line_begin (s : Scanner) (c : Char) : (s.begin c).line = s.line := by
  rw [begin]
  repeat' split
  all_goals rfl

theorem line_read (s : Scanner) (c : Char) : (s.read c).line = s.line := by
  rw [Scanner.read]
  repeat' split
  all_goals first
    | rfl
    | exact line_begin s c
    | exact (line_begin s.flush c).trans (line_flush s)

/-- A character is read, and the line is counted on. -/
theorem Reads.step (h : s.Reads text) (hline : s.line = lineAfter text) :
    (s.step c).Reads (text ++ [c]) ∧ (s.step c).line = lineAfter (text ++ [c]) := by
  have hread := h.read (c := c) hline
  have hsame := (line_read s c).trans hline
  rw [Scanner.step, lineAfter, List.count_append]
  split
  · rename_i hc
    obtain rfl := beq_iff_eq.mp hc
    refine ⟨⟨hread.text, hread.start, hread.cut, hread.mode⟩, ?_⟩
    change (s.read '\n').line + 1 = _
    rw [hsame]
    rfl
  · rename_i hc
    refine ⟨hread, hsame.trans ?_⟩
    rw [List.count_singleton, if_neg hc]
    rfl

theorem Reads.foldl (rest : List Char) (h : s.Reads text) (hline : s.line = lineAfter text) :
    (rest.foldl Scanner.step s).Reads (text ++ rest) ∧
      (rest.foldl Scanner.step s).line = lineAfter (text ++ rest) := by
  induction rest generalizing s text with
  | nil => exact ⟨by rwa [List.append_nil], by rwa [List.append_nil]⟩
  | cons c rest ih =>
    obtain ⟨hstep, hnext⟩ := h.step (c := c) hline
    have hrest := ih hstep hnext
    rwa [List.append_assoc, List.singleton_append] at hrest

theorem stops_none (m : Mode) : m.Stops none := by
  cases m <;> simp [Mode.Stops]

/-- From the start, the scanner knows the text it has read. -/
theorem reads_foldl (text : List Char) :
    (text.foldl step {}).Reads text ∧ (text.foldl step {}).line = lineAfter text := by
  have hstart : ({} : Scanner).Reads [] :=
    ⟨rfl, fun hmode => absurd rfl hmode, fun _ => isCut_nil _, rfl⟩
  exact hstart.foldl text rfl

/-- A text that was read to its end is cut into pieces. -/
theorem cuts_run (text : String) :
    (run text).Cuts text.toList none ∧ (run text).line = lineAfter text.toList := by
  obtain ⟨hreads, hline⟩ := reads_foldl text.toList
  exact ⟨hreads.flush (stops_none _), (line_flush _).trans hline⟩

end Scanner

/-! ### Tokens and errors -/

/-- No piece is a stop mark. -/
theorem IsCut.kind_ne_stop {ps : List Piece} {next : Option Char} (h : IsCut ps next) {t : Token}
    (ht : t ∈ ps.filterMap Piece.token?) : t.kind ≠ .stop := by
  obtain ⟨p, hp, htoken⟩ := List.mem_filterMap.mp ht
  obtain ⟨before, after, rfl⟩ := List.append_of_mem hp
  have hspells := (h before p after rfl).spells
  rw [Piece.token?] at htoken
  split at htoken
  · rename_i kind hrole
    obtain rfl := Option.some.inj htoken
    rintro rfl
    rw [hrole] at hspells
    exact hspells
  · cases htoken

/-- Scanning a text cuts it into pieces that together are the text. Its tokens are those pieces that
    are tokens, in order, and the stop mark at their end; its errors are those that are none. Every
    piece is spelled as its role says and starts on the line that the text before it leads to. -/
theorem scan_loses_nothing (source : String) :
    ∃ ps : List Piece,
      Piece.textOf ps = source.toList ∧
      (scan source).tokens =
        ps.filterMap Piece.token? ++ [Token.stopMark (1 + source.toList.count '\n')] ∧
      (∀ t ∈ ps.filterMap Piece.token?, t.kind ≠ .stop) ∧
      (scan source).errors = ps.filterMap Piece.error? ∧
      ∀ before p after, ps = before ++ p :: after →
        p.line = 1 + (Piece.textOf before).count '\n' ∧
        p.role.Spells p.text.toList (Piece.textOf after).head? := by
  obtain ⟨hcuts, hline⟩ := Scanner.cuts_run source
  refine ⟨pieces source, hcuts.text, ?_, fun t => hcuts.cut.kind_ne_stop, rfl, ?_⟩
  · rw [scan, hline]
    rfl
  · intro before p after hps
    have hp := hcuts.cut before p after hps
    rw [Option.or_none] at hp
    exact ⟨hp.line, hp.spells⟩

end OnePass
