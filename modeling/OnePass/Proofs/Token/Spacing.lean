import OnePass.Failure
import OnePass.Proofs.Token.Cut

/-!
# Tokens written out are read back

Tokens may be written one right after the other unless they would run into each other: two words or
numbers, and an equals sign before another one. Where blanks keep such neighbours apart, the text is
cut at the tokens and blanks it was written with, and at nothing else. -/

namespace OnePass

/-- A token without its line. -/
structure Lexeme where
  text : String
  kind : TokenKind
  deriving DecidableEq, Repr

/-- A token, its line left out. -/
def Token.bare (t : Token) : Lexeme := ⟨t.lexeme, t.kind⟩

namespace Lexeme

/-- The text belongs to the class. -/
def Valid (x : Lexeme) : Prop :=
  match x.kind with
  | .num => x.text ≠ "" ∧ ∀ c ∈ x.text.toList, c.isDigit
  | .id =>
    (∃ c rest, x.text.toList = c :: rest ∧ c.isAlpha ∧ ∀ d ∈ rest, d.isAlphanum) ∧
      x.text ∉ keywords
  | .keyword => x.text ∈ keywords
  | .symbol => x.text ∈ symbolTexts
  | .stop => False

/-- Two lexemes run into each other when nothing stands between them. -/
def Clings (x y : Lexeme) : Prop :=
  x.kind ≠ .symbol ∧ y.kind ≠ .symbol ∨ x.text = "=" ∧ (y.text = "=" ∨ y.text = "==")

/-- Lexemes written out, each with the gap behind it. -/
def written : List (Lexeme × String) → String
  | [] => ""
  | (x, gap) :: items => x.text ++ gap ++ written items

/-! ### What may follow a lexeme -/

/-- A lexeme does not go on with the next character. -/
structure Stops (x : Lexeme) (next : Option Char) : Prop where
  word : x.kind ≠ .symbol → ∀ c ∈ next, c.isAlphanum = false
  equals : x.text = "=" → next ≠ some '='
  star : x.text = "*" → next ≠ some '/'

variable {x y : Lexeme} {next : Option Char}

theorem isWord_of_mem_keywords : ∀ text ∈ keywords,
    ∃ c rest, text.toList = c :: rest ∧ c.isAlpha ∧ ∀ d ∈ rest, d.isAlphanum := by
  simp [keywords]

theorem isWord {text : List Char} (hstops : ∀ c ∈ next, c.isAlphanum = false)
    (h : ∃ c rest, text = c :: rest ∧ c.isAlpha ∧ ∀ d ∈ rest, d.isAlphanum) : IsWord text next := by
  obtain ⟨c, rest, rfl, hc, hrest⟩ := h
  refine ⟨⟨c, rest, rfl, hc⟩, ?_, hstops⟩
  rw [List.forall_mem_cons]
  exact ⟨by rw [Char.isAlphanum, hc]; rfl, hrest⟩

/-- A valid lexeme that does not go on is spelled as its class says. -/
theorem Valid.spells (h : x.Valid) (hstops : x.Stops next) :
    (Role.token x.kind).Spells x.text.toList next := by
  rw [Valid] at h
  split at h <;> rename_i hkind <;> rw [hkind]
  · have hword : ∀ c ∈ next, c.isAlphanum = false := hstops.word (by rw [hkind]; nofun)
    exact ⟨mt String.toList_eq_nil_iff.mp h.1, h.2, hword⟩
  · have hword : ∀ c ∈ next, c.isAlphanum = false := hstops.word (by rw [hkind]; nofun)
    exact ⟨isWord hword h.1, by rw [String.ofList_toList]; exact h.2⟩
  · have hword : ∀ c ∈ next, c.isAlphanum = false := hstops.word (by rw [hkind]; nofun)
    exact ⟨isWord hword (isWord_of_mem_keywords _ h), by rw [String.ofList_toList]; exact h⟩
  · refine ⟨by rw [String.ofList_toList]; exact h, fun htext => hstops.equals ?_,
      fun htext => hstops.star ?_⟩
    · exact String.toList_inj.mp htext
    · exact String.toList_inj.mp htext
  · cases h

/-- A word or a number starts with a letter or digit, a symbol with something else. -/
theorem Valid.head (h : y.Valid) : ∃ c rest, y.text.toList = c :: rest ∧
    (y.kind ≠ .symbol ∧ c.isAlphanum ∨
      c.isAlphanum = false ∧ c ≠ '/' ∧ (c = '=' → y.text = "=" ∨ y.text = "==")) := by
  rw [Valid] at h
  split at h <;> rename_i hkind <;> rw [hkind]
  · obtain ⟨c, rest, htext⟩ := List.exists_cons_of_ne_nil (mt String.toList_eq_nil_iff.mp h.1)
    have hdigit : c.isDigit := h.2 c (by rw [htext]; exact List.mem_cons_self ..)
    exact ⟨c, rest, htext, .inl ⟨by decide, by rw [Char.isAlphanum, hdigit, Bool.or_true]⟩⟩
  · obtain ⟨c, rest, htext, hc, -⟩ := h.1
    exact ⟨c, rest, htext, .inl ⟨by decide, by rw [Char.isAlphanum, hc]; rfl⟩⟩
  · obtain ⟨c, rest, htext, hc, -⟩ := isWord_of_mem_keywords _ h
    exact ⟨c, rest, htext, .inl ⟨by decide, by rw [Char.isAlphanum, hc]; rfl⟩⟩
  · have hsymbols : ∀ text ∈ symbolTexts, ∃ c rest, text.toList = c :: rest ∧
        c.isAlphanum = false ∧ c ≠ '/' ∧ (c = '=' → text = "=" ∨ text = "==") := by
      simp [symbolTexts]
    obtain ⟨c, rest, htext, hc⟩ := hsymbols y.text h
    exact ⟨c, rest, htext, .inr hc⟩
  · cases h

/-- A lexeme stops at the start of one that it does not cling to. -/
theorem Valid.stops (h : y.Valid) (hclings : ¬ x.Clings y) (rest : List Char) :
    x.Stops (y.text.toList ++ rest).head? := by
  obtain ⟨c, tail, htext, hc⟩ := h.head
  rw [htext, List.cons_append, List.head?_cons]
  rw [Clings, not_or, not_and, not_and] at hclings
  obtain ⟨hkind, halphanum⟩ | ⟨halphanum, hslash, hequals⟩ := hc
  · -- a letter or digit only continues a word or number
    have hne : ∀ d : Char, d.isAlphanum = false → some c ≠ some d := fun d hd heq =>
      ne_of_isAlphanum halphanum hd (Option.some.inj heq)
    exact ⟨fun hx => absurd hkind (hclings.1 hx), fun _ => hne '=' rfl, fun _ => hne '/' rfl⟩
  · refine ⟨fun _ => by simpa using halphanum, fun hx hc => ?_, fun _ => by simpa using hslash⟩
    exact hclings.2 hx (hequals (Option.some.inj hc))

/-- A lexeme stops at a blank and at the end of the text. -/
theorem stops_of_blank (x : Lexeme) (h : ∀ c ∈ next, isBlank c) : x.Stops next := by
  have hne : ∀ d : Char, isBlank d = false → next ≠ some d := by
    rintro d hd rfl
    have hblank := h d rfl
    rw [hd] at hblank
    cases hblank
  exact ⟨fun _ c hc => isAlphanum_of_isBlank (h c hc), fun _ => hne '=' (by decide),
    fun _ => hne '/' (by decide)⟩

end Lexeme

/-! ### Texts of blanks and lexemes -/

/-- A text before a character is cut into blanks and comments and the tokens of some lexemes. -/
def Yields (text : List Char) (next : Option Char) (xs : List Lexeme) : Prop :=
  ∃ ps, Piece.textOf ps = text ∧ IsCut ps next ∧
    (ps.filterMap Piece.token?).map Token.bare = xs ∧ ps.filterMap Piece.error? = []

namespace Yields

variable {text rest : List Char} {next : Option Char} {xs ys : List Lexeme}

theorem nil (next : Option Char) : Yields [] next [] := ⟨[], rfl, isCut_nil next, rfl, rfl⟩

theorem append (h : Yields text (rest.head?.or next) xs) (hrest : Yields rest next ys) :
    Yields (text ++ rest) next (xs ++ ys) := by
  obtain ⟨ps, rfl, hps, rfl, hclean⟩ := h
  obtain ⟨qs, rfl, hqs, rfl, hcleanRest⟩ := hrest
  refine ⟨_, ?_, hps.append hqs, ?_, ?_⟩
  · rw [Piece.textOf_append, Piece.textOf_later]
  · rw [List.filterMap_append, Piece.filterMap_token?_later, List.map_append, List.map_map]
    rfl
  · rw [List.filterMap_append, Piece.filterMap_error?_later, hclean, hcleanRest]
    rfl

theorem lexeme {x : Lexeme} (h : x.Valid) (hstops : x.Stops next) :
    Yields x.text.toList next [x] := by
  refine ⟨_, ?_, IsCut.singleton (h.spells hstops), ?_, rfl⟩
  · rw [Piece.textOf_singleton, String.toList_ofList]
  · rw [String.ofList_toList]
    rfl

theorem blanks (h : ∀ c ∈ text, isBlank c) : Yields text next [] := by
  induction text with
  | nil => exact nil next
  | cons c text ih =>
    rw [List.forall_mem_cons] at h
    have hblank : Role.blank.Spells [c] (text.head?.or next) := ⟨c, rfl, h.1⟩
    have hfirst : Yields [c] (text.head?.or next) [] := by
      refine ⟨_, ?_, IsCut.singleton hblank, rfl, rfl⟩
      rw [Piece.textOf_singleton, String.toList_ofList]
    exact hfirst.append (ih h.2)

/-- Lexemes written out with their gaps yield themselves. -/
theorem written {items : List (Lexeme × String)} (hvalid : ∀ item ∈ items, item.1.Valid)
    (hblank : ∀ item ∈ items, ∀ c ∈ item.2.toList, isBlank c)
    (hapart : items.IsChain fun a b => a.1.Clings b.1 → a.2 ≠ "") :
    Yields (Lexeme.written items).toList none (items.map (·.1)) := by
  induction items with
  | nil => exact nil none
  | cons item items ih =>
    obtain ⟨x, gap⟩ := item
    rw [List.forall_mem_cons] at hvalid hblank
    have hrest := ih hvalid.2 hblank.2 hapart.tail
    -- what follows the lexeme is the gap, or else the next lexeme
    have hstops : x.Stops (gap.toList ++ (Lexeme.written items).toList).head? := by
      cases hgap : gap.toList with
      | cons c tail =>
        refine x.stops_of_blank ?_
        rintro d ⟨⟩
        exact hblank.1 c (by rw [hgap]; exact List.mem_cons_self ..)
      | nil =>
        cases items with
        | nil => exact x.stops_of_blank nofun
        | cons item items =>
          have hclings : ¬ x.Clings item.1 := fun hclings =>
            (List.isChain_cons_cons.mp hapart).1 hclings (String.toList_eq_nil_iff.mp hgap)
          rw [Lexeme.written, String.toList_append, String.toList_append, List.append_assoc]
          exact (hvalid.2 item (List.mem_cons_self ..)).stops hclings _
    have htext : (Lexeme.written ((x, gap) :: items)).toList =
        x.text.toList ++ (gap.toList ++ (Lexeme.written items).toList) := by
      rw [Lexeme.written, String.toList_append, String.toList_append, List.append_assoc]
    rw [htext]
    refine (lexeme hvalid.1 ?_).append ((blanks hblank.1).append hrest)
    rwa [Option.or_none]

/-- What a text yields is what its tokens are. -/
theorem tokenize {source : String} (h : Yields source.toList none xs) :
    (tokenize (scan source)).map (·.map Token.bare) = .ok (xs ++ [⟨"$", .stop⟩]) := by
  obtain ⟨ps, htext, hcut, rfl, hclean⟩ := h
  have hpieces := pieces_eq_of_isCut hcut htext
  rw [scan_eq, hpieces, OnePass.tokenize, hclean]
  simp only [Except.map, List.map_append, List.map_cons, List.map_nil]
  rfl

end Yields

/-- Valid tokens that are written with blanks between them, some of them before the first and after
    the last, are read back: scanning finds these lexemes in this order, and nothing else, up to the
    stop mark. There may be no blank at all between two of them unless both are words or numbers, or
    an equals sign stands before another. -/
theorem written_tokens_read_back (lead : String) (items : List (Lexeme × String))
    (hlead : ∀ c ∈ lead.toList, isBlank c) (hvalid : ∀ item ∈ items, item.1.Valid)
    (hblank : ∀ item ∈ items, ∀ c ∈ item.2.toList, isBlank c)
    (hapart : items.IsChain fun a b => a.1.Clings b.1 → a.2 ≠ "") :
    (tokenize (scan (lead ++ Lexeme.written items))).map (·.map Token.bare) =
      .ok (items.map (·.1) ++ [⟨"$", .stop⟩]) := by
  refine Yields.tokenize ?_
  rw [String.toList_append]
  exact (Yields.blanks hlead).append (Yields.written hvalid hblank hapart)

/-- Neighbours of every sort: a keyword before a name, `==` before `=`, `=` before `==`, a number
    before a name, and symbols next to names and numbers. -/
theorem written_tokens_read_back_neighbours :
    (tokenize (scan " if\nx1===\u3000==007\u2028if2*12;\t")).map (·.map Token.bare) =
      .ok [⟨"if", .keyword⟩, ⟨"x1", .id⟩, ⟨"==", .symbol⟩, ⟨"=", .symbol⟩, ⟨"==", .symbol⟩,
        ⟨"007", .num⟩, ⟨"if2", .id⟩, ⟨"*", .symbol⟩, ⟨"12", .num⟩, ⟨";", .symbol⟩,
        ⟨"$", .stop⟩] :=
  written_tokens_read_back " "
    [(⟨"if", .keyword⟩, "\n"), (⟨"x1", .id⟩, ""), (⟨"==", .symbol⟩, ""), (⟨"=", .symbol⟩, "\u3000"),
      (⟨"==", .symbol⟩, ""), (⟨"007", .num⟩, "\u2028"), (⟨"if2", .id⟩, ""), (⟨"*", .symbol⟩, ""),
      (⟨"12", .num⟩, ""), (⟨";", .symbol⟩, "\t")]
    (by simp [isBlank, blankCodes])
    (by simp [Lexeme.Valid, keywords, symbolTexts])
    (by simp [isBlank, blankCodes])
    (by simp [Lexeme.Clings])

end OnePass
