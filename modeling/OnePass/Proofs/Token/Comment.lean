import OnePass.Proofs.Token.Cut

/-!
# A block comment is a blank

A comment between two texts scans as a blank in its place does, but for the lines it takes up. Both
end whatever piece the first text leaves open, with two exceptions: a comment to the end of the line
goes on, and a star joins the slash behind it. -/

namespace OnePass

/-! ### Texts around a piece -/

/-- What a text scans to that has a piece inside which ends by itself. -/
theorem scan_around {ps : List Piece} {role : Role} {text : List Char} (source after : String)
    (hps : IsCut ps text.head?) (hrole : ∀ next, role.Spells text next)
    (hsource : source.toList = Piece.textOf ps ++ text ++ after.toList) :
    let p : Piece := ⟨role, String.ofList text, lineAfter (Piece.textOf ps)⟩
    let lines := (Piece.textOf ps ++ text).count '\n'
    scan source =
      { tokens := ps.filterMap Piece.token? ++ p.token?.toList ++
          (scan after).tokens.map (Token.later lines)
        errors := ps.filterMap Piece.error? ++ p.error?.toList ++
          (scan after).errors.map (LexicalError.later lines) } := by
  intro p lines
  obtain ⟨c, tail, htext⟩ := List.exists_cons_of_ne_nil (hrole none).ne_nil
  have hp : p.text.toList = text := String.toList_ofList ..
  have hfront : IsCut (ps ++ [p]) (after.toList.head?.or none) := by
    rw [htext] at hps
    refine IsCut.concat hps (by rw [hp, htext]; rfl) ⟨rfl, ?_⟩
    rw [hp]
    exact hrole _
  have hcount : (Piece.textOf (ps ++ [p])).count '\n' = lines := by
    rw [Piece.textOf_append, Piece.textOf_singleton, hp]
  rw [← textOf_pieces] at hfront
  have hcut := hfront.append (isCut_pieces after)
  rw [hcount] at hcut
  have hpieces : pieces source = ps ++ [p] ++ (pieces after).map (Piece.later lines) := by
    refine pieces_eq_of_isCut hcut ?_
    rw [Piece.textOf_append, Piece.textOf_append, Piece.textOf_singleton, Piece.textOf_later, hp,
      textOf_pieces, hsource]
  have hstop : Token.stopMark (lineAfter source.toList) =
      (Token.stopMark (lineAfter after.toList)).later lines := by
    rw [hsource, lineAfter_append]
    rfl
  rw [scan_eq source, hpieces, hstop, scan_eq after]
  have htoken : [p].filterMap Piece.token? = p.token?.toList := by
    cases h : p.token? <;> simp [h]
  have herror : [p].filterMap Piece.error? = p.error?.toList := by
    cases h : p.error? <;> simp [h]
  simp only [List.filterMap_append, Piece.filterMap_token?_later, Piece.filterMap_error?_later,
    htoken, herror, List.map_append, List.map_cons, List.map_nil, List.append_assoc]

/-! ### How a text ends -/

/-- A text ends inside a comment that runs to the end of its line. -/
def EndsInLineComment (text : String) : Prop :=
  ∃ p, (pieces text).getLast? = some p ∧ p.role = .comment ∧ ['/', '/'] <+: p.text.toList

theorem not_endsInLineComment_of_getLast? {text : String} {p : Piece}
    (hlast : (pieces text).getLast? = some p) (hrole : p.role ≠ .comment) :
    ¬ EndsInLineComment text := by
  rintro ⟨q, hq, hcomment, -⟩
  obtain rfl := Option.some.inj (hlast.symm.trans hq)
  exact hrole hcomment

/-- Pieces that stand at the end of a text also stand before a character that ends the last one. -/
theorem IsCut.before {ps : List Piece} {next : Option Char} (h : IsCut ps none)
    (hlast : ∀ p, ps.getLast? = some p → p.role.Spells p.text.toList next) : IsCut ps next := by
  rcases List.eq_nil_or_concat ps with rfl | ⟨front, p, rfl⟩
  · exact isCut_nil next
  · rw [List.concat_eq_append] at h hlast ⊢
    have hspells := hlast p (List.getLast?_concat ..)
    obtain ⟨c, tail, htext⟩ := List.exists_cons_of_ne_nil hspells.ne_nil
    have hfront := h.front
    rw [htext] at hfront
    exact hfront.concat (by rw [htext]; rfl) ⟨h.last.line, hspells⟩

/-- A piece of the language that the text ends with also stands before a blank or a slash, unless it
    goes on to the end of the line or is a star before a slash. -/
theorem Role.Spells.before {role : Role} {text : List Char} {c : Char} (h : role.Spells text none)
    (hrole : ∀ flaw, role ≠ .invalid flaw) (hline : ¬ (role = .comment ∧ ['/', '/'] <+: text))
    (hc : c.isAlphanum = false) (hequals : c ≠ '=') (hstar : text = ['*'] → c ≠ '/') :
    role.Spells text (some c) := by
  have hstop : ∀ d ∈ some c, d.isAlphanum = false := by
    rintro d ⟨⟩
    exact hc
  cases role with
  | blank => exact h
  | comment =>
    obtain hblock | ⟨body, rfl, -⟩ := h
    · exact .inl hblock
    · exact absurd ⟨rfl, body, rfl⟩ hline
  | token kind =>
    cases kind with
    | num => exact ⟨h.1, h.2.1, hstop⟩
    | id | keyword => exact ⟨⟨h.1.start, h.1.inside, hstop⟩, h.2⟩
    | symbol =>
      refine ⟨h.1, fun _ heq => hequals (Option.some.inj heq), fun htext heq => ?_⟩
      exact hstar htext (Option.some.inj heq)
    | stop => exact h
  | invalid flaw => exact absurd rfl (hrole flaw)

/-- Of the pieces of the language, other than comments to the end of the line, one alone ends in a
    star. -/
theorem Role.Spells.eq_star {role : Role} {text : List Char} (h : role.Spells text none)
    (hrole : ∀ flaw, role ≠ .invalid flaw) (hline : ¬ (role = .comment ∧ ['/', '/'] <+: text))
    (hlast : text.getLast? = some '*') : role = .token .symbol ∧ text = ['*'] := by
  have hmem : '*' ∈ text := List.mem_of_getLast? hlast
  cases role with
  | blank =>
    obtain ⟨c, rfl, hc⟩ := h
    obtain rfl := List.mem_singleton.mp hmem
    exact absurd hc (by decide)
  | comment =>
    obtain ⟨body, rfl, -⟩ | ⟨body, rfl, -⟩ := h
    · simp [List.getLast?_cons] at hlast
    · exact absurd ⟨rfl, body, rfl⟩ hline
  | token kind =>
    cases kind with
    | num => exact absurd (h.2.1 '*' hmem) (by decide)
    | id | keyword => exact absurd (h.1.inside '*' hmem) (by decide)
    | symbol =>
      have hsymbols : ∀ x ∈ symbolTexts, x.toList.getLast? = some '*' → x.toList = ['*'] := by
        simp [symbolTexts]
      have hstar := hsymbols _ h.1
      rw [String.toList_ofList] at hstar
      exact ⟨rfl, hstar hlast⟩
    | stop => cases h
  | invalid flaw => exact absurd rfl (hrole flaw)

section
variable {text : String} (hclean : (scan text).errors = [])
include hclean

/-- A text without errors has no piece that is one. -/
theorem role_ne_invalid {p : Piece} (hp : p ∈ pieces text) (flaw : LexicalFlaw) :
    p.role ≠ .invalid flaw := by
  intro hrole
  have hnone := List.filterMap_eq_nil_iff.mp hclean p hp
  rw [Piece.error?, hrole] at hnone
  cases hnone

variable (hline : ¬ EndsInLineComment text)
include hline

/-- How the last piece of such a text is spelled. -/
theorem spells_last {front : List Piece} {p : Piece} (hpieces : pieces text = front ++ [p]) :
    p.role.Spells p.text.toList none ∧ (∀ flaw, p.role ≠ .invalid flaw) ∧
      ¬ (p.role = .comment ∧ ['/', '/'] <+: p.text.toList) ∧
      p.text.toList.getLast? = text.toList.getLast? := by
  have hcut := isCut_pieces text
  have htext := textOf_pieces text
  rw [hpieces] at hcut
  rw [hpieces, Piece.textOf_append, Piece.textOf_singleton] at htext
  have hspells := hcut.last.spells
  refine ⟨hspells, role_ne_invalid hclean (by rw [hpieces]; simp), fun h => hline ⟨p, ?_, h⟩, ?_⟩
  · rw [hpieces, List.getLast?_concat]
  · rw [← htext, List.getLast?_append_of_ne_nil _ hspells.ne_nil]

/-- A text without errors stands before a blank or a slash, unless it ends in a comment to the end
    of the line or in a star. -/
theorem isCut_before {c : Char} (hc : c.isAlphanum = false) (hequals : c ≠ '=')
    (hstar : text.toList.getLast? = some '*' → c ≠ '/') : IsCut (pieces text) (some c) := by
  refine (isCut_pieces text).before fun p hlast => ?_
  obtain ⟨front, hpieces⟩ := List.getLast?_eq_some_iff.mp hlast
  obtain ⟨hspells, hrole, hcomment, hend⟩ := spells_last hclean hline hpieces
  refine hspells.before hrole hcomment hc hequals fun hsingle => hstar ?_
  rw [← hend, hsingle]
  rfl

/-- A text without errors that ends in a star ends in the symbol. -/
theorem pieces_of_star (hstar : text.toList.getLast? = some '*') : ∃ front,
    pieces text = front ++ [⟨.token .symbol, "*", lineAfter (Piece.textOf front)⟩] := by
  obtain hnil | ⟨front, p, hpieces⟩ := List.eq_nil_or_concat (pieces text)
  · have htext := textOf_pieces text
    rw [hnil] at htext
    rw [← htext] at hstar
    cases hstar
  · rw [List.concat_eq_append] at hpieces
    obtain ⟨hspells, hrole, hcomment, hend⟩ := spells_last hclean hline hpieces
    obtain ⟨hsymbol, htext⟩ := hspells.eq_star hrole hcomment (hend.trans hstar)
    have hcut := isCut_pieces text
    rw [hpieces] at hcut
    refine ⟨front, ?_⟩
    rw [hpieces, ← hsymbol, ← hcut.last.line, ← show p.text = "*" from String.toList_inj.mp htext]

end

/-! ### Comments in place of blanks -/

/-- A comment between two texts scans as a blank there does: the tokens of the first text come
    first, and what comes after has the same lexemes, classes and errors, further down by the lines
    of the comment. -/
def ScansAsBlank (before body after : String) : Prop :=
  let lines := body.toList.count '\n'
  let blank := scan (before ++ " " ++ after)
  let commented := scan (before ++ "/*" ++ body ++ "*/" ++ after)
  ∃ rest, blank.tokens = (scan before).tokens.dropLast ++ rest ∧
    commented.tokens = (scan before).tokens.dropLast ++ rest.map (Token.later lines) ∧
    commented.errors = blank.errors.map (LexicalError.later lines)

/-- A block comment is spelled as one, whatever comes after it. -/
theorem spells_block {body : List Char} (h : NeverCloses body) (next : Option Char) :
    Role.comment.Spells ('/' :: '*' :: (body ++ ['*', '/'])) next :=
  .inl ⟨body, rfl, h.concat fun _ => by decide⟩

theorem dropLast_tokens (text : String) :
    (scan text).tokens.dropLast = (pieces text).filterMap Piece.token? := by
  rw [scan_eq, List.dropLast_concat]

section
variable {before : String} (hclean : (scan before).errors = [])
include hclean

/-- A blank or a comment parts the texts around it. -/
theorem scan_parted {role : Role} {gap : String} (hcut : IsCut (pieces before) gap.toList.head?)
    (hrole : ∀ next, role.Spells gap.toList next) (hsilent : role = .blank ∨ role = .comment)
    (after : String) :
    let lines := before.toList.count '\n' + gap.toList.count '\n'
    scan (before ++ gap ++ after) =
      { tokens := (scan before).tokens.dropLast ++ (scan after).tokens.map (Token.later lines)
        errors := (scan after).errors.map (LexicalError.later lines) } := by
  intro lines
  have hsource : (before ++ gap ++ after).toList =
      Piece.textOf (pieces before) ++ gap.toList ++ after.toList := by
    rw [textOf_pieces, String.toList_append, String.toList_append]
  have hscan := scan_around _ after hcut hrole hsource
  rw [← dropLast_tokens, show (pieces before).filterMap Piece.error? = [] from hclean,
    textOf_pieces, List.count_append] at hscan
  rcases hsilent with rfl | rfl <;> simpa [Piece.token?, Piece.error?] using hscan

variable (hline : ¬ EndsInLineComment before)
include hline

theorem scan_spaced (after : String) :
    let lines := before.toList.count '\n'
    scan (before ++ " " ++ after) =
      { tokens := (scan before).tokens.dropLast ++ (scan after).tokens.map (Token.later lines)
        errors := (scan after).errors.map (LexicalError.later lines) } := by
  have hgap : " ".toList = [' '] := by simp
  have hcut : IsCut (pieces before) " ".toList.head? := by
    rw [hgap]
    exact isCut_before hclean hline rfl (by decide) fun _ => by decide
  have hblank : ∀ next, Role.blank.Spells " ".toList next := fun _ => ⟨' ', hgap, by decide⟩
  have hscan := scan_parted hclean hcut hblank (.inl rfl) after
  rwa [hgap] at hscan

theorem scan_commented {body : String} (hstar : before.toList.getLast? ≠ some '*')
    (hbody : NeverCloses body.toList) (after : String) :
    let lines := before.toList.count '\n' + body.toList.count '\n'
    scan (before ++ "/*" ++ body ++ "*/" ++ after) =
      { tokens := (scan before).tokens.dropLast ++ (scan after).tokens.map (Token.later lines)
        errors := (scan after).errors.map (LexicalError.later lines) } := by
  have hgap : ("/*" ++ body ++ "*/").toList = '/' :: '*' :: (body.toList ++ ['*', '/']) := by simp
  have hcut : IsCut (pieces before) ("/*" ++ body ++ "*/").toList.head? := by
    rw [hgap]
    exact isCut_before hclean hline rfl (by decide) fun h => absurd h hstar
  have hcomment : ∀ next, Role.comment.Spells ("/*" ++ body ++ "*/").toList next := by
    rw [hgap]
    exact spells_block hbody
  have hcount : ("/*" ++ body ++ "*/").toList.count '\n' = body.toList.count '\n' := by
    rw [hgap]
    simp
  have hsource : before ++ "/*" ++ body ++ "*/" ++ after =
      before ++ ("/*" ++ body ++ "*/") ++ after := by
    simp only [String.append_assoc]
  have hscan := scan_parted hclean hcut hcomment (.inr rfl) after
  rwa [hcount, ← hsource] at hscan

/-- A star takes the slash that follows it. -/
theorem scan_star_slash (hstar : before.toList.getLast? = some '*') (after : String) :
    let lines := before.toList.count '\n'
    scan (before ++ "/" ++ after) =
      { tokens := (scan before).tokens.dropLast.dropLast ++
          (scan after).tokens.map (Token.later lines)
        errors := ⟨.unmatchedClose, "*/", 1 + lines⟩ ::
          (scan after).errors.map (LexicalError.later lines) } := by
  intro lines
  obtain ⟨front, hpieces⟩ := pieces_of_star hclean hline hstar
  have hcut : IsCut front ['*', '/'].head? := by
    have hcut := isCut_pieces before
    rw [hpieces] at hcut
    simpa using hcut.front
  have htext : Piece.textOf front ++ ['*'] = before.toList := by
    rw [← textOf_pieces, hpieces, Piece.textOf_append, Piece.textOf_singleton]
    simp
  have hsource : (before ++ "/" ++ after).toList =
      Piece.textOf front ++ ['*', '/'] ++ after.toList := by
    rw [String.toList_append, String.toList_append, ← htext]
    simp
  have hfront : (Piece.textOf front).count '\n' = lines := by
    simp [lines, ← htext]
  have hlines : (Piece.textOf front ++ ['*', '/']).count '\n' = lines := by
    rw [List.count_append, hfront]
    rfl
  have htokens : (scan before).tokens.dropLast.dropLast = front.filterMap Piece.token? := by
    rw [dropLast_tokens, hpieces, List.filterMap_append]
    exact List.dropLast_concat
  have herrors : front.filterMap Piece.error? = [] := by
    have herrors : (pieces before).filterMap Piece.error? = [] := hclean
    rw [hpieces, List.filterMap_append] at herrors
    exact (List.append_eq_nil_iff.mp herrors).1
  have hclose : ∀ next, (Role.invalid .unmatchedClose).Spells ['*', '/'] next := fun _ => rfl
  have hscan := scan_around _ after hcut hclose hsource
  rw [hlines, ← htokens, herrors, lineAfter, hfront] at hscan
  simpa [Piece.token?, Piece.error?] using hscan

end

theorem Token.later_later (m n : Nat) (t : Token) : (t.later m).later n = t.later (m + n) := by
  rw [later, later, later, Nat.add_assoc]

theorem LexicalError.later_later (m n : Nat) (e : LexicalError) :
    (e.later m).later n = e.later (m + n) := by
  rw [later, later, later, Nat.add_assoc]

/-- Let a text without errors that does not end in a comment to the end of the line stand before a
    block comment. If it does not end in a star, then the comment scans as a blank. If it does, then
    the star and the slash that should have started the comment are an error together, and scanning
    goes on right behind them. -/
theorem block_comment_scans_as_blank (before body after : String)
    (hclean : (scan before).errors = []) (hline : ¬ EndsInLineComment before)
    (hbody : NeverCloses body.toList) :
    (before.toList.getLast? ≠ some '*' → ScansAsBlank before body after) ∧
    (before.toList.getLast? = some '*' →
      let lines := before.toList.count '\n'
      let remaining := scan ("*" ++ body ++ "*/" ++ after)
      scan (before ++ "/*" ++ body ++ "*/" ++ after) =
        { tokens := (scan before).tokens.dropLast.dropLast ++
            remaining.tokens.map (Token.later lines)
          errors := ⟨.unmatchedClose, "*/", 1 + lines⟩ ::
            remaining.errors.map (LexicalError.later lines) }) := by
  constructor
  · intro hstar
    have hblank := scan_spaced hclean hline after
    have hcomment := scan_commented hclean hline hstar hbody after
    refine ⟨(scan after).tokens.map (Token.later (before.toList.count '\n')), ?_, ?_, ?_⟩
    · rw [hblank]
    · rw [hcomment, List.map_map]
      simp only [Function.comp_def, Token.later_later]
    · rw [hcomment, hblank, List.map_map]
      simp only [Function.comp_def, LexicalError.later_later]
  · intro hstar
    have hsource : before ++ "/*" ++ body ++ "*/" ++ after =
        before ++ "/" ++ ("*" ++ body ++ "*/" ++ after) := by
      simp [← String.toList_inj]
    rw [hsource]
    exact scan_star_slash hclean hline hstar _

/-- A comment with stars and slashes in it, over two lines, behind a name and before a number and an
    error; and a comment right behind a star. -/
theorem block_comment_scans_as_blank_between :
    ((scan "a // b\nx1").errors = [] ∧ ¬ EndsInLineComment "a // b\nx1" ∧
      NeverCloses "*\n/*".toList ∧ ScansAsBlank "a // b\nx1" "*\n/*" "2 @") ∧
    (scan ("a*" ++ "/*" ++ "x" ++ "*/" ++ "b")).errors.head? = some ⟨.unmatchedClose, "*/", 1⟩ := by
  have hclean : (scan "a // b\nx1").errors = [] := by decide
  have hlast : (pieces "a // b\nx1").getLast? = some ⟨.token .id, "x1", 2⟩ := by decide
  have hline := not_endsInLineComment_of_getLast? hlast nofun
  have hbody : NeverCloses "*\n/*".toList := by unfold NeverCloses; decide
  have hstarLast : (pieces "a*").getLast? = some ⟨.token .symbol, "*", 1⟩ := by decide
  have hstarLine := not_endsInLineComment_of_getLast? hstarLast nofun
  refine ⟨⟨hclean, hline, hbody,
    (block_comment_scans_as_blank _ _ "2 @" hclean hline hbody).1 (by decide)⟩, ?_⟩
  rw [(block_comment_scans_as_blank "a*" "x" "b" (by decide) hstarLine
    (by unfold NeverCloses; decide)).2 (by decide)]
  decide

/-- Right behind a star a comment is not a blank: the star and the slash are an error. -/
theorem comment_behind_star_is_no_blank :
    (scan "a*").errors = [] ∧ ¬ EndsInLineComment "a*" ∧ NeverCloses "x".toList ∧
      ¬ ScansAsBlank "a*" "x" "b" := by
  have hlast : (pieces "a*").getLast? = some ⟨.token .symbol, "*", 1⟩ := by decide
  refine ⟨by decide, not_endsInLineComment_of_getLast? hlast nofun,
    by unfold NeverCloses; decide, ?_⟩
  rintro ⟨rest, -, -, herrors⟩
  have hblank : (scan ("a*" ++ " " ++ "b")).errors = [] := by decide
  have hcommented : (scan ("a*" ++ "/*" ++ "x" ++ "*/" ++ "b")).errors ≠ [] := by decide
  rw [hblank] at herrors
  exact hcommented herrors

end OnePass
