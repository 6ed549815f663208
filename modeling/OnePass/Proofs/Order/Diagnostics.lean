import OnePass.Proofs.Order.Steps
import OnePass.Proofs.Patches.Effects
import OnePass.Proofs.Token.Scan
import OnePass.Proofs.Translate.Accepted

/-!
# The order of diagnostics

Diagnostics are recorded as steps are performed, each at the line of its step's token. Tokens come in
the order of their lines, and so do diagnostics, unless a step was postponed past the lines that it
reports after. A text that keeps every phrase of this kind on one line has its diagnostics in order,
and there are texts that have not. -/

namespace OnePass

open Gen

/-! ### Lines of tokens -/

/-- Pieces come in the order of their lines. -/
theorem IsCut.pairwise_line {ps : List Piece} {next : Option Char} (h : IsCut ps next) :
    ps.Pairwise (·.line ≤ ·.line) := by
  have hline : ∀ i (hi : i < ps.length), ps[i].line = lineAfter (Piece.textOf (ps.take i)) :=
    fun i hi => (h (ps.take i) ps[i] (ps.drop (i + 1)) (by simp)).line
  rw [List.pairwise_iff_getElem]
  intro i j hi hj hij
  obtain ⟨more, hmore⟩ := List.take_prefix_take_left (Nat.le_of_lt hij) (l := ps)
  rw [hline i hi, hline j hj, ← hmore, Piece.textOf_append, lineAfter, lineAfter, List.count_append]
  omega

theorem Piece.line_of_token? {p : Piece} {t : Token} (h : p.token? = some t) : t.line = p.line := by
  rw [Piece.token?] at h
  split at h
  · obtain rfl := Option.some.inj h
    rfl
  · cases h

/-- Tokens come in the order of their lines, and the stop mark is on the last. -/
theorem pairwise_line_scan (source : String) : (scan source).tokens.Pairwise (·.line ≤ ·.line) := by
  obtain ⟨hcuts, hline⟩ := Scanner.cuts_run source
  rw [scan]
  refine List.pairwise_append.mpr ⟨?_, List.pairwise_singleton _ _, ?_⟩
  · refine List.pairwise_filterMap.mpr (hcuts.cut.pairwise_line.imp fun hle t ht t' ht' => ?_)
    rwa [Piece.line_of_token? ht, Piece.line_of_token? ht']
  · intro t ht stop hstop
    obtain ⟨piece, hpiece, htoken⟩ := List.mem_filterMap.mp ht
    obtain ⟨before, after, hpieces⟩ := List.append_of_mem hpiece
    rw [List.mem_singleton.mp hstop, Piece.line_of_token? htoken, hline,
      (hcuts.cut before piece after hpieces).line, ← hcuts.text, hpieces, Piece.textOf_append]
    simp only [lineAfter, Token.stopMark, List.count_append]
    omega

/-- So do the tokens before the first stop mark, and this mark itself. -/
theorem pairwise_line_splitStop {tokens : List Token} (h : tokens.Pairwise (·.line ≤ ·.line))
    {stop : Token} (hmem : stop ∈ tokens) (hstop : stop.kind = .stop) :
    (tokens.takeWhile (·.kind != .stop) ++ [(splitStop tokens).2]).Pairwise (·.line ≤ ·.line) := by
  have hsplit : tokens.takeWhile (·.kind != .stop) ++ tokens.dropWhile (·.kind != .stop) = tokens :=
    List.takeWhile_append_dropWhile
  rw [splitStop]
  split
  · rename_i first rest hrest
    rw [hrest] at hsplit
    refine List.Pairwise.sublist ?_ (hsplit ▸ h)
    exact List.Sublist.append_left (by simp) _
  · rename_i hnone
    have hkind := List.dropWhile_eq_nil_iff.mp hnone stop hmem
    simp [hstop] at hkind

/-! ### A run -/

/-- What notes mistakes at any line notes none. -/
theorem Generator.ReportsAt.diagnostics_eq {g g' : Generator} (h : ∀ line, g.ReportsAt line g') :
    g'.diagnostics.toList = g.diagnostics.toList := by
  obtain ⟨ds, hds, hzero⟩ := h 0
  obtain ⟨ds', hds', hone⟩ := h 1
  obtain rfl : ds = ds' := List.append_cancel_left (hds.symm.trans hds')
  cases ds with
  | nil => rw [hds, List.append_nil]
  | cons d ds => exact absurd ((hzero d (by simp)).symm.trans (hone d (by simp))) (by decide)

theorem Gen.Spends.notes {line n n' : Nat} {m : Gen Unit} {g g' : Generator} (h : Spends line n n' m)
    (hm : m g = .ok () g') : g.ReportsAt line g' := by
  have hspent := h g
  rw [hm] at hspent
  exact hspent.1

/-- A step reports at the line of its token, if it is loud. -/
theorem notes_perform {s : Step} {g g' : Generator} (h : perform s g = .ok () g') :
    ∃ ds, g'.diagnostics.toList = g.diagnostics.toList ++ ds ∧
      ∀ d ∈ ds, s.action.isSilent = false ∧ d.line = s.token.line := by
  cases hsilent : s.action.isSilent with
  | true =>
    have hnone := Generator.ReportsAt.diagnostics_eq fun _ =>
      (Spends.perform_silent (n := 0) hsilent).notes h
    exact ⟨[], by rw [hnone, List.append_nil], nofun⟩
  | false =>
    obtain ⟨ds, hds, hlines⟩ := (Spends.perform (n := 0) s).notes h
    exact ⟨ds, hds, fun d hd => ⟨rfl, hlines d hd⟩⟩

/-- A run reports at the lines of its loud steps, and in their order. -/
theorem notes_run {R : Nat → Nat → Prop} (hrefl : ∀ n, R n n) {steps : List Step}
    {g g' : Generator} (h : steps.forM perform g = .ok () g')
    (hsteps : (loud steps).Pairwise fun s s' => R s.token.line s'.token.line) :
    ∃ ds, g'.diagnostics.toList = g.diagnostics.toList ++ ds ∧
      (∀ d ∈ ds, ∃ s ∈ loud steps, d.line = s.token.line) ∧
      ds.Pairwise fun d d' => R d.line d'.line := by
  induction steps generalizing g with
  | nil =>
    cases h
    exact ⟨[], (List.append_nil _).symm, nofun, .nil⟩
  | cons s steps ih =>
    obtain ⟨_, mid, hfirst, hrest⟩ := bind_ok h
    obtain ⟨ds, hds, hlines⟩ := notes_perform hfirst
    have hsub : (loud steps).Sublist (loud (s :: steps)) := (List.sublist_cons_self s steps).filter _
    have hloud : ∀ d ∈ ds, loud (s :: steps) = s :: loud steps := fun d hd => by
      rw [loud_cons, (hlines d hd).1]
      rfl
    obtain ⟨ds', hds', hlines', hpairs⟩ := ih hrest (hsteps.sublist hsub)
    refine ⟨ds ++ ds', by rw [hds', hds, List.append_assoc], fun d hd => ?_, ?_⟩
    · rcases List.mem_append.mp hd with hd | hd
      · exact ⟨s, by simp [hloud d hd], (hlines d hd).2⟩
      · obtain ⟨s', hs', hline⟩ := hlines' d hd
        exact ⟨s', hsub.subset hs', hline⟩
    · refine List.pairwise_append.mpr ⟨?_, hpairs, fun d hd d' hd' => ?_⟩
      · refine List.pairwise_of_forall_mem_list fun d hd d' hd' => ?_
        rw [(hlines d hd).2, (hlines d' hd').2]
        exact hrefl _
      · obtain ⟨s', hs', hline⟩ := hlines' d' hd'
        rw [(hlines d hd).2, hline]
        rw [hloud d hd] at hsteps
        exact List.rel_of_pairwise_cons hsteps hs'

/-! ### Programs -/

/-- A source that compiles is the text of a tree. Two mistakes found in it are reported in the order
    of their lines, unless the action that finds the second is postponed past the place of the first;
    so all are in order if whatever is postponed keeps to one line. -/
theorem diagnostics_ordered_unless_postponed (layout : Layout) (source : String) (out : Output)
    (hcompile : compile layout source = .ok out) :
    (∃ p : Program, p.IsTextOf source) ∧ ∀ p : Program, p.IsTextOf source →
      (out.diagnostics.Pairwise fun d d' => InOrder p.postponed d.line d'.line) ∧
      ((∀ c ∈ p.postponed, ∀ t ∈ c.past, t.line = c.token.line) →
        out.diagnostics.Pairwise (·.line ≤ ·.line)) := by
  refine ⟨exists_isTextOf_of_compile hcompile, fun p htext => ?_⟩
  have hstop : Token.stopMark (Scanner.run source).line ∈ (scan source).tokens := by simp [scan]
  have hlines := pairwise_line_splitStop (pairwise_line_scan source) hstop rfl
  rw [← htext.tokens] at hlines
  obtain ⟨g, hrun, hout⟩ := (compile_eq_ok_iff_run htext).mp hcompile
  obtain ⟨ds, hds, -, hpairs⟩ := notes_run (fun n => Or.inl n.le_refl)
    (Generator.eq_ok_of_run hrun) ((p.follow _).ordered hlines)
  obtain rfl : ds = out.diagnostics := (hds.symm.trans (Generator.output_diagnostics hout).symm)
  refine ⟨hpairs, fun hkeep => hpairs.imp fun hd => ?_⟩
  rcases hd with hle | ⟨c, hc, hline', t, ht, hline⟩
  · exact hle
  · rw [hline, hline', hkeep c hc t ht]

/-- An index on the line below the name before it. -/
def spreadIndex : String := "int a;\nvoid main(void) \x7b\n a[\n  q];\n\x7d"

theorem compile_spreadIndex : ∃ out, compile {} spreadIndex = .ok out ∧
    out.diagnostics = [⟨4, .notDefined "q"⟩, ⟨3, .notArray "a"⟩] := by
  have hdiagnostics : (compile {} spreadIndex).map (·.diagnostics) =
      .ok [⟨4, .notDefined "q"⟩, ⟨3, .notArray "a"⟩] := by cbv
  cases hcompile : compile {} spreadIndex with
  | error failure =>
    rw [hcompile] at hdiagnostics
    cases hdiagnostics
  | ok out =>
    rw [hcompile] at hdiagnostics
    exact ⟨out, rfl, Except.ok.inj hdiagnostics⟩

/-- The index is looked at first, and what it is an index into is postponed past it. -/
theorem diagnostics_ordered_unless_postponed_index :
    ∃ out, compile {} spreadIndex = .ok out ∧
      out.diagnostics = [⟨4, .notDefined "q"⟩, ⟨3, .notArray "a"⟩] ∧
      (∃ p : Program, p.IsTextOf spreadIndex) ∧ ∀ p : Program, p.IsTextOf spreadIndex →
        (out.diagnostics.Pairwise fun d d' => InOrder p.postponed d.line d'.line) ∧
        ((∀ c ∈ p.postponed, ∀ t ∈ c.past, t.line = c.token.line) →
          out.diagnostics.Pairwise (·.line ≤ ·.line)) := by
  obtain ⟨out, hcompile, hdiagnostics⟩ := compile_spreadIndex
  exact ⟨out, hcompile, hdiagnostics,
    diagnostics_ordered_unless_postponed {} spreadIndex out hcompile⟩

/-- Diagnostics need not be in the order of their lines. -/
theorem spread_index_reported_out_of_order :
    ∃ out, compile {} spreadIndex = .ok out ∧ out.diagnostics.map (·.line) = [4, 3] ∧
      ¬ out.diagnostics.Pairwise (·.line ≤ ·.line) := by
  obtain ⟨out, hcompile, hdiagnostics⟩ := compile_spreadIndex
  refine ⟨out, hcompile, ?_⟩
  rw [hdiagnostics]
  decide

end OnePass
