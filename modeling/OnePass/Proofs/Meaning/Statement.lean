import OnePass.Proofs.Meaning.Command

/-!
# Running statements

The code of a statement takes the machine where the statement takes the program. Where it goes on
depends on how the statement ends: behind its code, behind the innermost loop, or at the end of the
function. -/

namespace OnePass

open Planned (plain settle)

/-! ### Jumps that are filled in -/

/-- The instruction of code under way, given where the innermost loop and the function end. -/
def Planned.resolve (exit stop : Nat) : Planned → Instruction
  | .code i => i
  | .leave => .jump exit
  | .back => .jump stop

namespace Planned

variable {exit stop : Nat}

theorem map_resolve_plain (is : List Instruction) : (plain is).map (resolve exit stop) = is := by
  rw [plain, List.map_map]
  exact List.map_id is

/-- A loop fills in the jumps out of it, whatever is around it. -/
theorem map_resolve_settle (inner : Nat) (ps : List Planned) :
    (ps.map (settle .leave (.jump inner))).map (resolve exit stop) =
      ps.map (resolve inner stop) := by
  rw [List.map_map]
  refine List.map_congr_left fun p _ => ?_
  cases p <;> rfl

theorem resolve_stop : resolve stop stop = finish stop := by
  funext p
  cases p <;> rfl

end Planned

/-- Where a program goes on after a statement. -/
def Flow.target (next exit stop : Nat) : Flow → Nat
  | .next => next
  | .leave => exit
  | .back => stop

variable {S : Stage}

/-- A loop goes on as long as its condition gives zero, and is left where its code ends. -/
theorem Stage.Advances.repeatUntil {pc behind exit : Nat} {x x' : Execution}
    {body : Execution → Option (Flow × Execution)} {cond : Execution → Option Word} (test : Nat)
    (hbody : ∀ x flow x', body x = some (flow, x') →
      S.Advances pc x (flow.target test behind S.stop) x')
    (hcond : ∀ x w, cond x = some w → S.Advances test x (if w = 0 then pc else behind) x)
    {n : Nat} {flow : Flow} (h : repeatUntil? body cond n x = some (flow, x')) :
    S.Advances pc x (flow.target behind exit S.stop) x' := by
  induction n generalizing x with
  | zero => cases h
  | succ n ih =>
    rw [repeatUntil?, Option.bind_eq_some_iff] at h
    obtain ⟨⟨flow₁, x₁⟩, hrun, h⟩ := h
    have hround := hbody x flow₁ x₁ hrun
    cases flow₁ with
    | next =>
      obtain ⟨w, hw, h⟩ := Option.bind_eq_some_iff.mp h
      have htest := hround.trans (hcond x₁ w hw)
      by_cases hzero : w = 0
      · rw [if_pos hzero] at h htest
        exact htest.trans (ih h)
      · rw [if_neg hzero] at h htest
        cases h
        exact htest
    | leave =>
      cases h
      exact hround
    | back =>
      cases h
      exact hround

/-! ### Where variables live -/

/-- The variables from a number on have homes at some places, and all others live before these or
    behind. -/
inductive Residence.Houses (R : Residence) (n lo : Nat) (places : List (VarDecl × Nat)) (hi : Nat) :
    Prop
  | intro (left right) : R.homes = left ++ (places ++ right) → left.length = n →
      (∀ x ∈ left, x.2 + Word.size * x.1.words ≤ lo) → (∀ x ∈ right, hi ≤ x.2) →
      Houses R n lo places hi

namespace Residence.Houses

variable {R : Residence} {n lo mid hi : Nat} {ps qs : List (VarDecl × Nat)}

/-- Nobody lives where the places do not reach. -/
theorem clear (h : R.Houses n lo ps hi) {lo' hi' : Nat}
    (hps : ∀ x ∈ ps, x.2 + Word.size * x.1.words ≤ lo' ∨ hi' ≤ x.2) (hlo : lo ≤ lo')
    (hhi : hi' ≤ hi) (hheader : R.base + Record.header ≤ lo') (hsize : hi' ≤ R.base + R.size) :
    R.Clear lo' hi' := by
  obtain ⟨left, right, hhomes, -, hleft, hright⟩ := h
  refine ⟨hheader, hsize, fun x hx => ?_⟩
  rw [hhomes, List.mem_append, List.mem_append] at hx
  rcases hx with hx | hx | hx
  · exact .inl (Nat.le_trans (hleft x hx) hlo)
  · exact hps x hx
  · exact .inr (Nat.le_trans hhi (hright x hx))

theorem mono (h : R.Houses mid lo ps hi) {lo' hi' : Nat} (hlo : lo ≤ lo') (hhi : hi' ≤ hi) :
    R.Houses mid lo' ps hi' := by
  obtain ⟨left, right, hhomes, hcount, hleft, hright⟩ := h
  exact ⟨left, right, hhomes, hcount, fun x hx => Nat.le_trans (hleft x hx) hlo,
    fun x hx => Nat.le_trans hhi (hright x hx)⟩

theorem left (h : R.Houses n lo (ps ++ qs) hi) (hqs : ∀ x ∈ qs, mid ≤ x.2) (hmid : mid ≤ hi) :
    R.Houses n lo ps mid := by
  obtain ⟨left, right, hhomes, hcount, hleft, hright⟩ := h
  refine ⟨left, qs ++ right, by rw [hhomes, List.append_assoc ps], hcount, hleft, fun x hx => ?_⟩
  rcases List.mem_append.mp hx with hx | hx
  · exact hqs x hx
  · exact Nat.le_trans hmid (hright x hx)

theorem right (h : R.Houses n lo (ps ++ qs) hi) (hps : ∀ x ∈ ps, x.2 + Word.size * x.1.words ≤ mid)
    (hmid : lo ≤ mid) : R.Houses (n + ps.length) mid qs hi := by
  obtain ⟨left, right, hhomes, hcount, hleft, hright⟩ := h
  refine ⟨left ++ ps, right, ?_, by rw [List.length_append, hcount], fun x hx => ?_, hright⟩
  · rw [hhomes, List.append_assoc, List.append_assoc]
  · rcases List.mem_append.mp hx with hx | hx
    · exact Nat.le_trans (hleft x hx) hmid
    · exact hps x hx

end Residence.Houses

/-- A block declares its variables at the places where they live. -/
theorem Stage.Knows.openBlock {env : Environment} {t t₁ : SymbolTable} {f : OpenFunction}
    {locals : List VarDecl} {n hi : Nat} {places : List (VarDecl × Nat)} (h : S.Knows env t)
    (hf : t.function = some f)
    (hlocals :
      Chain VarDecl.Declares locals (t.withFunction { f with blocks := {} :: f.blocks }) t₁)
    (hhouses : S.Houses n (S.base + t.recordSize)
      (VarDecl.layOut (S.base + t.recordSize) locals ++ places) hi) :
    S.Knows (env.declare n locals) t₁ := by
  obtain ⟨left, right, hhomes, rfl, -, -⟩ := hhouses
  have hsize := SymbolTable.recordSize_withBlocks hf ({} :: f.blocks)
  have hnames : S.Names env (t.withFunction { f with blocks := {} :: f.blocks }) := by
    have hfind : ∀ x, (t.withFunction { f with blocks := {} :: f.blocks }).find? x = t.find? x := by
      intro x
      rw [SymbolTable.find?, SymbolTable.find?, SymbolTable.scopes, SymbolTable.scopes, hf]
      rfl
    intro x entity hx
    obtain ⟨s, hs, hdenotes⟩ := h.names x entity hx
    exact ⟨s, (hfind x).trans hs, hdenotes⟩
  rw [List.append_assoc, ← hsize, ← SymbolTable.frontier_of_isSome rfl] at hhomes
  refine ⟨hlocals.names hnames hhomes, hlocals.linked (h.linked.openBlock hf),
    hlocals.values rfl (h.values.openBlock hf), ?_⟩
  rw [hlocals.recordSize_eq rfl, hsize]
  exact Nat.le_trans h.header (Nat.le_add_right ..)

/-- What is needed where phrases with some variables stand, between two tables. -/
structure Stage.Hosts (S : Stage) (env : Environment) (n : Nat) (t : SymbolTable)
    (places : List (VarDecl × Nat)) (t' : SymbolTable) : Prop where
  knows : S.Knows env t
  houses : S.Houses n (S.base + t.recordSize) places (S.base + t'.recordSize)
  size : t'.recordSize ≤ S.size

namespace Stage.Hosts

variable {env : Environment} {n : Nat} {t t₁ t₂ t' : SymbolTable} {ps qs : List (VarDecl × Nat)}

/-- The temporaries between two tables are nobody's homes. -/
theorem clear (h : S.Hosts env n t ps t') (hlo : t.Extends t₁) (hhi : t₂.Extends t')
    (hps : ∀ x ∈ ps, x.2 + Word.size * x.1.words ≤ S.base + t₁.recordSize ∨
      S.base + t₂.recordSize ≤ x.2) :
    S.Clear (S.base + t₁.recordSize) (S.base + t₂.recordSize) := by
  have hheader := h.knows.header
  have hsize := h.size
  have hle₁ := hlo.recordSize_le
  have hle₂ := hhi.recordSize_le
  exact h.houses.clear hps (by omega) (by omega) (by omega) (by omega)

theorem mono (h : S.Hosts env n t ps t') (hlo : t.Extends t₁) (hhi : t₂.Extends t') :
    S.Hosts env n t₁ ps t₂ := by
  have hle₁ := hlo.recordSize_le
  have hle₂ := hhi.recordSize_le
  exact ⟨h.knows.of_extends hlo, h.houses.mono (by omega) (by omega),
    Nat.le_trans hle₂ h.size⟩

theorem left (h : S.Hosts env n t (ps ++ qs) t') (ht : t₁.Extends t')
    (hqs : ∀ x ∈ qs, S.base + t₁.recordSize ≤ x.2) : S.Hosts env n t ps t₁ := by
  have hle := ht.recordSize_le
  exact ⟨h.knows, h.houses.left hqs (by omega), Nat.le_trans hle h.size⟩

theorem right (h : S.Hosts env n t (ps ++ qs) t') (ht : t.Extends t₁)
    (hps : ∀ x ∈ ps, x.2 + Word.size * x.1.words ≤ S.base + t₁.recordSize) :
    S.Hosts env (n + ps.length) t₁ qs t' := by
  have hle := ht.recordSize_le
  exact ⟨h.knows.of_extends ht, h.houses.right hps (by omega), h.size⟩

end Stage.Hosts

/-! ### Statements -/

theorem VarDecl.length_layOut (base : Nat) (ds : List VarDecl) :
    (layOut base ds).length = ds.length := by
  rw [← List.length_map (f := (·.1)), map_fst_layOut]

mutual

/-- A statement has a place for each of its variables. -/
theorem Stmt.length_places {valued : String → Bool} : ∀ (s : Stmt) (base : Nat),
    (s.places valued base).length = s.variables
  | .empty _, _ => rfl
  | .leave _ _, _ => rfl
  | .return _ _, _ => rfl
  | .expr _ _, _ => rfl
  | .returnValue _ _ _, _ => rfl
  | .block _ locals body _, _ => by
    rw [Stmt.places, List.length_append, VarDecl.length_layOut, Stmt.length_listPlaces body]
    rfl
  | .ifThen _ _ _ _ body, _ => Stmt.length_places body _
  | .ifElse _ _ _ _ body _ other, _ => by
    rw [Stmt.places, List.length_append, Stmt.length_places body, Stmt.length_places other]
    rfl
  | .loop _ body _ _ _ _, _ => Stmt.length_places body _

theorem Stmt.length_listPlaces {valued : String → Bool} : ∀ (ss : List Stmt) (base : Nat),
    (Stmt.listPlaces valued base ss).length = Stmt.listVariables ss
  | [], _ => rfl
  | s :: ss, _ => by
    rw [Stmt.listPlaces, List.length_append, Stmt.length_places s, Stmt.length_listPlaces ss]
    rfl

end

/-- The code of a statement takes the machine where the statement takes the program. -/
def Stmt.Runs (S : Stage) (fuel : Nat) (s : Stmt) : Prop :=
  ∀ ⦃inLoop : Bool⦄ ⦃pc exit n : Nat⦄ ⦃t t' : SymbolTable⦄ ⦃ps : List Planned⦄ ⦃env : Environment⦄
    ⦃x x' : Execution⦄ ⦃flow : Flow⦄,
    s.Translates S.layout inLoop pc t ps t' →
    S.Hosts env n t (s.places S.valued (S.base + t.recordSize)) t' →
    CodeAt S.code pc (ps.map (Planned.resolve exit S.stop)) → exit ≤ S.code.length →
    s.run? fuel env n x = some (flow, x') →
      S.Advances pc x (flow.target (pc + ps.length) exit S.stop) x'

/-- The code of some statements takes the machine where these take the program. -/
def Stmt.ListRuns (S : Stage) (fuel : Nat) (ss : List Stmt) : Prop :=
  ∀ ⦃inLoop : Bool⦄ ⦃pc exit n : Nat⦄ ⦃t t' : SymbolTable⦄ ⦃ps : List Planned⦄ ⦃env : Environment⦄
    ⦃x x' : Execution⦄ ⦃flow : Flow⦄,
    Stmt.ListTranslates S.layout inLoop pc t ss ps t' →
    S.Hosts env n t (Stmt.listPlaces S.valued (S.base + t.recordSize) ss) t' →
    CodeAt S.code pc (ps.map (Planned.resolve exit S.stop)) → exit ≤ S.code.length →
    Stmt.listRun? fuel ss env n x = some (flow, x') →
      S.Advances pc x (flow.target (pc + ps.length) exit S.stop) x'

namespace Stmt.Runs

variable {fuel : Nat} {body other : Stmt} {cond : Expr}

theorem empty (semicolon : Nat) : (Stmt.empty semicolon).Runs S fuel := by
  intro inLoop pc exit n t t' ps env x x' flow h _ _ _ hrun
  cases h
  cases hrun
  exact .refl pc x

theorem expr {e : Expr} (he : e.isCommand) (semicolon : Nat) :
    (Stmt.expr e semicolon).Runs S fuel := by
  intro inLoop pc exit n t t' ps env x x' flow h hhosts hcode _ hrun
  cases h with
  | expr h =>
    rw [Planned.map_resolve_plain] at hcode
    obtain ⟨x₁, hx, heq⟩ := Option.map_eq_some_iff.mp hrun
    cases heq
    rw [Planned.length_plain]
    exact Expr.advances he h hhosts.knows
      (hhosts.clear (.refl t) (.refl t') (List.forall_mem_nil _)) hcode hx

theorem leave (line semicolon : Nat) : (Stmt.leave line semicolon).Runs S fuel := by
  intro inLoop pc exit n t t' ps env x x' flow h _ hcode hexit hrun
  cases h
  cases hrun
  exact .jump hcode.head hexit

theorem returns (line semicolon : Nat) : (Stmt.return line semicolon).Runs S fuel := by
  intro inLoop pc exit n t t' ps env x x' flow h _ hcode _ hrun
  cases h
  cases hrun
  exact .jump hcode.head S.stop_le

theorem returnValue {e : Expr} (he : e.isPure) (line semicolon : Nat) :
    (Stmt.returnValue line e semicolon).Runs S fuel := by
  intro inLoop pc exit n t t' ps env x x' flow h hhosts hcode _ hrun
  cases h with
  | returnValue h hint =>
    rw [List.map_append, Planned.map_resolve_plain] at hcode
    obtain ⟨w, hw, heq⟩ := Option.map_eq_some_iff.mp hrun
    cases heq
    exact (Expr.advances_storeReturn he h hint hhosts.knows.names
      (hhosts.clear (.refl t) (.refl t') (List.forall_mem_nil _)) hcode.left hw).trans
      (.jump hcode.right.head S.stop_le)

theorem ifThen (hcond : cond.isPure) (hbody : body.Runs S fuel) (line opening closing : Nat) :
    (Stmt.ifThen line opening cond closing body).Runs S fuel := by
  intro inLoop pc exit n t t' ps env x x' flow h hhosts hcode hexit hrun
  cases h with
  | ifThen htest h =>
    rename_i is c t₁ ps
    have hsize := htest.recordSize_eq hhosts.knows.values
    have hext := h.extends
    rw [Stmt.places, Nat.add_assoc, ← hsize] at hhosts
    rw [List.map_append, Planned.map_resolve_plain] at hcode
    have hend := hcode.length_le
    simp only [List.length_append, List.length_map, List.length_singleton] at hend
    obtain ⟨w, hw, hrun⟩ := Option.bind_eq_some_iff.mp hrun
    have hclear := hhosts.clear (.refl t) hext
      fun x hx => .inr ((Stmt.ascending body _).bounds x hx).1
    have htaken := htest.advances hcond hhosts.knows.names hclear hcode.left (by omega) hw
    have hbehind :
        pc + (plain (is ++ [.jumpIfFalse c (pc + is.length + 1 + ps.length)]) ++ ps).length =
          pc + is.length + 1 + ps.length := by
      simp only [List.length_append, Planned.length_plain, List.length_singleton]
      omega
    rw [hbehind]
    by_cases hzero : w = 0
    · rw [if_pos hzero] at hrun htaken
      cases hrun
      exact htaken
    · rw [if_neg hzero] at hrun htaken
      have hright := hcode.right
      rw [List.length_append, List.length_singleton, ← Nat.add_assoc] at hright
      exact htaken.trans (hbody h (hhosts.mono htest.extends (.refl _)) hright hexit hrun)

theorem ifElse (hcond : cond.isPure) (hbody : body.Runs S fuel) (hother : other.Runs S fuel)
    (line opening closing elseLine : Nat) :
    (Stmt.ifElse line opening cond closing body elseLine other).Runs S fuel := by
  intro inLoop pc exit n t t' ps env x x' flow h hhosts hcode hexit hrun
  cases h with
  | ifElse htest h h' =>
    rename_i is c t₁ ps t₂ qs
    have hsize := htest.recordSize_eq hhosts.knows.values
    have hvalues := hhosts.knows.values.of_extends htest.extends
    have hsize' := h.recordSize_eq hvalues
    have hext := h.extends
    have hext' := h'.extends
    -- each branch has its places from where the record ends before it
    rw [Stmt.places, Nat.mul_add, ← Nat.add_assoc, Nat.add_assoc S.base, ← hsize,
      Nat.add_assoc S.base, ← hsize'] at hhosts
    have hplaces : Ascending _ (body.places S.valued (S.base + t₁.recordSize)) _ :=
      body.ascending _
    rw [Nat.add_assoc, ← hsize'] at hplaces
    have hplaces' : Ascending _ (other.places S.valued (S.base + t₂.recordSize)) _ :=
      other.ascending _
    obtain ⟨w, hw, hrun⟩ := Option.bind_eq_some_iff.mp hrun
    have hclear := hhosts.clear (.refl t) (hext.trans hext') fun x hx => .inr <| by
      have hle := hext.recordSize_le
      rcases List.mem_append.mp hx with hx | hx
      · exact (hplaces.bounds x hx).1
      · have := (hplaces'.bounds x hx).1
        omega
    simp only [List.map_append, Planned.map_resolve_plain] at hcode
    have hend := hcode.length_le
    have hthen := hcode.left.left.right
    have hskip := hcode.left.right.head
    have helse := hcode.right
    simp only [List.length_append, List.length_map, List.length_singleton, ← Nat.add_assoc]
      at hend hthen hskip helse
    simp only [List.length_append, Planned.length_plain, List.length_singleton, ← Nat.add_assoc]
    have htaken := htest.advances hcond hhosts.knows.names hclear hcode.left.left.left (by omega) hw
    by_cases hzero : w = 0
    · rw [if_pos hzero] at hrun htaken
      have hhosts' := hhosts.right (htest.extends.trans hext) fun x hx => (hplaces.bounds x hx).2
      rw [Stmt.length_places] at hhosts'
      exact htaken.trans (hother h' hhosts' helse hexit hrun)
    · rw [if_neg hzero] at hrun htaken
      have hhosts' :=
        (hhosts.left hext' fun x hx => (hplaces'.bounds x hx).1).mono htest.extends (.refl _)
      have hadvances := htaken.trans (hbody h hhosts' hthen hexit hrun)
      -- only a body that comes to its end has to get past the other branch
      cases flow with
      | next =>
        have hjump := Stage.Advances.jump (x := x') hskip (by omega)
        exact hadvances.trans hjump
      | leave => exact hadvances
      | back => exact hadvances

theorem loop (hbody : body.Runs S fuel) (hcond : cond.isPure)
    (line untilLine opening closing : Nat) :
    (Stmt.loop line body untilLine opening cond closing).Runs S fuel := by
  intro inLoop pc exit n t t' ps env x x' flow h hhosts hcode hexit hrun
  cases h with
  | loop h htest =>
    rename_i ps t₁ is c
    have hsize := h.recordSize_eq hhosts.knows.values
    have hext := h.extends
    -- inside the body, the innermost loop ends behind this one
    rw [Planned.map_resolve_settle, List.map_append, Planned.map_resolve_plain] at hcode
    have hend := hcode.length_le
    simp only [List.length_append, List.length_map, List.length_singleton] at hend
    have hclear := hhosts.clear hext (.refl _) fun x hx => .inl <| by
      rw [hsize, ← Nat.add_assoc]
      exact ((Stmt.ascending body _).bounds x hx).2
    have hbehind : pc + ((ps ++ plain (is ++ [.jumpIfFalse c pc])).map
        (settle .leave (.jump (pc + ps.length + is.length + 1)))).length =
          pc + ps.length + is.length + 1 := by
      simp only [List.length_map, List.length_append, Planned.length_plain, List.length_singleton]
      omega
    rw [hbehind]
    have hright := hcode.right
    rw [List.length_map] at hright
    refine .repeatUntil (pc + ps.length) (fun x flow x' hrun => ?_) (fun x w hw => ?_) hrun
    · exact hbody h (hhosts.mono (.refl t) htest.extends) hcode.left (by omega) hrun
    · exact htest.advances hcond (hhosts.knows.names.of_extends hext) hclear hright (by omega) hw

theorem block {locals : List VarDecl} {ss : List Stmt} (hbody : Stmt.ListRuns S fuel ss)
    (opening closing : Nat) : (Stmt.block opening locals ss closing).Runs S fuel := by
  intro inLoop pc exit n t t' ps env x x' flow h hhosts hcode hexit hrun
  cases h with
  | block hf hlocals h hf₂ hblocks =>
    rename_i f t₁ t₂ f₂ block blocks
    have hopen := SymbolTable.recordSize_withBlocks hf ({} :: f.blocks)
    have hclosed := SymbolTable.recordSize_withBlocks hf₂ blocks
    have hgrown := hlocals.recordSize_eq rfl
    rw [hopen] at hgrown
    have hknows := hhosts.knows.openBlock hf hlocals hhosts.houses
    have hhouses := hhosts.houses.right (fun x hx =>
      ((VarDecl.ascending_layOut _ locals).bounds x hx).2) (Nat.le_add_right ..)
    have hsize := hhosts.size
    rw [hclosed] at hhouses hsize
    rw [VarDecl.length_layOut, Nat.add_assoc S.base, ← hgrown] at hhouses
    exact hbody h ⟨hknows, hhouses, hsize⟩ hcode hexit hrun

end Stmt.Runs

namespace Stmt.ListRuns

variable {fuel : Nat}

theorem nil : Stmt.ListRuns S fuel [] := by
  intro inLoop pc exit n t t' ps env x x' flow h _ _ _ hrun
  cases h
  cases hrun
  exact .refl pc x

theorem cons {s : Stmt} {ss : List Stmt} (hs : s.Runs S fuel) (hss : Stmt.ListRuns S fuel ss) :
    Stmt.ListRuns S fuel (s :: ss) := by
  intro inLoop pc exit n t t' ps env x x' flow h hhosts hcode hexit hrun
  cases h with
  | cons h h' =>
    rename_i ps t₁ qs
    have hsize := h.recordSize_eq hhosts.knows.values
    have hext := h.extends
    have hext' := h'.extends
    have hplaces : Ascending _ (s.places S.valued (S.base + t.recordSize)) _ := s.ascending _
    rw [Nat.add_assoc, ← hsize] at hplaces
    rw [Stmt.listPlaces, Nat.add_assoc, ← hsize] at hhosts
    rw [List.map_append] at hcode
    have hright := hcode.right
    rw [List.length_map] at hright
    obtain ⟨⟨flow₁, x₁⟩, hfirst, hrun⟩ := Option.bind_eq_some_iff.mp hrun
    have hadvances := hs h (hhosts.left hext' fun x hx => ((Stmt.listAscending ss _).bounds x hx).1)
      hcode.left hexit hfirst
    have hrest := hhosts.right hext fun x hx => (hplaces.bounds x hx).2
    rw [Stmt.length_places] at hrest
    rw [List.length_append, ← Nat.add_assoc]
    cases flow₁ with
    | next => exact hadvances.trans (hss h' hrest hright hexit hrun)
    | leave =>
      cases hrun
      exact hadvances
    | back =>
      cases hrun
      exact hadvances

end Stmt.ListRuns

mutual

/-- The code of a statement in which calls and assignments stand only as statements takes the
    machine where the statement takes the program. -/
theorem Stmt.runs {fuel : Nat} : ∀ s : Stmt, s.isSimple → s.Runs S fuel
  | .empty semicolon, _ => .empty semicolon
  | .expr _ semicolon, h => .expr h semicolon
  | .block opening _ body closing, h => .block (Stmt.listRuns body h) opening closing
  | .leave line semicolon, _ => .leave line semicolon
  | .ifThen line opening _ closing body, h => by
    obtain ⟨hcond, hbody⟩ := Bool.and_eq_true_iff.mp h
    exact .ifThen hcond (Stmt.runs body hbody) line opening closing
  | .ifElse line opening _ closing body elseLine other, h => by
    obtain ⟨h, hother⟩ := Bool.and_eq_true_iff.mp h
    obtain ⟨hcond, hbody⟩ := Bool.and_eq_true_iff.mp h
    exact .ifElse hcond (Stmt.runs body hbody) (Stmt.runs other hother) line opening closing
      elseLine
  | .loop line body untilLine opening _ closing, h => by
    obtain ⟨hbody, hcond⟩ := Bool.and_eq_true_iff.mp h
    exact .loop (Stmt.runs body hbody) hcond line untilLine opening closing
  | .return line semicolon, _ => .returns line semicolon
  | .returnValue line _ semicolon, h => .returnValue h line semicolon

theorem Stmt.listRuns {fuel : Nat} :
    ∀ ss : List Stmt, Stmt.listIsSimple ss → Stmt.ListRuns S fuel ss
  | [], _ => .nil
  | s :: ss, h => by
    obtain ⟨hs, hss⟩ := Bool.and_eq_true_iff.mp h
    exact .cons (Stmt.runs s hs) (Stmt.listRuns ss hss)

end

end OnePass
