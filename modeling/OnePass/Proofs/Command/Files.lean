import Mathlib.Data.List.Infix
import OnePass.Files

/-!
# Writing a file

A file is written where its name leads to, and nowhere else. Since the directories on the way have
to exist beforehand, a file that is written makes no name lead anywhere it did not lead before. -/

namespace OnePass

/-! ### The directories that a file lies in -/

/-- What lies below a path lies below everything that the path lies below. -/
theorem Path.isBelow_trans {p q r : Path} (hpq : p.isBelow q) (hqr : q.isBelow r) :
    p.isBelow r := by
  simp only [Path.isBelow, Bool.and_eq_true, beq_iff_eq, List.isPrefixOf_iff_prefix,
    bne_iff_ne] at *
  obtain ⟨⟨hanchor, hpre⟩, hne⟩ := hpq
  obtain ⟨⟨hanchor', hpre'⟩, hne'⟩ := hqr
  refine ⟨⟨hanchor.trans hanchor', hpre'.trans hpre⟩, fun heq => ?_⟩
  rw [heq] at hpre
  exact hne' (hpre.eq_of_length_le hpre'.length_le)

/-- A file in a directory lies below it and what it lies below, and below nothing else. -/
theorem Path.eq_or_isBelow_of_child {p q : Path} {name : String} (h : (p.child name).isBelow q) :
    q = p ∨ p.isBelow q := by
  simp only [Path.isBelow, Path.child, Bool.and_eq_true, beq_iff_eq, List.isPrefixOf_iff_prefix,
    bne_iff_ne] at *
  obtain ⟨⟨hanchor, hpre⟩, hne⟩ := h
  rcases List.prefix_concat_iff.mp hpre with heq | hpre
  · exact absurd heq.symm hne
  · by_cases heq : p.names = q.names
    · exact .inl (by cases p; cases q; simp_all)
    · exact .inr ⟨⟨hanchor, hpre⟩, heq⟩

namespace Directory

variable {d : Directory} {p q : Path} {name : String} {content : ByteArray}

theorem isDirectory_iff :
    d.isDirectory p ↔ p.names = [] ∨ ∃ file ∈ d.files, file.1.isBelow p := by
  simp [isDirectory]

/-- A directory lies in directories. -/
theorem isDirectory_of_isBelow (hp : d.isDirectory p) (h : p.isBelow q) : d.isDirectory q := by
  rw [isDirectory_iff] at hp ⊢
  rcases hp with hp | ⟨file, hfile, hbelow⟩
  · simp only [Path.isBelow, hp, Bool.and_eq_true, List.isPrefixOf_iff_prefix, List.prefix_nil,
      bne_iff_ne, beq_iff_eq] at h
    exact .inl h.1.2
  · exact .inr ⟨file, hfile, Path.isBelow_trans hbelow h⟩

/-- All directories that a path lies in exist. -/
def Fits (d : Directory) (p : Path) : Prop := ∀ q, p.isBelow q → d.isDirectory q

/-- A name in a directory fits. -/
theorem Fits.child (h : d.isDirectory p) : d.Fits (p.child name) := by
  intro q hq
  rcases Path.eq_or_isBelow_of_child hq with rfl | hbelow
  · exact h
  · exact isDirectory_of_isBelow h hbelow

/-! ### Where a name leads to -/

/-- A component leads on from a directory only: to the directory itself, to the one above, or to a
    name in it. -/
theorem enter_eq_ok {component : String} (h : d.enter p component = .ok q) :
    d.isDirectory p ∧ (directoryOnly component ∨ q = p.child component) := by
  rw [enter] at h
  split at h
  · cases h
  · rename_i hdirectory
    rw [Bool.not_eq_true, Bool.not_eq_false'] at hdirectory
    refine ⟨hdirectory, ?_⟩
    split at h
    · exact .inl (by simp_all [directoryOnly])
    · split at h
      · exact .inl (by simp_all [directoryOnly])
      · exact .inr (Except.ok.inj h).symm

/-- The names of a known directory are none. -/
theorem names_of_components {start : Path} {components : List String}
    (h : Directory.components name = .ok (start, components)) : start.names = [] := by
  rw [Directory.components] at h
  split at h
  · cases h
  · cases h; rfl
  · cases h; rfl

theorem target_eq_ok_iff : d.target name = .ok p ↔ ∃ start components,
    Directory.components name = .ok (start, components) ∧
    d.follow start (components.reverse.dropWhile (· == "")).reverse = .ok p ∧
    ¬ components.getLast?.any directoryOnly ∧ ¬ d.isDirectory p := by
  rw [target]
  cases hname : Directory.components name with
  | error e => simp [bind, Except.bind]
  | ok pair =>
    obtain ⟨start, components⟩ := pair
    cases hfollow : d.follow start (components.reverse.dropWhile (· == "")).reverse with
    | error e => simp [bind, Except.bind, hfollow]
    | ok path =>
      simp only [bind, Except.bind, hfollow]
      split
      · rename_i hrefused
        simp only [reduceCtorEq, false_iff]
        rintro ⟨_, _, hpair, hpath, hlast, hp⟩
        cases hpair
        cases hfollow.symm.trans hpath
        simp_all
      · rename_i hfree
        rw [Bool.not_eq_true, Bool.or_eq_false_iff] at hfree
        constructor
        · intro hp
          cases hp
          exact ⟨start, components, rfl, hfollow, by simp [hfree.1], by simp [hfree.2]⟩
        · rintro ⟨_, _, hpair, hpath, -, -⟩
          cases hpair
          exact hfollow.symm.trans hpath

/-- A name that a file can be written at leads to a place in a directory. -/
theorem fits_of_target (h : d.target name = .ok p) : d.Fits p := by
  obtain ⟨start, components, hname, hfollow, hlast, hp⟩ := target_eq_ok_iff.mp h
  rcases List.eq_nil_or_concat components with rfl | ⟨init, last, rfl⟩
  · obtain rfl := Except.ok.inj hfollow
    exact absurd (isDirectory_iff.mpr (.inl (names_of_components hname))) hp
  · -- a last component that is a name is not cut off
    have hname : ¬ directoryOnly last := by simpa using hlast
    have hcut : ((init.concat last).reverse.dropWhile (· == "")).reverse = init ++ [last] := by
      have hlast : (last == "") = false := by simp_all [directoryOnly]
      simp [hlast]
    rw [hcut, follow, List.foldlM_append] at hfollow
    cases hinit : init.foldlM d.enter start with
    | error e => simp [hinit, bind, Except.bind] at hfollow
    | ok path =>
      rw [hinit] at hfollow
      have henter : d.enter path last = .ok p := (bind_pure _).symm.trans hfollow
      obtain ⟨hpath, honly | rfl⟩ := enter_eq_ok henter
      · exact absurd honly hname
      · exact Fits.child hpath

/-! ### What a file that is written changes -/

/-- The file has its new content, and every other its old one. -/
theorem content?_put (d : Directory) (p q : Path) (content : ByteArray) :
    (d.put p content).content? q = if q = p then some content else d.content? q := by
  rw [put]
  split
  · rename_i hsome
    -- a replaced file keeps its path
    have hpath : ((fun file : Path × ByteArray => file.1 == q) ∘ fun file =>
        if file.1 == p then (p, content) else file) = fun file => file.1 == q := by
      funext file
      by_cases h : file.1 = p <;> simp [h]
    rw [content?, List.find?_map, hpath]
    cases hfind : d.files.find? (·.1 == q) with
    | none =>
      have hne : q ≠ p := by
        rintro rfl
        simp [content?, hfind] at hsome
      simp [content?, hfind, hne]
    | some file =>
      have hfile : file.1 = q := by simpa using List.find?_some hfind
      by_cases h : q = p <;> simp [content?, hfind, hfile, h]
  · rename_i hnone
    rw [content?, List.find?_append]
    by_cases h : q = p
    · subst h
      have hfind : d.files.find? (·.1 == q) = none :=
        Option.map_eq_none_iff.mp (Option.not_isSome_iff_eq_none.mp hnone)
      simp [hfind]
    · simp [content?, h, Ne.symm h]

/-- No directory comes or goes with a file in directories that exist. -/
theorem isDirectory_put (h : d.Fits p) (content : ByteArray) (q : Path) :
    (d.put p content).isDirectory q = d.isDirectory q := by
  rw [put]
  split
  · rw [isDirectory, isDirectory, List.any_map]
    congr 2
    funext file
    by_cases hfile : file.1 = p <;> simp [hfile]
  · rw [Bool.eq_iff_iff, isDirectory_iff, isDirectory_iff]
    constructor
    · rintro (hq | ⟨file, hfile, hbelow⟩)
      · exact .inl hq
      · rcases List.mem_append.mp hfile with hfile | hfile
        · exact .inr ⟨file, hfile, hbelow⟩
        · obtain rfl := List.mem_singleton.mp hfile
          exact isDirectory_iff.mp (h q hbelow)
    · rintro (hq | ⟨file, hfile, hbelow⟩)
      · exact .inl hq
      · exact .inr ⟨file, List.mem_append_left _ hfile, hbelow⟩

theorem follow_put (h : d.Fits p) (components : List String) (start : Path) :
    (d.put p content).follow start components = .ok q ↔ d.follow start components = .ok q := by
  rw [follow, follow]
  induction components generalizing start with
  | nil => rfl
  | cons component components ih =>
    rw [List.foldlM_cons, List.foldlM_cons, enter, enter, isDirectory_put h]
    split
    · simp [bind, Except.bind]
    · split
      · exact ih start
      · split
        · exact ih start.parent
        · exact ih (start.child component)

/-- A file that is written makes no name lead anywhere else. -/
theorem target_put (h : d.Fits p) :
    (d.put p content).target name = .ok q ↔ d.target name = .ok q := by
  simp only [target_eq_ok_iff, follow_put h, isDirectory_put h]

end Directory

end OnePass
