import Mathlib

/-!
# Two runs side by side

Two operations are begun in related states; what is related about their results and about the states
they leave is put together rule by rule, one for each way to build an operation. -/

namespace OnePass

/-- Two operations, begun in related states, end well with related results, or fail alike. -/
def Paired {ε σ α : Type} (before : σ → σ → Prop) (m m' : EStateM ε σ α)
    (after : α → α → σ → σ → Prop) (failed : ε → ε → σ → σ → Prop) : Prop :=
  ∀ s s', before s s' → match m s, m' s' with
    | .ok a t, .ok a' t' => after a a' t t'
    | .error e t, .error e' t' => failed e e' t t'
    | _, _ => False

namespace Paired

variable {ε σ α β : Type} {before : σ → σ → Prop} {m m' : EStateM ε σ α} {f f' : α → EStateM ε σ β}
  {mid after : α → α → σ → σ → Prop} {last : β → β → σ → σ → Prop}
  {failed : ε → ε → σ → σ → Prop}

theorem pure {a a' : α} (h : ∀ s s', before s s' → after a a' s s') :
    Paired before (pure a) (pure a') after failed := h

theorem throw {e e' : ε} (h : ∀ s s', before s s' → failed e e' s s') :
    Paired before (throw e) (throw e') after failed := h

theorem bind (hm : Paired before m m' mid failed)
    (hf : ∀ a a', Paired (mid a a') (f a) (f' a') last failed) :
    Paired before (m >>= f) (m' >>= f') last failed := by
  intro s s' hs
  have hms := hm s s' hs
  simp only [Bind.bind, EStateM.bind]
  cases hrun : m s with
  | ok a t =>
    cases hrun' : m' s' with
    | ok a' t' =>
      rw [hrun, hrun'] at hms
      exact hf a a' t t' hms
    | error e' t' =>
      rw [hrun, hrun'] at hms
      exact hms.elim
  | error e t =>
    cases hrun' : m' s' with
    | ok a' t' =>
      rw [hrun, hrun'] at hms
      exact hms.elim
    | error e' t' =>
      rw [hrun, hrun'] at hms
      exact hms

theorem get {f f' : σ → EStateM ε σ β}
    (h : ∀ s s', before s s' → Paired before (f s) (f' s') last failed) :
    Paired before (MonadState.get >>= f) (MonadState.get >>= f') last failed :=
  fun s s' hs => h s s' hs s s' hs

/-- What is read may be used together with the fact that it is the state. -/
theorem inspect {f f' : σ → EStateM ε σ β}
    (h : ∀ s s', before s s' →
      Paired (fun t t' => t = s ∧ t' = s') (f s) (f' s') last failed) :
    Paired before (MonadState.get >>= f) (MonadState.get >>= f') last failed :=
  fun s s' hs => h s s' hs s s' ⟨rfl, rfl⟩

theorem modify {u u' : σ → σ} {after : PUnit → PUnit → σ → σ → Prop}
    (h : ∀ s s', before s s' → after ⟨⟩ ⟨⟩ (u s) (u' s')) :
    Paired before (modify u) (modify u') after failed := h

theorem ite {c : Prop} [Decidable c] {n n' : EStateM ε σ α}
    (hm : Paired before m m' after failed) (hn : Paired before n n' after failed) :
    Paired before (if c then m else n) (if c then m' else n') after failed := by
  split
  · exact hm
  · exact hn

theorem given {p : Prop} (h : p → Paired before m m' after failed) :
    Paired (fun s s' => p ∧ before s s') m m' after failed :=
  fun s s' hs => h hs.1 s s' hs.2

theorem exists_before {ι : Type} {before : ι → σ → σ → Prop}
    (h : ∀ i, Paired (before i) m m' after failed) :
    Paired (fun s s' => ∃ i, before i s s') m m' after failed :=
  fun s s' ⟨i, hs⟩ => h i s s' hs

/-- More may be said of the end than is needed. -/
theorem imp (h : Paired before m m' mid failed)
    (himp : ∀ a a' s s', mid a a' s s' → after a a' s s') : Paired before m m' after failed := by
  intro s s' hs
  have hrun := h s s' hs
  revert hrun
  cases m s <;> cases m' s' <;> intro hrun
  · exact himp _ _ _ _ hrun
  · exact hrun
  · exact hrun
  · exact hrun

end Paired

/-! ### Related lists -/

theorem isSome_of_rel {α : Type} {rel : α → α → Prop} {a a' : Option α} (h : Option.Rel rel a a') :
    a'.isSome = a.isSome := by cases h <;> rfl

/-- Tests that agree on related entries of two lists find related entries. -/
theorem find?_related {α : Type} {rel : α → α → Prop} {p p' : α → Bool}
    (hp : ∀ x x', rel x x' → p' x' = p x) : ∀ {l l' : List α}, List.Forall₂ rel l l' →
      Option.Rel rel (l.find? p) (l'.find? p')
  | _, _, .nil => .none
  | x :: _, x' :: _, .cons hx hl => by
    rw [List.find?_cons, List.find?_cons, hp x x' hx]
    cases p x with
    | true => exact .some hx
    | false => exact find?_related hp hl

end OnePass
