import Mathlib
/-!
# Chains

Things done one after the other, each leading from a state to the next. -/

namespace OnePass

/-- Things done one after the other. -/
inductive Chain {α σ : Type} (leads : α → σ → σ → Prop) : List α → σ → σ → Prop
  | nil {s} : Chain leads [] s s
  | cons {a as s mid s'} : leads a s mid → Chain leads as mid s' → Chain leads (a :: as) s s'

namespace Chain

variable {α σ : Type} {leads : α → σ → σ → Prop} {a : α} {as bs : List α} {s mid s' : σ}

theorem one (h : leads a s s') : Chain leads [a] s s' := .cons h .nil

theorem append (ha : Chain leads as s mid) (hb : Chain leads bs mid s') :
    Chain leads (as ++ bs) s s' := by
  induction ha with
  | nil => exact hb
  | cons h _ ih => exact .cons h (ih hb)

end Chain

end OnePass
