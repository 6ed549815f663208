import OnePass.Word

/-!
# Segments

Storage is handed out word by word from the start of a segment upwards. Two limits apply: no
address ever leaves the signed range, and what a program declares stays within half of it, which
keeps room for the temporaries the compiler adds. -/

namespace OnePass

/-- The last address that a signed word can hold. -/
def addressLimit : Nat := 2147483647

/-- The end that declared storage may reach. -/
def declaredLimit : Nat := 1073741824

/-- The end of a segment of `words` words from `start`, unless it lies beyond `limit`. -/
def segmentEnd? (start words limit : Nat) : Option Nat :=
  let stop := start + Word.size * words
  if stop ≤ limit then some stop else none

/-- A segment ends where its words do, if that is within the limit. -/
theorem segmentEnd?_eq_some_iff {start words limit stop : Nat} :
    segmentEnd? start words limit = some stop ↔
      stop = start + Word.size * words ∧ stop ≤ limit := by
  simp only [segmentEnd?]
  split
  · constructor
    · intro h
      obtain rfl := Option.some.inj h
      exact ⟨rfl, by assumption⟩
    · rintro ⟨rfl, -⟩
      rfl
  · constructor
    · intro h
      cases h
    · rintro ⟨rfl, h⟩
      contradiction

end OnePass
