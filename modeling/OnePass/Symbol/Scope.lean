import OnePass.Symbol.Basic

/-!
# Scopes

A scope holds symbols of distinct names in the order in which they came. A symbol that takes the
place of another of its name takes its position too. -/

namespace OnePass

/-- Symbols of distinct names, in order of insertion. -/
structure Scope where
  symbols : List Symbol := []
  deriving DecidableEq, Repr

namespace Scope

/-- The symbol of a name. -/
def find? (s : Scope) (name : String) : Option Symbol := s.symbols.find? (·.name == name)

/-- The scope has a symbol of a name. -/
def contains (s : Scope) (name : String) : Bool := s.symbols.any (·.name == name)

/-- Applies a function to the symbol of a name, which keeps its position. -/
def modify (s : Scope) (name : String) (f : Symbol → Symbol) : Scope :=
  ⟨s.symbols.map fun x => if x.name == name then f x else x⟩

/-- Adds a symbol at the end, or puts it in the place of the one with its name. -/
def insert (s : Scope) (x : Symbol) : Scope :=
  if s.contains x.name then s.modify x.name fun _ => x else ⟨s.symbols ++ [x]⟩

/-- The first function in a scope whose entry is at `value`. -/
def functionAt? (s : Scope) (value : Word) : Option Symbol :=
  s.symbols.find? fun x => x.isFunction && x.value == value

/-! ### Looking up -/

/-- A scope has a symbol of a name if it finds one. -/
theorem contains_eq_isSome_find? (s : Scope) (name : String) :
    s.contains name = (s.find? name).isSome := by
  rw [find?, contains, List.isSome_find?]

private theorem find?_map_replace (x : Symbol) (name : String) : ∀ symbols : List Symbol,
    (symbols.map fun y => if y.name == x.name then x else y).find? (·.name == name) =
      if x.name = name then (if symbols.any (·.name == x.name) then some x else none)
      else symbols.find? (·.name == name)
  | [] => by simp
  | y :: ys => by
    have ih := find?_map_replace x name ys
    by_cases hx : x.name = name
    · by_cases hy : y.name = x.name <;> simp_all [List.find?_cons_of_pos, List.find?_cons_of_neg]
    · by_cases hy : y.name = x.name <;> by_cases hn : y.name = name <;>
        simp_all [List.find?_cons_of_pos, List.find?_cons_of_neg]

/-- An inserted symbol is found by its name, and other names stand for what they did. -/
theorem find?_insert (s : Scope) (x : Symbol) (name : String) :
    (s.insert x).find? name = if x.name = name then some x else s.find? name := by
  by_cases h : s.contains x.name = true
  · rw [insert, if_pos h, modify, find?, find?_map_replace]
    simp only [contains] at h
    rw [h, if_pos rfl, find?]
  · rw [insert, if_neg h, find?, find?, List.find?_append]
    by_cases hx : x.name = name
    · subst hx
      rw [contains_eq_isSome_find?, Bool.not_eq_true, Option.isSome_eq_false_iff,
        Option.isNone_iff_eq_none, find?] at h
      rw [h, if_pos rfl]
      simp
    · simp [hx]

end Scope

end OnePass
