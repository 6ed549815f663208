import Mathlib
import OnePass.Code.Instruction

/-!
# Listings can be read back

A listing has a line for each instruction: its position, a tab, and the operation with three
operands between parentheses.

    12 ⇥ (ADD, 200, #-4, @208) ⏎
    13 ⇥ (JP, 7, , ) ⏎

`readListing?` cuts a text at line breaks, a line at the tab, and an instruction at parentheses and
commas. No operation and no operand has one of these characters in it, so the cuts fall where the
listing was put together, and the first character of an operand tells what it is. What is read from
a listing is therefore the code that was listed, and two listings are the same only if their code
is. -/

namespace OnePass

/-! ### Reading -/

/-- The operations. -/
def Opcode.all : List Opcode := [.add, .mul, .sub, .eq, .lt, .assign, .jpf, .jp, .print]

/-- The operation of a name. -/
def Opcode.ofText? (name : List Char) : Option Opcode := all.find? (·.text.toList == name)

/-- The word that a run of decimal digits names as an address. -/
def Word.ofAddressText? (digits : List Char) : Option Word :=
  if digits.isEmpty || !digits.all Char.isDigit || addressMax < digitsValue digits then none
  else some (BitVec.ofNat 32 (digitsValue digits))

/-- The operand of a text; an empty text stands for an operand that is absent. -/
def Operand.ofText? : List Char → Option (Option Operand)
  | [] => some none
  | '#' :: numeral => (Word.ofNumeral? (String.ofList numeral)).map (some <| .immediate ·)
  | '@' :: digits => (Word.ofAddressText? digits).map (some <| .indirect ·)
  | digits => (Word.ofAddressText? digits).map (some <| .direct ·)

namespace Instruction

/-- The instruction of four fields, of which all but the first begin with a blank. -/
def ofFields? : List (List Char) → Option Instruction
  | [op, ' ' :: a, ' ' :: b, ' ' :: c] => do
    return ⟨← Opcode.ofText? op, ← Operand.ofText? a, ← Operand.ofText? b, ← Operand.ofText? c⟩
  | _ => none

/-- The instruction of a text in parentheses. -/
def ofText? : List Char → Option Instruction
  | '(' :: text =>
    match text.splitOn ')' with
    | [fields, []] => ofFields? (fields.splitOn ',')
    | _ => none
  | _ => none

/-- The instruction of a line that has a position in front. -/
def ofLine? (pc : Nat) (line : List Char) : Option Instruction :=
  match line.splitOn '\t' with
  | [position, text] => if position = (toString pc).toList then ofText? text else none
  | _ => none

/-- The instructions of some lines, counted from a position. The last line break ends the text. -/
def ofLines? (pc : Nat) : List (List Char) → Option (List Instruction)
  | [] => none
  | [[]] => some []
  | line :: lines => do return (← ofLine? pc line) :: (← ofLines? (pc + 1) lines)

/-- The code of a listing. -/
def readListing? (text : String) : Option (List Instruction) :=
  ofLines? 0 (text.toList.splitOn '\n')

end Instruction

/-! ### Numbers -/

/-- The decimal digits of a number. -/
theorem toList_toString_nat (n : Nat) : (toString n).toList = Nat.toDigits 10 n := by
  rw [Nat.toString_eq_ofList_toDigits, String.toList_ofList]

/-- What a number is written with. -/
theorem isDigit_of_mem_toDigits {n : Nat} : ∀ c ∈ Nat.toDigits 10 n, c.isDigit = true :=
  fun _ hc => Nat.isDigit_of_mem_toDigits (by decide) (by decide) hc

namespace Word

theorem digitsValue_toDigits (n : Nat) : digitsValue (Nat.toDigits 10 n) = n :=
  Nat.ofDigitChars_ten_toDigits

/-- A digit is not a sign. -/
theorem splitSign_of_digits : ∀ {digits : List Char}, (∀ c ∈ digits, c.isDigit = true) →
    splitSign digits = (false, digits)
  | [], _ => rfl
  | c :: digits, h => by
    have hc : c.isDigit = true := h c (List.mem_cons_self ..)
    rw [splitSign]
    · rintro _ ⟨⟩
      cases hc
    · rintro _ ⟨⟩
      cases hc

/-- The numeral of a word names it. -/
theorem ofNumeral?_numberText (w : Word) : ofNumeral? (numberText w) = some w := by
  have hlow : numberMin ≤ w.toInt := w.le_toInt
  have hhigh : w.toInt ≤ numberMax := Int.le_of_lt_add_one w.toInt_lt
  -- What is left of a numeral after its sign are the digits of the absolute value.
  have hread : ∀ negative digits, splitSign (numberText w).toList = (negative, digits) →
      digits ≠ [] → (∀ c ∈ digits, c.isDigit = true) →
      (if negative then -(digitsValue digits : Int) else digitsValue digits) = w.toInt →
      ofNumeral? (numberText w) = some w := by
    intro negative digits hsplit hne hdigits hvalue
    have hall : digits.all Char.isDigit = true := List.all_eq_true.mpr hdigits
    have hsome : digits.isEmpty = false := by simpa using hne
    simp only [ofNumeral?, hsplit, hall, hsome, hvalue, Bool.not_true, Bool.or_self,
      Bool.false_eq_true, if_false, hlow, hhigh, and_self, if_true, BitVec.ofInt_toInt]
  cases hw : w.toInt with
  | ofNat n =>
    have htext : (numberText w).toList = Nat.toDigits 10 n := by
      rw [numberText, hw]
      exact toList_toString_nat n
    refine hread false (Nat.toDigits 10 n) ?_ Nat.toDigits_ne_nil isDigit_of_mem_toDigits ?_
    · rw [htext, splitSign_of_digits isDigit_of_mem_toDigits]
    · rw [digitsValue_toDigits, hw]
      rfl
  | negSucc n =>
    have htext : (numberText w).toList = '-' :: Nat.toDigits 10 (n + 1) := by
      rw [numberText, hw, Int.toString_eq_repr, Int.repr, String.toList_append, Nat.toList_repr]
      rfl
    refine hread true (Nat.toDigits 10 (n + 1)) ?_ Nat.toDigits_ne_nil isDigit_of_mem_toDigits ?_
    · rw [htext, splitSign]
    · rw [digitsValue_toDigits, hw]
      rfl

/-- The digits of an address name it. -/
theorem ofAddressText?_addressText (w : Word) :
    ofAddressText? (addressText w).toList = some w := by
  have hle : ¬ addressMax < w.toNat := Nat.not_lt.mpr (Nat.le_of_lt_succ w.isLt)
  have hall : (Nat.toDigits 10 w.toNat).all Char.isDigit = true :=
    List.all_eq_true.mpr isDigit_of_mem_toDigits
  have hsome : (Nat.toDigits 10 w.toNat).isEmpty = false := by simp
  rw [addressText, toList_toString_nat, ofAddressText?, digitsValue_toDigits, hall, hsome,
    if_neg (by simpa using hle), BitVec.ofNat_toNat, BitVec.setWidth_eq]

end Word

/-! ### Fields -/

/-- The characters that operations and operands are written with. -/
def inField (c : Char) : Bool := c.isAlphanum || c == '#' || c == '@' || c == '-'

theorem inField_of_isDigit {c : Char} (h : c.isDigit = true) : inField c = true := by
  simp [inField, Char.isAlphanum, h]

theorem inField_of_mem_toDigits {n : Nat} : ∀ c ∈ Nat.toDigits 10 n, inField c = true :=
  fun c hc => inField_of_isDigit (isDigit_of_mem_toDigits c hc)

theorem Opcode.inField_text (op : Opcode) : ∀ c ∈ op.text.toList, inField c = true := by
  have hall : op.text.toList.all inField = true := by cases op <;> decide
  exact List.all_eq_true.mp hall

theorem Opcode.ofText?_text (op : Opcode) : ofText? op.text.toList = some op := by
  cases op <;> decide

theorem Word.inField_addressText (w : Word) : ∀ c ∈ (addressText w).toList, inField c = true := by
  rw [addressText, toList_toString_nat]
  exact inField_of_mem_toDigits

theorem Word.inField_numberText (w : Word) : ∀ c ∈ (numberText w).toList, inField c = true := by
  rw [numberText]
  cases w.toInt with
  | ofNat n =>
    have htext : (toString (Int.ofNat n)).toList = Nat.toDigits 10 n := toList_toString_nat n
    rw [htext]
    exact inField_of_mem_toDigits
  | negSucc n =>
    rw [Int.toString_eq_repr, Int.repr, String.toList_append, Nat.toList_repr]
    intro c hc
    rcases List.mem_append.mp hc with hc | hc
    · obtain rfl := List.mem_singleton.mp hc
      rfl
    · exact inField_of_mem_toDigits c hc

namespace Operand

theorem toList_text : ∀ operand : Operand, operand.text.toList =
    match operand with
    | .immediate value => '#' :: (Word.numberText value).toList
    | .direct address => (Word.addressText address).toList
    | .indirect address => '@' :: (Word.addressText address).toList
  | .immediate _ => String.toList_append
  | .direct _ => rfl
  | .indirect _ => String.toList_append

theorem inField_text (operand : Operand) : ∀ c ∈ operand.text.toList, inField c = true := by
  rw [toList_text]
  cases operand with
  | immediate value => exact List.forall_mem_cons.mpr ⟨rfl, Word.inField_numberText value⟩
  | direct address => exact Word.inField_addressText address
  | indirect address => exact List.forall_mem_cons.mpr ⟨rfl, Word.inField_addressText address⟩

/-- What begins with a digit is an address. -/
theorem ofText?_of_digit {c : Char} {digits : List Char} (h : c.isDigit = true) :
    ofText? (c :: digits) = (Word.ofAddressText? (c :: digits)).map (some <| .direct ·) := by
  rw [ofText?]
  · nofun
  · rintro _ ⟨⟩
    cases h
  · rintro _ ⟨⟩
    cases h

theorem ofText?_text (operand : Operand) : ofText? operand.text.toList = some (some operand) := by
  rw [toList_text]
  cases operand with
  | immediate value =>
    simp only [ofText?, String.ofList_toList, Word.ofNumeral?_numberText, Option.map_some]
  | indirect address =>
    simp only [ofText?, Word.ofAddressText?_addressText, Option.map_some]
  | direct address =>
    have hread := Word.ofAddressText?_addressText address
    have hdigits : ∀ c ∈ (Word.addressText address).toList, c.isDigit = true := by
      rw [Word.addressText, toList_toString_nat]
      exact isDigit_of_mem_toDigits
    cases htext : (Word.addressText address).toList with
    | nil =>
      rw [htext] at hread
      cases hread
    | cons c digits =>
      rw [htext] at hread hdigits
      change ofText? (Word.addressText address).toList = _
      rw [htext, ofText?_of_digit (hdigits c (List.mem_cons_self ..)), hread, Option.map_some]

end Operand

namespace Instruction

theorem inField_operandText (operand? : Option Operand) :
    ∀ c ∈ (operandText operand?).toList, inField c = true := by
  cases operand? with
  | none => nofun
  | some operand => exact operand.inField_text

theorem ofText?_operandText (operand? : Option Operand) :
    Operand.ofText? (operandText operand?).toList = some operand? := by
  cases operand? with
  | none => rfl
  | some operand => exact operand.ofText?_text

/-! ### Lines -/

/-- The fields of an instruction, with the blanks in front of them. -/
def fields (i : Instruction) : List (List Char) :=
  [i.op.text.toList, ' ' :: (operandText i.a).toList, ' ' :: (operandText i.b).toList,
    ' ' :: (operandText i.c).toList]

/-- A field has none of the characters that a line is cut at. -/
theorem not_mem_fields (i : Instruction) {x : Char} (hx : inField x = false) (hblank : x ≠ ' ') :
    ∀ field ∈ i.fields, x ∉ field := by
  have hword : ∀ {text : List Char}, (∀ c ∈ text, inField c = true) → x ∉ text := by
    intro text htext hmem
    rw [htext x hmem] at hx
    cases hx
  have hoperand : ∀ operand?, x ∉ ' ' :: (operandText operand?).toList := fun operand? =>
    List.not_mem_cons_of_ne_of_not_mem hblank (hword (inField_operandText operand?))
  simp only [fields, List.forall_mem_cons]
  exact ⟨hword i.op.inField_text, hoperand i.a, hoperand i.b, hoperand i.c, nofun⟩

theorem ofFields?_fields (i : Instruction) : ofFields? i.fields = some i := by
  simp [ofFields?, fields, Opcode.ofText?_text, ofText?_operandText]

theorem toList_text (i : Instruction) :
    i.text.toList = '(' :: ([','].intercalate i.fields ++ [')']) := by
  simp only [text, String.toList_append, fields, List.intercalate_cons_cons,
    List.intercalate_singleton, List.append_assoc, List.cons_append, List.nil_append]
  rfl

theorem not_mem_text (i : Instruction) {x : Char} (hx : inField x = false) (hblank : x ≠ ' ')
    (hcomma : x ≠ ',') : x ∉ [','].intercalate i.fields := by
  have hfields := i.not_mem_fields hx hblank
  simp only [fields, List.forall_mem_cons] at hfields
  obtain ⟨hop, ha, hb, hc, -⟩ := hfields
  simp only [fields, List.intercalate_cons_cons, List.intercalate_singleton, List.mem_append,
    List.mem_singleton, not_or]
  exact ⟨⟨hop, hcomma⟩, ⟨ha, hcomma⟩, ⟨hb, hcomma⟩, hc⟩

theorem ofText?_text (i : Instruction) : ofText? i.text.toList = some i := by
  have hclose : ([','].intercalate i.fields ++ [')']).splitOn ')' =
      [[','].intercalate i.fields, []] := by
    have hcut : ([')'].intercalate [[','].intercalate i.fields, []]).splitOn ')' = _ :=
      List.splitOn_intercalate ')'
        (by simpa using i.not_mem_text rfl (by decide) (by decide)) (by simp)
    simpa [List.intercalate_cons_cons] using hcut
  have hfields : ([','].intercalate i.fields).splitOn ',' = i.fields :=
    List.splitOn_intercalate ',' (i.not_mem_fields rfl (by decide)) (by simp [fields])
  rw [toList_text, ofText?, hclose]
  simp only [hfields, ofFields?_fields]

/-- A line without the line break that ends it. -/
def lineText (pc : Nat) (i : Instruction) : List Char := (toString pc).toList ++ '\t' :: i.text.toList

theorem toList_line (pc : Nat) (i : Instruction) :
    (line pc i).toList = lineText pc i ++ ['\n'] := by
  simp only [line, String.toList_append, lineText, List.append_assoc, List.cons_append]
  rfl

theorem not_mem_position {x : Char} (hx : x.isDigit = false) (pc : Nat) :
    x ∉ (toString pc).toList := by
  rw [toList_toString_nat]
  intro hmem
  rw [isDigit_of_mem_toDigits x hmem] at hx
  cases hx

theorem not_mem_lineText (pc : Nat) (i : Instruction) : '\n' ∉ lineText pc i := by
  have htext := i.not_mem_text (x := '\n') rfl (by decide) (by decide)
  rw [lineText, toList_text, List.mem_append, not_or]
  exact ⟨not_mem_position rfl pc, by simp [htext]⟩

theorem ofLine?_lineText (pc : Nat) (i : Instruction) : ofLine? pc (lineText pc i) = some i := by
  have htext : '\t' ∉ i.text.toList := by
    have hfields := i.not_mem_text (x := '\t') rfl (by decide) (by decide)
    rw [toList_text]
    simp [hfields]
  have hcut : (['\t'].intercalate [(toString pc).toList, i.text.toList]).splitOn '\t' = _ :=
    List.splitOn_intercalate '\t' (List.forall_mem_cons.mpr ⟨not_mem_position rfl pc,
      List.forall_mem_cons.mpr ⟨htext, nofun⟩⟩) (by simp)
  have hline : ['\t'].intercalate [(toString pc).toList, i.text.toList] = lineText pc i := by
    simp only [List.intercalate_cons_cons, List.intercalate_singleton, List.append_assoc,
      List.singleton_append, lineText]
  rw [ofLine?, ← hline, hcut]
  simp only [if_true, ofText?_text]

/-! ### Listings -/

/-- The lines of a listing from some position on, and what follows its last line break. -/
def lineTexts (pc : Nat) : List Instruction → List (List Char)
  | [] => [[]]
  | i :: code => lineText pc i :: lineTexts (pc + 1) code

theorem ofLines?_lineTexts : ∀ (pc : Nat) (code : List Instruction),
    ofLines? pc (lineTexts pc code) = some code
  | _, [] => rfl
  | pc, i :: code => by
    have hne : lineText pc i ≠ [] := by simp [lineText]
    rw [lineTexts, ofLines?, ofLine?_lineText, ofLines?_lineTexts (pc + 1) code]
    · rfl
    · exact fun h => absurd h hne

theorem not_mem_lineTexts : ∀ (pc : Nat) (code : List Instruction),
    ∀ text ∈ lineTexts pc code, '\n' ∉ text
  | _, [] => by simp [lineTexts]
  | pc, i :: code =>
    List.forall_mem_cons.mpr ⟨not_mem_lineText pc i, not_mem_lineTexts (pc + 1) code⟩

theorem lineTexts_ne_nil (pc : Nat) : ∀ code : List Instruction, lineTexts pc code ≠ []
  | [] => nofun
  | _ :: _ => nofun

theorem toList_lines : ∀ (pc : Nat) (code : List Instruction),
    ((code.zipIdx pc).map fun (i, pc) => line pc i).flatMap String.toList =
      ['\n'].intercalate (lineTexts pc code)
  | _, [] => rfl
  | pc, i :: code => by
    obtain ⟨next, more, hrest⟩ := List.exists_cons_of_ne_nil (lineTexts_ne_nil (pc + 1) code)
    rw [List.zipIdx_cons, List.map_cons, List.flatMap_cons, toList_lines (pc + 1) code, lineTexts,
      hrest, List.intercalate_cons_cons, toList_line]

/-- Reading a listing gives the code that was listed. -/
theorem readListing?_listing (code : List Instruction) : readListing? (listing code) = some code := by
  have hlines : (listing code).toList = ['\n'].intercalate (lineTexts 0 code) := by
    rw [listing, String.toList_join, toList_lines]
  rw [readListing?, hlines, List.splitOn_intercalate '\n' (not_mem_lineTexts 0 code)
    (lineTexts_ne_nil 0 code), ofLines?_lineTexts]

end Instruction

/-- The listing determines the code: what is read from the listing of any instructions are those
    instructions, whatever their operations and operands, and no two programs have the same
    listing. -/
theorem listing_determines_code :
    (∀ code, Instruction.readListing? (Instruction.listing code) = some code) ∧
      Function.Injective Instruction.listing := by
  refine ⟨Instruction.readListing?_listing, fun code code' h => ?_⟩
  have hread := Instruction.readListing?_listing code
  rw [h, Instruction.readListing?_listing code'] at hread
  exact (Option.some.inj hread).symm

end OnePass
