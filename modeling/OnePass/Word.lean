/-!
# Machine words

The target machine has one kind of cell, a word of 32 bits. The same bits are read in two ways: as
a number they are signed, as an address they are unsigned. A `Word` is the bits; the two readings
are the two ways to print it. -/

namespace OnePass

/-- A cell of the target machine: 32 bits, signed as a number and unsigned as an address. -/
abbrev Word := BitVec 32

namespace Word

/-- Bytes from one cell to the next. -/
def size : Nat := 4

/-- The largest number a word holds when it is read as an address. -/
def addressMax : Nat := 4294967295

/-- The least number a word holds when it is read as a signed number. -/
def numberMin : Int := -2147483648

/-- The largest number a word holds when it is read as a signed number. -/
def numberMax : Int := 2147483647

/-- The decimal text of a word read as a signed number. -/
def numberText (w : Word) : String := toString w.toInt

/-- The decimal text of a word read as an address. -/
def addressText (w : Word) : String := toString w.toNat

/-- The value of a run of decimal digits, the first digit weighing most. -/
def digitsValue (digits : List Char) : Nat :=
  digits.foldl (fun n d => 10 * n + (d.toNat - '0'.toNat)) 0

/-- Splits a numeral into its sign (`true` for minus) and what follows it. -/
def splitSign : List Char → Bool × List Char
  | '-' :: digits => (true, digits)
  | '+' :: digits => (false, digits)
  | digits => (false, digits)

/-- The word a decimal numeral names: an optional sign, then one or more digits, the value within
    the signed range. Any other text names no word. -/
def ofNumeral? (text : String) : Option Word :=
  let (negative, digits) := splitSign text.toList
  if digits.isEmpty || !digits.all Char.isDigit then none
  else
    let value : Int := if negative then -(digitsValue digits : Int) else digitsValue digits
    if numberMin ≤ value ∧ value ≤ numberMax then some (BitVec.ofInt 32 value) else none

end Word

end OnePass
