import OnePass.Layout.Basic

/-!
# Layouts as TOML documents

A layout file sets any of the five settings to an integer, one a line. Since a document with
anything else in it, a table or a text for instance, is refused, only these lines of TOML matter:
blank lines, comments, and a key, an equals sign and an integer. Keys may be bare or quoted, and
integers decimal, hexadecimal, octal or binary with underscores between digits. -/

namespace OnePass.Layout.Toml

/-- The lines of a document; a line ends at a line feed, which may follow a carriage return. -/
def lines : List Char → List (List Char)
  | [] => [[]]
  | '\r' :: '\n' :: rest => [] :: lines rest
  | '\n' :: rest => [] :: lines rest
  | c :: rest =>
    match lines rest with
    | line :: more => (c :: line) :: more
    | [] => [[c]]

/-- Blank space within a line. -/
def isSpace (c : Char) : Bool := c == ' ' || c == '\t'

/-- Skips blank space. -/
def skipSpace (cs : List Char) : List Char := cs.dropWhile isSpace

/-- Characters that comments and quoted keys may hold as they are: all but controls. -/
def isPlain (c : Char) : Bool := c == '\t' || (' ' ≤ c && c != '\x7f')

/-- Nothing but blank space and a comment is left of a line. -/
def endsLine (cs : List Char) : Bool :=
  match skipSpace cs with
  | [] => true
  | '#' :: comment => comment.all isPlain
  | _ => false

/-! ### Keys -/

/-- Characters of a bare key. -/
def isBare (c : Char) : Bool := c.isAlphanum || c == '_' || c == '-'

/-- The value of a digit in a base up to sixteen, in either case. -/
def digitValue? (base : Nat) (c : Char) : Option Nat :=
  let value? :=
    if '0' ≤ c && c ≤ '9' then some (c.toNat - '0'.toNat)
    else if 'a' ≤ c && c ≤ 'f' then some (c.toNat - 'a'.toNat + 10)
    else if 'A' ≤ c && c ≤ 'F' then some (c.toNat - 'A'.toNat + 10)
    else none
  value?.filter (· < base)

/-- The value of a run of digits in a base. -/
def valueOf? (base : Nat) (digits : List Char) : Option Nat :=
  digits.foldlM (fun n d => (digitValue? base d).map (base * n + ·)) 0

/-- The character of a scalar value, given by its hexadecimal digits. -/
def scalar? (digits : List Char) : Option Char := do
  let n ← valueOf? 16 digits
  if h : n.isValidChar then some (Char.ofNatAux n h) else none

/-- The character that a letter after a backslash stands for. -/
def escaped? : Char → Option Char
  | 'b' => some '\x08'
  | 't' => some '\t'
  | 'n' => some '\n'
  | 'f' => some '\x0c'
  | 'r' => some '\r'
  | '\x22' => some '\x22'
  | '\x5c' => some '\x5c'
  | _ => none

/-- Reads a key in double quotes, from after the opening one. -/
def readBasic : List Char → Option (List Char × List Char)
  | [] => none
  | '\x22' :: rest => some ([], rest)
  | '\x5c' :: 'u' :: a :: b :: c :: d :: rest => do
    let first ← scalar? [a, b, c, d]
    let (key, rest) ← readBasic rest
    some (first :: key, rest)
  | '\x5c' :: 'U' :: a :: b :: c :: d :: e :: f :: g :: h :: rest => do
    let first ← scalar? [a, b, c, d, e, f, g, h]
    let (key, rest) ← readBasic rest
    some (first :: key, rest)
  | '\x5c' :: c :: rest => do
    let first ← escaped? c
    let (key, rest) ← readBasic rest
    some (first :: key, rest)
  | c :: rest => do
    guard (isPlain c && c != '\x5c')
    let (key, rest) ← readBasic rest
    some (c :: key, rest)

/-- Reads a key in single quotes, from after the opening one. -/
def readLiteral : List Char → Option (List Char × List Char)
  | [] => none
  | '\x27' :: rest => some ([], rest)
  | c :: rest => do
    guard (isPlain c)
    let (key, rest) ← readLiteral rest
    some (c :: key, rest)

/-- Reads a key, bare or quoted. -/
def readKey : List Char → Option (List Char × List Char)
  | '\x22' :: rest => readBasic rest
  | '\x27' :: rest => readLiteral rest
  | cs =>
    let key := cs.takeWhile isBare
    if key.isEmpty then none else some (key, cs.dropWhile isBare)

/-! ### Integers -/

/-- Reads the digits that follow a digit; an underscore may stand between two of them. -/
def readMoreDigits (base : Nat) : List Char → List Char × List Char
  | '_' :: c :: rest =>
    if (digitValue? base c).isSome then
      let (digits, rest) := readMoreDigits base rest
      (c :: digits, rest)
    else ([], '_' :: c :: rest)
  | c :: rest =>
    if (digitValue? base c).isSome then
      let (digits, rest) := readMoreDigits base rest
      (c :: digits, rest)
    else ([], c :: rest)
  | [] => ([], [])

/-- Reads an unsigned integer in a base, with at least one digit. -/
def readDigits (base : Nat) : List Char → Option (Nat × List Char)
  | c :: rest => do
    guard (digitValue? base c).isSome
    let (digits, rest) := readMoreDigits base rest
    let value ← valueOf? base (c :: digits)
    some (value, rest)
  | [] => none

/-- Reads an unsigned decimal integer; a zero stands alone. -/
def readDecimal : List Char → Option (Nat × List Char)
  | '0' :: rest => some (0, rest)
  | cs => readDigits 10 cs

/-- Reads an integer. Only decimal ones have a sign. -/
def readInteger : List Char → Option (Int × List Char)
  | '0' :: 'x' :: rest => (readDigits 16 rest).map fun (n, rest) => (n, rest)
  | '0' :: 'o' :: rest => (readDigits 8 rest).map fun (n, rest) => (n, rest)
  | '0' :: 'b' :: rest => (readDigits 2 rest).map fun (n, rest) => (n, rest)
  | '+' :: rest => (readDecimal rest).map fun (n, rest) => (n, rest)
  | '-' :: rest => (readDecimal rest).map fun (n, rest) => (-n, rest)
  | cs => (readDecimal cs).map fun (n, rest) => (n, rest)

/-! ### Documents -/

/-- The word an integer sets; it must be an unsigned one. -/
def word? (value : Int) : Option Word :=
  if 0 ≤ value ∧ value ≤ Word.addressMax then some (BitVec.ofInt 32 value) else none

/-- Reads a line that sets something. -/
def readSetting (cs : List Char) : Option (Key × Word) := do
  let (name, cs) ← readKey cs
  let key ← Key.ofName? (String.ofList name)
  match skipSpace cs with
  | '=' :: cs =>
    let (value, cs) ← readInteger (skipSpace cs)
    let word ← word? value
    if endsLine cs then some (key, word) else none
  | _ => none

/-- Reads the settings of all lines, in order; none if a line is not understood. -/
def readSettings : List (List Char) → Option (List (Key × Word))
  | [] => some []
  | line :: more =>
    if endsLine line then readSettings more
    else do
      let setting ← readSetting (skipSpace line)
      let settings ← readSettings more
      some (setting :: settings)

/-- The settings of a document. A byte order mark before it is skipped, and nothing may be set
    twice. -/
def settings? (text : String) : Option (List (Key × Word)) := do
  let body := match text.toList with
    | '\ufeff' :: rest => rest
    | cs => cs
  let settings ← readSettings (lines body)
  if (settings.map (·.1)).Nodup then some settings else none

/-- The layout that a document describes: what it does not set has its usual place. -/
def layout? (text : String) : Option Layout :=
  (settings? text).map fun settings => settings.foldl (fun l (key, word) => l.set key word) {}

end OnePass.Layout.Toml

namespace OnePass.Layout

/-- Why a layout file is refused. -/
inductive LoadError where
  /-- The document is not one of settings. -/
  | document
  /-- The layout it describes has a flaw. -/
  | flawed (flaw : Flaw)
  deriving DecidableEq, Repr

/-- What is said of a refused layout file. -/
def LoadError.message : LoadError → String
  | .document => "TOML parse error"
  | .flawed flaw => flaw.message

/-- The layout that a document describes, if it has no flaw. -/
def load (text : String) : Except LoadError Layout :=
  match Toml.layout? text with
  | none => .error .document
  | some l => l.check.mapError .flawed

end OnePass.Layout
