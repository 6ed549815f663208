import OnePass.Token.Basic
import OnePass.Token.Blank

/-!
# Scanning

The scanner cuts source text into pieces: blank characters, comments, tokens, and text that is
none of these. It is one fold of `Scanner.step` over the characters, with a mode that says what
the piece being read is so far:

    ground ── letter ──▶ word            digit ──▶ number ── letter ──▶ badNumber
           ── = ──▶ equals               * ──▶ star              / ──▶ slash
    slash  ── / ──▶ lineComment          slash ── * ──▶ blockComment ◀──▶ blockStar

A piece that cannot go on is closed, and the character at hand starts the next one. Every
character goes into exactly one piece, so that the pieces together are the text. -/

namespace OnePass

/-- The reserved words. -/
def keywords : List String :=
  ["if", "else", "void", "int", "repeat", "break", "until", "return"]

/-- The characters that are symbols by themselves. -/
def symbolChars : List Char :=
  [';', ':', ',', '[', ']', '(', ')', '\x7b', '\x7d', '+', '-', '<']

/-- What can be wrong with a piece of text. -/
inductive LexicalFlaw where
  /-- A character that starts no token. -/
  | stray
  /-- The end of a comment that was not begun. -/
  | unmatchedClose
  /-- A number that runs into letters. -/
  | badNumber
  /-- A comment that the text ends in. -/
  | unclosedComment
  deriving DecidableEq, Repr

/-- A piece of text that is not part of the language, and its line. -/
structure LexicalError where
  flaw : LexicalFlaw
  text : String
  line : Nat
  deriving DecidableEq, Repr

/-- What a lexical error says. -/
def LexicalError.message (e : LexicalError) : String :=
  match e.flaw with
  | .stray => s!"Invalid input '{e.text}'"
  | .unmatchedClose => "Unmatched comment '*/'"
  | .badNumber => s!"Invalid number '{e.text}'"
  | .unclosedComment => "Unclosed comment"

/-- What a piece of source text is. -/
inductive Role where
  | blank
  | comment
  | token (kind : TokenKind)
  | invalid (flaw : LexicalFlaw)
  deriving DecidableEq, Repr

/-- A piece of source text: what it is, the text, and the line it starts on. -/
structure Piece where
  role : Role
  text : String
  line : Nat
  deriving DecidableEq, Repr

/-- The token a piece is, if it is one. -/
def Piece.token? (p : Piece) : Option Token :=
  match p.role with
  | .token kind => some ⟨p.text, kind, p.line⟩
  | _ => none

/-- The lexical error a piece is, if it is one. -/
def Piece.error? (p : Piece) : Option LexicalError :=
  match p.role with
  | .invalid flaw => some ⟨flaw, p.text, p.line⟩
  | _ => none

/-- What the scanner is in the middle of. -/
inductive Mode where
  | ground | word | number | badNumber | equals | star | slash | lineComment | blockComment
  /-- In a block comment, right after a star that may end it. -/
  | blockStar
  deriving DecidableEq, Repr

/-- The class of a word: a reserved one is a keyword. -/
def wordKind (text : String) : TokenKind := if text ∈ keywords then .keyword else .id

/-- What the text read in a mode is when nothing more belongs to it. -/
def Mode.role (m : Mode) (text : String) : Role :=
  match m with
  | .ground => .blank
  | .word => .token (wordKind text)
  | .number => .token .num
  | .badNumber => .invalid .badNumber
  | .equals | .star => .token .symbol
  | .slash => .invalid .stray
  | .lineComment => .comment
  | .blockComment | .blockStar => .invalid .unclosedComment

/-- The state of the scanner: the mode, the text and first line of the piece being read, the line
    at hand, and the pieces before it. In the ground mode no piece is being read. -/
structure Scanner where
  mode : Mode := .ground
  text : String := ""
  start : Nat := 1
  line : Nat := 1
  pieces : Array Piece := #[]
  deriving Repr

namespace Scanner

/-- Adds a character to the piece being read. -/
def extend (s : Scanner) (mode : Mode) (c : Char) : Scanner :=
  { s with mode := mode, text := s.text.push c }

/-- Ends the piece being read. -/
def close (s : Scanner) (role : Role) : Scanner :=
  { s with mode := .ground, text := "", pieces := s.pieces.push ⟨role, s.text, s.start⟩ }

/-- Ends the piece being read, if there is one, as what its mode makes of it. -/
def flush (s : Scanner) : Scanner :=
  match s.mode with
  | .ground => s
  | m => s.close (m.role s.text)

/-- Starts a piece with a character that may go on. -/
def enter (s : Scanner) (mode : Mode) (c : Char) : Scanner :=
  { s with mode := mode, text := c.toString, start := s.line }

/-- A piece of one character. -/
def single (s : Scanner) (role : Role) (c : Char) : Scanner :=
  { s with pieces := s.pieces.push ⟨role, c.toString, s.line⟩ }

/-- Reads the first character of a piece. -/
def begin (s : Scanner) (c : Char) : Scanner :=
  if isBlank c then s.single .blank c
  else if c == '/' then s.enter .slash c
  else if c == '=' then s.enter .equals c
  else if c == '*' then s.enter .star c
  else if symbolChars.contains c then s.single (.token .symbol) c
  else if c.isDigit then s.enter .number c
  else if c.isAlpha then s.enter .word c
  else s.single (.invalid .stray) c

/-- Reads one character. -/
def read (s : Scanner) (c : Char) : Scanner :=
  match s.mode with
  | .ground => s.begin c
  | .word => if c.isAlphanum then s.extend .word c else s.flush.begin c
  | .number =>
    if c.isDigit then s.extend .number c
    else if c.isAlpha then s.extend .badNumber c
    else s.flush.begin c
  | .badNumber => if c.isAlphanum then s.extend .badNumber c else s.flush.begin c
  | .equals => if c == '=' then (s.extend .equals c).close (.token .symbol) else s.flush.begin c
  | .star =>
    if c == '/' then (s.extend .star c).close (.invalid .unmatchedClose) else s.flush.begin c
  | .slash =>
    if c == '/' then s.extend .lineComment c
    else if c == '*' then s.extend .blockComment c
    else s.flush.begin c
  | .lineComment => if c == '\n' then s.flush.begin c else s.extend .lineComment c
  | .blockComment => s.extend (if c == '*' then .blockStar else .blockComment) c
  | .blockStar =>
    if c == '/' then (s.extend .blockComment c).close .comment
    else s.extend (if c == '*' then .blockStar else .blockComment) c

/-- Reads one character and counts the line it may end. -/
def step (s : Scanner) (c : Char) : Scanner :=
  let s := s.read c
  if c == '\n' then { s with line := s.line + 1 } else s

/-- Reads a whole text. -/
def run (text : String) : Scanner := (text.toList.foldl step {}).flush

end Scanner

/-- Source text cut into tokens and lexical errors, each in order. The tokens end with the stop
    mark. -/
structure Scan where
  tokens : List Token
  errors : List LexicalError
  deriving Repr

/-- The pieces of a text. -/
def pieces (text : String) : List Piece := (Scanner.run text).pieces.toList

/-- Scans a text. What is not part of the language is reported and skipped, and scanning goes on
    right after it. -/
def scan (text : String) : Scan :=
  let s := Scanner.run text
  { tokens := s.pieces.toList.filterMap Piece.token? ++ [Token.stopMark s.line]
    errors := s.pieces.toList.filterMap Piece.error? }

end OnePass
