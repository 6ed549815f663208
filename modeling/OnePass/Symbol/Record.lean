import OnePass.Column
import OnePass.Symbol.Basic

/-!
# Activation records

A call of a function has a record in memory. It begins with four cells that belong to the calling
convention; parameters, local variables and temporaries follow in the order in which they are
declared.

    frame pointer ──▶ return value   0
                      return address 4
                      saved stack    8
                      saved frame   12
                      parameters    16 …
                      locals and temporaries

Offsets count from the frame pointer. -/

namespace OnePass

namespace Record

/-- Offset of the cell for the return value. -/
def returnValue : Nat := 0

/-- Offset of the cell for the return address. -/
def returnAddress : Nat := 4

/-- Offset of the cell for the caller's stack pointer. -/
def savedStack : Nat := 8

/-- Offset of the cell for the caller's frame pointer. -/
def savedFrame : Nat := 12

/-- Bytes of the cells that belong to the calling convention. -/
def header : Nat := 16

end Record

/-- The record of a function as far as it is laid out. -/
structure Record where
  /-- Bytes laid out so far, the header included. -/
  size : Nat := Record.header
  /-- Nothing may be added any more. -/
  closed : Bool := false
  deriving DecidableEq, Repr

namespace Record

/-- Lays out some words; gives the offset of the first. -/
def allocate (r : Record) (words : Nat) : Except Fault (Nat × Record) :=
  if r.closed then .error .recordClosed
  else match segmentEnd? r.size words addressLimit with
    | some size => .ok (r.size, { r with size })
    | none => .error .recordFull

/-- A declaration of some words fits. -/
def fits (r : Record) (words : Nat) : Bool := (segmentEnd? r.size words declaredLimit).isSome

/-- Bytes beyond the header. -/
def frameSize (r : Record) : Nat := r.size - header

/-- Ends the layout. -/
def close (r : Record) : Except Fault Record :=
  if r.closed then .error .recordClosedTwice else .ok { r with closed := true }

end Record

/-- Summary of a function whose code is complete. -/
structure Frame where
  name : String
  entry : Nat
  params : List Ty
  frameSize : Nat
  size : Nat
  deriving DecidableEq, Repr

/-- A summary as it is shown. -/
def Frame.text (f : Frame) : String :=
  let params := ", ".intercalate (f.params.map Ty.text)
  s!"{alignLeft 16 f.name} entry {alignRight 4 (toString f.entry)}  ({params})  "
    ++ s!"frame {f.frameSize} bytes, record {f.size} bytes"

end OnePass
