import TestCatalog.Text.Bytes

/-!
# Source/Lines — the lines of a text

A line starts at offset `0` and after every newline.  The line of an offset is found by bisection in
the increasing list of these starts, so that many offsets of one text are looked up quickly.
-/

namespace TestCatalog.Source

open Text (bytes)

/-- Where the lines of a text start, in increasing order. -/
structure Lines where
  starts : Array Nat
deriving DecidableEq, Repr, Inhabited

/-- The offsets just after the newlines among bytes of which the first has offset `offset`. -/
def afterNewlines (offset : Nat) : List UInt8 → List Nat
  | [] => []
  | b :: rest =>
    if b = 10 then (offset + 1) :: afterNewlines (offset + 1) rest
    else afterNewlines (offset + 1) rest

/-- The lines of a text. -/
def Lines.ofText (text : String) : Lines := ⟨(0 :: afterNewlines 0 (bytes text)).toArray⟩

/-- The first index from `low` on, and before `high`, whose start lies beyond the offset; `high` if
there is none. -/
def Lines.bisect (lines : Lines) (offset low high : Nat) : Nat :=
  if low < high then
    let middle := (low + high) / 2
    if lines.starts.getD middle 0 ≤ offset then
      lines.bisect offset (middle + 1) high
    else
      lines.bisect offset low middle
  else low
termination_by high - low

/-- The number of the line in which an offset lies, counted from `1`. -/
def Lines.line (lines : Lines) (offset : Nat) : Nat := lines.bisect offset 0 lines.starts.size

/-- The place of an offset in its line, in bytes and counted from `1`. -/
def Lines.column (lines : Lines) (offset : Nat) : Nat :=
  offset - lines.starts.getD (lines.line offset - 1) 0 + 1

end TestCatalog.Source
