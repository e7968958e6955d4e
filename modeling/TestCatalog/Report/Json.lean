import TestCatalog.Report.Record

/-!
# Report/Json — the listing as a text

A listing is written as a JSON array with an object for each record, either without any blanks or
with a line for each field.  A listing without records is a sentence instead.
-/

namespace TestCatalog.Report

/-- A value in an object: a text or a number. -/
inductive Scalar where
  | text (s : String)
  | number (n : Nat)
deriving DecidableEq, Repr, Inhabited

/-- The fields of a record, in the order in which they are written. -/
def Record.fields (r : Record) : List (String × Scalar) :=
  [("name", .text r.name), ("fileName", .text r.fileName), ("relativePath", .text r.relativePath),
    ("absolutePath", .text r.absolutePath), ("line", .number r.line), ("pos", .number r.pos)]

/-- The blanks in a listing: what comes before an item at a depth or before the bracket that closes
it, and what comes before a value. -/
structure Layout where
  lead : Nat → List Char
  gap : List Char

/-- No blanks. -/
def Layout.compact : Layout := ⟨fun _ => [], []⟩

/-- A line for each item, indented by a tab for each level, and a space before each value. -/
def Layout.pretty : Layout := ⟨fun depth => '\n' :: List.replicate depth '\t', [' ']⟩

/-- A character as it is written between quotes: quotes, backslashes and control characters are
escaped. -/
def escape (c : Char) : List Char :=
  if c = '"' then ['\\', '"']
  else if c = '\\' then ['\\', '\\']
  else if c = '\x08' then ['\\', 'b']
  else if c = '\x0c' then ['\\', 'f']
  else if c = '\n' then ['\\', 'n']
  else if c = '\r' then ['\\', 'r']
  else if c = '\t' then ['\\', 't']
  else if c.toNat < 0x20 then
    ['\\', 'u', '0', '0', Nat.digitChar (c.toNat / 16), Nat.digitChar (c.toNat % 16)]
  else [c]

/-- A text between quotes. -/
def quote (s : String) : List Char := '"' :: s.toList.flatMap escape ++ ['"']

/-- A value as it is written. -/
def Scalar.chars : Scalar → List Char
  | .text s => quote s
  | .number n => Nat.toDigits 10 n

/-- A field as it is written. -/
def fieldChars (layout : Layout) (field : String × Scalar) : List Char :=
  layout.lead 2 ++ quote field.1 ++ ':' :: layout.gap ++ field.2.chars

/-- A record as it is written. -/
def recordChars (layout : Layout) (r : Record) : List Char :=
  layout.lead 1 ++ '\x7b' :: [','].intercalate (r.fields.map (fieldChars layout)) ++
    layout.lead 1 ++ ['\x7d']

/-- The records of a listing as they are written. -/
def listingChars (layout : Layout) (records : List Record) : List Char :=
  '[' :: [','].intercalate (records.map (recordChars layout)) ++ layout.lead 0 ++ [']']

/-- What is written if there are no records. -/
def nothingFound : String := "No tests found"

/-- The text of a listing. -/
def render (pretty : Bool) (records : List Record) : String :=
  if records.isEmpty then nothingFound
  else String.ofList (listingChars (if pretty then .pretty else .compact) records)

end TestCatalog.Report
