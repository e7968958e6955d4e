import TestCatalog.Text.Blank

/-!
# Listing/Name — how a child is shown

A child is shown as `parent/name`, where `name` is the content of its literal without double quotes
and with underscores for spaces.
-/

namespace TestCatalog.Listing

open Text (trim)

/-- What stands between two delimiters at the ends of a text, if it has them. -/
def between? (delimiter : Char) (text : List Char) : Option (List Char) :=
  match text with
  | first :: rest =>
    if first = delimiter ∧ rest.getLast? = some delimiter then some rest.dropLast else none
  | [] => none

/-- The characters of a literal without the blanks around it and without its delimiters, which are
double quotes or backquotes. -/
def unquoteChars (literal : List Char) : List Char :=
  let text := trim literal
  match between? '"' text with
  | some content => content
  | none => (between? '\x60' text).getD text

/-- The content of a literal; a text without delimiters is only trimmed. -/
def unquote (literal : String) : String := String.ofList (unquoteChars literal.toList)

/-- The part of a name that a literal gives: its content without double quotes, and with underscores
for spaces. -/
def normalize (literal : String) : String :=
  let content := (unquoteChars literal.toList).filter (· ≠ '"')
  String.ofList (content.map fun c => if c = ' ' then '_' else c)

/-- The full name of a test: that of its function, and that of the child if it is one. -/
def qualified (parent : String) (literal : Option String) : String :=
  match literal with
  | some literal => parent ++ "/" ++ normalize literal
  | none => parent

end TestCatalog.Listing
