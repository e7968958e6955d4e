import TestCatalog.Go.Outline

/-!
# Go/Read — reading Go source

The text of a file becomes a syntax tree, or the place is reported at which it is no Go.  A byte
order mark at the start of the text is passed over.
-/

namespace TestCatalog.Go

open Parsing (Derivation)

/-- The derivation of a text, or the offset at which it cannot be read. -/
def derive (text : List Char) : Except Nat Derivation :=
  match text with
  | '\ufeff' :: rest => language.parse '\ufeff'.utf8Size rest
  | _ => language.parse 0 text

/-- The top-level nodes of a text, or the offset at which it cannot be read. -/
def readNodes (text : List Char) : Except Nat (List Node) :=
  (derive text).map fun
    | .leaf _ => []
    | .node p parts => nodesOfParts (markedProductions.getD p default).marks parts

/-- The syntax tree of a text, or the offset at which it cannot be read. -/
def read (text : String) : Except Nat Source.Tree := (readNodes text.toList).map outline

end TestCatalog.Go
