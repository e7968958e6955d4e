import TestCatalog.Parsing.Production

/-!
# Parsing/Derivation — tokens and derivations

A token is a terminal at its place in the text, with the comments that stand before it.  A
derivation is a reading of a text: a production with one reading for each of its parts.
-/

namespace TestCatalog.Parsing

/-- A piece of text and the byte offset at which it starts. -/
structure Piece where
  start : Nat
  text : String
deriving DecidableEq, Repr, Inhabited

/-- A terminal as it stands in a text, behind the comments that part it from the token before. -/
structure Token where
  terminal : Nat
  piece : Piece
  comments : List Piece := []
deriving DecidableEq, Repr, Inhabited

/-- A reading of a text by the productions of a grammar. -/
inductive Derivation where
  | leaf (token : Token)
  | node (production : Nat) (parts : List Derivation)
deriving Repr, Inhabited

namespace Derivation

/-- The symbol that is read. -/
def symbol (productions : Array Production) : Derivation → Symbol
  | .leaf t => .terminal t.terminal
  | .node p _ => .category (productions.getD p default).category

/-- The offset of the first token. -/
def start : Derivation → Nat
  | .leaf t => t.piece.start
  | .node _ [] => 0
  | .node _ (d :: _) => d.start

end Derivation

end TestCatalog.Parsing
