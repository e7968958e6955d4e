/-!
# Parsing/Production — productions of a context-free grammar

Terminals and categories are numbered.  A production says that its category may be spelled by a list
of symbols; its precedence and associativity settle at which of two readings the parser stops early,
and its weight is what a reading that uses it adds to its score.

A set of terminals is the number whose binary digits are its characteristic function, so that union
is bitwise disjunction.
-/

namespace TestCatalog.Parsing

/-- A symbol of the right-hand side of a production. -/
inductive Symbol where
  | terminal (index : Nat)
  | category (index : Nat)
deriving DecidableEq, Repr, Inhabited

/-- Whether an operator groups to one side, or the grammar does not say. -/
inductive Associativity where
  | unspecified
  | left
  | right
deriving DecidableEq, Repr, Inhabited

/-- One way to spell a category. -/
structure Production where
  category : Nat
  parts : List Symbol
  precedence : Int := 0
  associativity : Associativity := .unspecified
  weight : Int := 0
deriving DecidableEq, Repr, Inhabited

/-- A set of terminals, one binary digit for each. -/
abbrev TerminalSet := Nat

namespace TerminalSet

/-- The set of one terminal. -/
def single (terminal : Nat) : TerminalSet := 1 <<< terminal

/-- Membership of a terminal. -/
def has (set : TerminalSet) (terminal : Nat) : Bool := Nat.testBit set terminal

end TerminalSet

end TestCatalog.Parsing
