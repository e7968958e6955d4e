import TestCatalog.Go.Kind

/-!
# Go/Pattern — patterns of a grammar

A rule of the grammar gives a category a pattern, built from symbols by sequence, choice and
repetition.  `alternatives` writes a pattern out as plain sequences of symbols.  A repetition is a
category of its own that grows to the right: one occurrence, or the repetition followed by one more.
-/

namespace TestCatalog.Go

open Parsing (Symbol Associativity)

/-- What a symbol of a pattern contributes to its parent beyond its own node: the part it plays, and
the kind its node has here in place of its own. -/
structure Mark where
  role : Option Role := none
  label : Option Kind := none
deriving DecidableEq, Repr, Inhabited

/-- How a category may be spelled. -/
inductive Pattern where
  | empty
  | token (t : Terminal) (mark : Mark)
  | category (k : Kind) (mark : Mark)
  | seq (p q : Pattern)
  | alt (p q : Pattern)
  | many (p : Pattern)
deriving DecidableEq, Repr, Inhabited

namespace Pattern

instance : Append Pattern := ⟨.seq⟩

instance : OrOp Pattern := ⟨.alt⟩

instance : Coe Terminal Pattern := ⟨fun t => .token t {}⟩

instance : Coe Kind Pattern := ⟨fun k => .category k {}⟩

/-- A pattern or nothing. -/
def optional (p : Pattern) : Pattern := .alt p .empty

/-- A pattern any number of times. -/
def repeated (p : Pattern) : Pattern := .alt (.many p) .empty

/-- A pattern once or more, with separators between. -/
def separated (p separator : Pattern) : Pattern := p ++ repeated (separator ++ p)

/-- Gives a role to the symbols of a pattern that have none. -/
def playing (r : Role) : Pattern → Pattern
  | .empty => .empty
  | .token t m => .token t { m with role := m.role <|> some r }
  | .category k m => .category k { m with role := m.role <|> some r }
  | .seq p q => .seq (p.playing r) (q.playing r)
  | .alt p q => .alt (p.playing r) (q.playing r)
  | .many p => .many (p.playing r)

/-- The patterns repeated inside a pattern. -/
def repetitions : Pattern → List Pattern
  | .empty | .token _ _ | .category _ _ => []
  | .seq p q | .alt p q => p.repetitions ++ q.repetitions
  | .many p => p :: p.repetitions

end Pattern

/-- A symbol in its place in a production. -/
structure Step where
  symbol : Symbol
  mark : Mark := {}
deriving DecidableEq, Repr, Inhabited

/-- The sequences of symbols a pattern stands for, given the numbers of the repetitions. -/
def Pattern.alternatives (number : Pattern → Nat) : Pattern → List (List Step)
  | .empty => [[]]
  | .token t m => [[⟨.terminal t.index, m⟩]]
  | .category k m => [[⟨.category k.index, m⟩]]
  | .seq p q => (p.alternatives number).flatMap fun a => (q.alternatives number).map (a ++ ·)
  | .alt p q => p.alternatives number ++ q.alternatives number
  | .many p => [[⟨.category (number p), {}⟩]]

/-- A rule: a category, how it may be spelled, and how the parser chooses between readings. -/
structure Rule where
  kind : Kind
  pattern : Pattern
  precedence : Int := 0
  associativity : Associativity := .unspecified
  weight : Int := 0

end TestCatalog.Go
