import TestCatalog.Parsing.State
import TestCatalog.Parsing.Derivation

/-!
# Parsing/Stack — stacks that share their lower parts

A stack is a state together with the ways to have come to it: each edge holds the last part read and
the stack it was read on.  Readings that agree on a state at the same place in the text share one
stack, and their differences lie in its edges.
-/

namespace TestCatalog.Parsing

/-- The last part of a reading, its score, and what it was read on. -/
structure Edge (σ : Type) where
  tree : Derivation
  weight : Int
  below : σ

/-- A state reached at a place in the text, with all the ways to it. -/
inductive Stack where
  | node (state : State) (stop : Nat) (edges : List (Edge Stack))

namespace Stack

/-- The state on top. -/
def state : Stack → State
  | .node s _ _ => s

/-- The offset of the first byte that is not yet read. -/
def stop : Stack → Nat
  | .node _ n _ => n

/-- The ways to the state. -/
def edges : Stack → List (Edge Stack)
  | .node _ _ es => es

/-- Whether two stacks are the same place: there is one stack for each state and offset. -/
def samePlace (a b : Stack) : Bool := a.stop == b.stop && a.state == b.state

/-- Some of the topmost parts of a reading, from left to right, their score, and what lies below
them. -/
structure Path where
  parts : List Derivation
  weight : Int
  base : Stack

/-- Extends a path downwards by a number of parts, in all ways. -/
def extend : Nat → Path → List Path
  | 0, path => [path]
  | n + 1, path => path.base.edges.flatMap fun e =>
      extend n ⟨e.tree :: path.parts, path.weight + e.weight, e.below⟩

end Stack

/-- Adds a way to a state.  Of two ways that differ only in the reading of the last part the one of
higher score is kept.  The second component says whether anything has changed. -/
def Edge.add (e : Edge Stack) : List (Edge Stack) → List (Edge Stack) × Bool
  | [] => ([e], true)
  | f :: rest =>
    if f.below.samePlace e.below then
      if f.weight < e.weight then (e :: rest, true) else (f :: rest, false)
    else
      let (rest, changed) := e.add rest
      (f :: rest, changed)

end TestCatalog.Parsing
