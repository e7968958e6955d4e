import TestCatalog.Go.Rules
import TestCatalog.Go.Tokenizer

/-!
# Go/Grammar — the grammar of Go as productions

The rules written out as productions, and the tables the parser needs.  The repetitions of the rules
are numbered behind the kinds.
-/

namespace TestCatalog.Go

open Parsing (Production Tables Language Symbol)

/-- The patterns that occur repeated in the rules. -/
def repetitions : List Pattern := (rules.flatMap (·.pattern.repetitions)).eraseDups

/-- The number of a repetition as a category. -/
def repetitionIndex (p : Pattern) : Nat := Kind.count + repetitions.idxOf p

/-- A production, with the kind of node it makes, none for a repetition, and with what its parts
contribute beyond their nodes. -/
structure MarkedProduction where
  kind : Option Kind
  production : Production
  marks : List Mark
deriving Inhabited

/-- The production of a rule for one of its alternatives. -/
def Rule.production (r : Rule) (steps : List Step) : MarkedProduction where
  kind := some r.kind
  production :=
    { category := r.kind.index, parts := steps.map (·.symbol), precedence := r.precedence
      associativity := r.associativity, weight := r.weight }
  marks := steps.map (·.mark)

/-- The production of a repetition for a list of steps. -/
def repetitionProduction (category : Nat) (steps : List Step) : MarkedProduction where
  kind := none
  production := { category, parts := steps.map (·.symbol) }
  marks := steps.map (·.mark)

/-- The productions of the grammar. -/
@[irreducible] def markedProductions : Array MarkedProduction :=
  let plain := rules.flatMap fun r =>
    (r.pattern.alternatives repetitionIndex).eraseDups.map r.production
  let repeated := repetitions.flatMap fun p =>
    let n := repetitionIndex p
    (p.alternatives repetitionIndex).eraseDups.flatMap fun steps =>
      [repetitionProduction n steps, repetitionProduction n (⟨.category n, {}⟩ :: steps)]
  (plain ++ repeated).toArray

/-- The score that a terminal adds to a reading: of readings that are equal otherwise, the one is
taken in which fewer line ends count. -/
def terminalWeight (terminal : Nat) : Int := if terminal = Terminal.lineEnd.index then -10 else 0

/-- The tables of the grammar. -/
def tables : Tables :=
  .ofProductions (markedProductions.map (·.production)) Terminal.count
    (Kind.count + repetitions.length) terminalWeight

/-- Go as a language for the parser. -/
def language : Language where
  tables := tables
  next := nextToken
  starts := (List.range markedProductions.size).filter fun i =>
    (tables.production i).category = Kind.sourceFile.index
  finish := Terminal.finish.index

end TestCatalog.Go
