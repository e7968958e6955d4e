import TestCatalog.Parsing.Production

/-!
# Parsing/Corner — what can stand at the left edge

What can stand at the left edge of a category: the terminals it may begin with, and the productions
that may begin where it begins, each with the terminals that may follow.  No production is empty, so
both are found by looking at first parts only.
-/

namespace TestCatalog.Parsing

/-- Replaces a value by its image until it no longer changes, at most `fuel` times. -/
def untilStable {α : Type} [BEq α] (f : α → α) : Nat → α → α
  | 0, a => a
  | fuel + 1, a =>
    let b := f a
    if b == a then a else untilStable f fuel b

/-- The terminals a symbol may begin with, given those of each category. -/
def Symbol.firstOf (firsts : Array TerminalSet) : Symbol → TerminalSet
  | .terminal t => .single t
  | .category c => firsts.getD c 0

/-- Adds to each category what the first parts of its productions may begin with. -/
def firstStep (productions : Array Production) (firsts : Array TerminalSet) : Array TerminalSet :=
  productions.foldl (fun acc p =>
    match p.parts with
    | [] => acc
    | x :: _ => acc.modify p.category (· ||| x.firstOf acc)) firsts

/-- The terminals each category may begin with. -/
def firstSets (productions : Array Production) (categories : Nat) : Array TerminalSet :=
  untilStable (firstStep productions) categories (Array.replicate categories 0)

/-- A category that may begin where another begins: the terminals that may follow it inside the
other category, and whether it may also end where the other ends. -/
structure Opening where
  follow : TerminalSet
  atEnd : Bool
deriving DecidableEq, Inhabited

/-- One round of finding the categories at the left edge: the first part of every production of a
category found so far is found too. -/
def openingStep (productions : Array Production) (firsts : Array TerminalSet)
    (found : Array (Option Opening)) : Array (Option Opening) :=
  productions.foldl (fun acc p =>
    match acc.getD p.category none, p.parts with
    | some o, .category c :: rest =>
      let new : Opening :=
        match rest with
        | [] => o
        | x :: _ => ⟨x.firstOf firsts, false⟩
      acc.modify c fun
        | none => some new
        | some old => some ⟨old.follow ||| new.follow, old.atEnd || new.atEnd⟩
    | _, _ => acc) found

/-- The categories at the left edge of `c`, itself included. -/
def openings (productions : Array Production) (firsts : Array TerminalSet) (categories c : Nat) :
    Array (Option Opening) :=
  untilStable (openingStep productions firsts) categories
    ((Array.replicate categories none).set! c (some ⟨0, true⟩))

end TestCatalog.Parsing
