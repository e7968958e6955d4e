import TestCatalog.Log.Event

/-!
# Log/Filter — which events are shown

A filter is a list of rules.  Each gives the most detailed level shown for the events of one part of
the program, or of all of it.  For an event, the rule with the longest matching part decides, and of
two rules for the same part the later one.  A filter is written as rules with commas between them: a
level, a part, or a part and a level with `=` between them.
-/

namespace TestCatalog.Log

/-- The most detailed level that is shown for events whose origin starts with a part, or for all
events.  Without a level nothing is shown. -/
structure Rule where
  part : Option String
  level : Option Level
deriving DecidableEq, Repr, Inhabited

/-- A list of rules. -/
abbrev Filter := List Rule

/-- How well a rule fits the origin of an event: not at all, or the better the more of it is spelled
out. -/
def Rule.fit? (r : Rule) (origin : String) : Option Nat :=
  match r.part with
  | none => some 0
  | some part =>
    if part.toList.isPrefixOf origin.toList then some (part.toList.length + 1) else none

/-- Whether a rule shows a level. -/
def Rule.shows (r : Rule) (level : Level) : Bool :=
  match r.level with
  | some most => level.rank ≤ most.rank
  | none => false

/-- The rule that decides for the origin of an event, with its fit. -/
def Filter.deciding? (filter : Filter) (origin : String) : Option (Nat × Rule) :=
  filter.foldl (fun best r =>
    match r.fit? origin, best with
    | none, _ => best
    | some fit, none => some (fit, r)
    | some fit, some (other, old) => if other ≤ fit then some (fit, r) else some (other, old)) none

/-- Whether a filter shows an event. -/
def Filter.shows (filter : Filter) (e : Event) : Bool :=
  match filter.deciding? e.origin with
  | some (_, r) => r.shows e.level
  | none => false

/-- The lines that a filter shows of some events. -/
def Filter.lines (filter : Filter) (places : Places) (events : List Event) : List String :=
  (events.filter filter.shows).map fun e => e.line (places e)

/-- The words and numbers for levels, and those for showing nothing. -/
def levelWords : List (List String × Option Level) :=
  [(["off", "0"], none), (["error", "1"], some .error), (["warn", "2"], some .warn),
    (["info", "3"], some .info), (["debug", "4"], some .debug), (["trace", "5"], some .trace)]

/-- A text with its capital letters made small. -/
def lowercase (text : String) : String := String.ofList (text.toList.map Char.toLower)

/-- Reads a level, in letters of either case or as a number. -/
def readLevel? (text : String) : Option (Option Level) :=
  (levelWords.find? fun (words, _) => words.contains (lowercase text)).map (·.2)

/-- Whether a character may stand in the name of a part. -/
def isPartChar (c : Char) : Bool := Text.isIdentifierPart c || c == ':' || c == '-'

/-- Reads the name of a part. -/
def readPart? (text : String) : Option String :=
  if !text.isEmpty && text.toList.all isPartChar then some text else none

/-- Reads a rule.  A part without a level, also after `=`, is shown in full. -/
def readRule? (text : String) : Option Rule :=
  let part := String.ofList (text.toList.takeWhile (· ≠ '='))
  match text.toList.dropWhile (· ≠ '=') with
  | [] =>
    match readLevel? text with
    | some level => some ⟨none, level⟩
    | none => (readPart? part).map (⟨some ·, some .trace⟩)
  | [_] => (readPart? part).map (⟨some ·, some .trace⟩)
  | _ :: level => do
    let part ← readPart? part
    let level ← readLevel? (String.ofList level)
    return ⟨some part, level⟩

/-- Reads a filter.  Without any rule only errors are shown. -/
def readFilter? (text : String) : Option Filter := do
  let rules ← ((text.splitOn ",").filter (!·.isEmpty)).mapM readRule?
  return if rules.isEmpty then [⟨none, some .error⟩] else rules

/-- How much the user asks to see. -/
inductive Verbosity where
  | quiet
  | normal
  | verbose
  | debug
  | trace
deriving DecidableEq, Repr, Inhabited

namespace Verbosity

/-- The verbosity for a number of requests for more, which a request for quiet overrides. -/
def ofFlags (verbose : Nat) (quiet : Bool) : Verbosity :=
  match quiet, verbose with
  | true, _ => .quiet
  | false, 0 => .normal
  | false, 1 => .verbose
  | false, 2 => .debug
  | false, _ => .trace

/-- The most detailed level shown. -/
def level : Verbosity → Level
  | .quiet => .error
  | .normal => .warn
  | .verbose => .info
  | .debug => .debug
  | .trace => .trace

/-- The part of the program that a verbosity speaks of, which is all of it. -/
def part : String := "gotest_ls"

/-- The filter for a verbosity, as it is written. -/
def directive (v : Verbosity) : String := part ++ "=" ++ lowercase v.level.label

/-- The filter for a verbosity. -/
def filter (v : Verbosity) : Filter := [⟨some part, some v.level⟩]

/-- The places that are shown at a verbosity: all from `debug` on, and none before. -/
def shownPlaces (v : Verbosity) (places : Places) : Places :=
  match v with
  | .debug | .trace => places
  | _ => fun _ => none

end Verbosity

/-- The filter of a run: the one asked for by name if there is one and it can be read, else that of
the verbosity. -/
def filterFor (verbosity : Verbosity) (asked : Option String) : Filter :=
  (asked.bind readFilter?).getD verbosity.filter

end TestCatalog.Log
