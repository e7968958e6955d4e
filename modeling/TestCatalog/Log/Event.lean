import TestCatalog.Path.Basic
import TestCatalog.Text.Marks

/-!
# Log/Event — what a run reports on its way

Each event has a level, the part of the program it comes from, and a line of text.  If much is asked
for, the line also says where in the program the event is reported, so far as that is known.
-/

namespace TestCatalog.Log

/-- How important an event is. -/
inductive Level where
  | error
  | warn
  | info
  | debug
  | trace
deriving DecidableEq, Repr, Inhabited

/-- The place of a level among the levels: the more detailed, the higher. -/
def Level.rank : Level → Nat
  | .error => 1
  | .warn => 2
  | .info => 3
  | .debug => 4
  | .trace => 5

/-- A level as it is written in front of a line. -/
def Level.label : Level → String
  | .error => "ERROR"
  | .warn => "WARN"
  | .info => "INFO"
  | .debug => "DEBUG"
  | .trace => "TRACE"

/-- Something that happened in a run. -/
inductive Event where
  | foundFile (path : Path)
  | collectedFiles (root : Path) (files : Nat)
  | readFunction (name : String) (statements : Nat)
  | resolvedTable (function field : String) (rows : Nat)
  | scannedFile (path : Path) (tests : Nat)
  | completed (files tests : Nat)
deriving DecidableEq, Repr, Inhabited

namespace Event

/-- The level of an event. -/
def level : Event → Level
  | .foundFile _ | .readFunction _ _ | .resolvedTable _ _ _ => .trace
  | .collectedFiles _ _ | .scannedFile _ _ | .completed _ _ => .debug

/-- The part of the program from which an event comes, as filters name it. -/
def origin : Event → String
  | .foundFile _ => "gotest_ls::discovery::files"
  | .collectedFiles _ _ | .scannedFile _ _ | .completed _ _ => "gotest_ls::discovery"
  | .readFunction _ _ => "gotest_ls::syntax::go"
  | .resolvedTable _ _ _ => "gotest_ls::scanner"

/-- What an event says. -/
def text : Event → String
  | .foundFile path => "found test file path=" ++ path.shown
  | .collectedFiles root files =>
    "collected test files root=" ++ root.shown ++ " files=" ++ toString files
  | .readFunction name statements =>
    "lowered function name=" ++ name ++ " statements=" ++ toString statements
  | .resolvedTable function field rows =>
    "resolved table test function=" ++ function ++ " field=" ++ Text.quotedIdentifier field ++
      " rows=" ++ toString rows
  | .scannedFile path tests => "scanned file path=" ++ path.shown ++ " tests=" ++ toString tests
  | .completed files tests =>
    "discovery complete files=" ++ toString files ++ " tests=" ++ toString tests

/-- The line for an event, with the file and the line of the place where it is reported, if that is
to be shown. -/
def line (e : Event) (place : Option (String × Nat)) : String :=
  let origin := match place with
    | some (file, number) => file ++ ":" ++ toString number ++ ": "
    | none => ""
  e.level.label ++ " " ++ origin ++ e.text

end Event

/-- Where in the program each event is reported, as a file and a line in it, so far as the program
has kept that. -/
abbrev Places := Event → Option (String × Nat)

end TestCatalog.Log
