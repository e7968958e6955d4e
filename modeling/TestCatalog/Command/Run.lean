import TestCatalog.Catalog.Build
import TestCatalog.Command.Read
import TestCatalog.Report.Json

/-!
# Command/Run — a run of the program

A run reads its arguments and writes a listing, or the help text, or says why it writes neither.
Log lines go to the error output, before anything else that is said there.
-/

namespace TestCatalog.Command

open Catalog Files Log Report

/-- How a run ends. -/
inductive Ending where
  | stopped (stop : Stop)
  | listing (text : String)
  | failed (failure : Failure)
deriving DecidableEq, Repr, Inhabited

/-- What a run does: the log lines that are shown, and how it ends. -/
structure Run where
  log : List String
  ending : Ending
deriving DecidableEq, Repr, Inhabited

/-- Texts as lines. -/
def linesOf (texts : List String) : String := String.join (texts.map (· ++ "\n"))

namespace Run

/-- What is written to the output. -/
def output (r : Run) : String :=
  match r.ending with
  | .listing text => linesOf [text]
  | .stopped .help => linesOf [helpText]
  | _ => ""

/-- What is written to the error output. -/
def errorOutput (r : Run) : String :=
  match r.ending with
  | .listing _ | .stopped .help => linesOf r.log
  | .stopped stop => linesOf (r.log ++ [stop.message])
  | .failed failure => linesOf (r.log ++ [failure.message])

/-- The exit code. -/
def exitCode (r : Run) : UInt32 :=
  match r.ending with
  | .listing _ => 0
  | .stopped stop => stop.exitCode
  | .failed _ => 1

end Run

/-- The listing that options ask for. -/
def listing (schedule : Schedule) (fs : FileSystem) (parser : Parser) (o : Options) :
    Logged String := do
  let roots ← .ofExcept (o.roots fs)
  let records ← build schedule fs parser roots
  return render o.pretty records

/-- A run with given options.  `places` says where the program reports its events, and `asked` is a
log filter asked for by name. -/
def runOptions (schedule : Schedule) (fs : FileSystem) (parser : Parser) (places : Places)
    (asked : Option String) (o : Options) : Run :=
  if o.needsHelp then ⟨[], .stopped .help⟩
  else
    let work := listing schedule fs parser o
    ⟨(filterFor o.verbosity asked).lines (o.verbosity.shownPlaces places) work.events,
      match work.result with
      | .ok text => .listing text
      | .error failure => .failed failure⟩

/-- A run with given arguments. -/
def run (schedule : Schedule) (fs : FileSystem) (parser : Parser) (places : Places)
    (asked : Option String) (arguments : List Raw) : Run :=
  match readOptions arguments with
  | .error stop => ⟨[], .stopped stop⟩
  | .ok o => runOptions schedule fs parser places asked o

end TestCatalog.Command
