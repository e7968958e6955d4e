import TestCatalog.Files.Fault
import TestCatalog.Path.Basic

/-!
# Failure — why there is no listing

Why a run of the program ends without a listing, and how it says so.
-/

namespace TestCatalog

open Files (Fault)

/-- Why there is no listing. -/
inductive Failure where
  | fileAndDirectories
  | directoryAsFile
  | noSuchFile (path : Path)
  | unknownStatus (path : Path) (fault : Fault)
  | unreadable (path : Path) (fault : Fault)
  | unsearchable (root path : Path) (fault : Fault)
  | noCurrentDirectory (fault : Fault)
  | unrelated (target base : Path)
  | noLanguage (language : String)
  | unparsed (path : Path)
  | syntaxError (path : Path) (line column : Nat)
deriving DecidableEq, Repr, Inhabited

namespace Failure

/-- A failure to look at a file: a missing file has a failure of its own. -/
def ofStatus (path : Path) (fault : Fault) : Failure :=
  if fault = .notFound then .noSuchFile path else .unknownStatus path fault

/-- Whether the arguments are at fault, and not what they lead to. -/
def isOfArguments : Failure → Bool
  | .fileAndDirectories | .directoryAsFile => true
  | _ => false

/-- What went wrong. -/
def reason : Failure → String
  | .fileAndDirectories => "cannot specify both a file and a directory"
  | .directoryAsFile => "required file, provided directory"
  | .noSuchFile path => "file not found: " ++ path.shown
  | .unknownStatus path fault => "failed to stat '" ++ path.shown ++ "': " ++ fault.message
  | .unreadable path fault => "failed to read file '" ++ path.shown ++ "': " ++ fault.message
  | .unsearchable root path fault =>
    "failed to walk '" ++ root.shown ++ "': IO error for operation on " ++ path.shown ++ ": " ++
      fault.message
  | .noCurrentDirectory fault => "failed to resolve current directory: " ++ fault.message
  | .unrelated target base =>
    "cannot make '" ++ target.shown ++ "' relative to '" ++ base.shown ++ "'"
  | .noLanguage language => "failed to set parser language: " ++ language
  | .unparsed path => "failed to parse source code in " ++ path.shown
  | .syntaxError path line column =>
    path.shown ++ ":" ++ toString line ++ ":" ++ toString column ++ ": syntax error"

/-- The message that is shown. -/
def message (f : Failure) : String :=
  "ERROR: " ++ (if f.isOfArguments then "" else "unknown error: ") ++ f.reason

end Failure

end TestCatalog
