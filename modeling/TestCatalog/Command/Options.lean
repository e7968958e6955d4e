import TestCatalog.Failure
import TestCatalog.Files.Tree
import TestCatalog.Log.Filter

/-!
# Command/Options — what is asked for

What the user asks for on the command line, and the roots to search for it.
-/

namespace TestCatalog.Command

open Files Log

/-- What the user asks for: directories to search, or one file to look at instead; `pretty` for a
line for each field; `verbose`, as often as it is given, for more of the log, and `quiet` for
none. -/
structure Options where
  directories : List Path
  file : Option Path
  pretty : Bool
  verbose : Nat
  quiet : Bool
deriving DecidableEq, Repr, Inhabited

namespace Options

/-- Nothing asked for. -/
def initial : Options := ⟨[], none, false, 0, false⟩

/-- How much of the log is shown. -/
def verbosity (o : Options) : Verbosity := .ofFlags o.verbose o.quiet

/-- Whether there is nothing to search, so that help is due. -/
def needsHelp (o : Options) : Bool := o.directories.isEmpty && o.file.isNone

/-- The roots to search: the directories, or the one file, which must not be a directory. -/
def roots (fs : FileSystem) (o : Options) : Except Failure (List Path) :=
  match o.file with
  | none => .ok o.directories
  | some file =>
    if !o.directories.isEmpty then .error .fileAndDirectories
    else
      match fs.item true file with
      | .error fault => .error (.ofStatus file fault)
      | .ok (.folder _) => .error .directoryAsFile
      | .ok _ => .ok [file]

end Options

end TestCatalog.Command
