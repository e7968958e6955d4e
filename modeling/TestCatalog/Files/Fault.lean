/-!
# Files/Fault — why the system refuses something

Why a path cannot be followed or a file cannot be read.
-/

namespace TestCatalog.Files

/-- Why the file system refuses something. -/
inductive Fault where
  | notPermitted
  | notFound
  | accessDenied
  | notDirectory
  | isDirectory
  | nameTooLong
  | linkLoop
  | invalidText
  | nulInPath
deriving DecidableEq, Repr, Inhabited

/-- The system's number for a fault, if it has one. -/
def Fault.number? : Fault → Option Nat
  | .notPermitted => some 1
  | .notFound => some 2
  | .accessDenied => some 13
  | .notDirectory => some 20
  | .isDirectory => some 21
  | .nameTooLong => some 36
  | .linkLoop => some 40
  | .invalidText => none
  | .nulInPath => none

/-- The system's words for a fault. -/
def Fault.words : Fault → String
  | .notPermitted => "Operation not permitted"
  | .notFound => "No such file or directory"
  | .accessDenied => "Permission denied"
  | .notDirectory => "Not a directory"
  | .isDirectory => "Is a directory"
  | .nameTooLong => "File name too long"
  | .linkLoop => "Too many levels of symbolic links"
  | .invalidText => "stream did not contain valid UTF-8"
  | .nulInPath => "file name contained an unexpected NUL byte"

/-- A fault as it is shown: its words, and its number if it has one. -/
def Fault.message (f : Fault) : String :=
  match f.number? with
  | some n => f.words ++ " (os error " ++ toString n ++ ")"
  | none => f.words

end TestCatalog.Files
