import TestCatalog.Failure
import TestCatalog.Path.Clean

/-!
# Report/Location — where a file is

A file is reported by its name, by its absolute path, and by its path from the directory that holds
the search root, each as it is shown.
-/

namespace TestCatalog

/-- The absolute path that a path says, taken from the current directory if it does not start at the
root. -/
def Path.absolute (current : Option Path) (p : Path) : Except Failure Path :=
  if p.isRooted then .ok p.clean
  else
    match current with
    | some directory => .ok (directory.join p).clean
    | none => .error (.noCurrentDirectory .notFound)

/-- The path that leads from `base` to `target`, or a failure that names both as given. -/
def Path.relative (base target : Path) : Except Failure Path :=
  match base.relative? target with
  | some path => .ok path
  | none => .error (.unrelated target base)

namespace Report

/-- Where a file is. -/
structure Location where
  fileName : String
  relativePath : String
  absolutePath : String
deriving DecidableEq, Repr, Inhabited

/-- The directory from which files under a root are reported: the one that holds the root. -/
def directoryOf (root : Path) : Path := root.clean.parent?.getD root.clean

/-- The location of a file that was found under a root. -/
def Location.resolve (current : Option Path) (path root : Path) : Except Failure Location := do
  let absolute ← path.absolute current
  let relative ← Path.relative (directoryOf root) path
  return ⟨(path.fileName?.map Raw.shown).getD "", relative.shown, absolute.shown⟩

end Report

end TestCatalog
