import TestCatalog.Files.Tree

/-!
# Files/Visit — what is met under a path

The files below a directory are visited in the order of their names, the contents of a directory at
its place in that order.  Links and special files are passed over.  A directory whose path has grown
too long cannot be opened.
-/

namespace TestCatalog.Files

/-- What is met on the way: a file, or a directory that cannot be opened. -/
inductive Visit where
  | file (path : Path)
  | refused (path : Path) (fault : Fault)
deriving DecidableEq, Repr, Inhabited

/-- Puts what was met in the entries of a directory in the order of their names. -/
def inNameOrder {α : Type} (met : List (Raw × List α)) : List α :=
  (met.mergeSort fun a b => a.1.byteLE b.1).flatMap (·.2)

mutual

/-- What is met in an item at a path. -/
def Item.visits (path : Path) : Item → List Visit
  | .file _ => [.file path]
  | .link _ | .special _ => []
  | .folder entries =>
    if maxPath < path.text.size then [.refused path .nameTooLong]
    else inNameOrder (visitsOfEntries path entries)

/-- What is met in each entry of the directory at a path. -/
def visitsOfEntries (path : Path) : List (Raw × Item) → List (Raw × List Visit)
  | [] => []
  | (name, item) :: rest => (name, item.visits (path.child name)) :: visitsOfEntries path rest

end

/-- What is met from a path on.  A link is followed here, but only to a directory. -/
def FileSystem.visits (fs : FileSystem) (path : Path) : List Visit :=
  match fs.item false path with
  | .error fault => [.refused path fault]
  | .ok (.link _) =>
    match fs.item true path with
    | .error fault => [.refused path fault]
    | .ok (.folder entries) => Item.visits path (.folder entries)
    | .ok _ => []
  | .ok item => item.visits path

end TestCatalog.Files
