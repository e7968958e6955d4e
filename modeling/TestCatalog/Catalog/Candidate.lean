import TestCatalog.Files.Visit
import TestCatalog.Log.Logged

/-!
# Catalog/Candidate — files to look at

The files under a search root whose names end in `_test.go`, in the order in which they are met.
-/

namespace TestCatalog.Catalog

open Files Log

/-- A file to look at, and the search root that led to it. -/
structure Candidate where
  path : Path
  root : Path
deriving DecidableEq, Repr, Inhabited

/-- The extension of test files. -/
def sourceExtension : String := "go"

/-- What the names of test files end in. -/
def testFileEnd : String := "_test.go"

/-- Whether a path ends in the name of a test file, which is looked at as it is shown. -/
def isTestFile (path : Path) : Bool :=
  path.extension? == some (sourceExtension : Raw) &&
    match path.fileName? with
    | some name => testFileEnd.toList.isSuffixOf name.shown.toList
    | none => false

/-- The test files among what is met under a root, up to the first directory that is refused. -/
def testFilesIn (root : Path) : List Visit → Logged (List Candidate)
  | [] => pure []
  | .refused path fault :: _ => .fail (.unsearchable root path fault)
  | .file path :: rest =>
    if isTestFile path then do
      .report [.foundFile path]
      let more ← testFilesIn root rest
      return ⟨path, root⟩ :: more
    else testFilesIn root rest

/-- The test files under a root. -/
def testFiles (fs : FileSystem) (root : Path) : Logged (List Candidate) :=
  testFilesIn root (fs.visits root)

end TestCatalog.Catalog
