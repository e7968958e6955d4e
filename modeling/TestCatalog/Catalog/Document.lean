import TestCatalog.Catalog.Candidate
import TestCatalog.Catalog.Parser
import TestCatalog.Report.Record

/-!
# Catalog/Document — files that have been read

A file is read, parsed, located and scanned, in this order, and gives a record for each of its
entries.
-/

namespace TestCatalog.Catalog

open Files Log Report Source
open Listing (entriesOf tables)

/-- A file that has been read and parsed, with the search root that led to it. -/
structure Document where
  path : Path
  root : Path
  tree : Tree
  lines : Lines
deriving Repr, Inhabited

/-- Parses the text of a file. -/
def Document.ofText (parser : Parser) (candidate : Candidate) (text : String) :
    Logged Document := do
  let tree ← parser candidate.path text
  return ⟨candidate.path, candidate.root, tree, Lines.ofText text⟩

/-- Reads and parses a file. -/
def Document.read (fs : FileSystem) (parser : Parser) (candidate : Candidate) :
    Logged Document := do
  let text ← .ofExcept ((fs.read candidate.path).mapError (.unreadable candidate.path))
  Document.ofText parser candidate text

/-- The entries of a file.  Each loop over a table is reported. -/
def Document.entries (file : Document) : Logged (List Listing.Entry) := do
  .report ((tables file.tree).map fun t => .resolvedTable t.function t.field t.rows)
  return entriesOf file.tree

/-- The records of a file, which are reported from the given current directory. -/
def Document.records (current : Option Path) (file : Document) : Logged (List Record) := do
  let location ← .ofExcept (Location.resolve current file.path file.root)
  let entries ← file.entries
  .report [.scannedFile file.path entries.length]
  return entries.map fun entry => Record.ofEntry entry location file.lines

/-- Reads a file and gives its records. -/
def recordsOf (fs : FileSystem) (parser : Parser) (candidate : Candidate) :
    Logged (List Record) := do
  let file ← Document.read fs parser candidate
  file.records fs.currentPath

end TestCatalog.Catalog
