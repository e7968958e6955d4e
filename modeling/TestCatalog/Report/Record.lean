import TestCatalog.Listing.Entry
import TestCatalog.Listing.Name
import TestCatalog.Report.Location
import TestCatalog.Source.Lines
import TestCatalog.Text.Bytes

/-!
# Report/Record — what is reported of a test

A record is what is reported of one test: its full name, where its file is, and where in the file it
stands.  Records are listed by the bytes of their names; those of the same name stay in the order in
which they were found.
-/

namespace TestCatalog.Report

open Listing (Entry qualified)
open Source (Lines)

/-- What is reported of a test.  Its line and the place of its first byte are counted from `1`. -/
structure Record where
  name : String
  fileName : String
  relativePath : String
  absolutePath : String
  line : Nat
  pos : Nat
deriving DecidableEq, Repr, Inhabited

/-- The record of an entry in a file. -/
def Record.ofEntry (entry : Entry) (location : Location) (lines : Lines) : Record where
  name := qualified entry.function.name (entry.child.map (·.literal))
  fileName := location.fileName
  relativePath := location.relativePath
  absolutePath := location.absolutePath
  line := lines.line entry.offset
  pos := entry.offset + 1

/-- Records by the bytes of their names, those of the same name in the order given. -/
def byName (records : List Record) : List Record :=
  records.mergeSort fun a b => Raw.byteLE a.name b.name

end TestCatalog.Report
