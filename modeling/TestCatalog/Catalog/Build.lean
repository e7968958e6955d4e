import TestCatalog.Catalog.Document

/-!
# Catalog/Build — all tests under some roots

The roots are searched first, one after another; then the files are read, in any order, and their
records put together in the order in which the files were found; then the records are ordered by
name.
-/

namespace TestCatalog.Catalog

open Files Log Report

/-- The order in which independent pieces of work are done.  None is left out or done twice. -/
structure Schedule where
  arrange : {α : Type} → List α → List α
  perm : ∀ {α : Type} (work : List α), (arrange work).Perm work

/-- One after another. -/
def Schedule.inOrder : Schedule := ⟨id, fun _ => .refl _⟩

/-- Does the same work on each element of a list, in the order of a schedule and up to the first
failure.  The values come out in the order of the list. -/
def Schedule.each {α β : Type} (schedule : Schedule) (work : α → Logged β) (list : List α) :
    Logged (List β) := do
  let done ← Logged.each (fun (a, place) => do return (← work a, place))
    (schedule.arrange list.zipIdx)
  return (done.mergeSort fun a b => a.2 ≤ b.2).map (·.1)

/-- The test files under a root, and their number as an event. -/
def collect (fs : FileSystem) (root : Path) : Logged (List Candidate) := do
  let found ← testFiles fs root
  .report [.collectedFiles root found.length]
  return found

/-- All tests under some roots, by name. -/
def build (schedule : Schedule) (fs : FileSystem) (parser : Parser) (roots : List Path) :
    Logged (List Record) := do
  let found ← Logged.each (collect fs) roots
  let candidates := found.flatten
  let records ← schedule.each (recordsOf fs parser) candidates
  let listing := byName records.flatten
  .report [.completed candidates.length listing.length]
  return listing

end TestCatalog.Catalog
