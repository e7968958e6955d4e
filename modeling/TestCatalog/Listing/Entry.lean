import TestCatalog.Listing.Table

/-!
# Listing/Entry — the entries of a file

The listing has one entry for each test function, or, where the function starts subtests, one for
each of its children in their place.  A function whose children have no literal names has no entry
at all.
-/

namespace TestCatalog.Listing

open Source

/-- A test: a function, or a child of one. -/
structure Entry where
  function : Ident
  child : Option Child
deriving DecidableEq, Repr, Inhabited

/-- Where an entry is reported. -/
def Entry.offset (e : Entry) : Nat :=
  match e.child with
  | some child => child.offset
  | none => e.function.offset

/-- What the names of test functions start with. -/
def testStarts : List String := ["Test", "Example", "Benchmark"]

/-- Whether a function of this name is a test. -/
def isTestName (name : String) : Bool :=
  testStarts.any fun start => start.toList.isPrefixOf name.toList

/-- Whether a statement starts subtests, so that the function itself is no entry. -/
def startsChildren (s : Stmt) : Bool :=
  match shape s with
  | .plain => false
  | _ => true

/-- The children that a statement brings.  The statements before it in the same body are given from
the nearest to the farthest. -/
def childrenOf (nearest : List Stmt) (s : Stmt) : List Child :=
  match shape s with
  | .plain => []
  | .run call => call.child?.toList
  | .loop body =>
    match loopField? body with
    | some field => rowsAlong field nearest
    | none => []

/-- The children that the rest of a body brings.  The statements before it are given from the
nearest to the farthest. -/
def childrenAfter (nearest : List Stmt) : List Stmt → List Child
  | [] => []
  | s :: rest => childrenOf nearest s ++ childrenAfter (s :: nearest) rest

/-- The children in the body of a function. -/
def children (f : Function) : List Child := childrenAfter [] f.body

/-- The entries of a function, whatever its name. -/
def entries (f : Function) : List Entry :=
  if f.body.any startsChildren then (children f).map fun child => ⟨f.name, some child⟩
  else [⟨f.name, none⟩]

/-- The functions of a file that are tests. -/
def testFunctions (tree : Tree) : List Function :=
  tree.functions.filter fun f => isTestName f.name.name

/-- The entries of a file. -/
def entriesOf (tree : Tree) : List Entry := (testFunctions tree).flatMap entries

/-- A loop over a table: the function, the name field, and the number of cases. -/
structure TableLoop where
  function : String
  field : String
  rows : Nat
deriving DecidableEq, Repr, Inhabited

/-- The loops over tables in the rest of a body.  The statements before it are given from the
nearest to the farthest. -/
def tablesAfter (function : String) (nearest : List Stmt) : List Stmt → List TableLoop
  | [] => []
  | s :: rest =>
    let later := tablesAfter function (s :: nearest) rest
    match shape s with
    | .loop body =>
      match loopField? body with
      | some field => ⟨function, field, (rowsAlong field nearest).length⟩ :: later
      | none => later
    | _ => later

/-- The loops over tables in the test functions of a file. -/
def tables (tree : Tree) : List TableLoop :=
  (testFunctions tree).flatMap fun f => tablesAfter f.name.name [] f.body

end TestCatalog.Listing
