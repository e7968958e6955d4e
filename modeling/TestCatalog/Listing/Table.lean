import TestCatalog.Listing.Child

/-!
# Listing/Table — tables of cases

A loop such as `for _, tt := range tests { t.Run(tt.name, …) }` takes the names of its subtests from
the field `name` of the rows of a table.  The rows are looked for in every assignment that precedes
the loop, the nearest first, because nothing is known of what the loop ranges over.
-/

namespace TestCatalog.Listing

open Source

/-- The field that a call takes the name of its subtest from: `f` in `x.Run(y.f, …)`. -/
def RunCall.field? (call : RunCall) : Option String :=
  match call.arguments with
  | .selector (.ident _) field :: _ => some field.name
  | _ => none

/-- The name field of a loop: that of the first call in its body which has one. -/
def loopField? (body : List Stmt) : Option String :=
  (body.filterMap runCall?).findSome? RunCall.field?

/-- The elements of a composite literal; no other expression has any. -/
def elements : Expr → List Expr
  | .composite es _ => es
  | _ => []

/-- The case that an element of a row names: `f: "literal"`, reported at its key. -/
def rowChild? (field : String) : Expr → Option Child
  | .keyed (.ident key) (.literal text _) =>
    if key.name = field then some ⟨text, key.offset⟩ else none
  | _ => none

/-- The cases in the tables that a statement assigns. -/
def rowsOf (field : String) : Stmt → List Child
  | .assign _ right => ((right.flatMap elements).flatMap elements).filterMap (rowChild? field)
  | _ => []

/-- The cases in the tables that statements assign, taken in the order in which the statements are
given. -/
def rowsAlong (field : String) (statements : List Stmt) : List Child :=
  statements.flatMap (rowsOf field)

/-- The cases in the tables assigned by the statements before a loop: the nearest statement comes
first. -/
def rows (field : String) (preceding : List Stmt) : List Child := rowsAlong field preceding.reverse

end TestCatalog.Listing
