import TestCatalog.Source.Tree

/-!
# Listing/Child — the subtests that a function starts

A function starts a subtest by calling the method `Run` of an identifier, directly in its body or
directly in the body of a range loop.  A literal as the first argument names the subtest.
-/

namespace TestCatalog.Listing

open Source

/-- A named case inside a function: its literal as written, quotes included, and where it is
reported. -/
structure Child where
  literal : String
  offset : Nat
deriving DecidableEq, Repr, Inhabited

/-- A call that starts a subtest. -/
structure RunCall where
  arguments : List Expr
  offset : Nat
deriving Repr, Inhabited

/-- The method that starts a subtest. -/
def runMethod : String := "Run"

/-- The call by which a statement starts a subtest: `x.Run(…)` with an identifier `x`. -/
def runCall? : Stmt → Option RunCall
  | .expr (.call (.selector (.ident _) method) arguments offset) =>
    if method.name = runMethod then some ⟨arguments, offset⟩ else none
  | _ => none

/-- The child that a call names by a literal, reported at the start of the call. -/
def RunCall.child? (call : RunCall) : Option Child :=
  match call.arguments with
  | .literal text _ :: _ => some ⟨text, call.offset⟩
  | _ => none

/-- What a statement means for the listing. -/
inductive Shape where
  | plain
  | run (call : RunCall)
  | loop (body : List Stmt)
deriving Repr, Inhabited

/-- Whether a statement starts a subtest. -/
def isRun (s : Stmt) : Bool := (runCall? s).isSome

/-- The shape of a statement: a call that starts a subtest, a range loop with such a call directly
in its body, or neither. -/
def shape (s : Stmt) : Shape :=
  match runCall? s with
  | some call => .run call
  | none =>
    match s with
    | .range body => if body.any isRun then .loop body else .plain
    | _ => .plain

end TestCatalog.Listing
