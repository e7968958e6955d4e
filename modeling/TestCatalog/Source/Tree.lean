/-!
# Source/Tree — syntax trees

What the catalog looks at in a source file: its functions, their statements, and the shapes of
calls, selectors, composite literals and basic literals in them.  All else is `other`.  Offsets
count bytes from the start of the file.
-/

namespace TestCatalog.Source

/-- A name and where it stands. -/
structure Ident where
  name : String
  offset : Nat
deriving DecidableEq, Repr, Inhabited

/-- An expression. -/
inductive Expr where
  | call (callee : Expr) (arguments : List Expr) (offset : Nat)
  | selector (operand : Expr) (field : Ident)
  | composite (elements : List Expr) (offset : Nat)
  | keyed (key value : Expr)
  | literal (text : String) (offset : Nat)
  | ident (ident : Ident)
  | other
deriving Repr, Inhabited

/-- A statement. -/
inductive Stmt where
  | expr (e : Expr)
  | assign (left right : List Expr)
  | range (body : List Stmt)
  | other
deriving Repr, Inhabited

/-- A function: its name, and the statements of its body. -/
structure Function where
  name : Ident
  body : List Stmt
deriving Repr, Inhabited

/-- A declaration at the top level of a file. -/
inductive Decl where
  | function (f : Function)
  | other
deriving Repr, Inhabited

/-- A source file: its declarations, in the order of the text. -/
structure Tree where
  decls : List Decl
deriving Repr, Inhabited

/-- The functions of a file. -/
def Tree.functions (tree : Tree) : List Function :=
  tree.decls.filterMap fun
    | .function f => some f
    | .other => none

end TestCatalog.Source
