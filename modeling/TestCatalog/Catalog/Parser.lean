import TestCatalog.Go.Read
import TestCatalog.Log.Logged
import TestCatalog.Source.Lines

/-!
# Catalog/Parser — parsers, and the one for Go

A parser turns the text of a file into a syntax tree.  It is given the path of the file for its
failures.
-/

namespace TestCatalog.Catalog

open Log Source

/-- A way to turn the text of the file at a path into a syntax tree. -/
abbrev Parser := Path → String → Logged Tree

/-- The parser for Go.  Of each function it reports the number of its statements; a text that is no
Go is refused at the place where it stops being so. -/
def goParser : Parser := fun path text =>
  match Go.read text with
  | .ok tree => do
    .report (tree.functions.map fun f => .readFunction f.name.name f.body.length)
    return tree
  | .error offset =>
    let lines := Lines.ofText text
    .fail (.syntaxError path (lines.line offset) (lines.column offset))

end TestCatalog.Catalog
