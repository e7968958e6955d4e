import TestCatalog.Command.Run
import TestCatalog.Files.Growth

/-!
# Main — the program

The files that the arguments lead to are taken down as a tree, and the run is computed from it.
-/

namespace TestCatalog.Main

open Files

/-- The item at an absolute path, with all that is below it.  Only test files are read, and a link
below a directory leads nowhere, because none is followed there. -/
partial def itemAt (path : Path) : IO Item := do
  let place := (← IO.currentDir) / path.shown
  match (← place.symlinkMetadata).type with
  | .dir =>
    let entries ← (← place.readDir).toList.mapM fun e => do
      return ((e.fileName : Raw), ← itemAt (path.child e.fileName))
    return .folder entries
  | .symlink => return .link ⟨"."⟩
  | .file =>
    return .file (← if Catalog.isTestFile path then IO.FS.readBinFile place else pure .empty)
  | .other => return .special (.ok .empty)

/-- What stands at an absolute path, if anything does. -/
def kindAt? (path : Path) : IO (Option IO.FS.FileType) := do
  try return some (← ((← IO.currentDir) / path.shown).symlinkMetadata).type catch _ => return none

/-- The place that a link at an absolute path leads to in the end, if any. -/
def targetOf? (path : Path) : IO (Option Path) := do
  try return some ⟨toString (← IO.FS.realPath path.shown)⟩ catch _ => return none

/-- Takes down what the parts of a path lead through, and all that is at its end. -/
def takeDown (tree : Item) (names : List Raw) : List Raw → IO Item
  | [] => do return tree.put names (← itemAt (Path.ofNames names))
  | part :: rest =>
    if part = "." then takeDown tree names rest
    else if part = ".." then takeDown tree names.dropLast rest
    else do
      let names := names ++ [part]
      match ← kindAt? (Path.ofNames names) with
      | none => return tree
      | some .dir => takeDown (tree.makeFolder names) names rest
      | some .symlink =>
        match ← targetOf? (Path.ofNames names) with
        | some target => takeDown (tree.put names (.link target)) target.parts rest
        | none => return tree
      | some .file => takeDown (tree.put names (.file .empty)) names rest
      | some .other => takeDown (tree.put names (.special (.ok .empty))) names rest

/-- The files that arguments lead to. -/
def fileSystem (arguments : List Raw) : IO FileSystem := do
  let current := (Path.mk (toString (← IO.currentDir))).parts
  let roots := match Command.readOptions arguments with
    | .ok o => o.directories ++ o.file.toList
    | .error _ => []
  let tree ← roots.foldlM (fun tree root =>
    takeDown tree (if root.isRooted then [] else current) (partsToFollow root))
    (Item.makeFolder (.folder []) current)
  return ⟨tree, some current⟩

end TestCatalog.Main

/-- Runs the program.  It keeps no record of where in it events are reported. -/
def main (arguments : List String) : IO UInt32 := do
  let arguments := arguments.map TestCatalog.Raw.ofText
  let fs ← TestCatalog.Main.fileSystem arguments
  let run := TestCatalog.Command.run .inOrder fs TestCatalog.Catalog.goParser (fun _ => none)
    (← IO.getEnv "RUST_LOG") arguments
  IO.print run.output
  IO.eprint run.errorOutput
  return run.exitCode
