import TestCatalog.Files.Fault
import TestCatalog.Path.Basic

/-!
# Files/Tree — a tree of files, and how paths are followed in it

A file system is a tree of directories, files, links and special files, with a current directory in
it.  A path is followed part by part, as the system does it: each part needs a directory to be
looked up in, `..` goes to the directory that really holds the current one, and a link is replaced
by its target.  At most forty links are followed.
-/

namespace TestCatalog.Files

/-- What can have a name.  A pipe, a socket or a device is `special`: it is no file, though reading
it may give something. -/
inductive Item where
  | file (content : ByteArray)
  | link (target : Path)
  | folder (entries : List (Raw × Item))
  | special (reading : Except Fault ByteArray)
deriving Inhabited

/-- The item with a given name in a directory. -/
def Item.entry? (item : Item) (name : Raw) : Option Item :=
  match item with
  | .folder entries => entries.lookup name
  | _ => none

/-- The item that names lead to from a directory. -/
def Item.below? (item : Item) (names : List Raw) : Option Item := names.foldlM Item.entry? item

/-- A file system: the directory `/`, and the names that lead from there to the current directory,
unless that has been removed. -/
structure FileSystem where
  root : Item
  current : Option (List Raw)
deriving Inhabited

/-- The path of the current directory. -/
def FileSystem.currentPath (fs : FileSystem) : Option Path := fs.current.map Path.ofNames

/-- The number of bytes in a name at most. -/
def maxName : Nat := 255

/-- The number of bytes in a path at most. -/
def maxPath : Nat := 4095

/-- The number of links followed for one path at most. -/
def maxLinks : Nat := 40

/-- The parts of a path as the system follows them: a slash at the end asks for a directory, as `.`
does. -/
def partsToFollow (p : Path) : List Raw :=
  if p.endsInSlash then p.parts ++ [("." : Raw)] else p.parts

/-- Follows the parts of a path from the directory to which `trail` leads, last name first.  A link
at the end is followed if `last` says so.  What remains after a link is handed to `jump`, with the
directory to go on from. -/
def follow (root : Item) (last : Bool)
    (jump : List Raw → List Raw → Except Fault (List Raw)) (trail : List Raw) :
    List Raw → Except Fault (List Raw)
  | [] => .ok trail
  | part :: rest =>
    match root.below? trail.reverse with
    | some (.folder entries) =>
      if part = "." then follow root last jump trail rest
      else if part = ".." then follow root last jump trail.tail rest
      else if maxName < part.size then .error .nameTooLong
      else
        match entries.lookup part with
        | none => .error .notFound
        | some (.link target) =>
          if rest.isEmpty && !last then .ok (part :: trail)
          else jump (if target.isRooted then [] else trail) (partsToFollow target ++ rest)
        | some _ => follow root last jump (part :: trail) rest
    | _ => .error .notDirectory

/-- Follows the parts of a path, and up to `links` links on the way. -/
def followLinks (root : Item) (last : Bool) :
    Nat → List Raw → List Raw → Except Fault (List Raw)
  | 0 => follow root last fun _ _ => .error .linkLoop
  | links + 1 => follow root last (followLinks root last links)

/-- The place that a path leads to: the names from `/`, last name first. -/
def FileSystem.locate (fs : FileSystem) (last : Bool) (p : Path) : Except Fault (List Raw) :=
  if p.text.bytes.contains 0 then .error .nulInPath
  else if p.text.isEmpty then .error .notFound
  else if maxPath < p.text.size then .error .nameTooLong
  else
    match if p.isRooted then some [] else fs.current with
    | some start => followLinks fs.root last maxLinks start.reverse (partsToFollow p)
    | none => .error .notFound

/-- The item that a path leads to.  A link at its end is followed if `last` says so. -/
def FileSystem.item (fs : FileSystem) (last : Bool) (p : Path) : Except Fault Item := do
  let trail ← fs.locate last p
  match fs.root.below? trail.reverse with
  | some found => .ok found
  | none => .error .notFound

/-- Goes to another current directory. -/
def FileSystem.enter (fs : FileSystem) (p : Path) : Except Fault FileSystem := do
  let trail ← fs.locate true p
  .ok { fs with current := some trail.reverse }

/-- Bytes that are read, as a text. -/
def textOf (content : ByteArray) : Except Fault String :=
  match String.fromUTF8? content with
  | some text => .ok text
  | none => .error .invalidText

/-- The text of the file that a path leads to. -/
def FileSystem.read (fs : FileSystem) (p : Path) : Except Fault String := do
  match ← fs.item true p with
  | .file content => textOf content
  | .special reading => textOf (← reading)
  | .folder _ => .error .isDirectory
  | .link _ => .error .linkLoop

end TestCatalog.Files
