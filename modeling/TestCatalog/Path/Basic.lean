import TestCatalog.Text.Bytes

/-!
# Path/Basic — paths and what they say

A path is a text, or any other bytes, in which slashes divide names.  It is kept as given, because
it is shown as given; what it says is read off its parts.  Empty parts and `.` say nothing, `..`
goes up, and a slash in front starts at the root.
-/

namespace TestCatalog

/-- A path, as given. -/
structure Path where
  text : Raw
deriving DecidableEq, Repr, Inhabited

namespace Path

/-- The byte that divides names. -/
def slash : UInt8 := 0x2f

@[simp] theorem bytes_slash : (Raw.ofText "/").bytes = [slash] := rfl

/-- The non-empty parts of a text between slashes.  `part` holds what has been read of the current
one, last byte first. -/
def partsFrom (part : List UInt8) : List UInt8 → List (List UInt8)
  | [] => if part.isEmpty then [] else [part.reverse]
  | b :: rest =>
    if b = slash then
      if part.isEmpty then partsFrom [] rest else part.reverse :: partsFrom [] rest
    else partsFrom (b :: part) rest

/-- The non-empty parts of a path, `.` and `..` among them. -/
def parts (p : Path) : List Raw := (partsFrom [] p.text.bytes).map Raw.mk

/-- Whether a path starts at the root. -/
def isRooted (p : Path) : Bool := p.text.bytes.head? == some slash

def endsInSlash (p : Path) : Bool := p.text.bytes.getLast? == some slash

/-- A step from one directory to another. -/
inductive Step where
  | up
  | name (text : Raw)
deriving DecidableEq, Repr, Inhabited

/-- The step that a part says, if any. -/
def Step.ofPart? (part : Raw) : Option Step :=
  if part = "." then none else if part = ".." then some .up else some (.name part)

def Step.text : Step → Raw
  | .up => ".."
  | .name text => text

/-- What a path says: whether it starts at the root, and the steps from there. -/
structure Route where
  rooted : Bool
  steps : List Step
deriving DecidableEq, Repr, Inhabited

/-- What a path says. -/
def route (p : Path) : Route := ⟨p.isRooted, p.parts.filterMap Step.ofPart?⟩

/-- The shortest text for a route. -/
def ofRoute (r : Route) : Path :=
  ⟨(if r.rooted then ("/" : Raw) else "") ++ Raw.intercalate "/" (r.steps.map Step.text)⟩

/-- The path from the root through the given names. -/
def ofNames (names : List Raw) : Path := ofRoute ⟨true, names.map .name⟩

/-- The text of a path, ready for a further name: a slash is added unless it is empty or ends in
one. -/
def base (p : Path) : Raw := if p.text.isEmpty || p.endsInSlash then p.text else p.text ++ "/"

/-- The path of an entry of the directory `p`. -/
def child (p : Path) (name : Raw) : Path := ⟨p.base ++ name⟩

/-- The path `q` taken from the directory `p`; a path from the root needs none. -/
def join (p q : Path) : Path := if q.isRooted then q else p.child q.text

/-- The name that a path ends in, unless it ends by going up or is empty. -/
def fileName? (p : Path) : Option Raw :=
  match p.route.steps.getLast? with
  | some (.name name) => some name
  | _ => none

/-- The byte in front of an extension. -/
def dot : UInt8 := 0x2e

/-- What follows the last dot of a file name, if something precedes that dot. -/
def extensionOf? (name : Raw) : Option Raw :=
  let back := name.bytes.reverse
  match back.dropWhile (· ≠ dot) with
  | _ :: _ :: _ => some ⟨(back.takeWhile (· ≠ dot)).reverse⟩
  | _ => none

/-- The extension of the name that a path ends in. -/
def extension? (p : Path) : Option Raw := p.fileName?.bind extensionOf?

/-- A path as it is shown. -/
def shown (p : Path) : String := p.text.shown

end Path

end TestCatalog
