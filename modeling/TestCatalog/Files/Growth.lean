import TestCatalog.Files.Tree

/-!
# Files/Growth — building trees of files

Adding one item at a time, with the directories that lead to it.
-/

namespace TestCatalog.Files

/-- Replaces the item with a given name, or adds it at the end. -/
def putEntry (name : Raw) (item : Item) : List (Raw × Item) → List (Raw × Item)
  | [] => [(name, item)]
  | (other, old) :: rest =>
    if other = name then (name, item) :: rest else (other, old) :: putEntry name item rest

/-- The entries of a directory; nothing else has any. -/
def Item.entries : Item → List (Raw × Item)
  | .folder entries => entries
  | _ => []

/-- Changes the item that names lead to.  Directories on the way are made where there are none. -/
def Item.alter (change : Option Item → Item) : List Raw → Option Item → Item
  | [], item => change item
  | name :: names, item =>
    let entries := (item.map Item.entries).getD []
    .folder (putEntry name (Item.alter change names (entries.lookup name)) entries)

/-- Puts an item where names lead to. -/
def Item.put (root : Item) (names : List Raw) (item : Item) : Item :=
  Item.alter (fun _ => item) names (some root)

/-- Makes a directory where names lead to, unless there is one. -/
def Item.makeFolder (root : Item) (names : List Raw) : Item :=
  Item.alter (fun old => .folder ((old.map Item.entries).getD [])) names (some root)

end TestCatalog.Files
