import TestCatalog.Files.Visit

/-!
# Proofs/Files/Contents — a search never looks into a file

Two file systems that differ only in what their files hold (`FileSystem.Alike`) let every path be
followed to the same place, so a search meets the same files in both, or is refused at the same
place.

* `Alike.visits_eq` — what is met does not depend on the contents of any file.
-/

namespace TestCatalog.Files

/-! ## Emptying files -/

mutual

/-- The same tree with nothing in its files. -/
def Item.emptied : Item → Item
  | .file _ => .file .empty
  | .special _ => .special (.ok .empty)
  | .link target => .link target
  | .folder entries => .folder (emptiedEntries entries)

/-- The same entries with nothing in their files. -/
def emptiedEntries : List (Raw × Item) → List (Raw × Item)
  | [] => []
  | (name, item) :: rest => (name, item.emptied) :: emptiedEntries rest

end

/-- The same file system with nothing in its files. -/
def FileSystem.emptied (fs : FileSystem) : FileSystem := ⟨fs.root.emptied, fs.current⟩

/-- **Two file systems that differ at most in what their files hold.** -/
def FileSystem.Alike (fs fs' : FileSystem) : Prop := fs.emptied = fs'.emptied

theorem lookup_emptiedEntries (entries : List (Raw × Item)) (name : Raw) :
    (emptiedEntries entries).lookup name = (entries.lookup name).map Item.emptied := by
  induction entries with
  | nil => rfl
  | cons entry entries ih =>
    rw [emptiedEntries, List.lookup_cons, List.lookup_cons]
    split
    · rfl
    · exact ih

/-! ## Following a path -/

theorem Item.entry?_emptied (item : Item) (name : Raw) :
    item.emptied.entry? name = (item.entry? name).map emptied := by
  cases item with
  | file content => rfl
  | link target => rfl
  | special reading => rfl
  | folder entries => exact lookup_emptiedEntries entries name

theorem Item.below?_emptied (item : Item) (names : List Raw) :
    item.emptied.below? names = (item.below? names).map emptied := by
  induction names generalizing item with
  | nil => rfl
  | cons name names ih =>
    have hstep : ∀ other : Item, other.below? (name :: names)
        = (other.entry? name).bind (·.below? names) := fun _ => rfl
    rw [hstep, hstep, item.entry?_emptied, Option.bind_map, Option.map_bind]
    exact congrArg _ (funext fun found => ih found)

/-- **A path is followed by names, links and directories alone.** -/
theorem follow_emptied (root : Item) (last : Bool)
    (jump : List Raw → List Raw → Except Fault (List Raw)) (trail parts : List Raw) :
    follow root.emptied last jump trail parts = follow root last jump trail parts := by
  induction parts generalizing trail with
  | nil => rfl
  | cons part parts ih =>
    rw [follow, follow, root.below?_emptied]
    rcases hfound : root.below? trail.reverse with _ | _ | _ | entries | _
    · rfl
    · rfl
    · rfl
    · simp only [Option.map_some, Item.emptied, lookup_emptiedEntries, ih]
      rcases hentry : entries.lookup part with _ | _ | _ | _ | _ <;> rfl
    · rfl

theorem followLinks_emptied (root : Item) (last : Bool) (links : Nat) (trail parts : List Raw) :
    followLinks root.emptied last links trail parts = followLinks root last links trail parts := by
  induction links generalizing trail parts with
  | zero => exact follow_emptied root last _ trail parts
  | succ links ih =>
    have hjump : followLinks root.emptied last links = followLinks root last links :=
      funext fun trail => funext fun parts => ih trail parts
    rw [followLinks, followLinks, hjump]
    exact follow_emptied root last _ trail parts

theorem FileSystem.locate_emptied (fs : FileSystem) (last : Bool) (p : Path) :
    fs.emptied.locate last p = fs.locate last p := by
  simp only [locate, emptied, followLinks_emptied]

theorem FileSystem.item_emptied (fs : FileSystem) (last : Bool) (p : Path) :
    fs.emptied.item last p = (fs.item last p).map Item.emptied := by
  rw [item, item, fs.locate_emptied]
  cases fs.locate last p with
  | error fault => rfl
  | ok trail =>
    have hfound : fs.emptied.root.below? trail.reverse
        = (fs.root.below? trail.reverse).map Item.emptied := fs.root.below?_emptied _
    simp only [bind, Except.bind, hfound]
    cases fs.root.below? trail.reverse <;> rfl

/-! ## What is met -/

mutual

theorem Item.visits_emptied (path : Path) :
    ∀ item : Item, item.emptied.visits path = item.visits path
  | .file _ => by simp only [Item.emptied, Item.visits]
  | .link _ => by simp only [Item.emptied, Item.visits]
  | .special _ => by simp only [Item.emptied, Item.visits]
  | .folder entries => by
    simp only [Item.emptied, Item.visits, visitsOfEntries_emptied path entries]

theorem visitsOfEntries_emptied (path : Path) :
    ∀ entries : List (Raw × Item),
      visitsOfEntries path (emptiedEntries entries) = visitsOfEntries path entries
  | [] => rfl
  | (name, item) :: rest => by
    simp only [emptiedEntries, visitsOfEntries, item.visits_emptied (path.child name),
      visitsOfEntries_emptied path rest]

end

theorem FileSystem.visits_emptied (fs : FileSystem) (path : Path) :
    fs.emptied.visits path = fs.visits path := by
  rw [visits, visits, fs.item_emptied, fs.item_emptied]
  rcases fs.item false path with _ | _ | _ | entries | _
  · rfl
  · exact Item.visits_emptied path (.file _)
  · rcases fs.item true path with _ | _ | _ | entries | _
    · rfl
    · rfl
    · rfl
    · exact Item.visits_emptied path (.folder entries)
    · rfl
  · exact Item.visits_emptied path (.folder entries)
  · exact Item.visits_emptied path (.special _)

/-- **What is met does not depend on the contents of any file.** -/
theorem FileSystem.Alike.visits_eq {fs fs' : FileSystem} (h : fs.Alike fs') (path : Path) :
    fs.visits path = fs'.visits path := by
  rw [← fs.visits_emptied, h, fs'.visits_emptied]

end TestCatalog.Files
