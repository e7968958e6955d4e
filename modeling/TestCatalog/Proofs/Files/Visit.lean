import Mathlib.Data.List.Basic
import TestCatalog.Files.Visit
import TestCatalog.Proofs.Files.Follow
import TestCatalog.Proofs.Path.Route
import TestCatalog.Proofs.Text.Order

/-!
# Proofs/Files/Visit — the paths at which files are met

The entries of a directory have names of their own (`Item.WellFormed`): no system lets a name be
empty, hold a slash, be `.` or `..`, or stand twice in one directory.  In such a tree every file is
met at the path of the search, followed by names (`below_of_mem_visits`).
-/

namespace TestCatalog.Files

open TestCatalog.Path (IsName)

/-! ## Well-formed trees -/

/-- A tree as a file system has it: in every directory the names are names, and differ. -/
inductive Item.WellFormed : Item → Prop where
  | file (content : ByteArray) : WellFormed (.file content)
  | link (target : Path) : WellFormed (.link target)
  | special (reading : Except Fault ByteArray) : WellFormed (.special reading)
  | folder {entries : List (Raw × Item)} (names : ∀ entry ∈ entries, IsName entry.1)
      (distinct : (entries.map Prod.fst).Nodup) (below : ∀ entry ∈ entries, WellFormed entry.2) :
      WellFormed (.folder entries)

theorem mem_of_lookup {entries : List (Raw × Item)} {name : Raw} {item : Item}
    (h : entries.lookup name = some item) : (name, item) ∈ entries := by
  obtain ⟨before, after, rfl, -⟩ := List.lookup_eq_some_iff.mp h
  exact List.mem_append_right before List.mem_cons_self

/-- What is below a well-formed tree is well-formed. -/
theorem Item.WellFormed.below? {item found : Item} {names : List Raw} (h : item.WellFormed)
    (hfound : item.below? names = some found) : found.WellFormed := by
  induction names generalizing item with
  | nil =>
    obtain rfl := Option.some.inj hfound
    exact h
  | cons name names ih =>
    rw [Item.below?, List.foldlM_cons] at hfound
    obtain ⟨next, hnext, hrest⟩ := Option.bind_eq_some_iff.mp hfound
    refine ih ?_ hrest
    cases h with
    | file content => cases hnext
    | link target => cases hnext
    | special reading => cases hnext
    | folder _ _ hbelow => exact hbelow _ (mem_of_lookup hnext)

theorem wellFormed_of_item {fs : FileSystem} (h : fs.root.WellFormed) {last : Bool} {path : Path}
    {item : Item} (hitem : fs.item last path = .ok item) : item.WellFormed := by
  obtain ⟨trail, -, hfound⟩ := FileSystem.item_eq_ok_iff.mp hitem
  exact h.below? hfound

/-! ## Paths of visits -/

theorem mem_inNameOrder {α : Type} {met : List (Raw × List α)} {a : α} :
    a ∈ inNameOrder met ↔ ∃ entry ∈ met, a ∈ entry.2 := by
  simp [inNameOrder, List.mem_flatMap]

/-- What is met in the order of names stands in a relation if it does in each entry, and from an
entry to those with greater names. -/
theorem pairwise_inNameOrder {α : Type} {R : α → α → Prop} {met : List (Raw × List α)}
    (hnames : (met.map Prod.fst).Nodup) (heach : ∀ entry ∈ met, entry.2.Pairwise R)
    (hacross : ∀ entry ∈ met, ∀ other ∈ met, entry.1.bytes < other.1.bytes →
      ∀ a ∈ entry.2, ∀ b ∈ other.2, R a b) : (inNameOrder met).Pairwise R := by
  have hperm := List.mergeSort_perm met fun a b => a.1.byteLE b.1
  have hdistinct := List.pairwise_map.mp ((hperm.map Prod.fst).nodup_iff.mpr hnames)
  have hsorted := List.pairwise_mergeSort (fun a b c => Raw.byteLE_trans a.1 b.1 c.1)
    (fun a b => Raw.byteLE_total a.1 b.1) met
  refine List.pairwise_flatMap.mpr ⟨fun entry hentry => ?_, ?_⟩
  · exact heach entry (hperm.mem_iff.mp hentry)
  · refine (hsorted.and hdistinct).imp_of_mem fun {entry other} hentry hother ⟨hle, hne⟩ => ?_
    exact hacross entry (hperm.mem_iff.mp hentry) other (hperm.mem_iff.mp hother)
      (Raw.bytes_lt_of_byteLE hle hne)

theorem visitsOfEntries_eq_map (path : Path) (entries : List (Raw × Item)) :
    visitsOfEntries path entries
      = entries.map fun entry => (entry.1, entry.2.visits (path.child entry.1)) := by
  induction entries with
  | nil => rfl
  | cons entry entries ih => rw [visitsOfEntries, ih, List.map_cons]

/-- A path that names lead to from another. -/
def Below (top path : Path) : Prop :=
  ∃ names : List Raw, path = names.foldl Path.child top ∧ ∀ name ∈ names, IsName name

theorem Below.refl (path : Path) : Below path path := ⟨[], rfl, nofun⟩

theorem Below.of_child {top path : Path} {name : Raw} (hname : IsName name)
    (h : Below (top.child name) path) : Below top path := by
  obtain ⟨names, rfl, hnames⟩ := h
  exact ⟨name :: names, rfl, List.forall_mem_cons.mpr ⟨hname, hnames⟩⟩

/-- **A file below an item is met below the item's path.** -/
theorem Item.WellFormed.below_of_mem_visits {item : Item} (h : item.WellFormed) {top path : Path}
    (hmem : Visit.file path ∈ item.visits top) : Below top path := by
  induction h generalizing top with
  | file content =>
    rw [Item.visits] at hmem
    obtain rfl := Visit.file.inj (List.mem_singleton.mp hmem)
    exact Below.refl path
  | link target =>
    rw [Item.visits] at hmem
    cases hmem
  | special reading =>
    rw [Item.visits] at hmem
    cases hmem
  | folder hnames _ _ ih =>
    rw [Item.visits] at hmem
    split at hmem
    · cases List.mem_singleton.mp hmem
    · obtain ⟨met, hmet, hpath⟩ := mem_inNameOrder.mp hmem
      rw [visitsOfEntries_eq_map] at hmet
      obtain ⟨entry, hentry, rfl⟩ := List.mem_map.mp hmet
      exact Below.of_child (hnames entry hentry) (ih entry hentry hpath)

/-- **Every file is met below the path of the search.** -/
theorem below_of_mem_visits {fs : FileSystem} (h : fs.root.WellFormed) {top path : Path}
    (hmem : Visit.file path ∈ fs.visits top) : Below top path := by
  rw [FileSystem.visits] at hmem
  split at hmem
  · cases List.mem_singleton.mp hmem
  · split at hmem
    · cases List.mem_singleton.mp hmem
    · next entries hitem => exact (wellFormed_of_item h hitem).below_of_mem_visits hmem
    · cases hmem
  · next item _ hitem => exact (wellFormed_of_item h hitem).below_of_mem_visits hmem

/-- Entries that stand in the order of their names are met as they stand. -/
theorem visits_of_pairwise {fs : FileSystem} {path : Path} {entries : List (Raw × Item)}
    (hitem : fs.item false path = .ok (.folder entries)) (hsize : path.text.size ≤ maxPath)
    (horder : entries.Pairwise fun a b => a.1.byteLE b.1) :
    fs.visits path = entries.flatMap fun entry => entry.2.visits (path.child entry.1) := by
  have hmet : (visitsOfEntries path entries).Pairwise fun a b => a.1.byteLE b.1 := by
    rw [visitsOfEntries_eq_map]
    exact List.pairwise_map.mpr horder
  rw [FileSystem.visits, hitem]
  dsimp only
  rw [Item.visits, if_neg (Nat.not_lt.mpr hsize), inNameOrder, List.mergeSort_of_pairwise hmet,
    visitsOfEntries_eq_map, List.flatMap_map]

end TestCatalog.Files
