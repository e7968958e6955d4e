import TestCatalog.Proofs.Files.Visit

/-!
# Proofs/Files/Reach — a search meets the files that directories lead to

`Item.Reaches` says where names lead from an item, entry by entry; a link leads nowhere, so that no
cycle of links is ever entered.  `Item.fileNames` lists the names that lead to files, in the order
of a search, without their paths.

* `mem_fileNames_iff`, `pairwise_fileNames` — the list has each file once, and ascends by name.
* `visits_eq_map` — a search meets exactly these files, at the paths that the names say.
* `exists_names_of_visits` — the same from a path on, where a link to a directory is entered.
-/

namespace TestCatalog.Files

open TestCatalog.Path (IsName)

/-! ## Where names lead -/

/-- **What names lead to from an item**, through directories only. -/
inductive Item.Reaches : Item → List Raw → Item → Prop where
  | here (item : Item) : Reaches item [] item
  | entry {entries : List (Raw × Item)} {name : Raw} {item found : Item}
      {names : List Raw} (hentry : (name, item) ∈ entries) (hrest : Reaches item names found) :
      Reaches (.folder entries) (name :: names) found

mutual

/-- The names that lead to the files in an item, in the order of a search. -/
def Item.fileNames : Item → List (List Raw)
  | .file _ => [[]]
  | .link _ | .special _ => []
  | .folder entries => inNameOrder (fileNamesOfEntries entries)

/-- The names that lead to the files in each entry of a directory. -/
def fileNamesOfEntries : List (Raw × Item) → List (Raw × List (List Raw))
  | [] => []
  | (name, item) :: rest => (name, item.fileNames.map (name :: ·)) :: fileNamesOfEntries rest

end

theorem fileNamesOfEntries_eq_map : ∀ entries : List (Raw × Item),
    fileNamesOfEntries entries
      = entries.map fun entry => (entry.1, entry.2.fileNames.map (entry.1 :: ·))
  | [] => rfl
  | entry :: entries => by rw [fileNamesOfEntries, fileNamesOfEntries_eq_map, List.map_cons]

theorem mem_fileNames_folder_iff {entries : List (Raw × Item)} {names : List Raw} :
    names ∈ (Item.folder entries).fileNames
      ↔ ∃ entry ∈ entries, ∃ rest ∈ entry.2.fileNames, entry.1 :: rest = names := by
  rw [Item.fileNames, mem_inNameOrder, fileNamesOfEntries_eq_map]
  simp only [List.mem_map, exists_exists_and_eq_and]

/-- **The names listed are those that lead to a file.** -/
theorem Item.WellFormed.mem_fileNames_iff {item : Item} (h : item.WellFormed)
    {names : List Raw} :
    names ∈ item.fileNames ↔ ∃ content, item.Reaches names (.file content) := by
  induction h generalizing names with
  | file content =>
    rw [fileNames, List.mem_singleton]
    constructor
    · rintro rfl
      exact ⟨content, .here _⟩
    · rintro ⟨_, ⟨⟩⟩
      rfl
  | link target =>
    rw [fileNames]
    exact ⟨nofun, nofun⟩
  | special reading =>
    rw [fileNames]
    exact ⟨nofun, nofun⟩
  | folder _ _ _ ih =>
    rw [mem_fileNames_folder_iff]
    constructor
    · rintro ⟨entry, hentry, rest, hrest, rfl⟩
      obtain ⟨content, hreach⟩ := (ih entry hentry).mp hrest
      exact ⟨content, .entry hentry hreach⟩
    · rintro ⟨content, _ | ⟨hentry, hreach⟩⟩
      exact ⟨_, hentry, _, (ih _ hentry).mpr ⟨content, hreach⟩, rfl⟩

/-- **The names listed ascend**, compared name by name and each name by its bytes. -/
theorem Item.WellFormed.pairwise_fileNames {item : Item} (h : item.WellFormed) :
    item.fileNames.Pairwise fun a b => a.map Raw.bytes < b.map Raw.bytes := by
  induction h with
  | file content =>
    rw [fileNames]
    exact List.pairwise_singleton _ _
  | link target =>
    rw [fileNames]
    exact .nil
  | special reading =>
    rw [fileNames]
    exact .nil
  | folder _ hdistinct _ ih =>
    rw [fileNames, fileNamesOfEntries_eq_map]
    refine pairwise_inNameOrder (by rwa [List.map_map]) ?_ ?_
    · refine List.forall_mem_map.mpr fun entry hentry => List.pairwise_map.mpr ?_
      exact (ih entry hentry).imp fun hlt => List.cons_lt_cons_iff.mpr (.inr ⟨rfl, hlt⟩)
    · refine List.forall_mem_map.mpr fun entry _ => List.forall_mem_map.mpr fun other _ hlt => ?_
      refine List.forall_mem_map.mpr fun _ _ => List.forall_mem_map.mpr fun _ _ => ?_
      exact List.cons_lt_cons_iff.mpr (.inl hlt)

/-- Names that lead somewhere in a well-formed tree are names. -/
theorem Item.WellFormed.isName_of_reaches {item found : Item} {names : List Raw}
    (h : item.WellFormed) (hreach : item.Reaches names found) : ∀ name ∈ names, IsName name := by
  induction hreach with
  | here => exact nofun
  | entry hentry _ ih =>
    obtain _ | _ | _ | ⟨hnames, -, hbelow⟩ := h
    exact List.forall_mem_cons.mpr ⟨hnames _ hentry, ih (hbelow _ hentry)⟩

/-! ## What a search meets -/

/-- What is met can be changed before or after it is put in order. -/
theorem inNameOrder_map {α β : Type} (f : α → β) (met : List (Raw × List α)) :
    inNameOrder (met.map fun entry => (entry.1, entry.2.map f)) = (inNameOrder met).map f := by
  rw [inNameOrder, inNameOrder, List.map_flatMap,
    ← List.map_mergeSort (r := fun a b => Raw.byteLE a.1 b.1) fun _ _ _ _ => rfl,
    List.flatMap_map]

/-- **A search meets the files that the names listed lead to**, if every directory that it comes
through can be opened. -/
theorem Item.WellFormed.visits_eq_map {item : Item} (h : item.WellFormed) {path : Path}
    (hopen : ∀ names entries, item.Reaches names (.folder entries) →
      (names.foldl Path.child path).text.size ≤ maxPath) :
    item.visits path = item.fileNames.map fun names => .file (names.foldl Path.child path) := by
  induction h generalizing path with
  | file content => rw [visits, fileNames, List.map_singleton, List.foldl_nil]
  | link target => rw [visits, fileNames, List.map_nil]
  | special reading => rw [visits, fileNames, List.map_nil]
  | @folder entries _ _ _ ih =>
    have hself : path.text.size ≤ maxPath := hopen [] entries (.here _)
    have heach : visitsOfEntries path entries = (fileNamesOfEntries entries).map fun entry =>
        (entry.1, entry.2.map fun names => Visit.file (names.foldl Path.child path)) := by
      rw [visitsOfEntries_eq_map, fileNamesOfEntries_eq_map, List.map_map]
      refine List.map_congr_left fun entry hentry => ?_
      have hbelow : entry.2.visits (path.child entry.1) = _ := ih entry hentry fun names _ hreach =>
        hopen (entry.1 :: names) _ (.entry hentry hreach)
      rw [hbelow, Function.comp_apply, List.map_map]
      rfl
    rw [visits, if_neg (Nat.not_lt.mpr hself), heach, inNameOrder_map, fileNames]

/-! ## From a path on -/

/-- **The item from which a path is searched**: the directory that it leads to, through a link at
its end or not, or the file that it leads to without one. -/
inductive SearchedFrom (fs : FileSystem) (path : Path) : Item → Prop where
  | folder {entries : List (Raw × Item)} (hitem : fs.item true path = .ok (.folder entries)) :
      SearchedFrom fs path (.folder entries)
  | file {content : ByteArray} (hitem : fs.item false path = .ok (.file content)) :
      SearchedFrom fs path (.file content)

theorem SearchedFrom.wellFormed {fs : FileSystem} (h : fs.root.WellFormed) {path : Path}
    {item : Item} : SearchedFrom fs path item → item.WellFormed
  | .folder hitem => wellFormed_of_item h hitem
  | .file hitem => wellFormed_of_item h hitem

theorem SearchedFrom.unique {fs : FileSystem} {path : Path} {item item' : Item}
    (h : SearchedFrom fs path item) (h' : SearchedFrom fs path item') : item = item' := by
  rcases h with htrue | hfalse <;> rcases h' with htrue' | hfalse'
  · exact Except.ok.inj (htrue.symm.trans htrue')
  · obtain hend | ⟨target, hend⟩ := fs.item_of_item_last htrue <;> cases hend.symm.trans hfalse'
  · obtain hend | ⟨target, hend⟩ := fs.item_of_item_last htrue' <;> cases hend.symm.trans hfalse
  · exact Except.ok.inj (hfalse.symm.trans hfalse')

theorem SearchedFrom.visits_eq {fs : FileSystem} {path : Path} {item : Item} :
    SearchedFrom fs path item → fs.visits path = item.visits path
  | .folder hitem => by
    rw [FileSystem.visits]
    obtain hend | ⟨target, hend⟩ := fs.item_of_item_last hitem
    · rw [hend]
    · rw [hend, hitem]
  | .file hitem => by rw [FileSystem.visits, hitem]

/-- A path that leads somewhere, but is searched from nowhere, leads to something special or ends in
a link to something that is no directory.  There nothing is met. -/
theorem visits_eq_nil {fs : FileSystem} {path : Path} {item : Item}
    (h : fs.item true path = .ok item) (hnone : ∀ start, ¬ SearchedFrom fs path start) :
    fs.visits path = [] := by
  rw [FileSystem.visits]
  rcases item with content | target | entries | reading
  · obtain hend | ⟨target, hend⟩ := fs.item_of_item_last h
    · exact absurd (.file hend) (hnone _)
    · rw [hend, h]
  · obtain hend | ⟨target, hend⟩ := fs.item_of_item_last h <;> rw [hend, h]
  · exact absurd (.folder h) (hnone _)
  · obtain hend | ⟨target, hend⟩ := fs.item_of_item_last h
    · rw [hend]
      simp only [Item.visits]
    · rw [hend, h]

/-- Names that lead to a file below a path. -/
def FileBelow (fs : FileSystem) (path : Path) (names : List Raw) : Prop :=
  ∃ start content, SearchedFrom fs path start ∧ start.Reaches names (.file content)

theorem FileBelow.isName {fs : FileSystem} (hfs : fs.root.WellFormed) {path : Path}
    {names : List Raw} (h : FileBelow fs path names) : ∀ name ∈ names, IsName name := by
  obtain ⟨_, _, hstart, hreach⟩ := h
  exact (hstart.wellFormed hfs).isName_of_reaches hreach

/-- **Every directory below a path can be opened**: none has a path that is too long. -/
def Opens (fs : FileSystem) (path : Path) : Prop :=
  ∀ start names entries, SearchedFrom fs path start → start.Reaches names (.folder entries) →
    (names.foldl Path.child path).text.size ≤ maxPath

/-- **A search from a path that leads somewhere meets every file below it**, each once, in ascending
order of the names that lead to it, and nothing else. -/
theorem exists_names_of_visits {fs : FileSystem} (hfs : fs.root.WellFormed) {path : Path}
    (hpath : ∃ item, fs.item true path = .ok item) (hopen : Opens fs path) :
    ∃ lists : List (List Raw),
      fs.visits path = lists.map (fun names => .file (names.foldl Path.child path))
      ∧ lists.Pairwise (fun a b => a.map Raw.bytes < b.map Raw.bytes)
      ∧ ∀ names, names ∈ lists ↔ FileBelow fs path names := by
  obtain ⟨item, hitem⟩ := hpath
  by_cases hstart : ∃ start, SearchedFrom fs path start
  · obtain ⟨start, hstart⟩ := hstart
    have hwell := hstart.wellFormed hfs
    refine ⟨start.fileNames, ?_, hwell.pairwise_fileNames, fun names => ?_⟩
    · rw [hstart.visits_eq,
        hwell.visits_eq_map fun names entries => hopen start names entries hstart]
    · rw [hwell.mem_fileNames_iff]
      constructor
      · rintro ⟨content, hreach⟩
        exact ⟨start, content, hstart, hreach⟩
      · rintro ⟨start', content, hstart', hreach⟩
        obtain rfl := hstart.unique hstart'
        exact ⟨content, hreach⟩
  · have hnone := not_exists.mp hstart
    refine ⟨[], visits_eq_nil hitem hnone, .nil, fun names => ⟨nofun, ?_⟩⟩
    rintro ⟨start, _, hstart, -⟩
    exact absurd hstart (hnone start)

end TestCatalog.Files
