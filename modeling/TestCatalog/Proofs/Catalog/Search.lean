import TestCatalog.Proofs.Catalog.Located
import TestCatalog.Proofs.Files.Reach

/-!
# Proofs/Catalog/Search — the test files under a root

A search finds the test files among the files that directories lead to, and nothing else
(`testFiles_exact`).  A test file is known by the end of its name alone, and it makes no difference
whether the name is looked at as it is or as it is shown: a name that ends in `_test.go` has the
extension `go` already (`isTestFile_iff`).
-/

namespace TestCatalog.Catalog

open Files Log TestCatalog.Path

/-! ## Test files by their names -/

/-- **A name that ends in `_test.go` has the extension `go`**, hidden or not: its last dot is the
one before `go`, and `_test` precedes it. -/
theorem extensionOf?_of_suffix {file : Raw} (h : (Raw.ofText "_test.go").bytes <:+ file.bytes) :
    extensionOf? file = some ("go" : Raw) := by
  obtain ⟨start, hstart⟩ := h
  rw [extensionOf?, ← hstart, List.reverse_append]
  rfl

/-- A name is shown with this end exactly if it has it. -/
theorem testFileEnd_iff {file : Raw} : "_test.go".toList <:+ file.shown.toList
    ↔ (Raw.ofText "_test.go").bytes <:+ file.bytes := Raw.isSuffix_shown_iff rfl

theorem isTestFile_iff {path : Path} :
    isTestFile path = true
      ↔ ∃ file, path.fileName? = some file ∧ (Raw.ofText "_test.go").bytes <:+ file.bytes := by
  rw [isTestFile, Bool.and_eq_true, extension?]
  rcases path.fileName? with _ | file
  · simp
  · simp only [Option.some.injEq, exists_eq_left', List.isSuffixOf_iff_suffix, testFileEnd,
      testFileEnd_iff]
    refine and_iff_right_of_imp fun h => ?_
    rw [Option.bind_some, extensionOf?_of_suffix h]
    rfl

/-- Where only files are met, the test files among them are found. -/
theorem testFilesIn_files (root : Path) : ∀ paths : List Path,
    (testFilesIn root (paths.map .file)).result
      = .ok ((paths.filter isTestFile).map fun path => ⟨path, root⟩)
  | [] => rfl
  | path :: paths => by
    rw [List.map_cons, testFilesIn]
    split_ifs with htest
    · rw [List.filter_cons_of_pos htest]
      simp only [Logged.result_bind, Logged.result_report, testFilesIn_files root paths]
      rfl
    · rw [List.filter_cons_of_neg htest, testFilesIn_files root paths]

/-! ## The search -/

/-- A search that meets only files finds those that are test files. -/
theorem testFiles_of_visits {fs : FileSystem} {root : Path} {lists : List (List Raw)}
    (h : fs.visits root = lists.map fun names => .file (names.foldl child root)) :
    (testFiles fs root).result
      = .ok ((lists.filter fun names => isTestFile (names.foldl child root)).map
          fun names => ⟨names.foldl child root, root⟩) := by
  have hpaths : fs.visits root
      = (lists.map fun names => names.foldl child root).map Visit.file := by
    rw [h, List.map_map]
    rfl
  rw [testFiles, hpaths, testFilesIn_files, List.filter_map, List.map_map]
  rfl

/-- Names that ascend lead to paths that differ. -/
theorem nodup_paths {root : Path} {lists : List (List Raw)}
    (hascend : lists.Pairwise fun a b => a.map Raw.bytes < b.map Raw.bytes)
    (hnames : ∀ names ∈ lists, ∀ name ∈ names, IsName name) :
    (lists.map fun names => names.foldl child root).Nodup := by
  refine List.pairwise_map.mpr (hascend.imp_of_mem fun {a b} ha hb hlt hpath => ?_)
  obtain rfl := names_eq_of_foldl_child (hnames a ha) (hnames b hb) hpath
  exact List.lt_irrefl _ hlt

/-- **The test files under a root that leads somewhere**, if every directory below it can be opened:
they are the files below the root whose names end in `_test.go`, each once, in ascending order of
the names that lead to them, which are compared one by one by their bytes.  The path of each is the
root as given, and these names.  The extension is never in the way. -/
theorem testFiles_exact {fs : FileSystem} (hfs : fs.root.WellFormed) {root : Path}
    (hroot : ∃ item, fs.item true root = .ok item) (hopen : Opens fs root) :
    (∃ lists : List (List Raw),
      (testFiles fs root).result = .ok (lists.map fun names => ⟨names.foldl child root, root⟩)
      ∧ lists.Pairwise (fun a b => a.map Raw.bytes < b.map Raw.bytes)
      ∧ (lists.map fun names => names.foldl child root).Nodup
      ∧ ∀ names, names ∈ lists
        ↔ FileBelow fs root names
          ∧ ∃ file, (names.foldl child root).fileName? = some file
            ∧ (Raw.ofText "_test.go").bytes <:+ file.bytes)
    ∧ ∀ (path : Path) (file : Raw), path.fileName? = some file →
        "_test.go".toList <:+ file.shown.toList → path.extension? = some ("go" : Raw) := by
  obtain ⟨lists, hvisits, hascend, hlists⟩ := exists_names_of_visits hfs hroot hopen
  have hascend := hascend.filter fun names => isTestFile (names.foldl child root)
  have hmem : ∀ names, names ∈ lists.filter (fun names => isTestFile (names.foldl child root))
      ↔ FileBelow fs root names ∧ isTestFile (names.foldl child root) = true := fun names => by
    rw [List.mem_filter, hlists]
  refine ⟨⟨_, testFiles_of_visits hvisits, hascend, nodup_paths hascend fun names hnames => ?_,
    fun names => by rw [hmem, isTestFile_iff]⟩, fun path file hfile hend => ?_⟩
  · exact ((hmem names).mp hnames).1.isName hfs
  · rw [extension?, hfile, Option.bind_some, extensionOf?_of_suffix (testFileEnd_iff.mp hend)]

/-! ## A root that is a link, a link in a cycle, and a pipe -/

/-- A package with a pipe that is named like a test file, a link back to what holds the package, and
a test file. -/
def package : List (Raw × Item) :=
  [("p_test.go", .special (.ok .empty)), ("up", .link ⟨".."⟩), ("x_test.go", .file .empty)]

/-- Two packages. -/
def packages : List (Raw × Item) :=
  [("a", .folder [("x_test.go", .file .empty)]), ("a-b", .folder package)]

/-- The packages, and a link to what holds them. -/
def linkedRoot : FileSystem := ⟨.folder [("d", .folder packages), ("r", .link ⟨"d"⟩)], some []⟩

theorem wellFormed_linkedRoot : linkedRoot.root.WellFormed := by
  have hpackage : (Item.folder package).WellFormed :=
    .folder (by decide +kernel) (by decide +kernel) (List.forall_mem_cons.mpr
      ⟨.special _, List.forall_mem_cons.mpr ⟨.link _, List.forall_mem_singleton.mpr (.file _)⟩⟩)
  have hpackages : (Item.folder packages).WellFormed := by
    refine .folder (by decide +kernel) (by decide +kernel) (List.forall_mem_cons.mpr
      ⟨.folder (by decide +kernel) (by decide +kernel) (List.forall_mem_singleton.mpr (.file _)),
        List.forall_mem_singleton.mpr hpackage⟩)
  exact .folder (by decide +kernel) (by decide +kernel)
    (List.forall_mem_cons.mpr ⟨hpackages, List.forall_mem_singleton.mpr (.link _)⟩)

theorem item_linkedRoot : linkedRoot.item true ⟨"r"⟩ = .ok (.folder packages) := rfl

theorem searchedFrom_linkedRoot {start : Item} (h : SearchedFrom linkedRoot ⟨"r"⟩ start) :
    start = .folder packages := h.unique (.folder item_linkedRoot)

/-- What names in the packages lead to. -/
theorem reaches_packages {names : List Raw} {found : Item}
    (h : (Item.folder packages).Reaches names found) :
    (names = [] ∧ found = .folder packages)
    ∨ (∃ entry ∈ packages, names = [entry.1] ∧ found = entry.2)
    ∨ (names = [("a" : Raw), "x_test.go"] ∧ found = .file .empty)
    ∨ ∃ entry ∈ package, names = [("a-b" : Raw), entry.1] ∧ found = entry.2 := by
  rcases h with _ | ⟨hentry, hreach⟩
  · exact .inl ⟨rfl, rfl⟩
  rcases hreach with _ | ⟨hnext, hreach⟩
  · exact .inr (.inl ⟨_, hentry, rfl, rfl⟩)
  simp only [packages, List.mem_cons, Prod.mk.injEq, Item.folder.injEq, List.not_mem_nil,
    or_false] at hentry
  obtain ⟨rfl, rfl⟩ | ⟨rfl, rfl⟩ := hentry
  · obtain ⟨rfl, rfl⟩ := Prod.mk.inj (List.mem_singleton.mp hnext)
    cases hreach
    exact .inr (.inr (.inl ⟨rfl, rfl⟩))
  · refine .inr (.inr (.inr ⟨_, hnext, ?_⟩))
    simp only [package, List.mem_cons, Prod.mk.injEq, List.not_mem_nil, or_false] at hnext
    obtain ⟨rfl, rfl⟩ | ⟨rfl, rfl⟩ | ⟨rfl, rfl⟩ := hnext <;> cases hreach <;> exact ⟨rfl, rfl⟩

theorem opens_linkedRoot : Opens linkedRoot ⟨"r"⟩ := by
  intro start names entries hstart hreach
  obtain rfl := searchedFrom_linkedRoot hstart
  rcases reaches_packages hreach with
    ⟨rfl, -⟩ | ⟨entry, hentry, rfl, -⟩ | ⟨-, hfile⟩ | ⟨entry, hentry, -, hfolder⟩
  · decide +kernel
  · simp only [packages, List.mem_cons, List.not_mem_nil, or_false] at hentry
    obtain rfl | rfl := hentry <;> decide +kernel
  · cases hfile
  · simp only [package, List.mem_cons, List.not_mem_nil, or_false] at hentry
    obtain rfl | rfl | rfl := hentry <;> cases hfolder

/-- The link is entered, the file in each package is found, and the names of the packages decide
their order.  The other link is not followed, and the pipe is no file. -/
theorem linkedRoot_exact :
    ∃ lists : List (List Raw),
      (testFiles linkedRoot ⟨"r"⟩).result
        = .ok (lists.map fun names => ⟨names.foldl child ⟨"r"⟩, ⟨"r"⟩⟩)
      ∧ lists.Pairwise (fun a b => a.map Raw.bytes < b.map Raw.bytes)
      ∧ [("a" : Raw), "x_test.go"] ∈ lists ∧ [("a-b" : Raw), "x_test.go"] ∈ lists
      ∧ [("a-b" : Raw), "up"] ∉ lists ∧ [("a-b" : Raw), "p_test.go"] ∉ lists := by
  obtain ⟨⟨lists, hfound, hascend, -, hlists⟩, -⟩ :=
    testFiles_exact wellFormed_linkedRoot ⟨_, item_linkedRoot⟩ opens_linkedRoot
  have hstart : SearchedFrom linkedRoot ⟨"r"⟩ (.folder packages) := .folder item_linkedRoot
  refine ⟨lists, hfound, hascend, (hlists _).mpr ⟨⟨_, .empty, hstart, ?_⟩, "x_test.go", ?_⟩,
    (hlists _).mpr ⟨⟨_, .empty, hstart, ?_⟩, "x_test.go", ?_⟩, fun hup => ?_, fun hpipe => ?_⟩
  · exact .entry (.head _) (.entry (.head _) (.here _))
  · decide +kernel
  · exact .entry (.tail _ (.head _)) (.entry (.tail _ (.tail _ (.head _))) (.here _))
  · decide +kernel
  · obtain ⟨-, file, hfile, hend⟩ := (hlists _).mp hup
    obtain rfl : ("up" : Raw) = file := Option.some.inj hfile
    exact absurd hend (by decide +kernel)
  · obtain ⟨⟨start, content, hstart', hreach⟩, -⟩ := (hlists _).mp hpipe
    obtain rfl := searchedFrom_linkedRoot hstart'
    rcases reaches_packages hreach with
      ⟨hnames, -⟩ | ⟨_, _, hnames, -⟩ | ⟨hnames, -⟩ | ⟨entry, hentry, hnames, hfile⟩
    · cases hnames
    · simp at hnames
    · exact absurd hnames (by decide +kernel)
    · simp only [package, List.mem_cons, List.not_mem_nil, or_false] at hentry
      obtain rfl | rfl | rfl := hentry
      · cases hfile
      · cases hfile
      · exact absurd hnames (by decide +kernel)

end TestCatalog.Catalog
