import TestCatalog.Catalog.Candidate
import TestCatalog.Proofs.Catalog.Schedule
import TestCatalog.Proofs.Files.Visit
import TestCatalog.Proofs.Report.Location

/-!
# Proofs/Catalog/Located — every file that is found can be located

The search builds the path of a file from the root as it is spelled; the location cleans root and
path each for itself and goes through the directory that holds the root.  `testFiles_located` says
that the two fit for every spelling: nothing that is found fails to be located, and what is reported
of it are its names below the root, after the last part of the root.  `Locates` says how the paths
of a file fit together; it holds of the paths, and just as well of what is shown of them
(`Locates.rendered`).
-/

namespace TestCatalog.Catalog

open Files Log Report TestCatalog.Path

/-! ## Candidates -/

/-- A file that is met is a candidate if it is a test file. -/
theorem testFilesIn_file_eq_ok_iff {root path : Path} {rest : List Visit} {found : List Candidate} :
    (testFilesIn root (.file path :: rest)).result = .ok found
      ↔ ∃ more, (testFilesIn root rest).result = .ok more
        ∧ found = if isTestFile path then ⟨path, root⟩ :: more else more := by
  rw [testFilesIn]
  split <;> simp [eq_comm (a := found)]

/-- A candidate is a test file that was met under its root. -/
theorem mem_of_testFilesIn {root : Path} {visits : List Visit} {found : List Candidate}
    (h : (testFilesIn root visits).result = .ok found) {candidate : Candidate}
    (hmem : candidate ∈ found) :
    candidate.root = root ∧ isTestFile candidate.path = true
      ∧ Visit.file candidate.path ∈ visits := by
  induction visits generalizing found with
  | nil =>
    obtain rfl := Except.ok.inj h
    cases hmem
  | cons visit rest ih =>
    cases visit with
    | refused path fault => cases h
    | file path =>
      obtain ⟨more, hmore, rfl⟩ := testFilesIn_file_eq_ok_iff.mp h
      have hlater (hmem : candidate ∈ more) : candidate.root = root
          ∧ isTestFile candidate.path = true ∧ Visit.file candidate.path ∈ .file path :: rest := by
        obtain ⟨hroot, htest, hvisit⟩ := ih hmore hmem
        exact ⟨hroot, htest, List.mem_cons_of_mem _ hvisit⟩
      split at hmem
      · next htest =>
        rcases List.mem_cons.mp hmem with rfl | hmem
        · exact ⟨rfl, htest, List.mem_cons_self⟩
        · exact hlater hmem
      · exact hlater hmem

/-- A test file has a name. -/
theorem exists_fileName_of_isTestFile {path : Path} (h : isTestFile path = true) :
    ∃ file, path.fileName? = some file := by
  rw [isTestFile, Bool.and_eq_true] at h
  split at h
  · next file hfile => exact ⟨file, hfile⟩
  · cases h.2

/-! ## Locations -/

/-- **Two paths locate a file** that names lead to from a root, seen from a current directory. -/
structure Locates (directory root : Path) (names : List Raw) (file : Raw)
    (relative absolute : Path) : Prop where
  /-- The one is the last part of the cleaned root, if that has one, and the names. -/
  relative_eq : relative = ⟨Raw.intercalate "/" (root.clean.parts.getLast?.toList ++ names)⟩
  /-- The name of the file ends both. -/
  relative_last : relative.parts.getLast? = some file
  absolute_last : absolute.parts.getLast? = some file
  /-- The other starts at the root and only goes down. -/
  isRooted : absolute.isRooted = true
  no_dots : ∀ part ∈ absolute.parts, part ≠ "." ∧ part ≠ ".."
  /-- The one, taken from the directory that holds the root, is the other. -/
  absolute_eq : ((directoryOf root).join relative).absolute (some directory) = .ok absolute

/-- **What is shown of the paths locates what is shown of the file.** -/
theorem Locates.rendered {directory root relative absolute : Path} {names : List Raw} {file : Raw}
    (h : Locates directory root names file relative absolute) :
    Locates directory.rendered root.rendered (names.map Raw.rendered) file.rendered
      relative.rendered absolute.rendered where
  relative_eq := by
    rw [h.relative_eq, clean_rendered, parts_rendered, List.getLast?_map, Path.rendered,
      rendered_intercalate, List.map_append]
    cases root.clean.parts.getLast? <;> rfl
  relative_last := by rw [parts_rendered, List.getLast?_map, h.relative_last, Option.map_some]
  absolute_last := by rw [parts_rendered, List.getLast?_map, h.absolute_last, Option.map_some]
  isRooted := (isRooted_rendered absolute).trans h.isRooted
  no_dots := by
    intro _ hshown
    rw [parts_rendered] at hshown
    obtain ⟨part, hpart, rfl⟩ := List.mem_map.mp hshown
    obtain ⟨hdot, hdots⟩ := h.no_dots part hpart
    exact ⟨(Raw.rendered_eq_iff rfl).not.mpr hdot, (Raw.rendered_eq_iff rfl).not.mpr hdots⟩
  absolute_eq := by
    rw [directoryOf_rendered, ← join_rendered, absolute_rendered, h.absolute_eq]
    rfl

/-- **Every file that is found can be located**, whatever the spelling of the root and whatever the
current directory.  Its path from the directory that holds the root is the last part of the cleaned
root, if that has one, and the names below the root; its name ends both paths; its absolute path
starts at the root and only goes down; and the reported path, taken from the directory that holds
the root, is the same file.  All of this is true of the paths as they are, and of the texts that are
reported for them. -/
theorem testFiles_located {fs : FileSystem} {root : Path} {found : List Candidate}
    (hfs : fs.root.WellFormed) (h : (testFiles fs root).result = .ok found) :
    ∀ candidate ∈ found, ∀ directory : Path, directory.isRooted = true →
      ∃ (location : Location) (names : List Raw) (file : Raw) (relative absolute : Path),
        Location.resolve (some directory) candidate.path candidate.root = .ok location
        ∧ candidate.path = names.foldl Path.child root ∧ (∀ name ∈ names, IsName name)
        ∧ candidate.path.fileName? = some file
        ∧ Locates directory root names file relative absolute
        ∧ location = ⟨file.shown, relative.shown, absolute.shown⟩
        ∧ location.relativePath
            = "/".intercalate ((root.clean.parts.getLast?.toList ++ names).map Raw.shown)
        ∧ Locates ⟨directory.shown⟩ ⟨root.shown⟩ (names.map Raw.rendered) location.fileName
            ⟨location.relativePath⟩ ⟨location.absolutePath⟩ := by
  intro candidate hmem directory hdirectory
  obtain ⟨hroot, htest, hvisit⟩ := mem_of_testFilesIn h hmem
  obtain ⟨names, hpath, hnames⟩ := below_of_mem_visits hfs hvisit
  obtain ⟨file, hfile⟩ := exists_fileName_of_isTestFile htest
  rw [hpath] at hfile
  have hlocates : Locates directory root names file (ofRoute ⟨false, stepsBelow root names⟩)
      (ofRoute (absoluteRoute directory (names.foldl Path.child root))) :=
    { relative_eq := congrArg Path.mk text_below
      relative_last := getLast?_parts_below hnames hfile
      absolute_last := getLast?_parts_absolute hfile
      isRooted := isRooted_absolute directory _
      no_dots := fun part hpart => (isName_of_mem_parts_absolute part hpart).2.2
      absolute_eq := absolute_join_below hdirectory hnames }
  refine ⟨_, names, file, _, _, ?_, hpath, hnames, hpath ▸ hfile, hlocates, rfl, ?_,
    hlocates.rendered⟩
  · rw [hpath, hroot]
    exact resolve_below hdirectory hnames hfile
  · rw [← shown_intercalate, ← text_below]
    rfl

/-- A test file in the current directory. -/
def oneFile : FileSystem :=
  ⟨.folder [("w", .folder [("b", .folder [("a_test.go", .file .empty)])])], some ["w", "b"]⟩

theorem wellFormed_oneFile : oneFile.root.WellFormed := by
  refine .folder (by decide +kernel) (by decide) (List.forall_mem_singleton.mpr ?_)
  refine .folder (by decide +kernel) (by decide) (List.forall_mem_singleton.mpr ?_)
  exact .folder (by decide +kernel) (by decide) (List.forall_mem_singleton.mpr (.file _))

/-- A root that goes up and comes back. -/
theorem oneFile_located :
    ∃ (location : Location) (names : List Raw) (file : Raw) (relative absolute : Path),
      Location.resolve (some ⟨"/w/b"⟩) ⟨"../b/a_test.go"⟩ ⟨"../b/"⟩ = .ok location
      ∧ Locates ⟨"/w/b"⟩ ⟨"../b/"⟩ names file relative absolute
      ∧ location.relativePath = "/".intercalate
          (((⟨"../b/"⟩ : Path).clean.parts.getLast?.toList ++ names).map Raw.shown)
      ∧ ((directoryOf ⟨"../b/"⟩).join ⟨location.relativePath⟩).absolute (some ⟨"/w/b"⟩)
          = .ok ⟨location.absolutePath⟩ := by
  have hitem : oneFile.item false ⟨"../b/"⟩ = .ok (.folder [("a_test.go", .file .empty)]) := rfl
  have hvisits : oneFile.visits ⟨"../b/"⟩ = [.file ⟨"../b/a_test.go"⟩] := by
    rw [visits_of_pairwise hitem (by decide +kernel) (by decide +kernel)]
    decide +kernel
  have hfound : (testFiles oneFile ⟨"../b/"⟩).result
      = .ok [⟨⟨"../b/a_test.go"⟩, ⟨"../b/"⟩⟩] := by
    rw [testFiles, hvisits]
    decide +kernel
  obtain ⟨location, names, file, relative, absolute, hlocation, -, -, -, hlocates, -, hrelative,
    hshown⟩ :=
    testFiles_located wellFormed_oneFile hfound _ List.mem_cons_self ⟨"/w/b"⟩ (by decide +kernel)
  exact ⟨location, names, file, relative, absolute, hlocation, hlocates, hrelative,
    hshown.absolute_eq⟩

end TestCatalog.Catalog
