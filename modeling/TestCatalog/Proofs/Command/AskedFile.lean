import TestCatalog.Command.Options
import TestCatalog.Proofs.Catalog.Encounter
import TestCatalog.Proofs.Catalog.Search

/-!
# Proofs/Command/AskedFile — the one file that is asked for

A file that is asked for is looked at twice.  The options follow it through a link at its end, to
see that it is no directory; the search does not, unless the link leads to a directory, and it takes
nothing but files.  So the two agree on files and directories, and differ on links to files, and on
pipes and devices.

* `roots_eq_ok_iff` — which files the options take.
* `testFiles_asked_iff` — such a file is found, as itself, exactly if it is a file itself.
  Otherwise nothing is found, and the catalog is empty.
* `asked_link_lost` — a link to a test file is taken, and its tests are not listed.
-/

namespace TestCatalog

namespace Command

open Files

/-- **A file is taken if it leads to something that is no directory**, and no directories are given
besides it. -/
theorem Options.roots_eq_ok_iff {fs : FileSystem} {o : Options} {file : Path}
    (hfile : o.file = some file) {roots : List Path} :
    o.roots fs = .ok roots
      ↔ o.directories = [] ∧ roots = [file]
        ∧ ∃ item, fs.item true file = .ok item ∧ ∀ entries, item ≠ .folder entries := by
  rw [Options.roots, hfile]
  dsimp only
  cases o.directories with
  | cons directory directories => simp
  | nil => rcases fs.item true file with _ | _ | _ | _ | _ <;> simp [eq_comm]

end Command

namespace Catalog

open Command Files

/-! ## The search for it -/

/-- A file is found as itself, if its name is that of a test file. -/
theorem testFiles_of_file {fs : FileSystem} {file : Path} {content : ByteArray}
    (hitem : fs.item false file = .ok (.file content)) (htest : isTestFile file = true) :
    (testFiles fs file).result = .ok [⟨file, file⟩] := by
  have hvisits : fs.visits file = [[]].map fun names => .file (names.foldl Path.child file) := by
    rw [(SearchedFrom.file hitem).visits_eq, Item.visits]
    rfl
  rw [testFiles_of_visits hvisits, List.filter_cons_of_pos (by exact htest)]
  rfl

/-- Of what is no file itself, and leads to no directory, nothing is found. -/
theorem testFiles_of_no_file {fs : FileSystem} {path : Path} {item : Item}
    (hitem : fs.item true path = .ok item) (hfolder : ∀ entries, item ≠ .folder entries)
    (hfile : ∀ content, fs.item false path ≠ .ok (.file content)) :
    (testFiles fs path).result = .ok [] := by
  have hnone : ∀ start, ¬ SearchedFrom fs path start := by
    rintro _ (hstart | hstart)
    · exact hfolder _ (Except.ok.inj (hitem.symm.trans hstart))
    · exact hfile _ hstart
  rw [testFiles, visits_eq_nil hitem hnone]
  rfl

/-- Where nothing is found the catalog is empty. -/
theorem build_of_none_found {schedule : Schedule} {fs : FileSystem} {parser : Parser} {root : Path}
    (h : (testFiles fs root).result = .ok []) :
    (build schedule fs parser [root]).result = .ok [] :=
  build_eq_ok_iff.mpr ⟨[], ⟨[[]], [], .cons h .nil, .nil, rfl⟩, List.mergeSort_nil⟩

/-- **A file that is asked for, taken by the options and named like a test file**: it is the one
root.  It is found, as itself, exactly if it is a file itself.  If it is not, but a link to one, or
neither a file nor a directory, nothing is found, and the catalog is empty without a failure. -/
theorem testFiles_asked_iff {fs : FileSystem} {o : Options} {file : Path}
    (hfile : o.file = some file) {roots : List Path} (hroots : o.roots fs = .ok roots)
    (htest : isTestFile file = true) :
    roots = [file]
    ∧ ((testFiles fs file).result = .ok [⟨file, file⟩]
        ↔ ∃ content, fs.item false file = .ok (.file content))
    ∧ ((∃ content, fs.item false file = .ok (.file content))
        ∨ (∃ target, fs.item false file = .ok (.link target))
        ∨ ∃ reading, fs.item false file = .ok (.special reading))
    ∧ ((∀ content, fs.item false file ≠ .ok (.file content)) →
        (testFiles fs file).result = .ok []
        ∧ ∀ (schedule : Schedule) (parser : Parser),
            (build schedule fs parser roots).result = .ok []) := by
  obtain ⟨-, rfl, item, hitem, hfolder⟩ := (Options.roots_eq_ok_iff hfile).mp hroots
  have hlost : (∀ content, fs.item false file ≠ .ok (.file content)) →
      (testFiles fs file).result = .ok [] := testFiles_of_no_file hitem hfolder
  refine ⟨rfl, ⟨fun hfound => ?_, fun ⟨content, hcontent⟩ => ?_⟩, ?_, fun hno => ?_⟩
  · by_contra hno
    cases hfound.symm.trans (hlost (not_exists.mp hno))
  · exact testFiles_of_file hcontent htest
  · obtain hsame | hlink := fs.item_of_item_last hitem
    · cases item with
      | file content => exact .inl ⟨content, hsame⟩
      | special reading => exact .inr (.inr ⟨reading, hsame⟩)
      | link target => exact .inr (.inl ⟨target, hsame⟩)
      | folder entries => exact absurd rfl (hfolder entries)
    · exact .inr (.inl hlink)
  · exact ⟨hlost hno, fun _ _ => build_of_none_found (hlost hno)⟩

/-! ## A file, a link to it, and a pipe -/

/-- A test file, and a link to it and a pipe that are named like one. -/
def linkedFile : FileSystem :=
  ⟨.folder [("a_test.go", .file .empty), ("b_test.go", .link ⟨"a_test.go"⟩),
    ("p_test.go", .special (.ok .empty))], some []⟩

/-- Asking for one file. -/
def askFor (file : Path) : Options := { Options.initial with file := some file }

/-- The file is found, and of the pipe nothing is. -/
theorem linkedFile_found :
    isTestFile ⟨"a_test.go"⟩ = true ∧ (askFor ⟨"a_test.go"⟩).roots linkedFile = .ok [⟨"a_test.go"⟩]
      ∧ (testFiles linkedFile ⟨"a_test.go"⟩).result = .ok [⟨⟨"a_test.go"⟩, ⟨"a_test.go"⟩⟩]
      ∧ isTestFile ⟨"p_test.go"⟩ = true
      ∧ (askFor ⟨"p_test.go"⟩).roots linkedFile = .ok [⟨"p_test.go"⟩]
      ∧ (testFiles linkedFile ⟨"p_test.go"⟩).result = .ok [] := by
  have htest : isTestFile ⟨"a_test.go"⟩ = true := by decide +kernel
  have hroots : (askFor ⟨"a_test.go"⟩).roots linkedFile = .ok [⟨"a_test.go"⟩] := rfl
  have hitem : linkedFile.item false ⟨"a_test.go"⟩ = .ok (.file .empty) := rfl
  have hfound := (testFiles_asked_iff rfl hroots htest).2.1.mpr ⟨_, hitem⟩
  have htest' : isTestFile ⟨"p_test.go"⟩ = true := by decide +kernel
  have hroots' : (askFor ⟨"p_test.go"⟩).roots linkedFile = .ok [⟨"p_test.go"⟩] := rfl
  have hitem' : linkedFile.item false ⟨"p_test.go"⟩ = .ok (.special (.ok .empty)) := rfl
  have hnone := (testFiles_asked_iff rfl hroots' htest').2.2.2
    fun _ hfile => by cases hitem'.symm.trans hfile
  exact ⟨htest, hroots, hfound, htest', hroots', hnone.1⟩

/-- **The link is taken as well, and nothing is found**, although it leads to the file. -/
theorem asked_link_lost :
    isTestFile ⟨"b_test.go"⟩ = true ∧ (askFor ⟨"b_test.go"⟩).roots linkedFile = .ok [⟨"b_test.go"⟩]
      ∧ linkedFile.item true ⟨"b_test.go"⟩ = linkedFile.item true ⟨"a_test.go"⟩
      ∧ (testFiles linkedFile ⟨"b_test.go"⟩).result = .ok [] := by
  have hlink : linkedFile.item false ⟨"b_test.go"⟩ = .ok (.link ⟨"a_test.go"⟩) := rfl
  have hitem : linkedFile.item true ⟨"b_test.go"⟩ = .ok (.file .empty) := rfl
  have hfile : linkedFile.item true ⟨"a_test.go"⟩ = .ok (.file .empty) := rfl
  exact ⟨by decide +kernel, rfl, hitem.trans hfile.symm,
    testFiles_of_no_file hitem (fun _ => by simp) fun _ hno => by cases hlink.symm.trans hno⟩

end Catalog

end TestCatalog
