import TestCatalog.Proofs.Catalog.Schedule
import TestCatalog.Proofs.Files.Visit
import TestCatalog.Proofs.Text.Order

/-!
# Proofs/Catalog/Encounter — the catalog is what is met under the roots, by name

`Encountered` says which records are met under some roots, and in which order: root by root, file by
file as the search finds them, function by function, entry by entry.  It mentions no schedule.

* `build_eq_ok_iff` — the catalog exists exactly when everything met can be read, and is then what
  was met, ordered by name.
* `build_lists_encountered` — the listing ascends by the bytes of the names, has every record met as
  often as it was met, keeps the order of the encounter among records of one name, and is the same
  for every schedule.
-/

namespace TestCatalog

open Log

/-! ## The order of names -/

namespace Report

open Raw (byteLE byteLE_trans byteLE_total)

/-- Ordering by name loses and doubles nothing. -/
theorem byName_perm (records : List Record) : (byName records).Perm records :=
  List.mergeSort_perm records _

/-- **The names ascend**, compared by their bytes. -/
theorem pairwise_byName (records : List Record) :
    (byName records).Pairwise fun a b => Text.bytes a.name ≤ Text.bytes b.name :=
  (List.pairwise_mergeSort (fun a b c => byteLE_trans a.name b.name c.name)
    (fun a b => byteLE_total a.name b.name) records).imp of_decide_eq_true

/-- **Records of one name keep their order** — they are in order already, so the sort has them as a
sublist, and it has no further record of that name. -/
theorem filter_byName (records : List Record) (name : String) :
    (byName records).filter (·.name = name) = records.filter (·.name = name) := by
  have hinOrder : (records.filter (·.name = name)).Pairwise fun a b => byteLE a.name b.name := by
    refine List.pairwise_iff_forall_sublist.mpr fun {a b} hab => ?_
    have hname : ∀ c ∈ records.filter (·.name = name), c.name = name := fun c hc => by
      simpa using (List.mem_filter.mp hc).2
    rw [hname a (hab.subset (by simp)), hname b (hab.subset (by simp))]
    simpa using byteLE_total name name
  have hsub : (records.filter (·.name = name)).Sublist (byName records) :=
    List.sublist_mergeSort (fun a b c => byteLE_trans a.name b.name c.name)
      (fun a b => byteLE_total a.name b.name) hinOrder List.filter_sublist
  have hsub' := hsub.filter (·.name = name)
  rw [List.filter_filter] at hsub'
  simp only [Bool.and_self] at hsub'
  exact (hsub'.eq_of_length ((byName_perm records).filter _).length_eq.symm).symm

end Report

/-! ## What is met -/

namespace Catalog

open Files Listing Report Source

/-- **The records that a file holds**: one for each entry of each of its test functions, in the
order of its text, with the location of the file and its lines.  The file has to be readable, and
its text a program. -/
def Holds (fs : FileSystem) (parser : Parser) (candidate : Candidate) (records : List Record) :
    Prop :=
  ∃ text tree location, fs.read candidate.path = .ok text
    ∧ (parser candidate.path text).result = .ok tree
    ∧ Location.resolve fs.currentPath candidate.path candidate.root = .ok location
    ∧ records = (testFunctions tree).flatMap fun f =>
        (entries f).map fun entry => Record.ofEntry entry location (Lines.ofText text)

/-- **The records met under some roots**, one root after another, each with the files found there in
the order of the search, and each file with the records it holds. -/
def Encountered (fs : FileSystem) (parser : Parser) (roots : List Path) (records : List Record) :
    Prop :=
  ∃ (found : List (List Candidate)) (held : List (List Record)),
    List.Forall₂ (fun root candidates => (testFiles fs root).result = .ok candidates) roots found
    ∧ List.Forall₂ (Holds fs parser) found.flatten held
    ∧ records = held.flatten

theorem collect_eq_ok_iff {fs : FileSystem} {root : Path} {candidates : List Candidate} :
    (collect fs root).result = .ok candidates ↔ (testFiles fs root).result = .ok candidates := by
  simp [collect]

/-- A file that has been read gives its records when it can be located. -/
theorem Document.records_eq_ok_iff {current : Option Path} {file : Document}
    {records : List Record} :
    (file.records current).result = .ok records
      ↔ ∃ location, Location.resolve current file.path file.root = .ok location
        ∧ (entriesOf file.tree).map (fun entry => Record.ofEntry entry location file.lines)
          = records := by
  simp [Document.records, Document.entries]

/-- **Reading a file gives the records it holds.** -/
theorem recordsOf_eq_ok_iff {fs : FileSystem} {parser : Parser} {candidate : Candidate}
    {records : List Record} :
    (recordsOf fs parser candidate).result = .ok records ↔ Holds fs parser candidate records := by
  simp [recordsOf, Document.read, Document.ofText, Document.records_eq_ok_iff, Holds, entriesOf,
    List.map_flatMap, and_assoc, eq_comm (a := records)]

/-! ## The catalog -/

/-- **The catalog is what is met, by name** — for every schedule, and there is none exactly when
something met cannot be read. -/
theorem build_eq_ok_iff {schedule : Schedule} {fs : FileSystem} {parser : Parser}
    {roots : List Path} {listing : List Record} :
    (build schedule fs parser roots).result = .ok listing
      ↔ ∃ met, Encountered fs parser roots met ∧ byName met = listing := by
  simp [build, Logged.each_eq_ok_iff, collect_eq_ok_iff, Schedule.each_eq_ok_iff,
    recordsOf_eq_ok_iff, Encountered, and_assoc]

/-- **The listing of a catalog**: its names ascend by bytes; its records are those met under the
roots, each as often as met; among records of one name the order is that of the encounter; and every
other schedule gives the same listing. -/
theorem build_lists_encountered {schedule : Schedule} {fs : FileSystem} {parser : Parser}
    {roots : List Path} {listing : List Record}
    (h : (build schedule fs parser roots).result = .ok listing) :
    listing.Pairwise (fun a b => Text.bytes a.name ≤ Text.bytes b.name)
    ∧ (∃ met, Encountered fs parser roots met
        ∧ listing.Perm met
        ∧ ∀ name, listing.filter (·.name = name) = met.filter (·.name = name))
    ∧ ∀ other : Schedule, (build other fs parser roots).result = .ok listing := by
  obtain ⟨met, hmet, rfl⟩ := build_eq_ok_iff.mp h
  refine ⟨pairwise_byName met, ⟨met, hmet, byName_perm met, filter_byName met⟩, fun other => ?_⟩
  exact build_eq_ok_iff.mpr ⟨met, hmet, rfl⟩

/-! ## Overlapping roots, the last file first

A directory with two files and one of these files again: the work is done backwards, and the three
records, all of one name, stay in the order in which they are met. -/

/-- The last piece of work first. -/
def Schedule.backwards : Schedule := ⟨List.reverse, fun work => List.reverse_perm work⟩

/-- Two test files in the current directory. -/
def twoFiles : FileSystem :=
  ⟨.folder [("w", .folder [("a_test.go", .file .empty), ("b_test.go", .file .empty)])], some ["w"]⟩

/-- Finds the same test in every text. -/
def oneTest : Parser := fun _ _ => pure ⟨[.function ⟨⟨"TestX", 5⟩, []⟩]⟩

/-- The record of that test in the file of a name. -/
def recordIn (file : String) : Record := ⟨"TestX", file, file, "/w/" ++ file, 1, 6⟩

theorem holds_oneTest {path root : Path} {file : String} (htext : twoFiles.read path = .ok "")
    (hlocation : Location.resolve twoFiles.currentPath path root
      = .ok ⟨file, file, "/w/" ++ file⟩) :
    Holds twoFiles oneTest ⟨path, root⟩ [recordIn file] := by
  have htests : testFunctions ⟨[.function ⟨⟨"TestX", 5⟩, []⟩]⟩ = [⟨⟨"TestX", 5⟩, []⟩] := rfl
  have hline : (Lines.ofText "").line 5 = 1 := by
    rw [Lines.line, Lines.bisect, if_pos (by decide +kernel), if_pos (by decide +kernel),
      Lines.bisect]
    rfl
  refine ⟨"", _, _, htext, rfl, hlocation, ?_⟩
  rw [htests, List.flatMap_singleton, recordIn, ← hline]
  rfl

theorem build_backwards :
    (build .backwards twoFiles oneTest [⟨"."⟩, ⟨"a_test.go"⟩]).result
      = .ok [recordIn "a_test.go", recordIn "b_test.go", recordIn "a_test.go"] := by
  refine build_eq_ok_iff.mpr ⟨_, ⟨[[⟨⟨"./a_test.go"⟩, ⟨"."⟩⟩, ⟨⟨"./b_test.go"⟩, ⟨"."⟩⟩],
    [⟨⟨"a_test.go"⟩, ⟨"a_test.go"⟩⟩]],
    [[recordIn "a_test.go"], [recordIn "b_test.go"], [recordIn "a_test.go"]], ?_, ?_, rfl⟩, ?_⟩
  · have hitem : twoFiles.item false ⟨"."⟩
        = .ok (.folder [("a_test.go", .file .empty), ("b_test.go", .file .empty)]) := rfl
    have hdirectory : twoFiles.visits ⟨"."⟩
        = [.file ⟨"./a_test.go"⟩, .file ⟨"./b_test.go"⟩] := by
      rw [visits_of_pairwise hitem (by decide +kernel) (by decide +kernel)]
      decide +kernel
    have hfile : twoFiles.visits ⟨"a_test.go"⟩ = [.file ⟨"a_test.go"⟩] := by decide +kernel
    refine .cons ?_ (.cons ?_ .nil)
    · rw [testFiles, hdirectory]
      decide +kernel
    · rw [testFiles, hfile]
      decide +kernel
  · refine .cons (holds_oneTest ?_ ?_)
      (.cons (holds_oneTest ?_ ?_) (.cons (holds_oneTest ?_ ?_) .nil)) <;> decide +kernel
  · exact List.mergeSort_of_pairwise (by decide +kernel)

theorem backwards_lists_in_order :
    (∃ met, Encountered twoFiles oneTest [⟨"."⟩, ⟨"a_test.go"⟩] met
      ∧ [recordIn "a_test.go", recordIn "b_test.go", recordIn "a_test.go"].Perm met)
    ∧ (build .inOrder twoFiles oneTest [⟨"."⟩, ⟨"a_test.go"⟩]).result
        = .ok [recordIn "a_test.go", recordIn "b_test.go", recordIn "a_test.go"] := by
  obtain ⟨-, ⟨met, hmet, hperm, -⟩, hother⟩ := build_lists_encountered build_backwards
  exact ⟨⟨met, hmet, hperm⟩, hother .inOrder⟩

end Catalog

end TestCatalog
