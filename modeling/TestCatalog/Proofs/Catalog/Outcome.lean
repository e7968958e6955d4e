import TestCatalog.Proofs.Catalog.Encounter
import TestCatalog.Proofs.Files.Contents

/-!
# Proofs/Catalog/Outcome — why there is no catalog

The roots are searched before any file is read, so a root that cannot be searched decides, the first
of several, and no file has a say in it.  Of the files that cannot be listed one decides, and which
one is up to the schedule.

* `Logged.each_eq_error_iff` — work from left to right fails with the first failure.
* `Schedule.exists_of_each_eq_error` — scheduled work fails with the failure of some element.
* `recordsOf_eq_error_iff` — a file fails by its first obstacle: reading, parsing, locating.
* `build_outcome` — the three together.
-/

namespace TestCatalog

/-! ## Work that fails -/

namespace Log.Logged

variable {α β : Type}

/-- **Work on a list fails with the first failure**, after elements that all give a value. -/
theorem each_eq_error_iff {work : α → Logged β} {list : List α} {e : Failure} :
    (each work list).result = .error e
      ↔ ∃ before a after, list = before ++ a :: after
        ∧ (∀ b ∈ before, ∃ value, (work b).result = .ok value) ∧ (work a).result = .error e := by
  induction list with
  | nil => simp [each]
  | cons a rest ih =>
    have hstep : (each work (a :: rest)).result = .error e ↔ (work a).result = .error e
        ∨ ∃ value, (work a).result = .ok value ∧ (each work rest).result = .error e := by
      simp [each]
    rw [hstep, ih]
    constructor
    · rintro (hfail | ⟨value, hvalue, before, b, after, rfl, hbefore, hfail⟩)
      · exact ⟨[], a, rest, rfl, by simp, hfail⟩
      · exact ⟨a :: before, b, after, rfl, List.forall_mem_cons.mpr ⟨⟨value, hvalue⟩, hbefore⟩,
          hfail⟩
    · rintro ⟨_ | ⟨a', before⟩, b, after, hlist, hbefore, hfail⟩
      · obtain ⟨rfl, rfl⟩ := List.cons.inj hlist
        exact .inl hfail
      · obtain ⟨rfl, rfl⟩ := List.cons.inj hlist
        obtain ⟨⟨value, hvalue⟩, hbefore⟩ := List.forall_mem_cons.mp hbefore
        exact .inr ⟨value, hvalue, before, b, after, rfl, hbefore, hfail⟩

end Log.Logged

namespace Catalog

open Files Log Report Source

variable {schedule : Schedule} {fs : FileSystem} {parser : Parser}

/-- **Scheduled work fails with the failure of some element**, whatever the schedule. -/
theorem Schedule.exists_of_each_eq_error {α β : Type} {work : α → Logged β} {list : List α}
    {e : Failure} (h : (schedule.each work list).result = .error e) :
    ∃ a ∈ list, (work a).result = .error e := by
  have hdone : (Logged.each (fun (b : α × Nat) => do return (← work b.1, b.2))
      (schedule.arrange list.zipIdx)).result = .error e := by simpa [Schedule.each] using h
  obtain ⟨before, ⟨a, place⟩, after, harranged, -, hplaced⟩ := Logged.each_eq_error_iff.mp hdone
  have hfail : (work a).result = .error e := by simpa using hplaced
  have hmem : (a, place) ∈ list.zipIdx :=
    (schedule.perm list.zipIdx).mem_iff.mp (by rw [harranged]; simp)
  exact ⟨a, List.fst_mem_of_mem_zipIdx hmem, hfail⟩

/-! ## Files that cannot be listed -/

/-- A file that can be read, parsed and located. -/
def Listable (fs : FileSystem) (parser : Parser) (candidate : Candidate) : Prop :=
  ∃ text tree location, fs.read candidate.path = .ok text
    ∧ (parser candidate.path text).result = .ok tree
    ∧ Location.resolve fs.currentPath candidate.path candidate.root = .ok location

/-- **The failure of a file**: that of reading it; of parsing it, if it can be read; of locating it,
if it can be parsed. -/
inductive FailsWith (fs : FileSystem) (parser : Parser) (candidate : Candidate) : Failure → Prop
  | unread {fault : Fault} (hread : fs.read candidate.path = .error fault) :
      FailsWith fs parser candidate (.unreadable candidate.path fault)
  | unparsed {text : String} {e : Failure} (hread : fs.read candidate.path = .ok text)
      (hparse : (parser candidate.path text).result = .error e) : FailsWith fs parser candidate e
  | unlocated {text : String} {tree : Tree} {e : Failure}
      (hread : fs.read candidate.path = .ok text)
      (hparse : (parser candidate.path text).result = .ok tree)
      (hlocate : Location.resolve fs.currentPath candidate.path candidate.root = .error e) :
      FailsWith fs parser candidate e

theorem listable_iff_holds {candidate : Candidate} :
    Listable fs parser candidate ↔ ∃ records, Holds fs parser candidate records := by
  constructor
  · rintro ⟨text, tree, location, hread, hparse, hlocate⟩
    exact ⟨_, text, tree, location, hread, hparse, hlocate, rfl⟩
  · rintro ⟨_, text, tree, location, hread, hparse, hlocate, -⟩
    exact ⟨text, tree, location, hread, hparse, hlocate⟩

/-- A file that has been parsed fails only if it cannot be located. -/
theorem Document.records_eq_error_iff {current : Option Path} {file : Document} {e : Failure} :
    (file.records current).result = .error e
      ↔ Location.resolve current file.path file.root = .error e := by
  simp [Document.records, Document.entries]

/-- **A file fails by its first obstacle.** -/
theorem recordsOf_eq_error_iff {candidate : Candidate} {e : Failure} :
    (recordsOf fs parser candidate).result = .error e ↔ FailsWith fs parser candidate e := by
  have hobstacles : (recordsOf fs parser candidate).result = .error e
      ↔ (∃ fault, fs.read candidate.path = .error fault ∧ .unreadable candidate.path fault = e)
        ∨ (∃ text, fs.read candidate.path = .ok text
          ∧ (parser candidate.path text).result = .error e)
        ∨ (∃ text, fs.read candidate.path = .ok text
          ∧ ∃ tree, (parser candidate.path text).result = .ok tree)
          ∧ Location.resolve fs.currentPath candidate.path candidate.root = .error e := by
    simp [recordsOf, Document.read, Document.ofText, Document.records_eq_error_iff, or_assoc]
  rw [hobstacles]
  constructor
  · rintro (⟨fault, hread, rfl⟩ | ⟨text, hread, hparse⟩ | ⟨⟨text, hread, tree, hparse⟩, hlocate⟩)
    · exact .unread hread
    · exact .unparsed hread hparse
    · exact .unlocated hread hparse hlocate
  · rintro (hread | ⟨hread, hparse⟩ | ⟨hread, hparse, hlocate⟩)
    · exact .inl ⟨_, hread, rfl⟩
    · exact .inr (.inl ⟨_, hread, hparse⟩)
    · exact .inr (.inr ⟨⟨_, hread, _, hparse⟩, hlocate⟩)

theorem FailsWith.not_listable {candidate : Candidate} {e : Failure}
    (h : FailsWith fs parser candidate e) : ¬ Listable fs parser candidate := by
  intro hlistable
  obtain ⟨records, hrecords⟩ := listable_iff_holds.mp hlistable
  cases (recordsOf_eq_error_iff.mpr h).symm.trans (recordsOf_eq_ok_iff.mpr hrecords)

/-- A file has one first obstacle. -/
theorem FailsWith.eq {candidate : Candidate} {e e' : Failure}
    (h : FailsWith fs parser candidate e) (h' : FailsWith fs parser candidate e') : e = e' :=
  Except.error.inj ((recordsOf_eq_error_iff.mpr h).symm.trans (recordsOf_eq_error_iff.mpr h'))

/-! ## Roots that are searched -/

/-- A root under which every directory can be opened. -/
def Searchable (fs : FileSystem) (root : Path) : Prop :=
  ∃ found, (testFiles fs root).result = .ok found

/-- A test file under one of some roots. -/
def FoundUnder (fs : FileSystem) (roots : List Path) (candidate : Candidate) : Prop :=
  ∃ root ∈ roots, ∃ found, (testFiles fs root).result = .ok found ∧ candidate ∈ found

theorem exists_forall₂_iff {α β : Type} {R : α → β → Prop} {list : List α} :
    (∃ values, List.Forall₂ R list values) ↔ ∀ a ∈ list, ∃ b, R a b := by
  induction list with
  | nil => simp
  | cons a list ih =>
    simp only [List.forall₂_cons_left_iff, List.forall_mem_cons, ← ih]
    constructor
    · rintro ⟨_, b, values, hb, hvalues, rfl⟩
      exact ⟨⟨b, hb⟩, values, hvalues⟩
    · rintro ⟨⟨b, hb⟩, values, hvalues⟩
      exact ⟨b :: values, b, values, hb, hvalues, rfl⟩

/-- What the searches of some roots gather is what is found under them. -/
theorem mem_flatten_iff_foundUnder {roots : List Path} {found : List (List Candidate)}
    (h : List.Forall₂ (fun root candidates => (testFiles fs root).result = .ok candidates) roots
      found) {candidate : Candidate} :
    candidate ∈ found.flatten ↔ FoundUnder fs roots candidate := by
  induction h with
  | nil => simp [FoundUnder]
  | @cons root candidates roots found hroot _ ih =>
    rw [List.flatten_cons, List.mem_append, ih]
    simp [FoundUnder, hroot]

theorem collect_eq_error_iff {root : Path} {e : Failure} :
    (collect fs root).result = .error e ↔ (testFiles fs root).result = .error e := by
  simp [collect]

/-! ## The outcome -/

/-- **A catalog fails with the first root that cannot be searched**, or, if all can be, with some
file. -/
theorem build_eq_error {roots : List Path} {e : Failure}
    (h : (build schedule fs parser roots).result = .error e) :
    (∃ before root after, roots = before ++ root :: after
        ∧ (∀ earlier ∈ before, Searchable fs earlier) ∧ (testFiles fs root).result = .error e)
    ∨ (∀ root ∈ roots, Searchable fs root)
        ∧ ∃ candidate, FoundUnder fs roots candidate ∧ FailsWith fs parser candidate e := by
  have hwork : (Logged.each (collect fs) roots).result = .error e
      ∨ ∃ found, (Logged.each (collect fs) roots).result = .ok found
        ∧ (schedule.each (recordsOf fs parser) found.flatten).result = .error e := by
    simpa [build] using h
  rcases hwork with hroots | ⟨found, hfound, hfiles⟩
  · simp only [Logged.each_eq_error_iff, collect_eq_error_iff, collect_eq_ok_iff] at hroots
    exact .inl hroots
  · rw [Logged.each_eq_ok_iff] at hfound
    have hwalks := hfound.imp fun _ _ => collect_eq_ok_iff.mp
    obtain ⟨candidate, hmem, hfail⟩ := Schedule.exists_of_each_eq_error hfiles
    exact .inr ⟨exists_forall₂_iff.mp ⟨found, hwalks⟩, candidate,
      (mem_flatten_iff_foundUnder hwalks).mp hmem, recordsOf_eq_error_iff.mp hfail⟩

/-- **There is a catalog exactly when every root can be searched and every file found there can be
listed.** -/
theorem exists_build_iff {roots : List Path} :
    (∃ listing, (build schedule fs parser roots).result = .ok listing)
      ↔ (∀ root ∈ roots, Searchable fs root)
        ∧ ∀ candidate, FoundUnder fs roots candidate → Listable fs parser candidate := by
  simp only [build_eq_ok_iff, Searchable, ← exists_forall₂_iff]
  constructor
  · rintro ⟨_, _, ⟨found, held, hwalks, hheld, -⟩, -⟩
    refine ⟨⟨found, hwalks⟩, fun candidate hcandidate => ?_⟩
    have hmem := (mem_flatten_iff_foundUnder hwalks).mpr hcandidate
    exact listable_iff_holds.mpr (exists_forall₂_iff.mp ⟨held, hheld⟩ candidate hmem)
  · rintro ⟨⟨found, hwalks⟩, hfiles⟩
    have hheld : ∃ held, List.Forall₂ (Holds fs parser) found.flatten held :=
      exists_forall₂_iff.mpr fun candidate hmem =>
        listable_iff_holds.mp (hfiles candidate ((mem_flatten_iff_foundUnder hwalks).mp hmem))
    obtain ⟨held, hheld⟩ := hheld
    exact ⟨_, _, ⟨found, held, hwalks, hheld, rfl⟩, rfl⟩

/-- The first root that cannot be searched decides. -/
theorem build_eq_error_of_root {before after : List Path} {root : Path} {e : Failure}
    (hbefore : ∀ earlier ∈ before, Searchable fs earlier)
    (hroot : (testFiles fs root).result = .error e) :
    (build schedule fs parser (before ++ root :: after)).result = .error e := by
  rw [build, Logged.result_bind_eq_error_iff, Logged.each_eq_error_iff]
  refine .inl ⟨before, root, after, rfl, fun earlier hearlier => ?_, collect_eq_error_iff.mpr hroot⟩
  obtain ⟨found, hfound⟩ := hbefore earlier hearlier
  exact ⟨found, collect_eq_ok_iff.mpr hfound⟩

variable (schedule) in
/-- If all roots can be searched, a file that cannot be listed makes some file decide. -/
theorem build_eq_error_of_file {roots : List Path} (hroots : ∀ root ∈ roots, Searchable fs root)
    {candidate : Candidate} (hfound : FoundUnder fs roots candidate)
    (hfile : ¬ Listable fs parser candidate) :
    ∃ candidate e, FoundUnder fs roots candidate ∧ FailsWith fs parser candidate e
      ∧ (build schedule fs parser roots).result = .error e := by
  cases hresult : (build schedule fs parser roots).result with
  | ok listing => exact absurd ((exists_build_iff.mp ⟨listing, hresult⟩).2 candidate hfound) hfile
  | error e =>
    rcases build_eq_error hresult with
      ⟨before, root, after, rfl, -, hroot⟩ | ⟨-, other, hother, hfail⟩
    · obtain ⟨found, hok⟩ := hroots root (by simp)
      cases hok.symm.trans hroot
    · exact ⟨other, e, hother, hfail, rfl⟩

theorem testFiles_congr {fs' : FileSystem} (h : fs.Alike fs') (root : Path) :
    testFiles fs root = testFiles fs' root := by
  rw [testFiles, testFiles, h.visits_eq]

/-- **The outcome of building a catalog**, for every schedule.  It is a listing exactly when every
root can be searched and every test file found there can be read, parsed and located.  The first
root that cannot be searched decides, whatever the files hold and whatever parses them.  If all
roots can be searched, one of the files that cannot be listed decides, by its first obstacle; and if
there is only one, it does. -/
theorem build_outcome (schedule : Schedule) (fs : FileSystem) (parser : Parser)
    (roots : List Path) :
    ((∃ listing, (build schedule fs parser roots).result = .ok listing)
      ↔ (∀ root ∈ roots, Searchable fs root)
        ∧ ∀ candidate, FoundUnder fs roots candidate → Listable fs parser candidate)
    ∧ (∀ before root after e, roots = before ++ root :: after →
        (∀ earlier ∈ before, Searchable fs earlier) → (testFiles fs root).result = .error e →
        ∀ fs' parser', fs.Alike fs' → (build schedule fs' parser' roots).result = .error e)
    ∧ ((∀ root ∈ roots, Searchable fs root) →
        (∃ candidate, FoundUnder fs roots candidate ∧ ¬ Listable fs parser candidate) →
        ∃ candidate e, FoundUnder fs roots candidate ∧ FailsWith fs parser candidate e
          ∧ (build schedule fs parser roots).result = .error e)
    ∧ ((∀ root ∈ roots, Searchable fs root) →
        ∀ candidate e, FoundUnder fs roots candidate → FailsWith fs parser candidate e →
        (∀ other, FoundUnder fs roots other → other ≠ candidate → Listable fs parser other) →
        (build schedule fs parser roots).result = .error e) := by
  refine ⟨exists_build_iff, ?_, ?_, ?_⟩
  · rintro before root after e rfl hbefore hroot fs' parser' halike
    refine build_eq_error_of_root (fun earlier hearlier => ?_) ?_
    · rw [Searchable, ← testFiles_congr halike]
      exact hbefore earlier hearlier
    · rwa [← testFiles_congr halike]
  · rintro hroots ⟨candidate, hfound, hfile⟩
    exact build_eq_error_of_file schedule hroots hfound hfile
  · intro hroots candidate e hfound hfail hothers
    obtain ⟨other, e', hother, hfail', hresult⟩ :=
      build_eq_error_of_file schedule hroots hfound hfail.not_listable
    obtain rfl : other = candidate := by
      by_contra hne
      exact hfail'.not_listable (hothers other hother hne)
    rw [hresult, hfail'.eq hfail]

/-! ## A file that is no text, and a root that is not there -/

/-- A directory with a file that is no text and one that is empty. -/
def spoiled : FileSystem :=
  ⟨.folder [("w", .folder
    [("a", .folder [("x_test.go", .file ⟨#[0xff]⟩), ("y_test.go", .file .empty)])])], some ["w"]⟩

theorem testFiles_spoiled : (testFiles spoiled ⟨"a"⟩).result
    = .ok [⟨⟨"a/x_test.go"⟩, ⟨"a"⟩⟩, ⟨⟨"a/y_test.go"⟩, ⟨"a"⟩⟩] := by
  have hitem : spoiled.item false ⟨"a"⟩
      = .ok (.folder [("x_test.go", .file ⟨#[0xff]⟩), ("y_test.go", .file .empty)]) := rfl
  have hvisits : spoiled.visits ⟨"a"⟩ = [.file ⟨"a/x_test.go"⟩, .file ⟨"a/y_test.go"⟩] := by
    rw [visits_of_pairwise hitem (by decide +kernel) (by decide +kernel)]
    decide +kernel
  rw [testFiles, hvisits]
  decide +kernel

theorem foundUnder_spoiled {candidate : Candidate} :
    FoundUnder spoiled [⟨"a"⟩] candidate
      ↔ candidate = ⟨⟨"a/x_test.go"⟩, ⟨"a"⟩⟩ ∨ candidate = ⟨⟨"a/y_test.go"⟩, ⟨"a"⟩⟩ := by
  simp [FoundUnder, testFiles_spoiled]

/-- The one file cannot be read… -/
theorem failsWith_spoiled : FailsWith spoiled oneTest ⟨⟨"a/x_test.go"⟩, ⟨"a"⟩⟩
    (.unreadable ⟨"a/x_test.go"⟩ .invalidText) := .unread rfl

/-- …and the other can be listed. -/
theorem listable_spoiled : Listable spoiled oneTest ⟨⟨"a/y_test.go"⟩, ⟨"a"⟩⟩ :=
  ⟨"", _, ⟨"y_test.go", "a/y_test.go", "/w/a/y_test.go"⟩, rfl, rfl, rfl⟩

theorem testFiles_gone : (testFiles spoiled ⟨"b"⟩).result
    = .error (.unsearchable ⟨"b"⟩ ⟨"b"⟩ .notFound) := by decide +kernel

/-- The root that is not there decides before the file under an earlier root; where there is no such
root the file does, and not the other file, which comes first in the schedule. -/
theorem spoiled_outcome :
    (∀ fs' parser', spoiled.Alike fs' → (build .backwards fs' parser' [⟨"a"⟩, ⟨"b"⟩]).result
      = .error (.unsearchable ⟨"b"⟩ ⟨"b"⟩ .notFound))
    ∧ (build .backwards spoiled oneTest [⟨"a"⟩]).result
      = .error (.unreadable ⟨"a/x_test.go"⟩ .invalidText)
    ∧ (¬ ∃ listing, (build .backwards spoiled oneTest [⟨"a"⟩]).result = .ok listing)
    ∧ ∃ candidate e, FoundUnder spoiled [⟨"a"⟩] candidate ∧ FailsWith spoiled oneTest candidate e
      ∧ (build .backwards spoiled oneTest [⟨"a"⟩]).result = .error e := by
  have hsearched : ∀ root ∈ [(⟨"a"⟩ : Path)], Searchable spoiled root :=
    List.forall_mem_singleton.mpr ⟨_, testFiles_spoiled⟩
  have hfound := foundUnder_spoiled.mpr (.inl rfl)
  have hother : ∀ other, FoundUnder spoiled [⟨"a"⟩] other →
      other ≠ ⟨⟨"a/x_test.go"⟩, ⟨"a"⟩⟩ → Listable spoiled oneTest other := by
    rintro other hother hne
    obtain rfl := (foundUnder_spoiled.mp hother).resolve_left hne
    exact listable_spoiled
  obtain ⟨hlisted, -, hsome, honly⟩ := build_outcome .backwards spoiled oneTest [⟨"a"⟩]
  obtain ⟨-, hroot, -, -⟩ := build_outcome .backwards spoiled oneTest [⟨"a"⟩, ⟨"b"⟩]
  refine ⟨hroot [⟨"a"⟩] ⟨"b"⟩ [] _ rfl hsearched testFiles_gone,
    honly hsearched _ _ hfound failsWith_spoiled hother, fun hlisting => ?_,
    hsome hsearched ⟨_, hfound, failsWith_spoiled.not_listable⟩⟩
  exact failsWith_spoiled.not_listable ((hlisted.mp hlisting).2 _ hfound)

end Catalog

end TestCatalog
