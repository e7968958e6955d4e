import TestCatalog.Proofs.Catalog.Encounter
import TestCatalog.Proofs.Catalog.Located
import TestCatalog.Proofs.Go.Checked
import TestCatalog.Proofs.Listing.Standing

/-!
# Proofs/Catalog/Distinct — a record is known by its file and its position

Under one root no file is met twice (`visits_differ`), files that differ have absolute paths that
differ (`Below.eq_of_absolute`), and the entries of one file stand at offsets of their own.  So no
two records of a catalog stand at the same position of the same file.  A record holds only what is
shown of the path, and that tells the files apart unless two of them are shown alike.

* `build_distinct` — this, for every parser whose trees outline the texts.
* `alike_not_distinct` — two names that are no texts are shown alike, and so are the records.
-/

namespace TestCatalog

/-! ## Names below a root -/

namespace Path

/-- Cleaning a path leaves the names at its end as they are. -/
theorem route_clean_names {p : Path} {rooted : Bool} {steps : List Step} {names : List Raw}
    (h : p.route = ⟨rooted, steps ++ names.map .name⟩) :
    p.clean.route = ⟨rooted, (Route.clean ⟨rooted, steps⟩).steps ++ names.map .name⟩ := by
  rw [route_clean, h, Route.clean_append_names]

/-- **The absolute path of what is below a root** is that of the root and the names, whatever the
root is taken from. -/
theorem exists_route_absolute (current : Option Path) (root : Path) :
    ∃ rooted steps, ∀ names : List Raw, (∀ name ∈ names, IsName name) → ∀ path : Path,
      (names.foldl child root).absolute current = .ok path →
        path.route = ⟨rooted, steps ++ names.map .name⟩ := by
  cases hrooted : root.isRooted with
  | true =>
    refine ⟨true, (Route.clean ⟨true, root.route.steps⟩).steps, fun names hnames path h => ?_⟩
    have hroute := route_foldl_child root hnames
    rw [absolute.eq_def, isRooted_of_route hroute, if_pos hrooted] at h
    rw [hrooted] at hroute
    rw [← Except.ok.inj h, route_clean_names hroute]
  | false =>
    cases current with
    | none =>
      refine ⟨true, [], fun names hnames path h => ?_⟩
      rw [absolute, isRooted_of_route (route_foldl_child root hnames), hrooted] at h
      cases h
    | some directory =>
      refine ⟨directory.isRooted,
        (Route.clean ⟨directory.isRooted, directory.route.steps ++ root.route.steps⟩).steps,
        fun names hnames path h => ?_⟩
      have hroute := route_foldl_child root hnames
      have hrelative : (names.foldl child root).isRooted = false :=
        (isRooted_of_route hroute).trans hrooted
      have hjoin := route_join directory hrelative
      rw [hroute, ← List.append_assoc] at hjoin
      rw [absolute, hrelative] at h
      rw [← Except.ok.inj h, route_clean_names hjoin]

end Path

/-! ## Visits -/

namespace Files

open TestCatalog.Path

/-- **Files below a root that have the same absolute path are the same.** -/
theorem Below.eq_of_absolute {current : Option Path} {root path path' absolute : Path}
    (hbelow : Below root path) (hbelow' : Below root path')
    (h : path.absolute current = .ok absolute) (h' : path'.absolute current = .ok absolute) :
    path = path' := by
  obtain ⟨names, rfl, hnames⟩ := hbelow
  obtain ⟨names', rfl, hnames'⟩ := hbelow'
  obtain ⟨rooted, steps, hroute⟩ := exists_route_absolute current root
  have hsame := (hroute names hnames absolute h).symm.trans (hroute names' hnames' absolute h')
  have hnamesEq := map_name_injective (List.append_cancel_left (congrArg Route.steps hsame))
  rw [hnamesEq]

/-- Two visits are not of the same file. -/
def Visit.Differ (v w : Visit) : Prop := ∀ path, v = .file path → w ≠ .file path

/-- What is met below different names differs. -/
theorem differ_of_names_ne {top : Path} {name name' : Raw} (hname : IsName name)
    (hname' : IsName name') (hne : name ≠ name') {item item' : Item} (h : item.WellFormed)
    (h' : item'.WellFormed) {v w : Visit} (hv : v ∈ item.visits (top.child name))
    (hw : w ∈ item'.visits (top.child name')) : v.Differ w := by
  rintro path rfl rfl
  obtain ⟨names, hpath, hnames⟩ := h.below_of_mem_visits hv
  obtain ⟨names', hpath', hnames'⟩ := h'.below_of_mem_visits hw
  have hsame : (name :: names).foldl child top = (name' :: names').foldl child top :=
    hpath.symm.trans hpath'
  have heq := names_eq_of_foldl_child (List.forall_mem_cons.mpr ⟨hname, hnames⟩)
    (List.forall_mem_cons.mpr ⟨hname', hnames'⟩) hsame
  exact hne (List.cons.inj heq).1

/-- **In an item no file is met twice.** -/
theorem Item.WellFormed.visits_differ {item : Item} (h : item.WellFormed) (top : Path) :
    (item.visits top).Pairwise Visit.Differ := by
  induction h generalizing top with
  | file content =>
    rw [Item.visits]
    exact List.pairwise_singleton _ _
  | special reading =>
    rw [Item.visits]
    exact .nil
  | link target =>
    rw [Item.visits]
    exact .nil
  | @folder entries hnames hdistinct hbelow ih =>
    rw [Item.visits]
    split_ifs
    · exact List.pairwise_singleton _ _
    · rw [visitsOfEntries_eq_map]
      refine pairwise_inNameOrder ?_ ?_ ?_
      · rw [List.map_map]
        exact hdistinct
      · exact List.forall_mem_map.mpr fun entry hentry => ih entry hentry _
      · refine List.forall_mem_map.mpr fun entry hentry => ?_
        refine List.forall_mem_map.mpr fun other hother hlt v hv w hw => ?_
        have hne : entry.1 ≠ other.1 := fun heq => List.lt_irrefl _ (heq ▸ hlt)
        exact differ_of_names_ne (hnames entry hentry) (hnames other hother) hne
          (hbelow entry hentry) (hbelow other hother) hv hw

/-- **Under a root no file is met twice.** -/
theorem visits_differ {fs : FileSystem} (h : fs.root.WellFormed) (root : Path) :
    (fs.visits root).Pairwise Visit.Differ := by
  rw [FileSystem.visits]
  split
  · exact List.pairwise_singleton _ _
  · split
    · exact List.pairwise_singleton _ _
    · next entries hitem => exact (wellFormed_of_item h hitem).visits_differ root
    · exact .nil
  · next item _ hitem => exact (wellFormed_of_item h hitem).visits_differ root

end Files

namespace Catalog

open Files Listing Log Report Source TestCatalog.Path

/-- The candidates among visits that differ have paths that differ. -/
theorem paths_ne_of_testFilesIn {root : Path} {visits : List Visit} {found : List Candidate}
    (hdiffer : visits.Pairwise Visit.Differ)
    (h : (testFilesIn root visits).result = .ok found) :
    found.Pairwise fun a b => a.path ≠ b.path := by
  induction visits generalizing found with
  | nil =>
    obtain rfl := Except.ok.inj h
    exact .nil
  | cons visit rest ih =>
    obtain ⟨hhead, hrest⟩ := List.pairwise_cons.mp hdiffer
    cases visit with
    | refused path fault => cases h
    | file path =>
      obtain ⟨more, hmore, rfl⟩ := testFilesIn_file_eq_ok_iff.mp h
      split
      · refine .cons (fun candidate hmem heq => ?_) (ih hrest hmore)
        obtain ⟨-, -, hvisit⟩ := mem_of_testFilesIn hmore hmem
        exact hhead _ hvisit path rfl (congrArg Visit.file heq.symm)
      · exact ih hrest hmore

/-! ## Records of a file -/

/-- A parser whose trees outline the texts. -/
def Orderly (parser : Parser) : Prop :=
  ∀ path text tree, (parser path text).result = .ok tree → Go.Outlines text tree

theorem orderly_goParser : Orderly goParser := by
  intro path text tree h
  rw [goParser] at h
  split at h
  · next tree' hread =>
    obtain rfl : tree' = tree := by simpa using h
    exact Go.outlines_of_read hread
  · cases h

/-- A tree that is read under a root. -/
def Scanned (fs : FileSystem) (parser : Parser) (root : Path) (tree : Tree) : Prop :=
  ∃ found candidate text, (testFiles fs root).result = .ok found ∧ candidate ∈ found
    ∧ fs.read candidate.path = .ok text ∧ (parser candidate.path text).result = .ok tree

/-- What is located has an absolute path, and that is what is shown. -/
theorem exists_absolute_of_resolve {current : Option Path} {path root : Path} {location : Location}
    (h : Location.resolve current path root = .ok location) :
    ∃ absolute, path.absolute current = .ok absolute
      ∧ location.absolutePath = absolute.shown := by
  rw [Location.resolve] at h
  cases habsolute : path.absolute current with
  | error failure => simp [habsolute, bind, Except.bind] at h
  | ok absolute =>
    cases hrelative : Path.relative (directoryOf root) path with
    | error failure => simp [habsolute, hrelative, bind, Except.bind] at h
    | ok relative =>
      simp only [habsolute, hrelative, bind, Except.bind, pure, Except.pure, Except.ok.injEq] at h
      exact ⟨absolute, rfl, by rw [← h]⟩

section

variable {fs : FileSystem} {parser : Parser}

/-- The records of a file show its absolute path. -/
theorem Holds.exists_absolute {candidate : Candidate} {records : List Record}
    (h : Holds fs parser candidate records) :
    ∃ absolute, candidate.path.absolute fs.currentPath = .ok absolute
      ∧ ∀ record ∈ records, record.absolutePath = absolute.shown := by
  obtain ⟨text, tree, location, -, -, hlocation, rfl⟩ := h
  obtain ⟨absolute, habsolute, hshown⟩ := exists_absolute_of_resolve hlocation
  refine ⟨absolute, habsolute, fun record hrecord => ?_⟩
  obtain ⟨f, -, hmem⟩ := List.mem_flatMap.mp hrecord
  obtain ⟨entry, -, rfl⟩ := List.mem_map.mp hmem
  exact hshown

/-- **The records of a file have positions of their own.** -/
theorem Holds.positions_nodup (hparser : Orderly parser) {candidate : Candidate}
    {records : List Record}
    (hone : ∀ text tree, fs.read candidate.path = .ok text →
      (parser candidate.path text).result = .ok tree → ∀ f ∈ testFunctions tree, OneTable f.body)
    (h : Holds fs parser candidate records) : (records.map Record.pos).Nodup := by
  obtain ⟨text, tree, location, htext, htree, -, rfl⟩ := h
  have hoffsets := entriesOf_offsets_nodup (Go.outline_lies (hparser _ _ _ htree))
    (hone text tree htext htree)
  have hpositions : ((testFunctions tree).flatMap fun f => (entries f).map fun entry =>
      Record.ofEntry entry location (Lines.ofText text)).map Record.pos
        = ((entriesOf tree).map Entry.offset).map Nat.succ := by
    rw [entriesOf, List.map_map, List.map_flatMap, List.map_flatMap]
    simp only [List.map_map]
    rfl
  rw [hpositions]
  exact hoffsets.map Nat.succ_injective

/-- **The site of a record**: the absolute path of the file that holds it, and its position there.
The record has what is shown of that path. -/
def Sited (fs : FileSystem) (parser : Parser) (found : List Candidate) (record : Record)
    (site : Path × Nat) : Prop :=
  ∃ candidate ∈ found, ∃ records, Holds fs parser candidate records ∧ record ∈ records
    ∧ candidate.path.absolute fs.currentPath = .ok site.1
    ∧ record.absolutePath = site.1.shown ∧ record.pos = site.2

theorem Sited.mono {found found' : List Candidate} (hsub : found ⊆ found') {record : Record}
    {site : Path × Nat} (h : Sited fs parser found record site) :
    Sited fs parser found' record site := by
  obtain ⟨candidate, hmem, h⟩ := h
  exact ⟨candidate, hsub hmem, h⟩

/-- The sites of the records of one file. -/
theorem Holds.sited {candidate : Candidate} {records : List Record} {absolute : Path}
    (h : Holds fs parser candidate records)
    (habsolute : candidate.path.absolute fs.currentPath = .ok absolute)
    (hshown : ∀ record ∈ records, record.absolutePath = absolute.shown) :
    List.Forall₂ (Sited fs parser [candidate]) records
      (records.map fun record => (absolute, record.pos)) := by
  refine List.forall₂_map_right_iff.mpr (List.forall₂_same.mpr fun record hrecord => ?_)
  exact ⟨candidate, List.mem_singleton_self _, records, h, hrecord, habsolute,
    hshown record hrecord, rfl⟩

/-- A site is in a file that was found. -/
theorem exists_candidate {found : List Candidate} {records : List Record}
    {sites : List (Path × Nat)} (h : List.Forall₂ (Sited fs parser found) records sites)
    {site : Path × Nat} (hsite : site ∈ sites) :
    ∃ candidate ∈ found, candidate.path.absolute fs.currentPath = .ok site.1 := by
  induction h with
  | nil => cases hsite
  | cons hsited _ ih =>
    rcases List.mem_cons.mp hsite with rfl | hsite
    · obtain ⟨candidate, hmem, _, -, -, habsolute, -⟩ := hsited
      exact ⟨candidate, hmem, habsolute⟩
    · exact ih hsite

/-- **Records of files that differ below a root have sites of their own**, if the records of each
file have positions of their own. -/
theorem exists_sites (root : Path) {candidates : List Candidate} {held : List (List Record)}
    (h : List.Forall₂ (Holds fs parser) candidates held)
    (hpaths : candidates.Pairwise fun a b => a.path ≠ b.path)
    (hbelow : ∀ candidate ∈ candidates, Below root candidate.path)
    (hpositions : ∀ candidate ∈ candidates, ∀ records, Holds fs parser candidate records →
      (records.map Record.pos).Nodup) :
    ∃ sites, List.Forall₂ (Sited fs parser candidates) held.flatten sites ∧ sites.Nodup := by
  induction h with
  | nil => exact ⟨[], .nil, .nil⟩
  | @cons candidate records candidates held hheld hrest ih =>
    obtain ⟨hne, hpaths⟩ := List.pairwise_cons.mp hpaths
    obtain ⟨hself, hbelow⟩ := List.forall_mem_cons.mp hbelow
    obtain ⟨hown, hpositions⟩ := List.forall_mem_cons.mp hpositions
    obtain ⟨sites, hsites, hnodup⟩ := ih hpaths hbelow hpositions
    obtain ⟨absolute, habsolute, hshown⟩ := hheld.exists_absolute
    refine ⟨(records.map fun record => (absolute, record.pos)) ++ sites, ?_,
      List.nodup_append.mpr ⟨?_, hnodup, ?_⟩⟩
    · refine List.rel_append ((hheld.sited habsolute hshown).imp fun _ _ => ?_)
        (hsites.imp fun _ _ => ?_)
      · exact Sited.mono (List.cons_subset_cons _ (List.nil_subset _))
      · exact Sited.mono (List.subset_cons_self _ _)
    · refine List.Nodup.of_map Prod.snd ?_
      rw [List.map_map]
      exact hown records hheld
    · -- A site of a later file with this absolute path would make the two files one.
      rintro a ha b hb rfl
      obtain ⟨record, -, rfl⟩ := List.mem_map.mp ha
      obtain ⟨other, hother, habsolute'⟩ := exists_candidate hsites hb
      exact hne other hother (hself.eq_of_absolute (hbelow other hother) habsolute habsolute')

/-! ## Files that are shown apart -/

/-- **The files that are found are shown apart**: absolute paths that differ are shown by texts that
differ. -/
def ShownApart (fs : FileSystem) (found : List Candidate) : Prop :=
  ∀ a ∈ found, ∀ b ∈ found, ∀ p q, a.path.absolute fs.currentPath = .ok p →
    b.path.absolute fs.currentPath = .ok q → p.shown = q.shown → p = q

/-- Paths that are texts are shown apart. -/
theorem shownApart_of_texts {found : List Candidate}
    (h : ∀ candidate ∈ found, ∀ p, candidate.path.absolute fs.currentPath = .ok p →
      ∃ text : String, p = ⟨text⟩) : ShownApart fs found := by
  intro a ha b hb p q hp hq hshown
  obtain ⟨s, rfl⟩ := h a ha p hp
  obtain ⟨t, rfl⟩ := h b hb q hq
  rw [Path.shown, Path.shown, Raw.shown_ofText, Raw.shown_ofText] at hshown
  rw [hshown]

theorem map_shown_of_sited {found : List Candidate} {listing : List Record}
    {sites : List (Path × Nat)} (h : List.Forall₂ (Sited fs parser found) listing sites) :
    listing.map (fun record => (record.absolutePath, record.pos))
      = sites.map fun site => (site.1.shown, site.2) := by
  induction h with
  | nil => rfl
  | cons hsited _ ih =>
    obtain ⟨_, _, _, _, _, _, hpath, hpos⟩ := hsited
    rw [List.map_cons, List.map_cons, ih, hpath, hpos]

/-- **Sites of files that are shown apart are shown apart.** -/
theorem nodup_of_sited {found : List Candidate} {listing : List Record}
    {sites : List (Path × Nat)} (h : List.Forall₂ (Sited fs parser found) listing sites)
    (hnodup : sites.Nodup) (hapart : ShownApart fs found) :
    (listing.map fun record => (record.absolutePath, record.pos)).Nodup := by
  rw [map_shown_of_sited h]
  refine List.Nodup.map_on (fun s hs t ht hshown => ?_) hnodup
  obtain ⟨hpath, hpos⟩ := Prod.mk.inj hshown
  obtain ⟨a, ha, hp⟩ := exists_candidate h hs
  obtain ⟨b, hb, hq⟩ := exists_candidate h ht
  exact Prod.ext (hapart a ha b hb _ _ hp hq hpath) hpos

end

/-! ## The catalog -/

/-- **No two records of a catalog of one root stand at the same position of the same file**, if no
test function that is read has a second loop over a table.  So no two have the same absolute path
and the same position if the files that are found are shown apart, as they are if their absolute
paths are texts. -/
theorem build_distinct {schedule : Schedule} {fs : FileSystem} {parser : Parser} {root : Path}
    {listing : List Record} (hfs : fs.root.WellFormed)
    (hparser : parser = goParser ∨ Orderly parser)
    (h : (build schedule fs parser [root]).result = .ok listing)
    (hone : ∀ tree, Scanned fs parser root tree → ∀ f ∈ testFunctions tree, OneTable f.body) :
    ∃ found sites, (testFiles fs root).result = .ok found
      ∧ List.Forall₂ (Sited fs parser found) listing sites ∧ sites.Nodup
      ∧ (ShownApart fs found →
          (listing.map fun record => (record.absolutePath, record.pos)).Nodup)
      ∧ ((∀ candidate ∈ found, ∀ p, candidate.path.absolute fs.currentPath = .ok p →
            ∃ text : String, p = ⟨text⟩) →
          (listing.map fun record => (record.absolutePath, record.pos)).Nodup) := by
  have horderly : Orderly parser := hparser.elim (fun heq => heq ▸ orderly_goParser) id
  obtain ⟨met, ⟨found, held, hfound, hheld, rfl⟩, rfl⟩ := build_eq_ok_iff.mp h
  obtain ⟨candidates, hcandidates, rfl⟩ : ∃ candidates,
      (testFiles fs root).result = .ok candidates ∧ found = [candidates] := by
    simpa [List.forall₂_cons_left_iff] using hfound
  rw [List.flatten_singleton] at hheld
  obtain ⟨sites, hsites, hnodup⟩ := exists_sites root hheld
    (paths_ne_of_testFilesIn (visits_differ hfs root) hcandidates)
    (fun candidate hmem => below_of_mem_visits hfs (mem_of_testFilesIn hcandidates hmem).2.2)
    (fun candidate hmem records hholds => hholds.positions_nodup horderly
      fun text tree htext htree =>
        hone tree ⟨candidates, candidate, text, hcandidates, hmem, htext, htree⟩)
  -- The sites follow the records into the order of the names.
  obtain ⟨sites', hsites', hperm⟩ := List.perm_comp_forall₂ (byName_perm held.flatten) hsites
  have hnodup' : sites'.Nodup := hperm.nodup_iff.mpr hnodup
  exact ⟨candidates, sites', hcandidates, hsites', hnodup', nodup_of_sited hsites' hnodup',
    fun htexts => nodup_of_sited hsites' hnodup' (shownApart_of_texts htexts)⟩

/-! ## Two files of the same text -/

/-- A directory with two files of the same text. -/
def twinFiles (a b : Raw) (text : String) : FileSystem :=
  ⟨.folder [("w", .folder [(a, .file text.toUTF8), (b, .file text.toUTF8)])], some ["w"]⟩

/-- A file in the current directory. -/
def here (name : Raw) : Path := (⟨"."⟩ : Path).child name

/-- **Names of two test files**, in their order, and what is shown of them. -/
structure Twins (a b : Raw) (aShown bShown : String) : Prop where
  isName : IsName a
  isName' : IsName b
  ne : a ≠ b
  byteLE : a.byteLE b = true
  found : (testFilesIn ⟨"."⟩ [.file (here a), .file (here b)]).result
    = .ok [⟨here a, ⟨"."⟩⟩, ⟨here b, ⟨"."⟩⟩]
  item : ∀ text, (twinFiles a b text).item true (here a) = .ok (.file text.toUTF8)
  item' : ∀ text, (twinFiles a b text).item true (here b) = .ok (.file text.toUTF8)
  located : Location.resolve (some ⟨"/w"⟩) (here a) ⟨"."⟩ = .ok ⟨aShown, aShown, "/w/" ++ aShown⟩
  located' : Location.resolve (some ⟨"/w"⟩) (here b) ⟨"."⟩ = .ok ⟨bShown, bShown, "/w/" ++ bShown⟩

/-- The records of a text in a file of the directory. -/
def recordsIn (text : String) (tree : Tree) (name : String) : List Record :=
  (entriesOf tree).map fun entry =>
    Record.ofEntry entry ⟨name, name, "/w/" ++ name⟩ (Lines.ofText text)

theorem read_of_item {fs : FileSystem} {path : Path} {text : String}
    (h : fs.item true path = .ok (.file text.toUTF8)) : fs.read path = .ok text := by
  have htext : String.fromUTF8? text.toUTF8 = some text := dif_pos text.isValidUTF8
  simp only [FileSystem.read, h, bind, Except.bind, textOf, htext]

section

variable {a b : Raw} {aShown bShown : String} (h : Twins a b aShown bShown)

include h

theorem Twins.wellFormed (text : String) : (twinFiles a b text).root.WellFormed := by
  have hw : IsName "w" := by decide +kernel
  refine .folder (List.forall_mem_singleton.mpr hw) (List.nodup_singleton _)
    (List.forall_mem_singleton.mpr (.folder ?_ (by simpa using h.ne) ?_))
  · exact List.forall_mem_cons.mpr ⟨h.isName, List.forall_mem_singleton.mpr h.isName'⟩
  · exact List.forall_mem_cons.mpr ⟨.file _, List.forall_mem_singleton.mpr (.file _)⟩

/-- Both files are found. -/
theorem Twins.testFiles (text : String) :
    (testFiles (twinFiles a b text) ⟨"."⟩).result = .ok [⟨here a, ⟨"."⟩⟩, ⟨here b, ⟨"."⟩⟩] := by
  have hitem : (twinFiles a b text).item false ⟨"."⟩
      = .ok (.folder [(a, .file text.toUTF8), (b, .file text.toUTF8)]) := rfl
  have hvisits : (twinFiles a b text).visits ⟨"."⟩ = [.file (here a), .file (here b)] := by
    rw [visits_of_pairwise hitem (by decide +kernel) (by simpa using h.byteLE)]
    simp [Item.visits, here]
  rw [Catalog.testFiles, hvisits, h.found]

variable {text : String} {tree : Tree} {parser : Parser}

/-- What is met in the directory: the records of the text, twice. -/
theorem Twins.build (hparse : ∀ path, (parser path text).result = .ok tree) :
    (build .inOrder (twinFiles a b text) parser [⟨"."⟩]).result
      = .ok (byName (recordsIn text tree aShown ++ recordsIn text tree bShown)) := by
  refine build_eq_ok_iff.mpr ⟨_, ⟨[_], [recordsIn text tree aShown, recordsIn text tree bShown],
    .cons (h.testFiles text) .nil, ?_, by simp⟩, rfl⟩
  exact .cons ⟨text, tree, _, read_of_item (h.item text), hparse _, h.located, List.map_flatMap⟩
    (.cons ⟨text, tree, _, read_of_item (h.item' text), hparse _, h.located', List.map_flatMap⟩
      .nil)

/-- The text is all that is read there. -/
theorem Twins.eq_of_scanned (hparse : ∀ path, (parser path text).result = .ok tree) {other : Tree}
    (hscanned : Scanned (twinFiles a b text) parser ⟨"."⟩ other) : other = tree := by
  obtain ⟨found, candidate, text', hfound, hmem, hread, hother⟩ := hscanned
  obtain rfl := Except.ok.inj ((h.testFiles text).symm.trans hfound)
  have htext : (twinFiles a b text).read candidate.path = .ok text := by
    simp only [List.mem_cons, List.not_mem_nil, or_false] at hmem
    obtain rfl | rfl := hmem
    · exact read_of_item (h.item text)
    · exact read_of_item (h.item' text)
  obtain rfl := Except.ok.inj (htext.symm.trans hread)
  exact Except.ok.inj (hother.symm.trans (hparse _))

end

/-- A parser that knows the sample. -/
def sampleParser : Parser := fun path text =>
  if text = Go.sampleText then pure (Go.outline Go.sampleNodes) else .fail (.syntaxError path 1 1)

theorem sampleParser_sample (path : Path) :
    (sampleParser path Go.sampleText).result = .ok (Go.outline Go.sampleNodes) := by
  rw [sampleParser, if_pos rfl]
  rfl

theorem orderly_sampleParser : Orderly sampleParser := by
  intro path text tree h
  rw [sampleParser] at h
  split at h
  · next heq =>
    obtain rfl := Except.ok.inj h
    exact heq ▸ Go.sample_outlines
  · cases h

theorem oneTable_sample : ∀ f ∈ testFunctions (Go.outline Go.sampleNodes), OneTable f.body := by
  decide +kernel

theorem twins_plain : Twins "a_test.go" "b_test.go" "a_test.go" "b_test.go" where
  isName := by decide +kernel
  isName' := by decide +kernel
  ne := by decide +kernel
  byteLE := by decide +kernel
  found := by decide +kernel
  item _ := rfl
  item' _ := rfl
  located := by decide +kernel
  located' := by decide +kernel

theorem twinFiles_distinct :
    ∃ (found : List Candidate) (sites : List (Path × Nat)) (listing : List Record),
      (build .inOrder (twinFiles "a_test.go" "b_test.go" Go.sampleText) sampleParser
          [⟨"."⟩]).result = .ok listing
      ∧ (testFiles (twinFiles "a_test.go" "b_test.go" Go.sampleText) ⟨"."⟩).result = .ok found
      ∧ List.Forall₂ (Sited (twinFiles "a_test.go" "b_test.go" Go.sampleText) sampleParser found)
          listing sites
      ∧ sites.Nodup ∧ listing.length = 8
      ∧ (listing.map fun record => (record.absolutePath, record.pos)).Nodup := by
  have hbuild := twins_plain.build sampleParser_sample
  obtain ⟨found, sites, hfound, hsites, hnodup, -, htexts⟩ :=
    build_distinct (twins_plain.wellFormed _) (.inr orderly_sampleParser) hbuild
      fun tree hscanned => twins_plain.eq_of_scanned sampleParser_sample hscanned ▸ oneTable_sample
  refine ⟨found, sites, _, hbuild, hfound, hsites, hnodup, ?_, htexts ?_⟩
  · rw [(byName_perm _).length_eq]
    decide +kernel
  · obtain rfl := Except.ok.inj ((twins_plain.testFiles _).symm.trans hfound)
    have ha : (here "a_test.go").absolute (some ⟨"/w"⟩) = .ok ⟨"/w/a_test.go"⟩ := by decide +kernel
    have hb : (here "b_test.go").absolute (some ⟨"/w"⟩) = .ok ⟨"/w/b_test.go"⟩ := by decide +kernel
    refine List.forall_mem_cons.mpr ⟨fun p hp => ?_, List.forall_mem_singleton.mpr fun p hp => ?_⟩
    · exact ⟨_, (Except.ok.inj (ha.symm.trans hp)).symm⟩
    · exact ⟨_, (Except.ok.inj (hb.symm.trans hp)).symm⟩

/-! ## Files that are shown alike -/

/-- **A catalog repeats a pair**, though no test function that is read has a second loop over a
table. -/
def Repeats (fs : FileSystem) (parser : Parser) (root : Path) : Prop :=
  fs.root.WellFormed
    ∧ (∀ tree, Scanned fs parser root tree → ∀ f ∈ testFunctions tree, OneTable f.body)
    ∧ ∃ listing, (build .inOrder fs parser [root]).result = .ok listing
      ∧ ¬ (listing.map fun record => (record.absolutePath, record.pos)).Nodup

/-- Records that are listed twice are listed with the same pairs. -/
theorem not_nodup_byName_append {α : Type} (f : Record → α) {records : List Record}
    (h : records ≠ []) : ¬ ((byName (records ++ records)).map f).Nodup := by
  rw [((byName_perm (records ++ records)).map f).nodup_iff, List.map_append, List.nodup_append]
  rintro ⟨-, -, hdisjoint⟩
  obtain ⟨record, hrecord⟩ := List.exists_mem_of_ne_nil _ h
  have hmem : f record ∈ records.map f := List.mem_map_of_mem hrecord
  exact hdisjoint _ hmem _ hmem rfl

/-- **Files that are shown alike repeat every pair.** -/
theorem Twins.repeats {a b : Raw} {shown : String} (h : Twins a b shown shown) {text : String}
    {tree : Tree} {parser : Parser} (hparse : ∀ path, (parser path text).result = .ok tree)
    (hentries : entriesOf tree ≠ []) (hone : ∀ f ∈ testFunctions tree, OneTable f.body) :
    Repeats (twinFiles a b text) parser ⟨"."⟩ := by
  refine ⟨h.wellFormed text, fun other hscanned => h.eq_of_scanned hparse hscanned ▸ hone, _,
    h.build hparse, not_nodup_byName_append _ ?_⟩
  rwa [recordsIn, ne_eq, List.map_eq_nil_iff]

/-- The name of a test file, with a byte in it that need not be part of a text. -/
def strayName (b : UInt8) : Raw := "a" ++ ⟨[b]⟩ ++ "_test.go"

/-- Two bytes that start no character are shown alike. -/
theorem twins_alike :
    Twins (strayName 0xfe) (strayName 0xff) "a\ufffd_test.go" "a\ufffd_test.go" where
  isName := by decide +kernel
  isName' := by decide +kernel
  ne := by decide +kernel
  byteLE := by decide +kernel
  found := by decide +kernel
  item _ := rfl
  item' _ := rfl
  located := by decide +kernel
  located' := by decide +kernel

theorem goParser_of_read {text : String} {tree : Tree} (h : Go.read text = .ok tree) (path : Path) :
    (goParser path text).result = .ok tree := by
  simp [goParser, h]

/-- **Two files whose names are shown alike have records that the pair does not tell apart**: of a
sample, and of every text that the parser for Go reads and that has an entry. -/
theorem alike_not_distinct :
    (Orderly sampleParser
      ∧ Repeats (twinFiles (strayName 0xfe) (strayName 0xff) Go.sampleText) sampleParser ⟨"."⟩)
    ∧ ∀ text tree, Go.read text = .ok tree → entriesOf tree ≠ [] →
      (∀ f ∈ testFunctions tree, OneTable f.body) →
      Repeats (twinFiles (strayName 0xfe) (strayName 0xff) text) goParser ⟨"."⟩ := by
  refine ⟨⟨orderly_sampleParser, ?_⟩, fun text tree hread hentries hone => ?_⟩
  · exact twins_alike.repeats sampleParser_sample (by decide +kernel) oneTable_sample
  · exact twins_alike.repeats (goParser_of_read hread) hentries hone

end Catalog

end TestCatalog
