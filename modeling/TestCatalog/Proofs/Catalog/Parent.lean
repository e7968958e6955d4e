import TestCatalog.Proofs.Catalog.Search

/-!
# Proofs/Catalog/Parent — which directory a path is reported from

A file is reported by its path from the directory that holds the root.  That directory is read off
the text of the cleaned root, as what remains without its last part, while the directory that really
holds the root is one step up from its absolute path.  The two are the same if the cleaned root ends
in a name.  If it is empty, as for `.`, or ends in `..`, they differ, unless the root is `/`.  None
of this is lost in what is shown of the paths, where a name never takes the place of `..`.

* `clean_up_below` — where the reported path leads from the directory that holds the root.
* `relativePath_from_parent_iff` — it leads to the file exactly in these cases, and two spellings of
  one root report the same path exactly if they end in the same part.
* `dot_not_from_parent` — `.` is a spelling for which it does not.
-/

namespace TestCatalog

namespace Path

open Route (IsClean)

/-! ## One step up from an absolute path -/

/-- **A step up from a clean route from the root takes back its last step**, if there is one. -/
theorem Route.clean_append_up {steps : List Step} (h : IsClean ⟨true, steps⟩) :
    Route.clean ⟨true, steps ++ [.up]⟩ = ⟨true, steps.dropLast⟩ := by
  rw [clean_append, h.clean_eq]
  rcases List.eq_nil_or_concat' steps with rfl | ⟨init, last, rfl⟩
  · rfl
  · cases last with
    | up => exact absurd (List.mem_append_right _ List.mem_cons_self) (h.no_up rfl)
    | name text => simp [step]

theorem fileName?_eq_some_iff {p : Path} {name : Raw} :
    p.fileName? = some name ↔ p.route.steps.getLast? = some (.name name) := by
  refine ⟨getLast?_route_of_fileName?, fun h => ?_⟩
  rw [fileName?, h]

theorem eq_nil_of_length_le_dropLast {α : Type} {l : List α} (h : l.length ≤ l.dropLast.length) :
    l = [] := by
  rw [List.length_dropLast] at h
  exact List.length_eq_zero_iff.mp (by omega)

theorem isClean_absoluteRoute (directory p : Path) :
    IsClean ⟨true, (absoluteRoute directory p).steps⟩ :=
  Route.isClean_clean ⟨true, (if p.isRooted then [] else directory.route.steps) ++ p.route.steps⟩

/-- The absolute path of the root `/`, and of nothing else, has no steps. -/
theorem absolute_eq_slash_iff {directory : Path} (h : directory.isRooted = true) (p : Path) :
    p.absolute (some directory) = .ok ⟨"/"⟩ ↔ (absoluteRoute directory p).steps = [] := by
  rw [absolute_eq h, Except.ok.injEq]
  constructor
  · intro htext
    rw [← route_ofRoute (r := absoluteRoute directory p) plain_of_mem_absoluteRoute, htext]
    decide
  · intro hsteps
    have hroute : absoluteRoute directory p = ⟨true, []⟩ :=
      congrArg (Route.mk true) hsteps
    rw [hroute]
    rfl

/-- Paths that are the same from the root take the same steps. -/
theorem absoluteRoute_eq_of_absolute {directory p q : Path} (hdirectory : directory.isRooted = true)
    (h : p.absolute (some directory) = q.absolute (some directory)) :
    absoluteRoute directory p = absoluteRoute directory q := by
  rw [absolute_eq hdirectory, absolute_eq hdirectory] at h
  exact (ofRoute_inj plain_of_mem_absoluteRoute plain_of_mem_absoluteRoute).mp (Except.ok.inj h)

/-- What is below a root has the absolute path of the root, and the names. -/
theorem absoluteRoute_below {directory root : Path} {names : List Raw}
    (hnames : ∀ name ∈ names, IsName name) :
    absoluteRoute directory (names.foldl child root)
      = ⟨true, (absoluteRoute directory root).steps ++ names.map .name⟩ := by
  have hroute := route_foldl_child root hnames
  rw [absoluteRoute, isRooted_of_route hroute, hroute, ← List.append_assoc,
    Route.clean_append_names]
  rfl

/-- **The absolute path of a root whose cleaned form ends in a name ends in that name.** -/
theorem getLast?_absoluteRoute_of_clean {directory root : Path} {name : Raw}
    (h : root.clean.fileName? = some name) :
    (absoluteRoute directory root).steps.getLast? = some (.name name) := by
  rw [← absoluteRoute_congr (route_clean root)]
  exact getLast?_absoluteRoute h

/-- Cleaned roots end in the same part if they take the same last step. -/
theorem getLast?_parts_clean_iff {root root' : Path} :
    root'.clean.parts.getLast? = root.clean.parts.getLast?
      ↔ root'.route.clean.steps.getLast? = root.route.clean.steps.getLast? := by
  rw [parts_clean, parts_clean, List.getLast?_map, List.getLast?_map]
  refine ⟨fun h => ?_, congrArg _⟩
  have hread (p : Path) : (p.route.clean.steps.getLast?.map Step.text).bind Step.ofPart?
      = p.route.clean.steps.getLast? := by
    cases hlast : p.route.clean.steps.getLast? with
    | none => rfl
    | some last => exact Step.ofPart?_text (plain_of_mem_clean last (List.mem_of_getLast? hlast))
  rw [← hread root, ← hread root', h]

end Path

namespace Report

open TestCatalog.Path
open TestCatalog.Path.Route (IsClean)

variable {directory root : Path} {names : List Raw}

/-! ## From the directory that holds the root -/

/-- The path that is reported of what names lead to below a root. -/
theorem route_up_below (hnames : ∀ name ∈ names, IsName name) :
    (((ofRoute (absoluteRoute directory root)).join ⟨".."⟩).join
        (ofRoute ⟨false, stepsBelow root names⟩)).route
      = ⟨true, (absoluteRoute directory root).steps ++ [.up] ++ stepsBelow root names⟩ := by
  have htop := route_ofRoute (r := absoluteRoute directory root) plain_of_mem_absoluteRoute
  have hbelow := route_ofRoute (r := ⟨false, stepsBelow root names⟩)
    (plain_of_mem_stepsBelow hnames)
  have hup : (⟨".."⟩ : Path).route = ⟨false, [.up]⟩ := by decide
  have hparent := route_join (ofRoute (absoluteRoute directory root)) (isRooted_of_route hup)
  rw [isRooted_absolute, htop, hup] at hparent
  rw [route_join _ (isRooted_of_route hbelow), isRooted_of_route hparent, hparent, hbelow]

/-- **Where the reported path leads from the directory that holds the root**: to the names below
what the last part of the cleaned root says there. -/
theorem clean_up_below (hnames : ∀ name ∈ names, IsName name) :
    (((ofRoute (absoluteRoute directory root)).join ⟨".."⟩).join
        (ofRoute ⟨false, stepsBelow root names⟩)).route.clean
      = ⟨true, (Route.clean ⟨true, (absoluteRoute directory root).steps.dropLast
          ++ root.route.clean.steps.getLast?.toList⟩).steps ++ names.map .name⟩ := by
  have hparent := Route.clean_append_up (isClean_absoluteRoute directory root)
  rw [route_up_below hnames, ← Route.clean_clean_append, hparent, stepsBelow, ← List.append_assoc,
    Route.clean_append_names]

/-- **The last part of the cleaned root leads back to the root** from the directory that holds it if
it is a name, and otherwise only at `/`: then there are steps missing, whatever is shown of them. -/
theorem clean_dropLast_append_iff :
    (Route.clean ⟨true, (absoluteRoute directory root).steps.dropLast
        ++ root.route.clean.steps.getLast?.toList⟩).steps.map Step.rendered
        = (absoluteRoute directory root).steps.map Step.rendered
      ↔ (absoluteRoute directory root).steps = [] ∨ ∃ name, root.clean.fileName? = some name := by
  have hclean : IsClean ⟨true, (absoluteRoute directory root).steps.dropLast⟩ :=
    IsClean.of_sublist (isClean_absoluteRoute directory root) (List.dropLast_sublist _)
  have hlast : ∀ name, root.clean.fileName? = some name →
      (absoluteRoute directory root).steps.getLast? = some (.name name) :=
    fun _ => getLast?_absoluteRoute_of_clean
  simp only [fileName?_eq_some_iff, route_clean] at hlast ⊢
  generalize (absoluteRoute directory root).steps = steps at hclean hlast ⊢
  generalize root.route.clean.steps.getLast? = last at hlast ⊢
  have hshort {fewer : List Step} (hfewer : fewer.Sublist steps.dropLast)
      (h : fewer.map Step.rendered = steps.map Step.rendered) : steps = [] := by
    have hlength := congrArg List.length h
    rw [List.length_map, List.length_map] at hlength
    exact eq_nil_of_length_le_dropLast (hlength ▸ hfewer.length_le)
  rcases last with _ | _ | name
  · rw [Option.toList_none, List.append_nil, hclean.clean_eq]
    simp only [reduceCtorEq, exists_false, or_false]
    exact ⟨hshort (.refl _), fun h => by rw [h]; rfl⟩
  · rw [Option.toList_some, Route.clean_append_up hclean]
    simp only [Option.some.injEq, reduceCtorEq, exists_false, or_false]
    exact ⟨hshort (List.dropLast_sublist _), fun h => by rw [h]; rfl⟩
  · have hname := (hclean.append_names [name]).clean_eq
    rw [List.map_singleton] at hname
    rw [Option.toList_some, hname]
    refine iff_of_true ?_ (.inr ⟨name, rfl⟩)
    exact congrArg _ (List.dropLast_append_getLast? _ (hlast name rfl))

/-- **What is shown of the path leads to what is shown of the file from the directory that holds the
root** exactly if the cleaned root ends in a name, or the root is `/`. -/
theorem clean_join_below_iff (hdirectory : directory.isRooted = true)
    (hnames : ∀ name ∈ names, IsName name) :
    (((ofRoute (absoluteRoute directory root)).rendered.join ⟨".."⟩).join
        (ofRoute ⟨false, stepsBelow root names⟩).rendered).clean
      = (ofRoute (absoluteRoute directory (names.foldl child root))).rendered
      ↔ root.absolute (some directory) = .ok ⟨"/"⟩ ∨ ∃ name, root.clean.fileName? = some name := by
  have hup : (⟨".."⟩ : Path) = (⟨".."⟩ : Path).rendered :=
    congrArg Path.mk (Raw.rendered_ofText "..").symm
  rw [hup, ← join_rendered, ← join_rendered, clean_rendered, Path.clean,
    ofRoute_rendered_inj plain_of_mem_clean plain_of_mem_absoluteRoute, clean_up_below hnames,
    absoluteRoute_below hnames, Route.rendered, Route.rendered, Route.mk.injEq, List.map_append,
    List.map_append, List.append_cancel_right_eq, clean_dropLast_append_iff,
    absolute_eq_slash_iff hdirectory]
  exact and_iff_right rfl

/-- **What is shown of a file under two roots is the same** exactly if what is shown of the last
steps of the cleaned roots is. -/
theorem below_eq_below_iff {root' : Path} {names' : List Raw} (hnames : ∀ name ∈ names, IsName name)
    (hnames' : ∀ name ∈ names', IsName name)
    (hshown : (names'.map Step.name).map Step.rendered = (names.map Step.name).map Step.rendered) :
    (ofRoute ⟨false, stepsBelow root' names'⟩).rendered
        = (ofRoute ⟨false, stepsBelow root names⟩).rendered
      ↔ root'.route.clean.steps.getLast?.map Step.rendered
        = root.route.clean.steps.getLast?.map Step.rendered := by
  rw [ofRoute_rendered_inj (plain_of_mem_stepsBelow hnames') (plain_of_mem_stepsBelow hnames),
    Route.rendered, Route.rendered, Route.mk.injEq, stepsBelow, stepsBelow, List.map_append,
    List.map_append, hshown, List.append_cancel_right_eq]
  cases root'.route.clean.steps.getLast? <;> cases root.route.clean.steps.getLast? <;> simp

end Report

namespace Catalog

open Files Log Report TestCatalog.Path

/-! ## Files that are found -/

/-- **A file that is found under a root**, and its location as seen from a directory. -/
def LocatedUnder (fs : FileSystem) (directory root : Path) (location : Location) : Prop :=
  ∃ found, (testFiles fs root).result = .ok found ∧ ∃ candidate ∈ found,
    Location.resolve (some directory) candidate.path candidate.root = .ok location

/-- **A path that is reported from the directory that holds the root**: taken from one step above
what is shown of the absolute root, it leads to the file. -/
def FromParent (directory root : Path) (location : Location) : Prop :=
  ∃ top, root.absolute (some directory) = .ok top
    ∧ (((⟨top.shown⟩ : Path).join ⟨".."⟩).join ⟨location.relativePath⟩).clean
      = ⟨location.absolutePath⟩

/-- A root that, cleaned, ends in a name. -/
def EndsInName (root : Path) : Prop := ∃ name, root.clean.fileName? = some name

/-- What is reported of a file that is found: the names below the root, after its last part, and
after its absolute path. -/
theorem LocatedUnder.exists_names {fs : FileSystem} (hfs : fs.root.WellFormed)
    {directory root : Path} (hdirectory : directory.isRooted = true) {location : Location}
    (h : LocatedUnder fs directory root location) :
    ∃ names : List Raw, (∀ name ∈ names, IsName name)
      ∧ (⟨location.relativePath⟩ : Path) = (ofRoute ⟨false, stepsBelow root names⟩).rendered
      ∧ (⟨location.absolutePath⟩ : Path)
        = (ofRoute (absoluteRoute directory (names.foldl child root))).rendered := by
  obtain ⟨found, hfound, candidate, hmem, hresolve⟩ := h
  obtain ⟨hroot, htest, hvisit⟩ := mem_of_testFilesIn hfound hmem
  obtain ⟨names, hpath, hnames⟩ := below_of_mem_visits hfs hvisit
  obtain ⟨file, hfile⟩ := exists_fileName_of_isTestFile htest
  rw [hpath] at hfile
  rw [hpath, hroot, resolve_below hdirectory hnames hfile] at hresolve
  obtain rfl := Except.ok.inj hresolve
  exact ⟨names, hnames, rfl, rfl⟩

/-- Roots of one absolute path that end, cleaned, in names end in the same name. -/
theorem EndsInName.getLast?_eq {directory root root' : Path} (h : EndsInName root)
    (h' : EndsInName root') (hsame : absoluteRoute directory root' = absoluteRoute directory root) :
    root'.route.clean.steps.getLast? = root.route.clean.steps.getLast? := by
  obtain ⟨name, hname⟩ := h
  obtain ⟨name', hname'⟩ := h'
  have hlast : (absoluteRoute directory root').steps.getLast? = some (.name name') :=
    getLast?_absoluteRoute_of_clean hname'
  rw [hsame, getLast?_absoluteRoute_of_clean hname] at hlast
  rw [← route_clean, ← route_clean, fileName?_eq_some_iff.mp hname,
    fileName?_eq_some_iff.mp hname', hlast]

/-- **Roots of one absolute path whose last steps are shown alike have the same last step.**  If
both are names, each is the name of the root; and no name is shown as a step up. -/
theorem getLast?_rendered_iff {directory root root' : Path}
    (hsame : absoluteRoute directory root' = absoluteRoute directory root) :
    root'.route.clean.steps.getLast?.map Step.rendered
        = root.route.clean.steps.getLast?.map Step.rendered
      ↔ root'.route.clean.steps.getLast? = root.route.clean.steps.getLast? := by
  refine ⟨fun h => ?_, congrArg _⟩
  have hends {p : Path} {name : Raw} (hp : p.route.clean.steps.getLast? = some (.name name)) :
      EndsInName p := ⟨name, fileName?_eq_some_iff.mpr (by rw [route_clean, hp])⟩
  rcases hlast : root.route.clean.steps.getLast? with _ | _ | name
    <;> rcases hlast' : root'.route.clean.steps.getLast? with _ | _ | name'
    <;> rw [hlast, hlast'] at h
  case some.name.some.name =>
    rw [← hlast, ← hlast']
    exact (hends hlast).getLast?_eq (hends hlast') hsame
  all_goals first | rfl | cases h

/-- **Which directory a path is reported from.**  It is the one that holds the root exactly if the
cleaned root ends in a name, or the root is `/`.  Two spellings of one root report the same path for
a file exactly if they end, cleaned, in the same part; so they do if both end in a name. -/
theorem relativePath_from_parent_iff {fs : FileSystem} (hfs : fs.root.WellFormed)
    {directory root : Path} (hdirectory : directory.isRooted = true) {location : Location}
    (h : LocatedUnder fs directory root location) :
    (FromParent directory root location
      ↔ root.absolute (some directory) = .ok ⟨"/"⟩ ∨ EndsInName root)
    ∧ ∀ (root' : Path) (location' : Location), LocatedUnder fs directory root' location' →
      root'.absolute (some directory) = root.absolute (some directory) →
      location'.absolutePath = location.absolutePath →
      (location'.relativePath = location.relativePath
        ↔ root'.clean.parts.getLast? = root.clean.parts.getLast?)
      ∧ (EndsInName root → EndsInName root' →
          location'.relativePath = location.relativePath) := by
  obtain ⟨names, hnames, hrelative, habsolute⟩ := h.exists_names hfs hdirectory
  constructor
  · rw [FromParent, EndsInName, ← clean_join_below_iff hdirectory hnames, hrelative, habsolute,
      absolute_eq hdirectory]
    simp only [Except.ok.injEq, exists_eq_left', rendered_eq]
  · intro root' location' h' hroot hfile
    obtain ⟨names', hnames', hrelative', habsolute'⟩ := h'.exists_names hfs hdirectory
    have hsame := absoluteRoute_eq_of_absolute hdirectory hroot
    have hshown : (names'.map Step.name).map Step.rendered
        = (names.map Step.name).map Step.rendered := by
      have hpath := habsolute'.symm.trans
        ((congrArg (fun text : String => (⟨text⟩ : Path)) hfile).trans habsolute)
      rw [ofRoute_rendered_inj plain_of_mem_absoluteRoute plain_of_mem_absoluteRoute,
        absoluteRoute_below hnames, absoluteRoute_below hnames', hsame, Route.rendered,
        Route.rendered, Route.mk.injEq, List.map_append, List.map_append] at hpath
      exact List.append_cancel_left hpath.2
    have hiff : location'.relativePath = location.relativePath
        ↔ root'.route.clean.steps.getLast? = root.route.clean.steps.getLast? := by
      rw [← getLast?_rendered_iff hsame, ← below_eq_below_iff hnames hnames' hshown, ← hrelative,
        ← hrelative', Path.mk.injEq, Raw.ofText_inj]
    exact ⟨hiff.trans getLast?_parts_clean_iff.symm,
      fun hname hname' => hiff.mpr (hname.getLast?_eq hname' hsame)⟩

/-! ## The current directory, by its name and as `.` -/

theorem locatedUnder_oneFile {root : Path} {location : Location}
    (hitem : oneFile.item false root = .ok (.folder [("a_test.go", .file .empty)]))
    (hsize : root.text.size ≤ maxPath)
    (htest : isTestFile (root.child "a_test.go") = true)
    (hresolve : Location.resolve (some ⟨"/w/b"⟩) (root.child "a_test.go") root = .ok location) :
    LocatedUnder oneFile ⟨"/w/b"⟩ root location := by
  have hvisits : oneFile.visits root
      = [[("a_test.go" : Raw)]].map fun names => .file (names.foldl child root) := by
    rw [visits_of_pairwise hitem hsize (by decide +kernel)]
    rfl
  refine ⟨_, testFiles_of_visits hvisits, ⟨root.child "a_test.go", root⟩, ?_, hresolve⟩
  simp [htest]

/-- By its name it is reported from the directory that holds it. -/
theorem oneFile_from_parent :
    ∃ location, LocatedUnder oneFile ⟨"/w/b"⟩ ⟨"../b/"⟩ location
      ∧ EndsInName ⟨"../b/"⟩ ∧ location.relativePath = "b/a_test.go"
      ∧ FromParent ⟨"/w/b"⟩ ⟨"../b/"⟩ location := by
  have hlocated : LocatedUnder oneFile ⟨"/w/b"⟩ ⟨"../b/"⟩
      ⟨"a_test.go", "b/a_test.go", "/w/b/a_test.go"⟩ :=
    locatedUnder_oneFile rfl (by decide +kernel) (by decide +kernel) (by decide +kernel)
  have hname : EndsInName ⟨"../b/"⟩ := ⟨"b", by decide +kernel⟩
  exact ⟨_, hlocated, hname, rfl,
    (relativePath_from_parent_iff wellFormed_oneFile (by decide +kernel) hlocated).1.mpr
      (.inr hname)⟩

/-- **As `.` it is not**: the name of the directory is missing, and what is reported of the file is
not what is reported of it under the other spelling. -/
theorem dot_not_from_parent :
    ∃ location location', LocatedUnder oneFile ⟨"/w/b"⟩ ⟨"."⟩ location
      ∧ LocatedUnder oneFile ⟨"/w/b"⟩ ⟨"../b/"⟩ location'
      ∧ (⟨"."⟩ : Path).absolute (some ⟨"/w/b"⟩) = (⟨"../b/"⟩ : Path).absolute (some ⟨"/w/b"⟩)
      ∧ location.absolutePath = location'.absolutePath
      ∧ location.relativePath = "a_test.go" ∧ location'.relativePath = "b/a_test.go"
      ∧ ¬ FromParent ⟨"/w/b"⟩ ⟨"."⟩ location := by
  refine ⟨⟨"a_test.go", "a_test.go", "/w/b/a_test.go"⟩,
    ⟨"a_test.go", "b/a_test.go", "/w/b/a_test.go"⟩,
    locatedUnder_oneFile rfl (by decide +kernel) (by decide +kernel) (by decide +kernel),
    locatedUnder_oneFile rfl (by decide +kernel) (by decide +kernel) (by decide +kernel),
    by decide +kernel, rfl, rfl, rfl, ?_⟩
  rintro ⟨top, htop, hleads⟩
  obtain rfl : ⟨"/w/b"⟩ = top := Except.ok.inj htop
  exact absurd hleads (by decide +kernel)

end Catalog

end TestCatalog
