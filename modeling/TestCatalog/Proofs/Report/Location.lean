import TestCatalog.Proofs.Path.Relative
import TestCatalog.Proofs.Path.Shown

/-!
# Proofs/Report/Location — where a file below a root is

A file is found at its root followed by the names that lead to it.  Such a file can always be
located from a current directory (`resolve_below`): the path from the directory that holds the root
is the last part of the root and these names (`detour_directoryOf`), and the absolute path is the
cleaned route that follows the current directory (`absolute_eq`).
-/

namespace TestCatalog.Path

open Route (IsClean)

/-! ## Names below a path -/

/-- A name is a path of one step. -/
theorem route_of_isName {name : Raw} (h : IsName name) :
    (⟨name⟩ : Path).route = ⟨false, [.name name]⟩ := by
  have hone : (⟨name⟩ : Path) = ofRoute ⟨false, [.name name]⟩ :=
    congrArg Path.mk (Raw.intercalate_singleton "/" name).symm
  rw [hone]
  refine route_ofRoute fun s hs => ?_
  obtain rfl := List.mem_singleton.mp hs
  exact h

theorem route_child (p : Path) {name : Raw} (h : IsName name) :
    (p.child name).route = ⟨p.isRooted, p.route.steps ++ [.name name]⟩ := by
  have hroute := route_of_isName h
  have hrelative : (⟨name⟩ : Path).isRooted = false := isRooted_of_route hroute
  have hjoin : p.join ⟨name⟩ = p.child name := if_neg (by rw [hrelative]; decide)
  rw [← hjoin, route_join p hrelative, hroute]

/-- **Names below a path are added to what it says.** -/
theorem route_foldl_child (p : Path) {names : List Raw} (h : ∀ name ∈ names, IsName name) :
    (names.foldl child p).route = ⟨p.isRooted, p.route.steps ++ names.map .name⟩ := by
  induction names generalizing p with
  | nil =>
    rw [List.foldl_nil, List.map_nil, List.append_nil]
    rfl
  | cons name names ih =>
    have hchild := route_child p (h name List.mem_cons_self)
    rw [List.foldl_cons, ih _ fun other hother => h other (List.mem_cons_of_mem _ hother), hchild,
      isRooted_of_route hchild, List.append_assoc]
    rfl

theorem map_name_injective : Function.Injective (List.map Step.name) :=
  List.map_injective_iff.mpr fun _ _ => Step.name.inj

/-- Names that lead to the same path are the same. -/
theorem names_eq_of_foldl_child {root : Path} {names names' : List Raw}
    (hnames : ∀ name ∈ names, IsName name) (hnames' : ∀ name ∈ names', IsName name)
    (h : names.foldl child root = names'.foldl child root) : names = names' := by
  have hroute := congrArg route h
  rw [route_foldl_child root hnames, route_foldl_child root hnames'] at hroute
  exact map_name_injective (List.append_cancel_left (congrArg Route.steps hroute))

/-- Cleaning leaves names at the end as they are. -/
theorem Route.clean_append_names (rooted : Bool) (steps : List Step) (names : List Raw) :
    Route.clean ⟨rooted, steps ++ names.map .name⟩
      = ⟨rooted, (Route.clean ⟨rooted, steps⟩).steps ++ names.map .name⟩ := by
  have hclean : IsClean ⟨rooted, (Route.clean ⟨rooted, steps⟩).steps⟩ :=
    Route.isClean_clean ⟨rooted, steps⟩
  rw [Route.clean_append, Route.foldl_step_of_isClean
    (by rw [List.reverse_reverse]; exact hclean.append_names names), List.reverse_append,
    List.reverse_reverse, List.reverse_reverse]

/-- A path with a file name ends in the step to it. -/
theorem getLast?_route_of_fileName? {p : Path} {name : Raw} (h : p.fileName? = some name) :
    p.route.steps.getLast? = some (.name name) := by
  rw [fileName?] at h
  split at h
  · next last hlast =>
    obtain rfl := Option.some.inj h
    exact hlast
  · cases h

/-! ## Absolute paths -/

/-- The steps from the root to a path, taken from a directory if the path is relative. -/
def absoluteRoute (directory p : Path) : Route :=
  Route.clean ⟨true, (if p.isRooted then [] else directory.route.steps) ++ p.route.steps⟩

/-- **From a directory every path has an absolute one.** -/
theorem absolute_eq {directory : Path} (h : directory.isRooted = true) (p : Path) :
    p.absolute (some directory) = .ok (ofRoute (absoluteRoute directory p)) := by
  rw [absolute, absoluteRoute]
  cases hp : p.isRooted with
  | true =>
    rw [if_pos rfl, clean, route_of_isRooted hp]
    rfl
  | false =>
    rw [if_neg Bool.false_ne_true, clean, route_join directory hp, h]
    rfl

theorem plain_of_mem_absoluteRoute {directory p : Path} :
    ∀ s ∈ (absoluteRoute directory p).steps, s.Plain := by
  have h : ∀ s ∈ (if p.isRooted then [] else directory.route.steps) ++ p.route.steps, s.Plain := by
    intro s hs
    rcases List.mem_append.mp hs with hs | hs
    · split at hs
      · cases hs
      · exact plain_of_mem_route s hs
    · exact plain_of_mem_route s hs
  exact Route.plain_clean h

theorem parts_absolute (directory p : Path) :
    (ofRoute (absoluteRoute directory p)).parts
      = (absoluteRoute directory p).steps.map Step.text := parts_ofRoute plain_of_mem_absoluteRoute

theorem isRooted_absolute (directory p : Path) :
    (ofRoute (absoluteRoute directory p)).isRooted = true :=
  isRooted_ofRoute plain_of_mem_absoluteRoute

/-- **An absolute path goes nowhere but down.** -/
theorem isName_of_mem_parts_absolute {directory p : Path} :
    ∀ part ∈ (ofRoute (absoluteRoute directory p)).parts, IsName part := by
  intro part hpart
  rw [parts_absolute] at hpart
  obtain ⟨s, hs, rfl⟩ := List.mem_map.mp hpart
  cases s with
  | up => exact absurd hs ((Route.isClean_clean _).no_up rfl)
  | name text => exact plain_of_mem_absoluteRoute _ hs

/-- The absolute path of a file ends in its name. -/
theorem getLast?_absoluteRoute {directory p : Path} {name : Raw} (h : p.fileName? = some name) :
    (absoluteRoute directory p).steps.getLast? = some (.name name) := by
  obtain ⟨init, hinit⟩ := List.getLast?_eq_some_iff.mp (getLast?_route_of_fileName? h)
  rw [absoluteRoute, hinit, ← List.append_assoc]
  exact Route.getLast?_clean_append_name _ _ name

theorem getLast?_parts_absolute {directory p : Path} {name : Raw} (h : p.fileName? = some name) :
    (ofRoute (absoluteRoute directory p)).parts.getLast? = some name := by
  rw [parts_absolute, List.getLast?_map, getLast?_absoluteRoute h]
  rfl

/-- **Paths that say the same after cleaning have the same absolute path.** -/
theorem absoluteRoute_congr {directory p q : Path} (h : q.route = p.route.clean) :
    absoluteRoute directory q = absoluteRoute directory p := by
  have hrooted : q.isRooted = p.isRooted := isRooted_of_route h
  rw [absoluteRoute, absoluteRoute, hrooted, h]
  cases hp : p.isRooted with
  | true =>
    rw [if_pos rfl, List.nil_append, List.nil_append, route_of_isRooted hp]
    exact Route.clean_clean ⟨true, p.route.steps⟩
  | false =>
    rw [if_neg Bool.false_ne_true, route_of_isRooted hp]
    exact Route.clean_append_clean _ _ _

end TestCatalog.Path

namespace TestCatalog.Report

open TestCatalog.Path
open TestCatalog.Path.Route (IsClean)

variable {root : Path} {names : List Raw} {file : Raw}

/-! ## From the directory that holds the root -/

/-- The directory that holds a root says what the cleaned root says, less the last step. -/
theorem route_directoryOf (root : Path) :
    (directoryOf root).route = ⟨root.isRooted, root.route.clean.steps.dropLast⟩ := by
  have hplain : ∀ s ∈ root.route.clean.steps.dropLast, s.Plain :=
    fun s hs => plain_of_mem_clean s (List.dropLast_subset _ hs)
  rw [directoryOf, parent?, route_clean]
  split
  · next hempty =>
    rw [Option.getD_none, route_clean, List.isEmpty_iff.mp hempty, List.dropLast_nil,
      ← List.isEmpty_iff.mp hempty]
    rfl
  · exact route_ofRoute (r := ⟨root.isRooted, root.route.clean.steps.dropLast⟩) hplain

theorem clean_route_directoryOf (root : Path) :
    (directoryOf root).route.clean = (directoryOf root).route := by
  rw [route_directoryOf]
  exact ((Route.isClean_clean root.route).of_sublist (List.dropLast_sublist _)).clean_eq

/-- The steps from the directory that holds a root to what names lead to below the root. -/
def stepsBelow (root : Path) (names : List Raw) : List Step :=
  root.route.clean.steps.getLast?.toList ++ names.map .name

/-- **The cleaned root and names below it**, divided at the directory that holds the root. -/
theorem clean_route_below (hnames : ∀ name ∈ names, IsName name) :
    (names.foldl child root).route.clean
      = ⟨root.isRooted, root.route.clean.steps.dropLast ++ stepsBelow root names⟩ := by
  have hlast : root.route.clean.steps.dropLast ++ root.route.clean.steps.getLast?.toList
      = root.route.clean.steps := by
    rcases List.eq_nil_or_concat' root.route.clean.steps with h | ⟨init, last, h⟩
    · rw [h]
      rfl
    · rw [h, List.dropLast_concat, List.getLast?_concat]
      rfl
  rw [route_foldl_child root hnames, Route.clean_append_names, stepsBelow, ← List.append_assoc,
    hlast]
  rfl

theorem divide_directoryOf (hnames : ∀ name ∈ names, IsName name) :
    divide (directoryOf root).route.clean.steps (names.foldl child root).route.clean.steps
      = ([], stepsBelow root names) := by
  rw [clean_route_directoryOf, route_directoryOf, clean_route_below hnames, divide_append_self]

/-- **Nothing has to be taken back** on the way from the directory that holds the root. -/
theorem detour_directoryOf (hnames : ∀ name ∈ names, IsName name) :
    detour (directoryOf root) (names.foldl child root) = stepsBelow root names := by
  rw [detour, divide_directoryOf hnames]
  rfl

/-- **A file keeps its name when its path is cleaned**, so that the way to it ends there. -/
theorem getLast?_stepsBelow (hnames : ∀ name ∈ names, IsName name)
    (hfile : (names.foldl child root).fileName? = some file) :
    (stepsBelow root names).getLast? = some (.name file) := by
  obtain ⟨init, hinit⟩ := List.getLast?_eq_some_iff.mp (getLast?_route_of_fileName? hfile)
  have hclean : (names.foldl child root).route.clean.steps.getLast? = some (.name file) := by
    have hroute : (names.foldl child root).route
        = ⟨(names.foldl child root).isRooted, init ++ [.name file]⟩ := by
      rw [← hinit]
      rfl
    rw [hroute]
    exact Route.getLast?_clean_append_name _ init file
  rw [clean_route_below hnames] at hclean
  cases hsteps : stepsBelow root names with
  | nil =>
    -- Then the cleaned root has no last step, so nothing is left of it to end in a name.
    obtain ⟨hroot, -⟩ := List.append_eq_nil_iff.mp hsteps
    have hnil : root.route.clean.steps = [] := by simpa using hroot
    rw [hsteps, hnil] at hclean
    cases hclean
  | cons s steps =>
    rw [hsteps] at hclean
    rwa [← List.getLast?_append_of_ne_nil _ (List.cons_ne_nil s steps)]

theorem plain_of_mem_stepsBelow (hnames : ∀ name ∈ names, IsName name) :
    ∀ s ∈ stepsBelow root names, s.Plain := by
  intro s hs
  rcases List.mem_append.mp hs with hs | hs
  · exact plain_of_mem_clean s (List.mem_of_getLast? (Option.mem_toList.mp hs))
  · obtain ⟨name, hname, rfl⟩ := List.mem_map.mp hs
    exact hnames name hname

theorem map_text_stepsBelow :
    (stepsBelow root names).map Step.text = root.clean.parts.getLast?.toList ++ names := by
  have hnames : (names.map Step.name).map Step.text = names := by
    rw [List.map_map]
    exact List.map_id names
  rw [stepsBelow, List.map_append, hnames, parts_clean, List.getLast?_map]
  cases root.route.clean.steps.getLast? <;> rfl

/-- **A file below a root can be located from every current directory.** -/
theorem resolve_below {directory : Path} (hdirectory : directory.isRooted = true)
    (hnames : ∀ name ∈ names, IsName name)
    (hfile : (names.foldl child root).fileName? = some file) :
    Location.resolve (some directory) (names.foldl child root) root
      = .ok ⟨file.shown, (ofRoute ⟨false, stepsBelow root names⟩).shown,
          (ofRoute (absoluteRoute directory (names.foldl child root))).shown⟩ := by
  have hrooted : (directoryOf root).isRooted = (names.foldl child root).isRooted :=
    (isRooted_of_route (route_directoryOf root)).trans
      (isRooted_of_route (route_foldl_child root hnames)).symm
  have hsteps : (stepsBelow root names).isEmpty = false := by
    have hlast := getLast?_stepsBelow hnames hfile
    cases hsteps : stepsBelow root names with
    | nil => rw [hsteps] at hlast; cases hlast
    | cons s steps => rfl
  have hrelative : Path.relative (directoryOf root) (names.foldl child root)
      = .ok (ofRoute ⟨false, stepsBelow root names⟩) := by
    refine relative_eq_ok_iff.mpr (relative?_eq_some_iff.mpr ⟨hrooted, ?_, ?_⟩)
    · rw [divide_directoryOf hnames]
      exact List.not_mem_nil
    · rw [detour_directoryOf hnames, hsteps]
      rfl
  rw [Location.resolve, absolute_eq hdirectory, hrelative, hfile]
  rfl

/-! ## What is reported -/

theorem text_below : (ofRoute ⟨false, stepsBelow root names⟩).text
    = Raw.intercalate "/" (root.clean.parts.getLast?.toList ++ names) := by
  rw [← map_text_stepsBelow]
  rfl

theorem getLast?_parts_below (hnames : ∀ name ∈ names, IsName name)
    (hfile : (names.foldl child root).fileName? = some file) :
    (ofRoute ⟨false, stepsBelow root names⟩).parts.getLast? = some file := by
  rw [parts_ofRoute (r := ⟨false, stepsBelow root names⟩) (plain_of_mem_stepsBelow hnames),
    List.getLast?_map, getLast?_stepsBelow hnames hfile]
  rfl

/-- **The reported path leads to the file**, from the directory that holds the root. -/
theorem absolute_join_below {directory : Path} (hdirectory : directory.isRooted = true)
    (hnames : ∀ name ∈ names, IsName name) :
    ((directoryOf root).join (ofRoute ⟨false, stepsBelow root names⟩)).absolute (some directory)
      = .ok (ofRoute (absoluteRoute directory (names.foldl child root))) := by
  have hbelow := route_ofRoute (r := ⟨false, stepsBelow root names⟩)
    (plain_of_mem_stepsBelow hnames)
  have hrelative := isRooted_of_route hbelow
  have hrooted : (directoryOf root).isRooted = root.isRooted :=
    isRooted_of_route (route_directoryOf root)
  have hjoin : ((directoryOf root).join (ofRoute ⟨false, stepsBelow root names⟩)).route
      = (names.foldl child root).route.clean := by
    rw [route_join _ hrelative, hbelow, clean_route_below hnames, route_directoryOf, hrooted]
  rw [absolute_eq hdirectory, absoluteRoute_congr hjoin]

/-! ## As it is shown -/

theorem absolute_rendered (directory p : Path) :
    p.rendered.absolute (some directory.rendered)
      = (p.absolute (some directory)).map Path.rendered := by
  rw [absolute, absolute, isRooted_rendered]
  split
  · exact congrArg Except.ok (clean_rendered p)
  · rw [← join_rendered, clean_rendered]
    rfl

theorem directoryOf_rendered (root : Path) :
    directoryOf root.rendered = (directoryOf root).rendered := by
  rw [directoryOf, directoryOf, clean_rendered, parent?, parent?, route_rendered]
  simp only [Route.rendered, List.isEmpty_map]
  split
  · rfl
  · rw [Option.getD_some, Option.getD_some, ofRoute_rendered, Route.rendered, List.map_dropLast]

end TestCatalog.Report
