import TestCatalog.Proofs.Path.Normal
import TestCatalog.Proofs.Text.Shown

/-!
# Proofs/Path/Shown — a path that is shown is still a path

Slashes and dots are shown as they are, and nothing else is shown as one of them.  So what is shown
of a path is split at the same places (`parts_rendered`), and its parts are `.`, `..` and names
where those of the path are.  Cleaning and joining look at nothing else, so it makes no difference
whether a path is shown before or after.

* `clean_rendered` — cleaning what is shown gives what is shown of the cleaned path.
* `join_rendered` — joining what is shown gives what is shown of the joined path.
-/

namespace TestCatalog.Path

/-! ## Parts -/

/-- What is shown of a path, as a path. -/
def rendered (p : Path) : Path := ⟨p.text.rendered⟩

theorem slash_ascii : slash.toNat < 0x80 := by decide

/-- Nothing is shown for no bytes, and for nothing else. -/
theorem rendered_eq_nil_iff {bs : List UInt8} : (Raw.mk bs).rendered.bytes = [] ↔ bs = [] := by
  constructor
  · intro h
    exact congrArg Raw.bytes ((Raw.rendered_eq_iff rfl).mp (Raw.ext_bytes (b := "") h))
  · rintro rfl
    rfl

/-- A text without slashes is shown as one part. -/
theorem partsFrom_rendered_of_notMem {bs : List UInt8} (h : slash ∉ bs) :
    partsFrom [] (Raw.mk bs).rendered.bytes
      = (partsFrom [] bs).map fun part => (Raw.mk part).rendered.bytes := by
  have hnot : slash ∉ (Raw.mk bs).rendered.bytes := (Raw.mem_rendered_iff slash_ascii).not.mpr h
  rw [partsFrom_of_notMem hnot, partsFrom_of_notMem h]
  by_cases hnil : bs = [] <;> simp [rendered_eq_nil_iff, hnil]

/-- **Parts are shown each for itself.** -/
theorem partsFrom_rendered (bs : List UInt8) :
    partsFrom [] (Raw.mk bs).rendered.bytes
      = (partsFrom [] bs).map fun part => (Raw.mk part).rendered.bytes := by
  -- the induction goes from slash to slash
  induction hlength : bs.length using Nat.strongRecOn generalizing bs with
  | ind n ih =>
    by_cases hmem : slash ∈ bs
    · obtain ⟨front, rest, rfl, hfront⟩ := List.eq_append_cons_of_mem hmem
      have hrest := ih rest.length (by simp [← hlength]; omega) rest rfl
      rw [Raw.rendered_append_ascii front slash_ascii, partsFrom_append_slash,
        partsFrom_append_slash, List.map_append, partsFrom_rendered_of_notMem hfront, hrest]
    · exact partsFrom_rendered_of_notMem hmem

theorem parts_rendered (p : Path) : p.rendered.parts = p.parts.map Raw.rendered := by
  rw [parts, rendered, partsFrom_rendered, parts, List.map_map, List.map_map]
  rfl

/-- What is shown starts with a slash if the path does. -/
theorem isRooted_rendered (p : Path) : p.rendered.isRooted = p.isRooted := by
  obtain ⟨⟨bs⟩⟩ := p
  have hnot {front rest : List UInt8} (h : slash ∉ front) (hne : front ≠ []) :
      (front ++ rest).head? ≠ some slash := by
    rw [List.head?_append_of_ne_nil _ hne]
    exact fun hhead => h (List.mem_of_head? hhead)
  rw [isRooted, isRooted, Bool.eq_iff_iff, beq_iff_eq, beq_iff_eq]
  show (Raw.mk bs).rendered.bytes.head? = some slash ↔ bs.head? = some slash
  by_cases hmem : slash ∈ bs
  · obtain ⟨front, rest, rfl, hfront⟩ := List.eq_append_cons_of_mem hmem
    rw [Raw.rendered_append_ascii front slash_ascii]
    by_cases hnil : front = []
    · subst hnil
      exact ⟨fun _ => rfl, fun _ => rfl⟩
    · have hshown := (Raw.mem_rendered_iff (r := ⟨front⟩) slash_ascii).not.mpr hfront
      exact iff_of_false (hnot hshown (rendered_eq_nil_iff.not.mpr hnil)) (hnot hfront hnil)
  · refine iff_of_false (fun h => ?_) fun h => hmem (List.mem_of_head? h)
    exact hmem ((Raw.mem_rendered_iff slash_ascii).mp (List.mem_of_head? h))

/-- …and ends in one if the path does. -/
theorem endsInSlash_rendered (p : Path) : p.rendered.endsInSlash = p.endsInSlash := by
  have hends (r : Raw) : r.bytes.getLast? = some slash ↔ "/".toList <:+ r.shown.toList := by
    rw [Raw.isSuffix_shown_iff rfl, bytes_slash, List.getLast?_eq_some_iff]
    exact exists_congr fun front => eq_comm
  rw [endsInSlash, endsInSlash, Bool.eq_iff_iff, beq_iff_eq, beq_iff_eq, hends, hends]
  show "/".toList <:+ p.text.rendered.shown.toList ↔ _
  rw [Raw.rendered, Raw.shown_ofText]

/-! ## Routes -/

/-- The step to what is shown of a name. -/
def Step.rendered : Step → Step
  | .up => .up
  | .name text => .name text.rendered

theorem Step.ofPart?_rendered (part : Raw) :
    Step.ofPart? part.rendered = (Step.ofPart? part).map Step.rendered := by
  have hdot : part.rendered = "." ↔ part = "." := Raw.rendered_eq_iff rfl
  have hdots : part.rendered = ".." ↔ part = ".." := Raw.rendered_eq_iff rfl
  simp only [Step.ofPart?, hdot, hdots]
  split_ifs <;> rfl

/-- A route by what is shown of its names. -/
def Route.rendered (r : Route) : Route := ⟨r.rooted, r.steps.map Step.rendered⟩

/-- **What is shown of a path says the route by what is shown of its names.** -/
theorem route_rendered (p : Path) : p.rendered.route = p.route.rendered := by
  rw [route, isRooted_rendered, parts_rendered, List.filterMap_map, Route.rendered, route,
    List.map_filterMap]
  exact congrArg _ (List.filterMap_congr fun part _ => Step.ofPart?_rendered part)

/-- Taking a step looks at no name. -/
theorem Route.step_rendered (rooted : Bool) (back : List Step) (s : Step) :
    Route.step rooted (back.map Step.rendered) s.rendered
      = (Route.step rooted back s).map Step.rendered := by
  cases s with
  | name text => rfl
  | up =>
    cases back with
    | nil => cases rooted <;> rfl
    | cons last rest => cases last <;> rfl

/-- …so cleaning does not either. -/
theorem Route.clean_rendered (r : Route) : r.rendered.clean = r.clean.rendered := by
  have hrun : ∀ back, (r.steps.map Step.rendered).foldl (Route.step r.rooted)
      (back.map Step.rendered) = (r.steps.foldl (Route.step r.rooted) back).map Step.rendered := by
    induction r.steps with
    | nil => exact fun _ => rfl
    | cons s steps ih =>
      intro back
      rw [List.map_cons, List.foldl_cons, List.foldl_cons, Route.step_rendered, ih]
  rw [Route.clean, Route.clean, Route.rendered, Route.rendered]
  exact congrArg (Route.mk r.rooted) ((congrArg List.reverse (hrun [])).trans List.map_reverse.symm)

theorem Step.text_rendered (s : Step) : s.rendered.text = s.text.rendered := by
  cases s with
  | up => exact (Raw.rendered_ofText "..").symm
  | name text => rfl

/-- What is shown of a name is a name. -/
theorem IsName.rendered {name : Raw} (h : IsName name) : IsName name.rendered :=
  ⟨(Raw.rendered_eq_iff rfl).not.mpr h.1, (Raw.mem_rendered_iff slash_ascii).not.mpr h.2.1,
    (Raw.rendered_eq_iff rfl).not.mpr h.2.2.1, (Raw.rendered_eq_iff rfl).not.mpr h.2.2.2⟩

theorem Route.plain_rendered {r : Route} (h : ∀ s ∈ r.steps, s.Plain) :
    ∀ s ∈ r.rendered.steps, s.Plain := by
  intro s hs
  obtain ⟨t, ht, rfl⟩ := List.mem_map.mp hs
  have hplain := h t ht
  cases t with
  | up => exact hplain
  | name text => exact IsName.rendered hplain

/-! ## Written paths -/

/-- What is shown can be cut at a slash. -/
theorem rendered_append_slash (a b : Raw) :
    (a ++ "/" ++ b).rendered = a.rendered ++ "/" ++ b.rendered := by
  have hcut : a ++ "/" ++ b = ⟨a.bytes ++ slash :: b.bytes⟩ := Raw.ext_bytes (by simp)
  refine Raw.ext_bytes ?_
  rw [hcut, Raw.rendered_append_ascii a.bytes slash_ascii]
  simp

/-- Texts with slashes between them are shown each for itself. -/
theorem rendered_intercalate (texts : List Raw) :
    (Raw.intercalate "/" texts).rendered = Raw.intercalate "/" (texts.map Raw.rendered) := by
  induction texts with
  | nil => rfl
  | cons text texts ih =>
    cases texts with
    | nil => rw [Raw.intercalate_singleton, List.map_singleton, Raw.intercalate_singleton]
    | cons next texts =>
      rw [Raw.intercalate_cons_cons, rendered_append_slash, ih]
      exact (Raw.intercalate_cons_cons ..).symm

/-- **A route is shown by what is shown of its names.** -/
theorem ofRoute_rendered (r : Route) : (ofRoute r).rendered = ofRoute r.rendered := by
  obtain ⟨rooted, steps⟩ := r
  have htexts : (steps.map Step.text).map Raw.rendered
      = (steps.map Step.rendered).map Step.text := by
    rw [List.map_map, List.map_map]
    exact List.map_congr_left fun s _ => (Step.text_rendered s).symm
  have hsteps := rendered_intercalate (steps.map Step.text)
  rw [htexts] at hsteps
  refine congrArg Path.mk ?_
  cases rooted with
  | false => exact hsteps
  | true =>
    refine (rendered_append_slash "" _).trans ?_
    rw [hsteps]
    rfl

/-- Routes of plain steps that are written alike are the same. -/
theorem ofRoute_inj {r s : Route} (hr : ∀ t ∈ r.steps, t.Plain) (hs : ∀ t ∈ s.steps, t.Plain) :
    ofRoute r = ofRoute s ↔ r = s :=
  ⟨fun h => (route_ofRoute hr).symm.trans (h ▸ route_ofRoute hs), congrArg ofRoute⟩

/-- …and if they are shown alike, they are the same by what is shown of their names. -/
theorem ofRoute_rendered_inj {r s : Route} (hr : ∀ t ∈ r.steps, t.Plain)
    (hs : ∀ t ∈ s.steps, t.Plain) :
    (ofRoute r).rendered = (ofRoute s).rendered ↔ r.rendered = s.rendered := by
  rw [ofRoute_rendered, ofRoute_rendered,
    ofRoute_inj (Route.plain_rendered hr) (Route.plain_rendered hs)]

theorem clean_rendered (p : Path) : p.rendered.clean = p.clean.rendered := by
  rw [clean, route_rendered, Route.clean_rendered, clean, ofRoute_rendered]

theorem isEmpty_rendered (r : Raw) : r.rendered.isEmpty = r.isEmpty := by
  rw [Bool.eq_iff_iff, Raw.isEmpty, Raw.isEmpty, List.isEmpty_iff, List.isEmpty_iff]
  exact rendered_eq_nil_iff

/-- A further name is shown for itself. -/
theorem rendered_base_append (p : Path) (name : Raw) :
    (p.base ++ name).rendered = p.rendered.base ++ name.rendered := by
  have hbase : p.rendered.base = if p.text.isEmpty || p.endsInSlash then p.text.rendered
      else p.text.rendered ++ "/" := by
    rw [base, endsInSlash_rendered, rendered, isEmpty_rendered]
  rw [hbase, base]
  split
  · next h =>
    rcases Bool.or_eq_true _ _ ▸ h with hempty | hslash
    · obtain hnil : p.text = "" := Raw.ext_bytes (List.isEmpty_iff.mp hempty)
      rw [hnil]
      rfl
    · -- The text ends in the slash that divides the two.
      obtain ⟨front, hfront⟩ := List.getLast?_eq_some_iff.mp (beq_iff_eq.mp hslash)
      have htext : p.text = ⟨front⟩ ++ "/" ++ "" := Raw.ext_bytes (by simp [hfront])
      have hempty (r : Raw) : r ++ "" = r := Raw.ext_bytes (by simp)
      rw [htext, rendered_append_slash, hempty, rendered_append_slash, Raw.rendered_ofText, hempty]
  · exact rendered_append_slash p.text name

/-- **What is shown of a joined path is what is shown of both, joined.** -/
theorem join_rendered (p q : Path) : (p.join q).rendered = p.rendered.join q.rendered := by
  rw [join, join, isRooted_rendered]
  split
  · rfl
  · exact congrArg Path.mk (rendered_base_append p q.text)

/-! ## The text that is shown -/

theorem rendered_eq (p : Path) : p.rendered = ⟨p.shown⟩ := rfl

/-- Parts with slashes between them are shown with slashes between them. -/
theorem shown_intercalate (texts : List Raw) :
    (Raw.intercalate "/" texts).shown = "/".intercalate (texts.map Raw.shown) := by
  refine String.toList_injective ?_
  rw [Raw.toList_shown, String.toList_intercalate, Raw.bytes_intercalate, bytes_slash]
  induction texts with
  | nil => rfl
  | cons text texts ih =>
    cases texts with
    | nil => simp [Raw.toList_shown]
    | cons next texts =>
      simp only [List.map_cons, List.intercalate_cons_cons, List.append_assoc,
        List.singleton_append] at ih ⊢
      rw [Raw.shownFrom_append_ascii none _ slash_ascii, ih, Raw.toList_shown text]
      rfl

end TestCatalog.Path
