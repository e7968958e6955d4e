import TestCatalog.Proofs.Path.Normal
import TestCatalog.Proofs.Text.Order
import TestCatalog.Report.Location

/-!
# Proofs/Path/Relative — the path between two paths is the shortest there is

`Leads base r target` says that the relative path `r`, taken from `base`, ends at `target` as far as
the texts tell.  `relative_shortest` says that `Path.relative` fails only where nothing leads from
`base` to `target`, and otherwise gives a clean path that leads there with as few steps as possible.

Two quantities carry the proof, each through one step (`Route.step_cases`) and then through a run:

* `gap` — how many steps two clean routes do not share.  One step closes it by one at most
  (`gap_le_gap_step`), so no path is shorter than the gap.
* the number of steps up, which never falls (`count_up_le_step`).  So a base that goes up further
  than its target cannot lead to it.
-/

namespace TestCatalog.Path

open Route (IsClean)

/-! ## The shared start of two routes -/

theorem exists_shared (base target : List Step) :
    ∃ shared, base = shared ++ (divide base target).1
      ∧ target = shared ++ (divide base target).2 := by
  fun_induction divide base target with
  | case1 base s target ih =>
    obtain ⟨shared, hbase, htarget⟩ := ih
    exact ⟨s :: shared, congrArg (s :: ·) hbase, congrArg (s :: ·) htarget⟩
  | case2 => exact ⟨[], rfl, rfl⟩
  | case3 => exact ⟨[], rfl, rfl⟩

theorem sublist_divide (base target : List Step) :
    (divide base target).1.Sublist base ∧ (divide base target).2.Sublist target := by
  obtain ⟨shared, hbase, htarget⟩ := exists_shared base target
  constructor
  · conv_rhs => rw [hbase]
    exact List.sublist_append_right _ _
  · conv_rhs => rw [htarget]
    exact List.sublist_append_right _ _

/-- **The parts that are not shared start differently.** -/
theorem head?_divide_ne {base target : List Step} {s : Step}
    (h : (divide base target).1.head? = some s) : (divide base target).2.head? ≠ some s := by
  fun_induction divide base target with
  | case1 base s target ih => exact ih h
  | case2 a base b target hab =>
    obtain rfl := Option.some.inj h
    exact fun hb => hab (Option.some.inj hb).symm
  | case3 base target hcons =>
    intro htarget
    obtain ⟨base, rfl⟩ := List.head?_eq_some_iff.mp h
    obtain ⟨target, rfl⟩ := List.head?_eq_some_iff.mp htarget
    exact hcons _ _ _ _ rfl rfl

theorem divide_append_self (base later : List Step) :
    divide base (base ++ later) = ([], later) := by
  induction base with
  | nil => cases later <;> rfl
  | cons s base ih => rw [List.cons_append, divide, if_pos rfl, ih]

/-! ## How far two routes are apart -/

/-- The number of steps that two routes do not share. -/
def gap (base target : List Step) : Nat :=
  (divide base target).1.length + (divide base target).2.length

theorem gap_self (steps : List Step) : gap steps steps = 0 := by
  have h := divide_append_self steps []
  rw [List.append_nil] at h
  rw [gap, h]
  rfl

/-- One more step changes the gap by one at most. -/
theorem gap_concat (base target : List Step) (s : Step) :
    gap base target ≤ gap (base ++ [s]) target + 1
      ∧ gap (base ++ [s]) target ≤ gap base target + 1 := by
  simp only [gap]
  induction base generalizing target with
  | nil =>
    cases target with
    | nil => simp [divide]
    | cons t target =>
      by_cases h : s = t
      · cases target <;> simp [divide, h]
      · simp only [List.nil_append, divide, h, if_false, List.length_cons, List.length_nil]
        omega
  | cons b base ih =>
    cases target with
    | nil => simp [divide]
    | cons t target =>
      by_cases h : b = t
      · simpa only [List.cons_append, divide, h, if_true] using ih target
      · simp only [List.cons_append, divide, h, if_false, List.length_cons, List.length_append,
          List.length_nil]
        omega

/-- **One step closes the gap by one at most.** -/
theorem gap_le_gap_step (rooted : Bool) (back target : List Step) (s : Step) :
    gap back.reverse target ≤ gap (Route.step rooted back s).reverse target + 1 := by
  rcases Route.step_cases rooted back s with ⟨hpush, -⟩ | ⟨-, text, hpop⟩ | ⟨-, hback, -, hstay⟩
  · rw [hpush, List.reverse_cons]
    exact (gap_concat _ _ _).1
  · have hback := congrArg List.reverse hpop
    rw [List.reverse_cons] at hback
    exact hback ▸ (gap_concat _ _ _).2
  · rw [hstay, hback]
    exact Nat.le_succ _

/-- …so a run closes no more than it has steps. -/
theorem gap_le_gap_foldl (rooted : Bool) (back target steps : List Step) :
    gap back.reverse target
      ≤ gap (steps.foldl (Route.step rooted) back).reverse target + steps.length := by
  induction steps generalizing back with
  | nil => exact Nat.le_refl _
  | cons s steps ih =>
    have hone := gap_le_gap_step rooted back target s
    have hrest := ih (Route.step rooted back s)
    rw [List.foldl_cons, List.length_cons]
    omega

/-! ## How far a route goes up -/

/-- **No step takes a step up back.** -/
theorem count_up_le_step (back : List Step) (s : Step) :
    back.count .up ≤ (Route.step false back s).count .up := by
  rcases Route.step_cases false back s with ⟨hpush, -⟩ | ⟨-, text, hpop⟩ | ⟨-, -, h, -⟩
  · rw [hpush]
    exact List.count_le_count_cons
  · have hcount := congrArg (List.count Step.up) hpop
    rw [List.count_cons_of_ne (by simp)] at hcount
    exact Nat.le_of_eq hcount
  · cases h

theorem count_up_le_foldl (back steps : List Step) :
    back.count .up ≤ (steps.foldl (Route.step false) back).count .up := by
  induction steps generalizing back with
  | nil => exact Nat.le_refl _
  | cons s steps ih => exact Nat.le_trans (count_up_le_step back s) (ih _)

/-- A clean route has all its steps up at its start. -/
theorem length_takeWhile_up {rooted : Bool} {steps : List Step} (h : IsClean ⟨rooted, steps⟩) :
    (steps.takeWhile (· = .up)).length = steps.count .up := by
  induction steps with
  | nil => rfl
  | cons s steps ih =>
    have hrest := ih (h.of_sublist (List.sublist_cons_self _ _))
    cases s with
    | up => simpa using hrest
    | name text =>
      have hnone : Step.up ∉ steps := fun hup => by
        have hhead := h.head?_eq_up (List.mem_cons_of_mem _ hup)
        cases hhead
      simp [List.count_eq_zero.mpr hnone]

/-- **A step up is left over in the base exactly when the base goes up further than the target.** -/
theorem up_mem_divide_iff {rooted : Bool} {base target : List Step} (hbase : IsClean ⟨rooted, base⟩)
    (htarget : IsClean ⟨rooted, target⟩) :
    Step.up ∈ (divide base target).1 ↔ target.count .up < base.count .up := by
  obtain ⟨shared, hb, ht⟩ := exists_shared base target
  have hcountb := congrArg (List.count Step.up) hb
  have hcountt := congrArg (List.count Step.up) ht
  rw [List.count_append] at hcountb hcountt
  constructor
  · intro hup
    -- What is left of the base starts with a step up, so what is left of the target does not, and
    -- then it has none.
    have hhead : (divide base target).1.head? = some .up :=
      (hbase.of_sublist (sublist_divide base target).1).head?_eq_up hup
    have hnone : (divide base target).2.count .up = 0 :=
      List.count_eq_zero.mpr fun hup => head?_divide_ne hhead
        ((htarget.of_sublist (sublist_divide base target).2).head?_eq_up hup)
    have hsome := List.count_pos_iff.mpr hup
    omega
  · intro hlt
    refine List.count_pos_iff.mp ?_
    omega

/-! ## What a path says, read off its text -/

/-- The parts of a path that say something. -/
def components (p : Path) : List Raw := p.parts.filter (· ≠ ".")

/-- How often a path goes up before it does anything else. -/
def leadingUps (p : Path) : Nat := (p.parts.takeWhile (· = (".." : Raw))).length

theorem length_components (p : Path) : p.components.length = p.route.steps.length := by
  rw [components, route]
  induction p.parts with
  | nil => rfl
  | cons part parts ih =>
    by_cases hdot : part = "."
    · simpa [hdot, Step.ofPart?] using ih
    · by_cases hdots : part = ".."
      · simpa [hdots, Step.ofPart?] using ih
      · simpa [hdot, hdots, Step.ofPart?] using ih

theorem Step.text_eq_up_iff {s : Step} (h : s.Plain) : s.text = ".." ↔ s = .up := by
  cases s with
  | up => exact ⟨fun _ => rfl, fun _ => rfl⟩
  | name text => exact ⟨fun hdots => absurd hdots h.2.2.2, nofun⟩

theorem takeWhile_map_text {steps : List Step} (h : ∀ s ∈ steps, s.Plain) :
    (steps.map Step.text).takeWhile (· = (".." : Raw))
      = (steps.takeWhile (· = .up)).map Step.text := by
  induction steps with
  | nil => rfl
  | cons s steps ih =>
    have hs := Step.text_eq_up_iff (h s List.mem_cons_self)
    have hrest := ih fun t ht => h t (List.mem_cons_of_mem _ ht)
    by_cases hup : s = .up
    · subst hup
      simpa [Step.text] using hrest
    · simp [hs, hup]

/-- A cleaned path goes up at its start and nowhere else. -/
theorem leadingUps_clean (p : Path) : p.clean.leadingUps = p.route.clean.steps.count .up := by
  have hclean : IsClean ⟨p.isRooted, p.route.clean.steps⟩ := Route.isClean_clean p.route
  rw [leadingUps, parts_clean, takeWhile_map_text plain_of_mem_clean, List.length_map,
    length_takeWhile_up hclean]

/-! ## Paths that lead from one to the other -/

/-- **`r` leads from `base` to `target`**: it is relative, and `base` followed by `r` is `target`
once both are cleaned. -/
def Leads (base r target : Path) : Prop := r.isRooted = false ∧ (base.join r).clean = target.clean

/-- Leading there is a run of steps from the cleaned base to the cleaned target. -/
theorem leads_iff {base r target : Path} :
    Leads base r target ↔ r.isRooted = false ∧ base.isRooted = target.isRooted
      ∧ r.route.steps.foldl (Route.step base.isRooted) base.route.clean.steps.reverse
        = target.route.clean.steps.reverse := by
  refine and_congr_right fun hr => ?_
  rw [clean_eq_clean_iff, route_join base hr, Route.clean_append]
  constructor
  · intro h
    refine ⟨congrArg Route.rooted h, ?_⟩
    rw [← congrArg Route.steps h, List.reverse_reverse]
    rfl
  · rintro ⟨hrooted, hsteps⟩
    have hstart : Route.clean ⟨base.isRooted, base.route.steps⟩ = base.route.clean := rfl
    rw [hstart, hsteps, List.reverse_reverse, hrooted]
    rfl

/-- The steps that are not shared, of which those of the base are taken back. -/
def detour (base target : Path) : List Step :=
  let (up, down) := divide base.route.clean.steps target.route.clean.steps
  up.map (fun _ => Step.up) ++ down

theorem length_detour (base target : Path) :
    (detour base target).length = gap base.route.clean.steps target.route.clean.steps := by
  simp [detour, gap]

theorem plain_of_mem_detour {base target : Path} : ∀ s ∈ detour base target, s.Plain := by
  intro s hs
  rcases List.mem_append.mp hs with hup | hdown
  · obtain ⟨_, -, rfl⟩ := List.mem_map.mp hup
    trivial
  · exact plain_of_mem_clean s ((sublist_divide _ _).2.subset hdown)

/-- A detour goes up first, and what it goes down is the end of a clean route. -/
theorem isClean_detour (base target : Path) : IsClean ⟨false, detour base target⟩ := by
  have hups : ∀ s ∈ (divide base.route.clean.steps target.route.clean.steps).1.map
      (fun _ => Step.up), s = .up := fun s hs => by
    obtain ⟨_, -, rfl⟩ := List.mem_map.mp hs
    rfl
  refine ⟨List.pairwise_append.mpr ⟨?_, ?_, ?_⟩, nofun⟩
  · exact List.pairwise_of_forall_mem_list fun a ha _ _ _ => hups a ha
  · exact (Route.isClean_clean target.route).ups_first.sublist (sublist_divide _ _).2
  · exact fun a ha _ _ _ => hups a ha

/-- Names are taken back by as many steps up. -/
theorem foldl_step_ups (rooted : Bool) {names back : List Step} (h : Step.up ∉ names) :
    (List.replicate names.length Step.up).foldl (Route.step rooted) (names ++ back) = back := by
  induction names with
  | nil => rfl
  | cons s names ih =>
    obtain ⟨hs, hnames⟩ := List.ne_and_not_mem_of_not_mem_cons h
    cases s with
    | up => exact absurd rfl hs
    | name text =>
      rw [List.length_cons, List.replicate_succ, List.foldl_cons]
      exact ih hnames

/-- **The detour leads from the cleaned base to the cleaned target**, if the base leaves no step up
over. -/
theorem foldl_step_detour {base target : Path} (hrooted : base.isRooted = target.isRooted)
    (hup : Step.up ∉ (divide base.route.clean.steps target.route.clean.steps).1) :
    (detour base target).foldl (Route.step base.isRooted) base.route.clean.steps.reverse
      = target.route.clean.steps.reverse := by
  obtain ⟨shared, hbase, htarget⟩ := exists_shared base.route.clean.steps target.route.clean.steps
  have hclean : IsClean ⟨base.isRooted, target.route.clean.steps⟩ :=
    hrooted ▸ Route.isClean_clean target.route
  rw [detour]
  generalize divide base.route.clean.steps target.route.clean.steps = parts at *
  obtain ⟨up, down⟩ := parts
  have hback : base.route.clean.steps.reverse = up.reverse ++ shared.reverse := by
    rw [hbase, List.reverse_append]
  have hdown : down.foldl (Route.step base.isRooted) shared.reverse
      = down.reverse ++ shared.reverse := by
    refine Route.foldl_step_of_isClean ?_
    rwa [List.reverse_reverse, ← htarget]
  rw [List.foldl_append, hback, List.map_const', ← List.length_reverse,
    foldl_step_ups base.isRooted (List.mem_reverse.not.mpr hup), hdown, htarget,
    List.reverse_append]

/-! ## The path between two paths -/

theorem relative?_eq_none_iff {base target : Path} :
    base.relative? target = none ↔ base.isRooted ≠ target.isRooted
      ∨ Step.up ∈ (divide base.route.clean.steps target.route.clean.steps).1 := by
  have hbase : base.route.clean.rooted = base.isRooted := rfl
  have htarget : target.route.clean.rooted = target.isRooted := rfl
  rw [relative?]
  by_cases hrooted : base.isRooted = target.isRooted
  · by_cases hup : Step.up ∈ (divide base.route.clean.steps target.route.clean.steps).1
    · simp [hbase, htarget, hrooted, hup]
    · simp [hbase, htarget, hrooted, hup]
  · simp [hbase, htarget, hrooted]

theorem relative?_eq_some_iff {base target r : Path} :
    base.relative? target = some r ↔ base.isRooted = target.isRooted
      ∧ Step.up ∉ (divide base.route.clean.steps target.route.clean.steps).1
      ∧ r = if (detour base target).isEmpty then ⟨"."⟩
          else ofRoute ⟨false, detour base target⟩ := by
  have hfound (hrooted : base.isRooted = target.isRooted)
      (hup : Step.up ∉ (divide base.route.clean.steps target.route.clean.steps).1) :
      base.relative? target = some (if (detour base target).isEmpty then ⟨"."⟩
        else ofRoute ⟨false, detour base target⟩) :=
    (if_neg (not_not.mpr hrooted)).trans (if_neg hup)
  constructor
  · intro h
    have hsome : base.relative? target ≠ none := by rw [h]; nofun
    obtain ⟨hrooted, hup⟩ := not_or.mp (relative?_eq_none_iff.not.mp hsome)
    have hrooted := not_not.mp hrooted
    exact ⟨hrooted, hup, Option.some.inj (h.symm.trans (hfound hrooted hup))⟩
  · rintro ⟨hrooted, hup, rfl⟩
    exact hfound hrooted hup

/-- **The path between two paths says the detour**, and is clean unless it has nothing to say. -/
theorem route_of_relative? {base target r : Path} (h : base.relative? target = some r) :
    r.route = ⟨false, detour base target⟩ ∧ (r.clean = r ∨ r.text = ".") := by
  obtain ⟨-, -, hr⟩ := relative?_eq_some_iff.mp h
  by_cases hempty : (detour base target).isEmpty
  · rw [if_pos hempty] at hr
    rw [List.isEmpty_iff.mp hempty, hr]
    exact ⟨by decide, .inr rfl⟩
  · rw [if_neg hempty] at hr
    have hroute : r.route = ⟨false, detour base target⟩ :=
      hr ▸ route_ofRoute plain_of_mem_detour
    refine ⟨hroute, .inl ?_⟩
    rw [clean, hroute, (isClean_detour base target).clean_eq, hr]

/-- **What goes up at the start of the base is there in every target it leads to.** -/
theorem Leads.up_notMem_divide {base r target : Path} (h : Leads base r target) :
    Step.up ∉ (divide base.route.clean.steps target.route.clean.steps).1 := by
  obtain ⟨-, hrooted, hrun⟩ := leads_iff.mp h
  have hbase : IsClean ⟨base.isRooted, base.route.clean.steps⟩ := Route.isClean_clean base.route
  cases hb : base.isRooted with
  | true => exact fun hup => hbase.no_up hb ((sublist_divide _ _).1.subset hup)
  | false =>
    have htarget : IsClean ⟨base.isRooted, target.route.clean.steps⟩ :=
      hrooted ▸ Route.isClean_clean target.route
    rw [up_mem_divide_iff hbase htarget, Nat.not_lt]
    have hcount := count_up_le_foldl base.route.clean.steps.reverse r.route.steps
    rwa [← hb, hrun, List.count_reverse, List.count_reverse] at hcount

/-- **The path between two paths leads from one to the other.** -/
theorem leads_of_relative? {base target r : Path} (h : base.relative? target = some r) :
    Leads base r target := by
  obtain ⟨hrooted, hup, -⟩ := relative?_eq_some_iff.mp h
  obtain ⟨hroute, -⟩ := route_of_relative? h
  refine leads_iff.mpr ⟨isRooted_of_route hroute, hrooted, ?_⟩
  rw [hroute]
  exact foldl_step_detour hrooted hup

/-- **No path that leads there is shorter.** -/
theorem Leads.length_detour_le {base r target : Path} (h : Leads base r target) :
    (detour base target).length ≤ r.components.length := by
  obtain ⟨-, -, hrun⟩ := leads_iff.mp h
  have hgap := gap_le_gap_foldl base.isRooted base.route.clean.steps.reverse
    target.route.clean.steps r.route.steps
  rw [hrun, List.reverse_reverse, List.reverse_reverse, gap_self, Nat.zero_add] at hgap
  rwa [length_detour, length_components]

theorem relative_eq_ok_iff {base target r : Path} :
    Path.relative base target = .ok r ↔ base.relative? target = some r := by
  rw [Path.relative]
  cases base.relative? target <;> simp

theorem relative_eq_error_iff {base target : Path} :
    Path.relative base target = .error (.unrelated target base)
      ↔ base.relative? target = none := by
  rw [Path.relative]
  cases base.relative? target <;> simp

/-- **The path between two paths**: there is one exactly when something relative leads from the base
to the target; it leads there, is clean or `.`, and has no more components than anything else that
leads there.  There is none exactly when only one of the two starts at the root, or when both are
relative and the cleaned base goes up further than the cleaned target. -/
theorem relative_shortest (base target : Path) :
    ((∃ r, Path.relative base target = .ok r) ↔ ∃ r, Leads base r target)
    ∧ (∀ r, Path.relative base target = .ok r →
        Leads base r target ∧ (r.clean = r ∨ r.text = ".")
        ∧ ∀ other, Leads base other target → r.components.length ≤ other.components.length)
    ∧ (Path.relative base target = .error (.unrelated target base)
        ↔ base.clean.isRooted ≠ target.clean.isRooted
          ∨ base.clean.isRooted = false ∧ target.clean.isRooted = false
            ∧ target.clean.leadingUps < base.clean.leadingUps) := by
  refine ⟨⟨?_, ?_⟩, ?_, ?_⟩
  · rintro ⟨r, hr⟩
    exact ⟨r, leads_of_relative? (relative_eq_ok_iff.mp hr)⟩
  · rintro ⟨r, hr⟩
    obtain ⟨-, hrooted, -⟩ := leads_iff.mp hr
    exact ⟨_, relative_eq_ok_iff.mpr
      (relative?_eq_some_iff.mpr ⟨hrooted, hr.up_notMem_divide, rfl⟩)⟩
  · intro r hr
    have hfound := relative_eq_ok_iff.mp hr
    obtain ⟨hroute, hclean⟩ := route_of_relative? hfound
    refine ⟨leads_of_relative? hfound, hclean, fun other hother => ?_⟩
    rw [length_components, hroute]
    exact hother.length_detour_le
  · rw [relative_eq_error_iff, relative?_eq_none_iff, isRooted_clean, isRooted_clean,
      leadingUps_clean, leadingUps_clean]
    by_cases hrooted : base.isRooted = target.isRooted
    · have hbase : IsClean ⟨base.isRooted, base.route.clean.steps⟩ :=
        Route.isClean_clean base.route
      have htarget : IsClean ⟨base.isRooted, target.route.clean.steps⟩ :=
        hrooted ▸ Route.isClean_clean target.route
      rw [up_mem_divide_iff hbase htarget, ← hrooted]
      cases hb : base.isRooted with
      | false => simp
      | true =>
        have hnone : base.route.clean.steps.count .up = 0 :=
          List.count_eq_zero.mpr (hbase.no_up hb)
        simp [hnone]
    · simp [hrooted]

end TestCatalog.Path
