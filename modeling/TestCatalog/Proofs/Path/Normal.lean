import Mathlib.Data.List.Induction
import TestCatalog.Proofs.Path.Route

/-!
# Proofs/Path/Normal — cleaned paths

A route is clean (`Route.IsClean`) when it goes up only at its start, and not at all if it starts at
the root.  The stack of `Route.clean` holds a clean route, last step first; `Route.step_cases` says
the three things one step can do to it, and everything else follows from that.

* `Route.isClean_clean`, `Route.IsClean.clean_eq` — cleaning gives a clean route, and changes no
  route that is clean already.
* `Route.foldl_step_clean` — a route and its cleaned form lead from every directory to the same
  place.
* `route_clean` — a cleaned path says the cleaned route.
-/

namespace TestCatalog.Path

namespace Route

variable {rooted : Bool} {back steps : List Step}

/-! ## One step -/

/-- **What one step does to the stack**: it is put on it, or it takes a name back, or it goes
nowhere at the root.  It goes up for good only where nothing can be taken back. -/
theorem step_cases (rooted : Bool) (back : List Step) (s : Step) :
    (step rooted back s = s :: back
        ∧ (s = .up → back.head? = some .up ∨ back = [] ∧ rooted = false))
    ∨ (s = .up ∧ ∃ text, back = .name text :: step rooted back s)
    ∨ (s = .up ∧ back = [] ∧ rooted = true ∧ step rooted back s = []) := by
  cases s with
  | name text => exact .inl ⟨rfl, nofun⟩
  | up =>
    cases back with
    | nil =>
      cases rooted with
      | false => exact .inl ⟨rfl, fun _ => .inr ⟨rfl, rfl⟩⟩
      | true => exact .inr (.inr ⟨rfl, rfl, rfl, rfl⟩)
    | cons last rest =>
      cases last with
      | up => exact .inl ⟨rfl, fun _ => .inl rfl⟩
      | name text => exact .inr (.inl ⟨rfl, text, rfl⟩)

theorem plain_step (hback : ∀ t ∈ back, t.Plain) {s : Step} (hs : s.Plain) :
    ∀ t ∈ step rooted back s, t.Plain := by
  intro t ht
  rcases step_cases rooted back s with ⟨hpush, -⟩ | ⟨-, text, hpop⟩ | ⟨-, -, -, hstay⟩
  · rcases List.mem_cons.mp (hpush ▸ ht) with rfl | ht
    · exact hs
    · exact hback t ht
  · exact hback t (hpop ▸ List.mem_cons_of_mem _ ht)
  · rw [hstay] at ht
    cases ht

/-- Cleaning brings in no step but `..`. -/
theorem plain_clean {r : Route} (h : ∀ s ∈ r.steps, s.Plain) : ∀ s ∈ r.clean.steps, s.Plain := by
  have hback : ∀ s ∈ r.steps.foldl (step r.rooted) [], s.Plain :=
    List.foldlRecOn (motive := fun back : List Step => ∀ s ∈ back, s.Plain) _ _
      (fun _ hs => absurd hs List.not_mem_nil) fun _ hback s hs => plain_step hback (h s hs)
  exact fun s hs => hback s (List.mem_reverse.mp hs)

/-! ## Clean routes -/

/-- A route without detours: it goes up only at its start, and not from the root. -/
structure IsClean (r : Route) : Prop where
  /-- What comes before a step up is a step up. -/
  ups_first : r.steps.Pairwise fun a b => b = .up → a = .up
  /-- At the root there is no way up. -/
  no_up : r.rooted = true → Step.up ∉ r.steps

theorem isClean_nil : IsClean ⟨rooted, []⟩ := ⟨.nil, fun _ => List.not_mem_nil⟩

/-- Leaving steps out keeps a route clean. -/
theorem IsClean.of_sublist {part : List Step} (h : IsClean ⟨rooted, steps⟩)
    (hpart : part.Sublist steps) : IsClean ⟨rooted, part⟩ :=
  ⟨h.ups_first.sublist hpart, fun hrooted hup => h.no_up hrooted (hpart.subset hup)⟩

/-- Names can be put after a clean route. -/
theorem IsClean.append_names (h : IsClean ⟨rooted, steps⟩) (names : List Raw) :
    IsClean ⟨rooted, steps ++ names.map .name⟩ := by
  have hnames : Step.up ∉ names.map Step.name := by simp
  refine ⟨List.pairwise_append.mpr ⟨h.ups_first, ?_, ?_⟩, fun hrooted hup => ?_⟩
  · exact List.pairwise_of_forall_mem_list fun a _ b hb hup => absurd (hup ▸ hb) hnames
  · exact fun a _ b hb hup => absurd (hup ▸ hb) hnames
  · exact (List.mem_append.mp hup).elim (h.no_up hrooted) hnames

/-- A step up can be put after steps up. -/
theorem IsClean.append_up (hups : ∀ s ∈ steps, s = .up) : IsClean ⟨false, steps ++ [.up]⟩ := by
  refine ⟨List.pairwise_of_forall_mem_list fun a ha _ _ _ => ?_, nofun⟩
  exact (List.mem_append.mp ha).elim (hups a) List.mem_singleton.mp

/-- **Before a step up there are only steps up.** -/
theorem IsClean.eq_up_of_mem {later : List Step} (h : IsClean ⟨rooted, steps ++ later⟩)
    (hup : Step.up ∈ later) : ∀ s ∈ steps, s = .up :=
  fun s hs => (List.pairwise_append.mp h.ups_first).2.2 s hs .up hup rfl

/-- A clean route that goes up anywhere starts by going up. -/
theorem IsClean.head?_eq_up (h : IsClean ⟨rooted, steps⟩) (hup : Step.up ∈ steps) :
    steps.head? = some .up := by
  cases steps with
  | nil => cases hup
  | cons s rest =>
    rcases List.mem_cons.mp hup with rfl | hup
    · rfl
    · rw [(List.pairwise_cons.mp h.ups_first).1 .up hup rfl]
      rfl

/-- **One step keeps the stack clean.** -/
theorem isClean_step (h : IsClean ⟨rooted, back.reverse⟩) (s : Step) :
    IsClean ⟨rooted, (step rooted back s).reverse⟩ := by
  rcases step_cases rooted back s with ⟨hpush, hup⟩ | ⟨-, text, hpop⟩ | ⟨-, -, -, hstay⟩
  · rw [hpush, List.reverse_cons]
    cases s with
    | name text => exact h.append_names [text]
    | up =>
      rcases hup rfl with hlast | ⟨rfl, rfl⟩
      · -- The stack ends in a step up, so it holds nothing else and the root is not below it.
        obtain ⟨rest, rfl⟩ := List.head?_eq_some_iff.mp hlast
        rw [List.reverse_cons] at h ⊢
        have hrest := h.eq_up_of_mem (List.mem_singleton.mpr rfl)
        cases rooted with
        | true => exact absurd (List.mem_append_right _ List.mem_cons_self) (h.no_up rfl)
        | false =>
          refine IsClean.append_up fun t ht => ?_
          exact (List.mem_append.mp ht).elim (hrest t) List.mem_singleton.mp
      · exact IsClean.append_up fun t ht => absurd ht List.not_mem_nil
  · rw [hpop, List.reverse_cons] at h
    exact h.of_sublist (List.sublist_append_left _ _)
  · rw [hstay]
    exact isClean_nil

/-- **Cleaning gives a clean route.** -/
theorem isClean_clean (r : Route) : r.clean.IsClean := by
  refine List.foldlRecOn (motive := fun back : List Step => IsClean ⟨r.rooted, back.reverse⟩)
    r.steps _ isClean_nil ?_
  exact fun back h s _ => isClean_step h s

/-- **Steps that stay clean are all kept.** -/
theorem foldl_step_of_isClean (h : IsClean ⟨rooted, back.reverse ++ steps⟩) :
    steps.foldl (step rooted) back = steps.reverse ++ back := by
  induction steps generalizing back with
  | nil => rfl
  | cons s steps ih =>
    have hback : IsClean ⟨rooted, back.reverse ++ [s]⟩ :=
      h.of_sublist ((List.singleton_sublist.mpr List.mem_cons_self).append_left _)
    have hpush : step rooted back s = s :: back := by
      rcases step_cases rooted back s with ⟨hpush, -⟩ | ⟨rfl, text, hpop⟩ | ⟨rfl, -, hrooted, -⟩
      · exact hpush
      · have hname := hback.eq_up_of_mem List.mem_cons_self (.name text) (by rw [hpop]; simp)
        cases hname
      · exact absurd (List.mem_append_right _ List.mem_cons_self) (hback.no_up hrooted)
    rw [List.foldl_cons, hpush, ih (by rwa [List.reverse_cons, List.append_assoc]),
      List.reverse_cons, List.append_assoc, List.singleton_append]

/-- **A clean route is its own cleaned form.** -/
theorem IsClean.clean_eq {r : Route} (h : r.IsClean) : r.clean = r := by
  have hkept : r.steps.foldl (step r.rooted) [] = r.steps.reverse ++ [] := foldl_step_of_isClean h
  rw [Route.clean, hkept, List.append_nil, List.reverse_reverse]

theorem clean_clean (r : Route) : r.clean.clean = r.clean := (isClean_clean r).clean_eq

/-! ## Steps after steps -/

/-- Cleaning can stop in the middle and go on from there. -/
theorem clean_append (rooted : Bool) (a b : List Step) :
    clean ⟨rooted, a ++ b⟩
      = ⟨rooted, (b.foldl (step rooted) (clean ⟨rooted, a⟩).steps.reverse).reverse⟩ := by
  simp only [clean, List.foldl_append, List.reverse_reverse]

/-- **A route and its cleaned form lead to the same place**, from whatever directory. -/
theorem foldl_step_clean (rooted : Bool) (back steps : List Step) :
    (clean ⟨false, steps⟩).steps.foldl (step rooted) back = steps.foldl (step rooted) back := by
  induction steps using List.reverseRecOn with
  | nil => rfl
  | append_singleton steps s ih =>
    rw [clean_append, List.foldl_append, ← ih, List.foldl_cons, List.foldl_nil, List.foldl_cons,
      List.foldl_nil]
    generalize (clean ⟨false, steps⟩).steps = cleaned
    rcases step_cases false cleaned.reverse s with ⟨hpush, -⟩ | ⟨rfl, text, hpop⟩ | ⟨-, -, h, -⟩
    · rw [hpush, List.reverse_cons, List.reverse_reverse, List.foldl_append, List.foldl_cons,
        List.foldl_nil]
    · -- The step takes back the last name, which was put on the stack just before.
      generalize step false cleaned.reverse .up = rest at hpop
      rw [List.reverse_eq_iff.mp hpop, List.reverse_cons, List.foldl_append, List.foldl_cons,
        List.foldl_nil]
      rfl
    · cases h

/-- Cleaning the later steps first makes no difference. -/
theorem clean_append_clean (rooted : Bool) (a b : List Step) :
    clean ⟨rooted, a ++ (clean ⟨false, b⟩).steps⟩ = clean ⟨rooted, a ++ b⟩ := by
  rw [clean_append, clean_append, foldl_step_clean]

/-- Cleaning the earlier steps first makes no difference. -/
theorem clean_clean_append (rooted : Bool) (a b : List Step) :
    clean ⟨rooted, (clean ⟨rooted, a⟩).steps ++ b⟩ = clean ⟨rooted, a ++ b⟩ := by
  have hclean : clean ⟨rooted, (clean ⟨rooted, a⟩).steps⟩ = clean ⟨rooted, a⟩ :=
    clean_clean ⟨rooted, a⟩
  rw [clean_append, clean_append, hclean]

/-- A name at the end stays there. -/
theorem getLast?_clean_append_name (rooted : Bool) (steps : List Step) (name : Raw) :
    (clean ⟨rooted, steps ++ [.name name]⟩).steps.getLast? = some (.name name) := by
  rw [clean_append, List.foldl_cons, List.foldl_nil, step, List.reverse_cons,
    List.getLast?_concat]

end Route

/-! ## Cleaned paths -/

theorem plain_of_mem_clean {p : Path} : ∀ s ∈ p.route.clean.steps, s.Plain :=
  Route.plain_clean plain_of_mem_route

/-- **A cleaned path says the cleaned route.** -/
theorem route_clean (p : Path) : p.clean.route = p.route.clean := route_ofRoute plain_of_mem_clean

theorem parts_clean (p : Path) : p.clean.parts = p.route.clean.steps.map Step.text :=
  parts_ofRoute plain_of_mem_clean

theorem isRooted_clean (p : Path) : p.clean.isRooted = p.isRooted :=
  isRooted_ofRoute plain_of_mem_clean

/-- **Cleaned paths are equal exactly when their routes are.** -/
theorem clean_eq_clean_iff {p q : Path} : p.clean = q.clean ↔ p.route.clean = q.route.clean := by
  constructor
  · intro h
    rw [← route_clean, ← route_clean, h]
  · exact congrArg ofRoute

end TestCatalog.Path
