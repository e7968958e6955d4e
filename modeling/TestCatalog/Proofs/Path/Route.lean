import Mathlib.Data.List.Basic
import TestCatalog.Path.Clean

/-!
# Proofs/Path/Route — a path says the route it is written from

A route is written with a slash between its steps, and read back by splitting at the slashes.  What
can be written so is a route of `Step.Plain` steps: `..`, and names that are not empty, hold no
slash and are neither `.` nor `..`.  Every route that a path says is of this kind.

* `route_ofRoute` — writing a route of plain steps and reading it gives the route.
* `route_join` — a relative path taken from a directory says the steps of both.
-/

namespace TestCatalog.Path

/-! ## Splitting at slashes -/

/-- A slash ends a part, whatever stands before it. -/
theorem partsFrom_append_slash (part a b : List UInt8) :
    partsFrom part (a ++ slash :: b) = partsFrom part a ++ partsFrom [] b := by
  induction a generalizing part with
  | nil =>
    simp only [List.nil_append, partsFrom, if_true]
    split <;> rfl
  | cons c a ih =>
    rw [List.cons_append, partsFrom, partsFrom]
    split
    · split
      · exact ih []
      · rw [ih [], List.cons_append]
    · exact ih (c :: part)

/-- A text without slashes is one part. -/
theorem partsFrom_of_notMem {part bs : List UInt8} (h : slash ∉ bs) :
    partsFrom part bs = if part.reverse ++ bs = [] then [] else [part.reverse ++ bs] := by
  induction bs generalizing part with
  | nil => simp [partsFrom]
  | cons b bs ih =>
    obtain ⟨hb, hbs⟩ := not_or.mp (List.mem_cons.not.mp h)
    rw [partsFrom, if_neg (Ne.symm hb), ih hbs, List.reverse_cons, List.append_assoc,
      List.singleton_append]

/-- **Parts written with slashes between them are read back.** -/
theorem partsFrom_intercalate {names : List (List UInt8)}
    (h : ∀ name ∈ names, name ≠ [] ∧ slash ∉ name) :
    partsFrom [] ([slash].intercalate names) = names := by
  induction names with
  | nil => rfl
  | cons name names ih =>
    obtain ⟨hne, hslash⟩ := h name (by simp)
    have hone : partsFrom [] name = [name] := by rw [partsFrom_of_notMem hslash]; simp [hne]
    cases names with
    | nil => rw [List.intercalate_singleton, hone]
    | cons next names =>
      rw [List.intercalate_cons_cons, List.append_assoc, List.singleton_append,
        partsFrom_append_slash, hone,
        ih fun other hother => h other (List.mem_cons_of_mem _ hother), List.singleton_append]

/-- No part is empty or holds a slash. -/
theorem ne_nil_and_notMem_of_mem_partsFrom {part bs : List UInt8} (hpart : slash ∉ part) :
    ∀ name ∈ partsFrom part bs, name ≠ [] ∧ slash ∉ name := by
  induction bs generalizing part with
  | nil =>
    intro name hname
    rw [partsFrom] at hname
    split at hname
    · simp at hname
    · next hne =>
      obtain rfl := List.mem_singleton.mp hname
      exact ⟨by simpa using hne, by simpa using hpart⟩
  | cons b bs ih =>
    intro name hname
    rw [partsFrom] at hname
    split at hname
    · split at hname
      · exact ih List.not_mem_nil name hname
      · next hne =>
        rcases List.mem_cons.mp hname with rfl | hlater
        · exact ⟨by simpa using hne, by simpa using hpart⟩
        · exact ih List.not_mem_nil name hlater
    · next hb =>
      exact ih (by simp [hpart, Ne.symm hb]) name hname

/-! ## Plain steps -/

/-- A name that an entry of a directory can have. -/
def IsName (text : Raw) : Prop := text ≠ "" ∧ slash ∉ text.bytes ∧ text ≠ "." ∧ text ≠ ".."

instance (text : Raw) : Decidable (IsName text) :=
  inferInstanceAs (Decidable (_ ∧ _ ∧ _ ∧ _))

/-- A step that is read back when it is written. -/
def Step.Plain : Step → Prop
  | .up => True
  | .name text => IsName text

theorem Step.text_ne_nil {s : Step} (h : s.Plain) : s.text.bytes ≠ [] := by
  cases s with
  | up => decide
  | name text => exact fun hnil => h.1 (congrArg Raw.mk hnil)

theorem Step.slash_notMem_text {s : Step} (h : s.Plain) : slash ∉ s.text.bytes := by
  cases s with
  | up => decide
  | name text => exact h.2.1

theorem Step.ofPart?_text {s : Step} (h : s.Plain) : Step.ofPart? s.text = some s := by
  cases s with
  | up => rfl
  | name text =>
    obtain ⟨-, -, hdot, hdots⟩ := h
    rw [Step.text, Step.ofPart?, if_neg hdot, if_neg hdots]

/-- **Every step that a path says is plain.** -/
theorem plain_of_mem_route {p : Path} : ∀ s ∈ p.route.steps, s.Plain := by
  intro s hs
  obtain ⟨part, hpart, hs⟩ := List.mem_filterMap.mp hs
  obtain ⟨name, hname, rfl⟩ := List.mem_map.mp hpart
  obtain ⟨hne, hslash⟩ := ne_nil_and_notMem_of_mem_partsFrom List.not_mem_nil name hname
  rw [Step.ofPart?] at hs
  split at hs
  · cases hs
  · next hdot =>
    split at hs
    · obtain rfl := Option.some.inj hs
      trivial
    · next hdots =>
      obtain rfl := Option.some.inj hs
      exact ⟨fun hnil => hne (congrArg Raw.bytes hnil), hslash, hdot, hdots⟩

/-! ## Writing a route -/

theorem parts_ofRoute {r : Route} (h : ∀ s ∈ r.steps, s.Plain) :
    (ofRoute r).parts = r.steps.map Step.text := by
  have hsplit : partsFrom [] ([slash].intercalate ((r.steps.map Step.text).map Raw.bytes))
      = (r.steps.map Step.text).map Raw.bytes := by
    refine partsFrom_intercalate fun name hname => ?_
    obtain ⟨_, htext, rfl⟩ := List.mem_map.mp hname
    obtain ⟨s, hs, rfl⟩ := List.mem_map.mp htext
    exact ⟨Step.text_ne_nil (h s hs), Step.slash_notMem_text (h s hs)⟩
  have hback : ((r.steps.map Step.text).map Raw.bytes).map Raw.mk = r.steps.map Step.text := by
    simp [Function.comp_def]
  rw [parts, ofRoute]
  cases r.rooted with
  | false => exact (congrArg (List.map Raw.mk) hsplit).trans hback
  | true =>
    refine Eq.trans (congrArg (List.map Raw.mk) ?_) hback
    exact (partsFrom_append_slash [] [] _).trans hsplit

theorem isRooted_ofRoute {r : Route} (h : ∀ s ∈ r.steps, s.Plain) :
    (ofRoute r).isRooted = r.rooted := by
  obtain ⟨rooted, steps⟩ := r
  cases rooted with
  | true => rfl
  | false =>
    cases steps with
    | nil => rfl
    | cons s steps =>
      obtain ⟨b, bs, hbs⟩ := List.exists_cons_of_ne_nil (Step.text_ne_nil (h s (by simp)))
      have hb : b ≠ slash := fun hb =>
        Step.slash_notMem_text (h s (by simp)) (by rw [hbs, hb]; exact List.mem_cons_self)
      simp [isRooted, ofRoute, hbs, hb]

/-- **A route of plain steps is read back as it was written.** -/
theorem route_ofRoute {r : Route} (h : ∀ s ∈ r.steps, s.Plain) : (ofRoute r).route = r := by
  rw [route, isRooted_ofRoute h, parts_ofRoute h, List.filterMap_map]
  have hread : r.steps.filterMap (Step.ofPart? ∘ Step.text) = r.steps :=
    (List.filterMap_congr fun s hs => Step.ofPart?_text (h s hs)).trans List.filterMap_some
  rw [hread]

/-! ## Joining paths -/

theorem isRooted_of_route {p : Path} {r : Route} (h : p.route = r) : p.isRooted = r.rooted :=
  congrArg Route.rooted h

theorem route_of_isRooted {p : Path} {rooted : Bool} (h : p.isRooted = rooted) :
    p.route = ⟨rooted, p.route.steps⟩ := congrArg (Route.mk · p.route.steps) h

theorem parts_child (p : Path) (text : Raw) :
    (p.child text).parts = p.parts ++ (⟨text⟩ : Path).parts := by
  rw [child, base]
  simp only [parts, ← List.map_append]
  refine congrArg (List.map Raw.mk) ?_
  split
  · next h =>
    rw [Raw.bytes_append]
    rcases Bool.or_eq_true _ _ ▸ h with hempty | hslash
    · rw [List.isEmpty_iff.mp hempty, List.nil_append]
      rfl
    · -- The text ends in the slash that divides the two.
      obtain ⟨front, hfront⟩ := List.getLast?_eq_some_iff.mp (beq_iff_eq.mp hslash)
      rw [hfront, List.append_assoc, List.singleton_append, partsFrom_append_slash,
        partsFrom_append_slash]
      simp [partsFrom]
  · rw [Raw.bytes_append, Raw.bytes_append, List.append_assoc]
    exact partsFrom_append_slash [] _ _

theorem isRooted_child (p : Path) {text : Raw} (h : (⟨text⟩ : Path).isRooted = false) :
    (p.child text).isRooted = p.isRooted := by
  rw [child, base]
  cases hp : p.text.bytes with
  | nil =>
    have hempty : p.text.isEmpty = true := List.isEmpty_iff.mpr hp
    rw [if_pos (by rw [hempty]; rfl), isRooted, isRooted, Raw.bytes_append, hp]
    exact h
  | cons b bs =>
    split <;> simp [isRooted, hp]

/-- **A relative path taken from a directory says the steps of both.** -/
theorem route_join (p : Path) {q : Path} (h : q.isRooted = false) :
    (p.join q).route = ⟨p.isRooted, p.route.steps ++ q.route.steps⟩ := by
  rw [join, if_neg (by rw [h]; decide), route, isRooted_child p h, parts_child,
    List.filterMap_append]
  rfl

end TestCatalog.Path
