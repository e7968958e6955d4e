import Mathlib.Data.List.Nodup
import Mathlib.Data.List.Perm.Basic
import TestCatalog.Catalog.Build

/-!
# Proofs/Catalog/Schedule — the order of the work leaves no trace in its values

Work on the elements of a list succeeds exactly when the work on each element does, and its values
are those of the elements, place by place.

* `Logged.each_eq_ok_iff` — this for work from left to right.
* `Schedule.each_eq_ok_iff` — this for work in the order of any schedule.

The second carries each value with the place of its element.  A schedule permutes the places, the
values move with them, and the places sort back in one way only (`mergeSort_place`).
-/

namespace TestCatalog

namespace Log.Logged

variable {α β : Type}

/-- **Work on a list gives the values of its elements, place by place.** -/
theorem each_eq_ok_iff {work : α → Logged β} {list : List α} {values : List β} :
    (each work list).result = .ok values
      ↔ List.Forall₂ (fun a b => (work a).result = .ok b) list values := by
  induction list generalizing values with
  | nil =>
    rw [each, result_pure, List.forall₂_nil_left_iff, Except.ok.injEq]
    exact eq_comm
  | cons a rest ih =>
    rw [each, result_bind_eq_ok_iff, List.forall₂_cons_left_iff]
    refine exists_congr fun b => ?_
    rw [result_bind_eq_ok_iff, exists_and_left]
    refine and_congr_right fun _ => exists_congr fun bs => and_congr ih ?_
    rw [result_pure, Except.ok.injEq]
    exact eq_comm

end Log.Logged

namespace Catalog

open Log

variable {α β : Type}

/-! ## Values and their places -/

/-- The work on an element gives a value at the same place. -/
def GivesAt (work : α → Logged β) (a : α × Nat) (b : β × Nat) : Prop :=
  (work a.1).result = .ok b.1 ∧ b.2 = a.2

theorem forall₂_givesAt_zipIdx {work : α → Logged β} {list : List α} {values : List β} {n : Nat}
    (h : List.Forall₂ (fun a b => (work a).result = .ok b) list values) :
    List.Forall₂ (GivesAt work) (list.zipIdx n) (values.zipIdx n) := by
  induction h generalizing n with
  | nil => exact .nil
  | cons hab _ ih => exact .cons ⟨hab, rfl⟩ ih

/-- **Values that keep their places are numbered as their elements are.** -/
theorem eq_zipIdx_of_forall₂_givesAt {work : α → Logged β} {list : List α} {n : Nat}
    {done : List (β × Nat)} (h : List.Forall₂ (GivesAt work) (list.zipIdx n) done) :
    ∃ values, done = values.zipIdx n
      ∧ List.Forall₂ (fun a b => (work a).result = .ok b) list values := by
  induction list generalizing n done with
  | nil =>
    obtain rfl := List.forall₂_nil_left_iff.mp h
    exact ⟨[], rfl, .nil⟩
  | cons a rest ih =>
    rw [List.zipIdx_cons, List.forall₂_cons_left_iff] at h
    obtain ⟨⟨b, place⟩, later, ⟨hb, hplace⟩, hlater, rfl⟩ := h
    obtain ⟨values, rfl, hvalues⟩ := ih hlater
    obtain rfl : place = n := hplace
    exact ⟨b :: values, rfl, .cons hb hvalues⟩

theorem pairwise_zipIdx (values : List β) (n : Nat) :
    (values.zipIdx n).Pairwise fun a b => a.2 < b.2 := by
  rw [← List.pairwise_map (f := Prod.snd), List.zipIdx_map_snd]
  exact List.pairwise_lt_range'

/-- **Places sort back in one way**: whatever order numbered values are taken in, sorting by place
returns the numbering. -/
theorem mergeSort_place {values : List β} {done : List (β × Nat)} (h : done.Perm values.zipIdx) :
    done.mergeSort (fun a b => a.2 ≤ b.2) = values.zipIdx := by
  have hsorted := @List.pairwise_mergeSort _ (fun a b : β × Nat => decide (a.2 ≤ b.2))
    (fun a b c => by simp only [decide_eq_true_eq]; omega)
    (fun a b => by simp only [Bool.or_eq_true, decide_eq_true_eq]; omega) done
  have hnumbered := pairwise_zipIdx values 0
  refine List.Perm.eq_of_pairwise (fun a b ha hb hab hba => ?_) hsorted
    (hnumbered.imp fun hlt => by simp only [decide_eq_true_eq]; omega)
    ((List.mergeSort_perm done _).trans h)
  -- Two values at one place are the same value, because the numbering is strict.
  have hplace : a.2 = b.2 := by simp only [decide_eq_true_eq] at hab hba; omega
  have hnodup : (values.zipIdx.map Prod.snd).Nodup :=
    List.pairwise_map.mpr (hnumbered.imp fun hlt => Nat.ne_of_lt hlt)
  exact List.inj_on_of_nodup_map hnodup (h.mem_iff.mp (List.mem_mergeSort.mp ha)) hb hplace

/-! ## Work in the order of a schedule -/

theorem givesAt_iff {work : α → Logged β} {a : α × Nat} {b : β × Nat} :
    (do return (← work a.1, a.2) : Logged (β × Nat)).result = .ok b ↔ GivesAt work a b := by
  obtain ⟨b, place⟩ := b
  rw [Logged.result_bind_eq_ok_iff]
  constructor
  · rintro ⟨b', hb', hpair⟩
    rw [Logged.result_pure, Except.ok.injEq, Prod.mk.injEq] at hpair
    obtain ⟨rfl, rfl⟩ := hpair
    exact ⟨hb', rfl⟩
  · rintro ⟨hb, rfl⟩
    exact ⟨b, hb, rfl⟩

/-- **Scheduled work gives the values of the elements, place by place**, whatever the schedule. -/
theorem Schedule.each_eq_ok_iff {schedule : Schedule} {work : α → Logged β} {list : List α}
    {values : List β} :
    (schedule.each work list).result = .ok values
      ↔ List.Forall₂ (fun a b => (work a).result = .ok b) list values := by
  have hdone : ∀ done, (Logged.each (fun a => do return (← work a.1, a.2))
      (schedule.arrange list.zipIdx)).result = .ok done
        ↔ List.Forall₂ (GivesAt work) (schedule.arrange list.zipIdx) done := by
    intro done
    rw [Logged.each_eq_ok_iff]
    exact ⟨fun h => h.imp fun _ _ => givesAt_iff.mp, fun h => h.imp fun _ _ => givesAt_iff.mpr⟩
  rw [Schedule.each, Logged.result_bind_eq_ok_iff]
  constructor
  · rintro ⟨done, h, hvalues⟩
    obtain ⟨placed, hplaced, hperm⟩ :=
      List.perm_comp_forall₂ (schedule.perm list.zipIdx).symm ((hdone done).mp h)
    obtain ⟨values', rfl, hvalues'⟩ := eq_zipIdx_of_forall₂_givesAt hplaced
    rw [Logged.result_pure, Except.ok.injEq, mergeSort_place hperm.symm,
      List.zipIdx_map_fst] at hvalues
    exact hvalues ▸ hvalues'
  · intro h
    obtain ⟨done, hdone', hperm⟩ :=
      List.perm_comp_forall₂ (schedule.perm list.zipIdx) (forall₂_givesAt_zipIdx h)
    refine ⟨done, (hdone done).mpr hdone', ?_⟩
    rw [Logged.result_pure, mergeSort_place hperm, List.zipIdx_map_fst]

end Catalog

end TestCatalog
