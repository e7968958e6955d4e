import Mathlib.Data.List.Basic

/-!
# Proofs/Text/Stretch — things that stand one after another

A thing *lies* in a stretch of a text when all its offsets are there; `InOrder` says that things lie
one after another, in stretches that do not overlap.  So no offset is in two of them
(`InOrder.index_eq`), and if the offsets of each ascend, those of all do (`InOrder.ascend`).
-/

namespace TestCatalog.Text

variable {α β : Type} {Lies : α → Nat → Nat → Prop} {Lies' : β → Nat → Nat → Prop}

/-- **Things that lie one after another** between two offsets. -/
def InOrder (Lies : α → Nat → Nat → Prop) : List α → Nat → Nat → Prop
  | [], lo, hi => lo ≤ hi
  | x :: xs, lo, hi => ∃ mid, Lies x lo mid ∧ InOrder Lies xs mid hi

/-- What lies in a stretch also lies in every longer one. -/
structure Stretches (Lies : α → Nat → Nat → Prop) : Prop where
  /-- A stretch ends behind its start. -/
  le : ∀ {x lo hi}, Lies x lo hi → lo ≤ hi
  /-- It may be made longer. -/
  mono : ∀ {x lo lo' hi hi'}, Lies x lo hi → lo' ≤ lo → hi ≤ hi' → Lies x lo' hi'

section

variable {xs ys : List α} {lo lo' mid hi hi' : Nat} (hlies : Stretches Lies)
include hlies

theorem InOrder.le (h : InOrder Lies xs lo hi) : lo ≤ hi := by
  induction xs generalizing lo with
  | nil => exact h
  | cons x xs ih =>
    obtain ⟨mid, hx, hxs⟩ := h
    exact Nat.le_trans (hlies.le hx) (ih hxs)

theorem InOrder.mono (h : InOrder Lies xs lo hi) (hlo : lo' ≤ lo) (hhi : hi ≤ hi') :
    InOrder Lies xs lo' hi' := by
  induction xs generalizing lo lo' with
  | nil => exact Nat.le_trans hlo (Nat.le_trans h hhi)
  | cons x xs ih =>
    obtain ⟨mid, hx, hxs⟩ := h
    exact ⟨mid, hlies.mono hx hlo (Nat.le_refl mid), ih hxs (Nat.le_refl mid)⟩

theorem InOrder.append (h : InOrder Lies xs lo mid) (h' : InOrder Lies ys mid hi) :
    InOrder Lies (xs ++ ys) lo hi := by
  induction xs generalizing lo with
  | nil => exact h'.mono hlies h (Nat.le_refl hi)
  | cons x xs ih =>
    obtain ⟨next, hx, hxs⟩ := h
    exact ⟨next, hx, ih hxs⟩

theorem InOrder.of_mem (h : InOrder Lies xs lo hi) {x : α} (hx : x ∈ xs) : Lies x lo hi := by
  induction xs generalizing lo with
  | nil => cases hx
  | cons y xs ih =>
    obtain ⟨mid, hy, hxs⟩ := h
    rcases List.mem_cons.mp hx with rfl | hx
    · exact hlies.mono hy (Nat.le_refl lo) (hxs.le hlies)
    · exact hlies.mono (ih hxs hx) (hlies.le hy) (Nat.le_refl hi)

theorem InOrder.sublist (h : InOrder Lies xs lo hi) (hsub : ys.Sublist xs) :
    InOrder Lies ys lo hi := by
  induction hsub generalizing lo with
  | slnil => exact h
  | cons x _ ih =>
    obtain ⟨mid, hx, hxs⟩ := h
    exact (ih hxs).mono hlies (hlies.le hx) (Nat.le_refl hi)
  | cons_cons x _ ih =>
    obtain ⟨mid, hx, hxs⟩ := h
    exact ⟨mid, hx, ih hxs⟩

/-- Of two things in order, one ends before the other starts. -/
theorem InOrder.pairwise (h : InOrder Lies xs lo hi) :
    xs.Pairwise fun x y => ∃ mid, Lies x lo mid ∧ Lies y mid hi := by
  induction xs generalizing lo with
  | nil => exact .nil
  | cons x xs ih =>
    obtain ⟨mid, hx, hxs⟩ := h
    refine .cons (fun y hy => ⟨mid, hx, hxs.of_mem hlies hy⟩) ((ih hxs).imp ?_)
    rintro y z ⟨next, hy, hz⟩
    exact ⟨next, hlies.mono hy (hlies.le hx) (Nat.le_refl next), hz⟩

end

/-- An offset is inside a thing, wherever the thing is said to lie. -/
def Inside (Lies : α → Nat → Nat → Prop) (x : α) (offset : Nat) : Prop :=
  ∀ lo hi, Lies x lo hi → lo ≤ offset ∧ offset < hi

theorem Inside.ne {x y : α} {n m lo mid hi : Nat} (hn : Inside Lies x n) (hm : Inside Lies y m)
    (hx : Lies x lo mid) (hy : Lies y mid hi) : n ≠ m := by
  have hbelow := hn _ _ hx
  have habove := hm _ _ hy
  omega

/-- Things of which neither comes apart from the other are one. -/
theorem index_eq_of_pairwise {R : α → α → Prop} {xs : List α} (h : xs.Pairwise R) {i j : Nat}
    {x y : α} (hi : xs[i]? = some x) (hj : xs[j]? = some y) (hxy : ¬ R x y) (hyx : ¬ R y x) :
    i = j := by
  obtain ⟨hilt, rfl⟩ := List.getElem?_eq_some_iff.mp hi
  obtain ⟨hjlt, rfl⟩ := List.getElem?_eq_some_iff.mp hj
  have hapart := List.pairwise_iff_getElem.mp h
  rcases Nat.lt_trichotomy i j with hij | hij | hij
  · exact absurd (hapart i j hilt hjlt hij) hxy
  · exact hij
  · exact absurd (hapart j i hjlt hilt hij) hyx

/-- **An offset is inside one thing only.** -/
theorem InOrder.index_eq (hlies : Stretches Lies) {xs : List α} {lo hi : Nat}
    (h : InOrder Lies xs lo hi) {i j : Nat} {x y : α} (hi : xs[i]? = some x) (hj : xs[j]? = some y)
    {offset : Nat} (hx : Inside Lies x offset) (hy : Inside Lies y offset) : i = j := by
  refine index_eq_of_pairwise (h.pairwise hlies) hi hj ?_ ?_
  · rintro ⟨mid, hbefore, hbehind⟩
    exact hx.ne hy hbefore hbehind rfl
  · rintro ⟨mid, hbefore, hbehind⟩
    exact hy.ne hx hbefore hbehind rfl

section

variable {xs ys : List α} {lo hi : Nat}

/-- Where one list of things ends, the next one goes on. -/
theorem InOrder.split (h : InOrder Lies (xs ++ ys) lo hi) :
    ∃ mid, InOrder Lies xs lo mid ∧ InOrder Lies ys mid hi := by
  induction xs generalizing lo with
  | nil => exact ⟨lo, Nat.le_refl lo, h⟩
  | cons x xs ih =>
    obtain ⟨next, hx, hxs⟩ := h
    obtain ⟨mid, hxs, hys⟩ := ih hxs
    exact ⟨mid, ⟨next, hx, hxs⟩, hys⟩

theorem InOrder.map {f : α → β} (h : InOrder Lies xs lo hi)
    (hf : ∀ x ∈ xs, ∀ a b, Lies x a b → Lies' (f x) a b) : InOrder Lies' (xs.map f) lo hi := by
  induction xs generalizing lo with
  | nil => exact h
  | cons x xs ih =>
    obtain ⟨mid, hx, hxs⟩ := h
    obtain ⟨hfx, hfxs⟩ := List.forall_mem_cons.mp hf
    exact ⟨mid, hfx _ _ hx, ih hxs hfxs⟩

/-- Things may be left out while the others are turned into something else. -/
theorem InOrder.filterMap {f : α → Option β} (hlies : Stretches Lies) (hlies' : Stretches Lies')
    (h : InOrder Lies xs lo hi) (hf : ∀ x ∈ xs, ∀ y ∈ f x, ∀ a b, Lies x a b → Lies' y a b) :
    InOrder Lies' (xs.filterMap f) lo hi := by
  induction xs generalizing lo with
  | nil => exact h
  | cons x xs ih =>
    obtain ⟨mid, hx, hxs⟩ := h
    obtain ⟨hfx, hfxs⟩ := List.forall_mem_cons.mp hf
    have hlater := ih hxs hfxs
    cases hy : f x with
    | none =>
      rw [List.filterMap_cons_none hy]
      exact hlater.mono hlies' (hlies.le hx) (Nat.le_refl hi)
    | some y =>
      rw [List.filterMap_cons_some hy]
      exact ⟨mid, hfx y hy _ _ hx, hlater⟩

end

/-! ## Ascending offsets -/

/-- **Offsets that ascend in a stretch**, some of them equal perhaps. -/
structure Ascend (offsets : List Nat) (lo hi : Nat) : Prop where
  /-- The stretch ends behind its start. -/
  le : lo ≤ hi
  /-- No offset is below one before it. -/
  sorted : offsets.Pairwise (· ≤ ·)
  /-- They are in the stretch. -/
  bounds : ∀ n ∈ offsets, lo ≤ n ∧ n < hi

section

variable {offsets later : List Nat} {n lo lo' mid hi hi' : Nat}

theorem Ascend.nil (h : lo ≤ hi) : Ascend [] lo hi := ⟨h, .nil, nofun⟩

theorem Ascend.mono (h : Ascend offsets lo hi) (hlo : lo' ≤ lo) (hhi : hi ≤ hi') :
    Ascend offsets lo' hi' := by
  refine ⟨Nat.le_trans hlo (Nat.le_trans h.le hhi), h.sorted, fun n hn => ?_⟩
  obtain ⟨hlow, hhigh⟩ := h.bounds n hn
  exact ⟨Nat.le_trans hlo hlow, Nat.lt_of_lt_of_le hhigh hhi⟩

/-- Where one stretch ends, the next may start. -/
theorem Ascend.append (h : Ascend offsets lo mid) (h' : Ascend later mid hi) :
    Ascend (offsets ++ later) lo hi := by
  refine ⟨Nat.le_trans h.le h'.le, List.pairwise_append.mpr ⟨h.sorted, h'.sorted, ?_⟩, ?_⟩
  · intro a ha b hb
    have hbelow := (h.bounds a ha).2
    have habove := (h'.bounds b hb).1
    omega
  · intro n hn
    rcases List.mem_append.mp hn with hn | hn
    · exact (h.mono (Nat.le_refl lo) h'.le).bounds n hn
    · exact (h'.mono h.le (Nat.le_refl hi)).bounds n hn

/-- The start of a stretch may be one of its offsets. -/
theorem Ascend.cons (h : Ascend offsets n hi) (hlo : lo ≤ n) (hhi : n < hi) :
    Ascend (n :: offsets) lo hi := by
  refine ⟨Nat.le_trans hlo h.le, .cons (fun m hm => (h.bounds m hm).1) h.sorted, ?_⟩
  exact List.forall_mem_cons.mpr ⟨⟨hlo, hhi⟩, (h.mono hlo (Nat.le_refl hi)).bounds⟩

theorem Ascend.singleton (hlo : lo ≤ n) (hhi : n < hi) : Ascend [n] lo hi :=
  (Ascend.nil (Nat.le_of_lt hhi)).cons hlo hhi

theorem stretches_ascend (offsets : α → List Nat) : Stretches fun x => Ascend (offsets x) :=
  ⟨Ascend.le, Ascend.mono⟩

/-- **Offsets ascend through things in order**, if they do in each. -/
theorem InOrder.ascend {offsets : α → List Nat} {xs : List α}
    (h : InOrder Lies xs lo hi) (hx : ∀ x ∈ xs, ∀ a b, Lies x a b → Ascend (offsets x) a b) :
    Ascend (xs.flatMap offsets) lo hi := by
  induction xs generalizing lo with
  | nil => exact .nil h
  | cons x xs ih =>
    obtain ⟨mid, hlies, hxs⟩ := h
    obtain ⟨hfirst, hlater⟩ := List.forall_mem_cons.mp hx
    exact (hfirst _ _ hlies).append (ih hxs hlater)

end

end TestCatalog.Text
