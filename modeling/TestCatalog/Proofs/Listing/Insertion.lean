import Mathlib.Data.List.Flatten
import TestCatalog.Proofs.Listing.Site

/-!
# Proofs/Listing/Insertion — a body that grows keeps its children

A loop over a table looks back at every statement before it, so a statement that is put into a body
can change what each later loop finds.  It only ever adds to it: the tables that were there are
still gone through, in the same order.

* `childrenAfter_append` — a body is gone through part after part, each part with all that stands
  before it.
* `childrenAfter_sublist` — the more stands before, the more is found, and nothing changes places.
* `childrenAfter_insert` — so the children of a body are among those of a body that has grown.
* `entries_insert` — no child is lost by an insertion, later statements leave the earlier children
  alone, and only a statement that starts subtests takes the entry of the function away.
-/

namespace TestCatalog.Listing

open Source
open scoped List

variable {nearest nearest' : List Stmt}

/-! ## What stands before -/

/-- A statement finds more when more stands before it: a loop gathers the cases before it statement
by statement, and no other statement looks back. -/
theorem childrenOf_sublist (h : nearest.Sublist nearest') (s : Stmt) :
    (childrenOf nearest s).Sublist (childrenOf nearest' s) := by
  unfold childrenOf
  cases shape s with
  | plain => exact List.Sublist.refl []
  | run call => exact List.Sublist.refl _
  | loop body =>
    dsimp only
    cases loopField? body with
    | none => exact List.Sublist.refl []
    | some field => exact h.flatMap (rowsOf field)

/-- **The rest of a body finds more when more stands before it**, and in the same order. -/
theorem childrenAfter_sublist (h : nearest.Sublist nearest') (rest : List Stmt) :
    (childrenAfter nearest rest).Sublist (childrenAfter nearest' rest) := by
  induction rest generalizing nearest nearest' with
  | nil => exact List.Sublist.refl []
  | cons s rest ih => exact (childrenOf_sublist h s).append (ih (h.cons_cons s))

/-- **A body is gone through part after part**: the second part finds all of the first before it,
the nearest statement first. -/
theorem childrenAfter_append (nearest first second : List Stmt) :
    childrenAfter nearest (first ++ second)
      = childrenAfter nearest first ++ childrenAfter (first.reverse ++ nearest) second := by
  induction first generalizing nearest with
  | nil => rfl
  | cons s first ih =>
    rw [List.cons_append, childrenAfter, childrenAfter, ih, List.append_assoc, List.reverse_cons,
      List.append_assoc, List.singleton_append]

/-- **An insertion loses nothing**: the first part stays as it is, what is inserted adds its own,
and the last part finds all that it found before. -/
theorem childrenAfter_insert (nearest before inserted after : List Stmt) :
    childrenAfter nearest (before ++ after)
      <+ childrenAfter nearest (before ++ inserted ++ after) := by
  have hmore : before.reverse ++ nearest <+ (before ++ inserted).reverse ++ nearest := by
    rw [List.reverse_append, List.append_assoc]
    exact List.sublist_append_right _ _
  calc childrenAfter nearest (before ++ after)
    _ = childrenAfter nearest before ++ childrenAfter (before.reverse ++ nearest) after :=
        childrenAfter_append nearest before after
    _ <+ childrenAfter nearest (before ++ inserted)
          ++ childrenAfter ((before ++ inserted).reverse ++ nearest) after := by
        rw [childrenAfter_append nearest before inserted]
        exact (List.sublist_append_left _ _).append (childrenAfter_sublist hmore after)
    _ = childrenAfter nearest (before ++ inserted ++ after) :=
        (childrenAfter_append nearest (before ++ inserted) after).symm

/-! ## Children among the entries -/

/-- A statement that starts no subtests brings no children. -/
theorem childrenOf_eq_nil {s : Stmt} (h : startsChildren s = false) (nearest : List Stmt) :
    childrenOf nearest s = [] := by
  have hshape : shape s = .plain := by
    rw [startsChildren] at h
    cases hs : shape s with
    | plain => rfl
    | run call => rw [hs] at h; cases h
    | loop body => rw [hs] at h; cases h
  rw [childrenOf, hshape]

theorem childrenAfter_eq_nil {rest : List Stmt} (h : rest.any startsChildren = false)
    (nearest : List Stmt) : childrenAfter nearest rest = [] := by
  induction rest generalizing nearest with
  | nil => rfl
  | cons s rest ih =>
    rw [List.any_cons, Bool.or_eq_false_iff] at h
    rw [childrenAfter, childrenOf_eq_nil h.1, ih h.2, List.nil_append]

/-- **The children among the entries of a function are those of its body**, also when the function
is its own entry. -/
theorem filterMap_child_entries (f : Function) :
    (entries f).filterMap Entry.child = children f := by
  rw [entries]
  split_ifs with h
  · rw [List.filterMap_map]
    exact List.filterMap_some
  · exact (childrenAfter_eq_nil (Bool.not_eq_true _ ▸ h) []).symm

/-- **A function is its own entry exactly if no statement of its body starts subtests.** -/
theorem bare_mem_entries_iff {f : Function} :
    ⟨f.name, none⟩ ∈ entries f ↔ ∀ s ∈ f.body, startsChildren s ≠ true := by
  rw [entries]
  split_ifs with h
  · obtain ⟨s, hs, hstarts⟩ := List.any_eq_true.mp h
    have hchild : (⟨f.name, none⟩ : Entry)
        ∉ (children f).map fun child => ⟨f.name, some child⟩ := by
      intro hmem
      obtain ⟨child, -, heq⟩ := List.mem_map.mp hmem
      cases heq
    exact iff_of_false hchild fun hnone => hnone s hs hstarts
  · exact iff_of_true List.mem_cons_self fun s hs hstarts =>
      h (List.any_eq_true.mpr ⟨s, hs, hstarts⟩)

/-! ## Insertions -/

/-- **An insertion into a body loses no child.**  The children from before are among those after it,
in their order; what is added at the end comes behind all of them.  If the function was its own
entry, it no longer is exactly when an inserted statement is a call that starts a subtest or a loop
with such calls. -/
theorem entries_insert (name : Ident) (before inserted after : List Stmt) :
    (entries ⟨name, before ++ after⟩).filterMap Entry.child
        <+ (entries ⟨name, before ++ inserted ++ after⟩).filterMap Entry.child
    ∧ (entries ⟨name, before⟩).filterMap Entry.child
        <+: (entries ⟨name, before ++ inserted⟩).filterMap Entry.child
    ∧ (⟨name, none⟩ ∈ entries ⟨name, before ++ after⟩ →
        (⟨name, none⟩ ∉ entries ⟨name, before ++ inserted ++ after⟩
          ↔ ∃ s ∈ inserted, (∃ call, shape s = .run call) ∨ ∃ loop, shape s = .loop loop)) := by
  simp only [filterMap_child_entries, children]
  refine ⟨childrenAfter_insert [] before inserted after, ?_, fun hbare => ?_⟩
  · rw [childrenAfter_append]
    exact List.prefix_append _ _
  · simp only [bare_mem_entries_iff (f := ⟨name, _⟩), List.mem_append] at hbare ⊢
    simp only [← startsChildren_iff_shape]
    constructor
    · intro habsent
      by_contra hnone
      refine habsent fun s hs hstarts => ?_
      rcases hs with (hs | hs) | hs
      · exact hbare s (.inl hs) hstarts
      · exact hnone ⟨s, hs, hstarts⟩
      · exact hbare s (.inr hs) hstarts
    · rintro ⟨s, hs, hstarts⟩ hnone
      exact hnone s (.inl (.inr hs)) hstarts

end TestCatalog.Listing
