import Mathlib.Data.List.Basic

/-!
# Proofs/Listing/Enumeration — lists that go through places in an order

`Enumerates Found before list` says that `list` holds, for each place at which something is found,
what is found there: once for each place, and place after place in the order `before`.  When
`before` is strict this determines the list.

Lists built by `filterMap`, `flatMap` and `reverse` enumerate what the lists they are built from
enumerate, so an enumeration is put together as the list is.
-/

namespace TestCatalog.Listing

variable {ι κ α β : Type}

/-- **A list of what is found, place after place.** -/
def Enumerates (Found : ι → α → Prop) (before : ι → ι → Prop) (list : List α) : Prop :=
  ∃ pairs : List (ι × α), pairs.map Prod.snd = list
    ∧ pairs.Pairwise (fun p q => before p.1 q.1) ∧ ∀ i a, (i, a) ∈ pairs ↔ Found i a

namespace Enumerates

variable {Found Found' : ι → α → Prop} {before : ι → ι → Prop} {list : List α}

theorem congr (h : Enumerates Found before list) (hfound : ∀ i a, Found i a ↔ Found' i a) :
    Enumerates Found' before list := by
  obtain ⟨pairs, hlist, horder, hmem⟩ := h
  exact ⟨pairs, hlist, horder, fun i a => (hmem i a).trans (hfound i a)⟩

theorem nil (h : ∀ i a, ¬ Found i a) : Enumerates Found before [] :=
  ⟨[], rfl, .nil, fun i a => iff_of_false List.not_mem_nil (h i a)⟩

theorem singleton {i : ι} {a : α} (h : ∀ j b, Found j b ↔ j = i ∧ b = a) :
    Enumerates Found before [a] := by
  refine ⟨[(i, a)], rfl, List.pairwise_singleton _ _, fun j b => ?_⟩
  rw [List.mem_singleton, Prod.mk.injEq, h]

/-- A list goes through its own places. -/
theorem getElem? (list : List α) :
    Enumerates (fun (i : Nat) a => list[i]? = some a) (· < ·) list := by
  refine ⟨list.zipIdx.map Prod.swap, ?_, ?_, fun i a => ?_⟩
  · rw [List.map_map]
    exact List.zipIdx_map_fst 0 list
  · have hplaces : (list.zipIdx.map Prod.snd).Pairwise (· < ·) := by
      rw [List.zipIdx_map_snd]
      exact List.pairwise_lt_range'
    exact List.pairwise_map.mpr (List.pairwise_map.mp hplaces)
  · have hplace : (i, a) ∈ list.zipIdx.map Prod.swap ↔ (a, i) ∈ list.zipIdx := by simp
    exact hplace.trans List.mem_zipIdx_iff_getElem?

theorem reverse (h : Enumerates Found before list) :
    Enumerates Found (fun i j => before j i) list.reverse := by
  obtain ⟨pairs, rfl, horder, hmem⟩ := h
  refine ⟨pairs.reverse, List.map_reverse, List.pairwise_reverse.mpr horder, fun i a => ?_⟩
  rw [List.mem_reverse, hmem]

/-- What a list finds at some places can be filed under others. -/
theorem reindex {before' : κ → κ → Prop} (h : Enumerates Found before list) (f : ι → κ)
    (hf : ∀ i j, before i j → before' (f i) (f j)) :
    Enumerates (fun k a => ∃ i, k = f i ∧ Found i a) before' list := by
  obtain ⟨pairs, rfl, horder, hmem⟩ := h
  refine ⟨pairs.map fun p => (f p.1, p.2), ?_, ?_, fun k a => ?_⟩
  · rw [List.map_map]
    rfl
  · exact List.pairwise_map.mpr (horder.imp (hf _ _))
  · constructor
    · intro hk
      obtain ⟨⟨i, b⟩, hi, hpair⟩ := List.mem_map.mp hk
      obtain ⟨rfl, rfl⟩ := Prod.mk.inj hpair
      exact ⟨i, rfl, (hmem i b).mp hi⟩
    · rintro ⟨i, rfl, hfound⟩
      exact List.mem_map.mpr ⟨(i, a), (hmem i a).mpr hfound, rfl⟩

theorem filterMap (h : Enumerates Found before list) (g : α → Option β) :
    Enumerates (fun i b => ∃ a, Found i a ∧ g a = some b) before (list.filterMap g) := by
  obtain ⟨pairs, rfl, horder, hmem⟩ := h
  refine ⟨pairs.filterMap fun p => (g p.2).map (p.1, ·), ?_, ?_, fun i b => ?_⟩
  · rw [List.map_filterMap, List.filterMap_map]
    refine List.filterMap_congr fun p _ => ?_
    rw [Option.map_map]
    exact Option.map_id_apply
  · rw [List.pairwise_filterMap]
    refine horder.imp fun {p q} hpq b hb c hc => ?_
    obtain ⟨_, -, rfl⟩ := Option.map_eq_some_iff.mp hb
    obtain ⟨_, -, rfl⟩ := Option.map_eq_some_iff.mp hc
    exact hpq
  · rw [List.mem_filterMap]
    constructor
    · rintro ⟨⟨j, a⟩, hp, hb⟩
      obtain ⟨c, hc, hpair⟩ := Option.map_eq_some_iff.mp hb
      obtain ⟨rfl, rfl⟩ := Prod.mk.inj hpair
      exact ⟨a, (hmem j a).mp hp, hc⟩
    · rintro ⟨a, hfound, hb⟩
      exact ⟨(i, a), (hmem i a).mpr hfound, by rw [hb]; rfl⟩

section FlatMap

variable {Inner : ι → α → κ → β → Prop} {before' : κ → κ → Prop} {g : α → List β}
  (hcross : ∀ (i j : ι) (a c : α) (k l : κ) (b d : β), before i j → Inner i a k b →
    Inner j c l d → before' k l)
include hcross

/-- The places of inner lists, gathered along the places of the outer one. -/
theorem flatMap_pairs {pairs : List (ι × α)} (horder : pairs.Pairwise fun p q => before p.1 q.1)
    (hinner : ∀ p ∈ pairs, Enumerates (Inner p.1 p.2) before' (g p.2)) :
    Enumerates (fun k b => ∃ p ∈ pairs, Inner p.1 p.2 k b) before'
      ((pairs.map Prod.snd).flatMap g) := by
  induction pairs with
  | nil => exact nil fun k b => by rintro ⟨_, hp, -⟩; cases hp
  | cons p pairs ih =>
    obtain ⟨hp, horder⟩ := List.pairwise_cons.mp horder
    obtain ⟨hhead, hrest⟩ := List.forall_mem_cons.mp hinner
    obtain ⟨first, hfirst, hfirstOrder, hfirstMem⟩ := hhead
    obtain ⟨later, hlater, hlaterOrder, hlaterMem⟩ := ih horder hrest
    refine ⟨first ++ later, ?_, ?_, fun k b => ?_⟩
    · rw [List.map_append, hfirst, hlater, List.map_cons, List.flatMap_cons]
    · refine List.pairwise_append.mpr ⟨hfirstOrder, hlaterOrder, fun x hx y hy => ?_⟩
      obtain ⟨q, hq, hy⟩ := (hlaterMem y.1 y.2).mp hy
      exact hcross _ _ _ _ _ _ _ _ (hp q hq) ((hfirstMem x.1 x.2).mp hx) hy
    · simp only [List.mem_append, hfirstMem, hlaterMem, List.mem_cons, exists_eq_or_imp]

/-- **A list of lists goes through their places in turn**, if all places of one come before those of
the next. -/
theorem flatMap (h : Enumerates Found before list)
    (hinner : ∀ i a, Found i a → Enumerates (Inner i a) before' (g a)) :
    Enumerates (fun k b => ∃ i a, Found i a ∧ Inner i a k b) before' (list.flatMap g) := by
  obtain ⟨pairs, rfl, horder, hmem⟩ := h
  have hpairs : ∀ p ∈ pairs, Enumerates (Inner p.1 p.2) before' (g p.2) :=
    fun p hp => hinner p.1 p.2 ((hmem _ _).mp hp)
  refine (flatMap_pairs hcross horder hpairs).congr fun k b => ?_
  constructor
  · rintro ⟨p, hp, hb⟩
    exact ⟨p.1, p.2, (hmem _ _).mp hp, hb⟩
  · rintro ⟨i, a, hfound, hb⟩
    exact ⟨(i, a), (hmem i a).mpr hfound, hb⟩

end FlatMap

end Enumerates

end TestCatalog.Listing
