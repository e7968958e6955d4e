import Mathlib.Data.List.Forall2
import TestCatalog.Proofs.Catalog.Encounter

/-!
# Proofs/Catalog/Roots — the catalog of several roots, from the catalogs of each

A listing by name is determined by what it has of each name, in its order (`byName_eq_iff`).  So
listings that are sorted already can be put together and sorted again without a trace
(`byName_append_byName`), and the order of the roots matters only among records of one name
(`byName_flatten_perm`).

* `encountered_append`, `encountered_iff_each` — what is met under some roots is what is met under
  each of them, root after root.
* `build_roots` — the catalog of two lists of roots, and of roots in another order.
-/

namespace TestCatalog

/-! ## Listings by name -/

namespace Report

open Text (bytes eq_of_bytes_le)

/-- An ascending listing starts with its least name. -/
theorem head_le {x : Record} {a : List Record}
    (h : (x :: a).Pairwise fun x y => bytes x.name ≤ bytes y.name) {y : Record} (hy : y ∈ x :: a) :
    bytes x.name ≤ bytes y.name := by
  rcases List.mem_cons.mp hy with rfl | hy
  · exact List.le_refl _
  · exact (List.pairwise_cons.mp h).1 y hy

theorem mem_of_filter_name {a b : List Record}
    (h : ∀ name, a.filter (·.name = name) = b.filter (·.name = name)) {x : Record} (hx : x ∈ a) :
    x ∈ b := by
  have hmem : x ∈ a.filter (·.name = x.name) := List.mem_filter.mpr ⟨hx, by simp⟩
  exact (List.mem_filter.mp (h x.name ▸ hmem)).1

/-- **Ascending listings are the same if they have the same of each name.**  Their first records
have the same name, because each is somewhere in the other; so they are the first of that name. -/
theorem eq_of_filter_name : ∀ {a b : List Record},
    a.Pairwise (fun x y => bytes x.name ≤ bytes y.name) →
    b.Pairwise (fun x y => bytes x.name ≤ bytes y.name) →
    (∀ name, a.filter (·.name = name) = b.filter (·.name = name)) → a = b
  | [], b, _, _, h =>
    (List.eq_nil_iff_forall_not_mem.mpr fun _ hx =>
      List.not_mem_nil (mem_of_filter_name (fun name => (h name).symm) hx)).symm
  | x :: a, [], _, _, h => absurd (mem_of_filter_name h List.mem_cons_self) List.not_mem_nil
  | x :: a, y :: b, ha, hb, h => by
    have hname : x.name = y.name := eq_of_bytes_le
      (head_le ha (mem_of_filter_name (fun name => (h name).symm) List.mem_cons_self))
      (head_le hb (mem_of_filter_name h List.mem_cons_self))
    have hfirst := h x.name
    rw [List.filter_cons_of_pos (by simp), List.filter_cons_of_pos (by simp [hname])] at hfirst
    obtain rfl := (List.cons.inj hfirst).1
    refine congrArg (x :: ·) (eq_of_filter_name ha.of_cons hb.of_cons fun name => ?_)
    have hrest := h name
    by_cases hx : x.name = name
    · rw [List.filter_cons_of_pos (by simpa using hx), List.filter_cons_of_pos (by simpa using hx)]
        at hrest
      exact (List.cons.inj hrest).2
    · rwa [List.filter_cons_of_neg (by simpa using hx), List.filter_cons_of_neg (by simpa using hx)]
        at hrest

/-- **A listing by name is determined by what it has of each name**, in its order. -/
theorem byName_eq_iff {a b : List Record} :
    byName a = byName b
      ↔ ∀ name, a.filter (·.name = name) = b.filter (·.name = name) := by
  constructor
  · intro h name
    rw [← filter_byName a, h, filter_byName]
  · intro h
    refine eq_of_filter_name (pairwise_byName a) (pairwise_byName b) fun name => ?_
    rw [filter_byName, filter_byName, h]

/-- **Sorted listings can be put together and sorted again.** -/
theorem byName_append_byName (a b : List Record) :
    byName (byName a ++ byName b) = byName (a ++ b) :=
  byName_eq_iff.mpr fun name => by
    rw [List.filter_append, List.filter_append, filter_byName, filter_byName]

/-- The names of a listing do not depend on the order in which its records were met. -/
theorem map_name_byName {a b : List Record} (h : a.Perm b) :
    (byName a).map (·.name) = (byName b).map (·.name) := by
  refine List.Perm.eq_of_pairwise (fun _ _ _ _ => eq_of_bytes_le)
    (List.pairwise_map.mpr (pairwise_byName a)) (List.pairwise_map.mpr (pairwise_byName b)) ?_
  exact (((byName_perm a).trans h).trans (byName_perm b).symm).map _

/-- Lists of which at most one has anything can be gathered in any order. -/
theorem flatten_eq_of_perm {α : Type} {lists lists' : List (List α)} (h : lists.Perm lists') :
    lists.Pairwise (fun a b => a = [] ∨ b = []) → lists.flatten = lists'.flatten := by
  induction h with
  | nil => exact fun _ => rfl
  | cons a _ ih => exact fun hone => congrArg (a ++ ·) (ih hone.of_cons)
  | swap a b rest =>
    intro hone
    rcases (List.pairwise_cons.mp hone).1 a List.mem_cons_self with rfl | rfl
    · simp
    · simp
  | trans h _ ih ih' =>
    exact fun hone => (ih hone).trans (ih' ((h.pairwise_iff Or.symm).mp hone))

/-- **The order of the parts of a listing matters only where they share a name.** -/
theorem byName_flatten_perm {parts parts' : List (List Record)} (h : parts.Perm parts')
    (hapart : parts.Pairwise fun a b => ∀ x ∈ a, ∀ y ∈ b, x.name ≠ y.name) :
    byName parts.flatten = byName parts'.flatten := by
  refine byName_eq_iff.mpr fun name => ?_
  rw [List.filter_flatten, List.filter_flatten]
  refine flatten_eq_of_perm (h.map _) (List.pairwise_map.mpr (hapart.imp fun {a b} hab => ?_))
  by_contra hboth
  obtain ⟨ha, hb⟩ := not_or.mp hboth
  obtain ⟨x, hx⟩ := List.exists_mem_of_ne_nil _ ha
  obtain ⟨y, hy⟩ := List.exists_mem_of_ne_nil _ hb
  obtain ⟨hxa, hxname⟩ := List.mem_filter.mp hx
  obtain ⟨hyb, hyname⟩ := List.mem_filter.mp hy
  exact hab x hxa y hyb ((of_decide_eq_true hxname).trans (of_decide_eq_true hyname).symm)

end Report

/-! ## What is met under each root -/

namespace Catalog

open Files Log Report

variable {fs : FileSystem} {parser : Parser}

theorem forall₂_append_left_iff {α β : Type} {R : α → β → Prop} {l l' : List α} {u : List β} :
    List.Forall₂ R (l ++ l') u
      ↔ ∃ v v', List.Forall₂ R l v ∧ List.Forall₂ R l' v' ∧ u = v ++ v' := by
  induction l generalizing u with
  | nil => simp [List.forall₂_nil_left_iff]
  | cons a l ih =>
    simp only [List.cons_append, List.forall₂_cons_left_iff, ih]
    constructor
    · rintro ⟨b, _, hab, ⟨v, v', hv, hv', rfl⟩, rfl⟩
      exact ⟨b :: v, v', ⟨b, v, hab, hv, rfl⟩, hv', rfl⟩
    · rintro ⟨_, v', ⟨b, v, hab, hv, rfl⟩, hv', rfl⟩
      exact ⟨b, v ++ v', hab, ⟨v, v', hv, hv', rfl⟩, rfl⟩

/-- **Under roots and further roots is met what is met under the first, then under the others.** -/
theorem encountered_append {roots roots' : List Path} {met : List Record} :
    Encountered fs parser (roots ++ roots') met
      ↔ ∃ a b, Encountered fs parser roots a ∧ Encountered fs parser roots' b ∧ met = a ++ b := by
  constructor
  · rintro ⟨_, _, hfounds, hhelds, rfl⟩
    obtain ⟨found, found', hfound, hfound', rfl⟩ := forall₂_append_left_iff.mp hfounds
    rw [List.flatten_append] at hhelds
    obtain ⟨held, held', hheld, hheld', rfl⟩ := forall₂_append_left_iff.mp hhelds
    exact ⟨_, _, ⟨found, held, hfound, hheld, rfl⟩, ⟨found', held', hfound', hheld', rfl⟩,
      List.flatten_append⟩
  · rintro ⟨_, _, ⟨found, held, hfound, hheld, rfl⟩, ⟨found', held', hfound', hheld', rfl⟩, rfl⟩
    refine ⟨found ++ found', held ++ held', List.rel_append hfound hfound', ?_,
      List.flatten_append.symm⟩
    rw [List.flatten_append]
    exact List.rel_append hheld hheld'

theorem encountered_nil {met : List Record} : Encountered fs parser [] met ↔ met = [] := by
  constructor
  · rintro ⟨found, held, hfound, hheld, rfl⟩
    obtain rfl := List.forall₂_nil_left_iff.mp hfound
    rw [List.forall₂_nil_left_iff.mp hheld]
    rfl
  · rintro rfl
    exact ⟨[], [], .nil, .nil, rfl⟩

/-- **What is met under some roots is what is met under each, root after root.** -/
theorem encountered_iff_each {roots : List Path} {met : List Record} :
    Encountered fs parser roots met
      ↔ ∃ parts, List.Forall₂ (fun root part => Encountered fs parser [root] part) roots parts
        ∧ met = parts.flatten := by
  induction roots generalizing met with
  | nil => simp [encountered_nil, List.forall₂_nil_left_iff]
  | cons root roots ih =>
    rw [← List.singleton_append, encountered_append]
    simp only [ih, List.singleton_append, List.forall₂_cons_left_iff]
    constructor
    · rintro ⟨part, _, hpart, ⟨parts, hparts, rfl⟩, rfl⟩
      exact ⟨part :: parts, ⟨part, parts, hpart, hparts, rfl⟩, rfl⟩
    · rintro ⟨_, ⟨part, parts, hpart, hparts, rfl⟩, rfl⟩
      exact ⟨part, parts.flatten, hpart, ⟨parts, hparts, rfl⟩, rfl⟩

/-! ## The catalog of several roots -/

/-- **A name that is found under the root at a place**: a record met under that root has it. -/
def NameAt (fs : FileSystem) (parser : Parser) (roots : List Path) (place : Nat) (name : String) :
    Prop :=
  ∃ root part record, roots[place]? = some root ∧ Encountered fs parser [root] part
    ∧ record ∈ part ∧ record.name = name

theorem nameAt_of_mem {roots : List Path} {parts : List (List Record)}
    (h : List.Forall₂ (fun root part => Encountered fs parser [root] part) roots parts)
    {place : Nat} (hplace : place < parts.length) {record : Record}
    (hrecord : record ∈ parts[place]) : NameAt fs parser roots place record.name := by
  have hroot : place < roots.length := h.length_eq ▸ hplace
  exact ⟨_, _, record, List.getElem?_eq_getElem hroot, h.get hroot hplace, hrecord, rfl⟩

/-- Names that are found under one root only keep the parts of a listing apart. -/
theorem parts_apart {roots : List Path} {parts : List (List Record)}
    (h : List.Forall₂ (fun root part => Encountered fs parser [root] part) roots parts)
    (hone : ∀ name i j, NameAt fs parser roots i name → NameAt fs parser roots j name → i = j) :
    parts.Pairwise fun a b => ∀ x ∈ a, ∀ y ∈ b, x.name ≠ y.name := by
  refine List.pairwise_iff_getElem.mpr fun i j hi hj hlt x hx y hy hname => ?_
  have hj := nameAt_of_mem h hj hy
  rw [← hname] at hj
  exact Nat.ne_of_lt hlt (hone _ i j (nameAt_of_mem h hi hx) hj)

/-- The parts of a catalog, in another order of the roots. -/
theorem exists_parts_of_perm {schedule : Schedule} {roots roots' : List Path}
    (h : roots.Perm roots') {listing : List Record}
    (hlisting : (build schedule fs parser roots).result = .ok listing) (schedule' : Schedule) :
    ∃ parts parts', parts.Perm parts'
      ∧ List.Forall₂ (fun root part => Encountered fs parser [root] part) roots parts
      ∧ listing = byName parts.flatten
      ∧ (build schedule' fs parser roots').result = .ok (byName parts'.flatten) := by
  obtain ⟨_, hmet, rfl⟩ := build_eq_ok_iff.mp hlisting
  obtain ⟨parts, hparts, rfl⟩ := encountered_iff_each.mp hmet
  obtain ⟨parts', hparts', hperm⟩ := List.perm_comp_forall₂ h.symm hparts
  exact ⟨parts, parts', hperm.symm, hparts, rfl,
    build_eq_ok_iff.mpr ⟨_, encountered_iff_each.mpr ⟨parts', hparts', rfl⟩, rfl⟩⟩

/-- **The catalog of several roots.**  Under two lists of roots, one after the other, there is a
catalog exactly when there is one under each, and it is theirs put together and sorted.  In another
order the same roots have a catalog or not; it has the same records as often, and the same names in
the same order; and it is the same if no name is found under the roots at two places. -/
theorem build_roots (fs : FileSystem) (parser : Parser) :
    (∀ (schedule schedule₁ schedule₂ : Schedule) (roots₁ roots₂ : List Path)
      (listing : List Record),
      (build schedule fs parser (roots₁ ++ roots₂)).result = .ok listing
        ↔ ∃ listing₁ listing₂, (build schedule₁ fs parser roots₁).result = .ok listing₁
          ∧ (build schedule₂ fs parser roots₂).result = .ok listing₂
          ∧ listing = byName (listing₁ ++ listing₂))
    ∧ ∀ (schedule schedule' : Schedule) (roots roots' : List Path), roots.Perm roots' →
      ((∃ listing, (build schedule fs parser roots).result = .ok listing)
        ↔ ∃ listing', (build schedule' fs parser roots').result = .ok listing')
      ∧ ∀ listing listing', (build schedule fs parser roots).result = .ok listing →
        (build schedule' fs parser roots').result = .ok listing' →
        listing.Perm listing' ∧ listing.map (·.name) = listing'.map (·.name)
        ∧ ((∀ name i j, NameAt fs parser roots i name → NameAt fs parser roots j name → i = j) →
            listing = listing') := by
  refine ⟨fun schedule schedule₁ schedule₂ roots₁ roots₂ listing => ?_,
    fun schedule schedule' roots roots' h => ⟨⟨?_, ?_⟩, ?_⟩⟩
  · simp only [build_eq_ok_iff, encountered_append]
    constructor
    · rintro ⟨_, ⟨a, b, ha, hb, rfl⟩, rfl⟩
      exact ⟨_, _, ⟨a, ha, rfl⟩, ⟨b, hb, rfl⟩, (byName_append_byName a b).symm⟩
    · rintro ⟨_, _, ⟨a, ha, rfl⟩, ⟨b, hb, rfl⟩, rfl⟩
      exact ⟨a ++ b, ⟨a, b, ha, hb, rfl⟩, (byName_append_byName a b).symm⟩
  · rintro ⟨listing, hlisting⟩
    obtain ⟨_, _, -, -, -, hlisting'⟩ := exists_parts_of_perm h hlisting schedule'
    exact ⟨_, hlisting'⟩
  · rintro ⟨listing', hlisting'⟩
    obtain ⟨_, _, -, -, -, hlisting⟩ := exists_parts_of_perm h.symm hlisting' schedule
    exact ⟨_, hlisting⟩
  · intro listing listing' hlisting hlisting'
    obtain ⟨parts, parts', hperm, hparts, rfl, hbuilt⟩ := exists_parts_of_perm h hlisting schedule'
    obtain rfl := Except.ok.inj (hbuilt.symm.trans hlisting')
    refine ⟨?_, map_name_byName hperm.flatten, fun hone => ?_⟩
    · exact ((byName_perm _).trans hperm.flatten).trans (byName_perm _).symm
    · exact byName_flatten_perm hperm (parts_apart hparts hone)

/-- The catalog of one file that holds one test. -/
theorem build_oneTest (file : String)
    (hfound : (testFiles twoFiles ⟨file⟩).result = .ok [⟨⟨file⟩, ⟨file⟩⟩])
    (htext : twoFiles.read ⟨file⟩ = .ok "")
    (hlocation : Location.resolve twoFiles.currentPath ⟨file⟩ ⟨file⟩
      = .ok ⟨file, file, "/w/" ++ file⟩) :
    (build .inOrder twoFiles oneTest [⟨file⟩]).result = .ok [recordIn file] := by
  refine build_eq_ok_iff.mpr ⟨[recordIn file], ⟨[_], [[recordIn file]], .cons hfound .nil, ?_, rfl⟩,
    List.mergeSort_singleton _⟩
  exact .cons (holds_oneTest htext hlocation) .nil

/-- Two files that share a name, in both orders: the same records and names, in listings that
differ. -/
theorem swapped_files :
    (build .inOrder twoFiles oneTest [⟨"a_test.go"⟩, ⟨"b_test.go"⟩]).result
        = .ok [recordIn "a_test.go", recordIn "b_test.go"]
    ∧ (build .inOrder twoFiles oneTest [⟨"b_test.go"⟩, ⟨"a_test.go"⟩]).result
        = .ok [recordIn "b_test.go", recordIn "a_test.go"]
    ∧ [recordIn "a_test.go", recordIn "b_test.go"].Perm
        [recordIn "b_test.go", recordIn "a_test.go"]
    ∧ [recordIn "a_test.go", recordIn "b_test.go"]
        ≠ [recordIn "b_test.go", recordIn "a_test.go"] := by
  have ha := build_oneTest "a_test.go" (by decide +kernel) (by decide +kernel)
    (by decide +kernel)
  have hb := build_oneTest "b_test.go" (by decide +kernel) (by decide +kernel)
    (by decide +kernel)
  obtain ⟨happend, hperm⟩ := build_roots twoFiles oneTest
  have hab := (happend .inOrder .inOrder .inOrder [⟨"a_test.go"⟩] [⟨"b_test.go"⟩] _).mpr
    ⟨_, _, ha, hb, (List.mergeSort_of_pairwise (by decide +kernel)).symm⟩
  have hba := (happend .inOrder .inOrder .inOrder [⟨"b_test.go"⟩] [⟨"a_test.go"⟩] _).mpr
    ⟨_, _, hb, ha, (List.mergeSort_of_pairwise (by decide +kernel)).symm⟩
  refine ⟨hab, hba, ?_, by decide +kernel⟩
  exact ((hperm .inOrder .inOrder _ _ (.swap _ _ [])).2 _ _ hab hba).1

end Catalog

end TestCatalog
