import Mathlib.Data.List.Basic
import Mathlib.Data.Nat.Count
import TestCatalog.Source.Lines

/-!
# Proofs/Source/Lines — the line of an offset

The line of an offset is found by bisection in the starts of the lines.  As the starts ascend, those
up to the offset are the first ones, and how many they are is what the bisection closes in on
(`bisect_eq`).  Counted in the text they are one more than the newlines before the offset.

* `line_ofText` — the number of a line.
* `line_counts_newlines` — the numbers of all lines: what the starts are, how far the numbers go, and
  that they rise by one behind each newline and nowhere else.
-/

namespace TestCatalog.Source

open Text (bytes)

/-! ## Bisection -/

/-- In an ascending list the elements up to a bound are the first ones. -/
theorem getElem_le_iff {starts : List Nat} (hsorted : starts.Pairwise (· < ·)) {i : Nat}
    (hi : i < starts.length) (bound : Nat) :
    starts[i] ≤ bound ↔ i < starts.countP (· ≤ bound) := by
  induction starts generalizing i with
  | nil => exact absurd hi (Nat.not_lt_zero i)
  | cons start starts ih =>
    obtain ⟨hstart, hsorted⟩ := List.pairwise_cons.mp hsorted
    by_cases hle : start ≤ bound
    · rw [List.countP_cons_of_pos (by simpa using hle)]
      cases i with
      | zero => simp [hle]
      | succ i => simpa using ih hsorted (Nat.lt_of_succ_lt_succ hi)
    · have habove : ∀ n ∈ start :: starts, bound < n := by
        refine List.forall_mem_cons.mpr ⟨by omega, fun n hn => ?_⟩
        have hlt := hstart n hn
        omega
      have hnone : (start :: starts).countP (· ≤ bound) = 0 :=
        List.countP_eq_zero.mpr fun n hn => by simpa using habove n hn
      have helement := habove _ (List.getElem_mem hi)
      omega

section

variable {lines : Lines} (hsorted : lines.starts.toList.Pairwise (· < ·)) (offset : Nat)
include hsorted

theorem start_le_iff {i : Nat} (hi : i < lines.starts.size) :
    lines.starts.getD i 0 ≤ offset ↔ i < lines.starts.toList.countP (· ≤ offset) := by
  rw [← getElem_le_iff hsorted (by simpa using hi) offset, Array.getElem_toList, Array.getD,
    dif_pos hi]
  rfl

/-- **Bisection finds how many starts there are up to an offset**, if that lies between its ends. -/
theorem bisect_eq (low high : Nat) (hlow : low ≤ lines.starts.toList.countP (· ≤ offset))
    (hhigh : lines.starts.toList.countP (· ≤ offset) ≤ high) (hsize : high ≤ lines.starts.size) :
    lines.bisect offset low high = lines.starts.toList.countP (· ≤ offset) := by
  fun_induction lines.bisect offset low high with
  | case1 low high hlt middle hle ih =>
    exact ih ((start_le_iff hsorted offset (by omega)).mp hle) hhigh hsize
  | case2 low high hlt middle hle ih =>
    have hcount := mt (start_le_iff hsorted offset (by omega)).mpr hle
    exact ih hlow (by omega) (by omega)
  | case3 low high hge => omega

end

/-! ## The starts of lines -/

theorem lt_of_mem_afterNewlines {offset n : Nat} {bs : List UInt8}
    (h : n ∈ afterNewlines offset bs) : offset < n := by
  induction bs generalizing offset with
  | nil => cases h
  | cons b bs ih =>
    rw [afterNewlines] at h
    split_ifs at h
    · rcases List.mem_cons.mp h with rfl | h
      · exact Nat.lt_succ_self offset
      · exact Nat.lt_of_succ_lt (ih h)
    · exact Nat.lt_of_succ_lt (ih h)

theorem pairwise_afterNewlines (offset : Nat) (bs : List UInt8) :
    (afterNewlines offset bs).Pairwise (· < ·) := by
  induction bs generalizing offset with
  | nil => exact .nil
  | cons b bs ih =>
    rw [afterNewlines]
    split_ifs
    · exact .cons (fun n => lt_of_mem_afterNewlines) (ih _)
    · exact ih _

/-- Each newline starts a line. -/
theorem length_afterNewlines (offset : Nat) (bs : List UInt8) :
    (afterNewlines offset bs).length = bs.count 10 := by
  induction bs generalizing offset with
  | nil => rfl
  | cons b bs ih =>
    rw [afterNewlines, List.count_cons]
    by_cases hnewline : b = 10 <;> simp [hnewline, ih]

/-- Each newline before an offset starts a line up to it. -/
theorem countP_afterNewlines (start offset : Nat) (bs : List UInt8) :
    (afterNewlines start bs).countP (· ≤ offset) = (bs.take (offset - start)).count 10 := by
  induction bs generalizing start with
  | nil => simp [afterNewlines]
  | cons b bs ih =>
    rw [afterNewlines]
    by_cases hle : start + 1 ≤ offset
    · rw [show offset - start = (offset - (start + 1)) + 1 by omega, List.take_succ_cons,
        List.count_cons, ← ih]
      by_cases hnewline : b = 10 <;> simp [hnewline, hle]
    · have hnone : (afterNewlines (start + 1) bs).countP (· ≤ offset) = 0 := by
        rw [ih, show offset - (start + 1) = 0 by omega, List.take_zero, List.count_nil]
      rw [show offset - start = 0 by omega, List.take_zero, List.count_nil]
      split_ifs
      · rw [List.countP_cons_of_neg (by simpa using hle), hnone]
      · exact hnone

theorem starts_ofText (text : String) :
    (Lines.ofText text).starts.toList = 0 :: afterNewlines 0 (bytes text) := rfl

/-- **The starts of lines ascend.** -/
theorem pairwise_starts (text : String) : (Lines.ofText text).starts.toList.Pairwise (· < ·) :=
  .cons (fun _ => lt_of_mem_afterNewlines) (pairwise_afterNewlines 0 (bytes text))

/-- The number of a line is how many starts there are up to it. -/
theorem line_eq_countP (text : String) (offset : Nat) :
    (Lines.ofText text).line offset = (Lines.ofText text).starts.toList.countP (· ≤ offset) :=
  bisect_eq (pairwise_starts text) offset 0 _ (Nat.zero_le _) List.countP_le_length (Nat.le_refl _)

/-- **The number of a line** is one more than the number of newlines before it. -/
theorem line_ofText (text : String) (offset : Nat) :
    (Lines.ofText text).line offset = 1 + ((bytes text).take offset).count 10 := by
  rw [line_eq_countP, starts_ofText, List.countP_cons_of_pos (by simp), countP_afterNewlines,
    Nat.sub_zero, Nat.add_comm]

/-! ## The newlines of a text -/

/-- At an offset there is a newline. -/
def NewlineAt (text : String) (offset : Nat) : Prop := (bytes text)[offset]? = some 10

instance (text : String) : DecidablePred (NewlineAt text) := fun offset =>
  inferInstanceAs (Decidable ((bytes text)[offset]? = some 10))

theorem count_take (text : String) (offset : Nat) :
    ((bytes text).take offset).count 10 = Nat.count (NewlineAt text) offset := by
  induction offset with
  | zero => rw [List.take_zero, List.count_nil, Nat.count_zero]
  | succ offset ih =>
    rw [List.take_add_one, List.count_append, ih, Nat.count_succ]
    cases hbyte : (bytes text)[offset]? with
    | none => simp [NewlineAt, hbyte]
    | some b => by_cases hb : b = 10 <;> simp [NewlineAt, hbyte, hb]

theorem line_eq_count (text : String) (offset : Nat) :
    (Lines.ofText text).line offset = 1 + Nat.count (NewlineAt text) offset := by
  rw [line_ofText, count_take]

/-- There are as many lines as newlines, and one more. -/
theorem size_starts (text : String) :
    (Lines.ofText text).starts.size = 1 + Nat.count (NewlineAt text) (bytes text).length := by
  rw [← count_take, List.take_length, ← length_afterNewlines 0 (bytes text),
    ← Array.length_toList, starts_ofText, List.length_cons, Nat.add_comm]

/-- The starts up to an offset are the first ones, as many as the number of its line. -/
theorem lt_line_iff (text : String) (offset i : Nat) :
    i < (Lines.ofText text).line offset
      ↔ ∃ start ∈ (Lines.ofText text).starts[i]?, start ≤ offset := by
  have hle : (Lines.ofText text).line offset ≤ (Lines.ofText text).starts.toList.length := by
    rw [line_eq_countP]
    exact List.countP_le_length
  by_cases hi : i < (Lines.ofText text).starts.toList.length
  · have hstart := getElem_le_iff (pairwise_starts text) hi offset
    rw [← line_eq_countP] at hstart
    rw [← hstart, ← Array.getElem?_toList, List.getElem?_eq_getElem hi]
    simp
  · rw [← Array.getElem?_toList, List.getElem?_eq_none (Nat.le_of_not_lt hi)]
    simp only [Option.mem_def, reduceCtorEq, false_and, exists_false, iff_false]
    omega

/-- **The numbers of the lines of a text.**  The starts ascend from `0`, so the bisection stops
where those up to the offset end.  The number it gives is one more than the newlines before the
offset: it never falls, lies between `1` and the number of lines, and rises by one just behind each
newline. -/
theorem line_counts_newlines (text : String) :
    ((Lines.ofText text).starts.toList.Pairwise (· < ·)
      ∧ (Lines.ofText text).starts[0]? = some 0
      ∧ (Lines.ofText text).starts.size = 1 + Nat.count (NewlineAt text) (bytes text).length
      ∧ ∀ offset i, i < (Lines.ofText text).line offset
        ↔ ∃ start ∈ (Lines.ofText text).starts[i]?, start ≤ offset)
    ∧ (∀ offset, (Lines.ofText text).line offset = 1 + Nat.count (NewlineAt text) offset)
    ∧ Monotone (Lines.ofText text).line
    ∧ (∀ offset, 1 ≤ (Lines.ofText text).line offset
      ∧ (Lines.ofText text).line offset ≤ (Lines.ofText text).starts.size)
    ∧ ∀ offset, (Lines.ofText text).line (offset + 1)
      = (Lines.ofText text).line offset + if NewlineAt text offset then 1 else 0 := by
  refine ⟨⟨pairwise_starts text, rfl, size_starts text, lt_line_iff text⟩, line_eq_count text,
    ?_, fun offset => ⟨?_, ?_⟩, fun offset => ?_⟩
  · intro a b hab
    have hcount := Nat.count_monotone (NewlineAt text) hab
    rw [line_eq_count, line_eq_count]
    omega
  · rw [line_eq_count]
    exact Nat.le_add_right _ _
  · rw [line_eq_countP]
    exact List.countP_le_length
  · rw [line_eq_count, line_eq_count, Nat.count_succ, Nat.add_assoc]

end TestCatalog.Source
