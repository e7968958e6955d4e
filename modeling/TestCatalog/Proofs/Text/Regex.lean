import Mathlib.Computability.Language
import TestCatalog.Text.Regex

/-!
# Proofs/Text/Regex — what a regular expression describes

`Regex.language` is the set of texts that an expression describes.  The shortenings that derivatives
make are laws of the semiring of languages (`language_join`, `language_either`), so a derivative
describes only what may follow its character (`cons_mem_language`), and a match that is found is one
(`take_mem_language`).
-/

namespace TestCatalog.Text.Regex

/-- **The texts that an expression describes.** -/
def language : Regex → Language Char
  | .void => 0
  | .empty => 1
  | .char s => {w | ∃ c, s.has c = true ∧ w = [c]}
  | .seq r s => r.language * s.language
  | .alt r s => r.language + s.language
  | .star r => KStar.kstar r.language

theorem language_join (r s : Regex) : (join r s).language = r.language * s.language := by
  unfold join
  split <;> simp [language]

theorem language_either (r s : Regex) : (either r s).language = r.language + s.language := by
  unfold either
  split <;> simp [language]

theorem nullable_iff (r : Regex) : r.nullable = true ↔ [] ∈ r.language := by
  induction r with
  | void => simp [nullable, language]
  | empty => simp [nullable, language]
  | char s =>
    refine iff_of_false Bool.false_ne_true ?_
    rintro ⟨c, -, hnil⟩
    cases hnil
  | seq r s ihr ihs =>
    simp only [nullable, language, Bool.and_eq_true, ihr, ihs, Language.mem_mul]
    constructor
    · rintro ⟨hr, hs⟩
      exact ⟨[], hr, [], hs, rfl⟩
    · rintro ⟨a, ha, b, hb, hnil⟩
      obtain ⟨rfl, rfl⟩ := List.append_eq_nil_iff.mp hnil
      exact ⟨ha, hb⟩
  | alt r s ihr ihs => simp [nullable, language, ihr, ihs, Language.mem_add]
  | star r => simp [nullable, language, Language.nil_mem_kstar]

/-- **What a derivative describes may follow its character.** -/
theorem cons_mem_language {c : Char} {r : Regex} {w : List Char}
    (h : w ∈ (derive c r).language) : c :: w ∈ r.language := by
  have hseq : ∀ {r s : Regex} {w : List Char},
      (∀ {w}, w ∈ (derive c r).language → c :: w ∈ r.language) →
      w ∈ (derive c r).language * s.language → c :: w ∈ r.language * s.language := by
    intro r s w ih h
    obtain ⟨a, ha, b, hb, rfl⟩ := Language.mem_mul.mp h
    exact Language.mem_mul.mpr ⟨c :: a, ih ha, b, hb, rfl⟩
  induction r generalizing w with
  | void => exact h.elim
  | empty => exact h.elim
  | char s =>
    rw [derive] at h
    split_ifs at h with hc
    · exact ⟨c, hc, by rw [(Language.mem_one w).mp h]⟩
    · exact h.elim
  | seq r s ihr ihs =>
    rw [derive] at h
    split_ifs at h with hr
    · rw [language_either, language_join, Language.mem_add] at h
      rcases h with h | h
      · exact hseq ihr h
      · exact Language.mem_mul.mpr ⟨[], (nullable_iff r).mp hr, c :: w, ihs h, rfl⟩
    · rw [language_join] at h
      exact hseq ihr h
  | alt r s ihr ihs =>
    rw [derive, language_either, Language.mem_add] at h
    exact h.imp ihr ihs
  | star r ih =>
    rw [derive, language_join] at h
    have hle : r.language * KStar.kstar r.language ≤ KStar.kstar r.language := mul_kstar_le_kstar
    exact Set.mem_of_subset_of_mem hle (hseq (s := .star r) ih h)

theorem take_mem_of_longestFrom {best : Option Nat} {seen n : Nat} {r : Regex} {cs : List Char}
    (h : longestFrom best seen r cs = some n) :
    best = some n ∨ ∃ m, n = seen + m ∧ cs.take m ∈ r.language := by
  have hhere : ∀ {best : Option Nat} {seen : Nat} {r : Regex} {cs : List Char},
      (if r.nullable then some seen else best) = some n →
      best = some n ∨ ∃ m, n = seen + m ∧ cs.take m ∈ r.language := by
    intro best seen r cs h
    split_ifs at h with hr
    · exact .inr ⟨0, (Option.some.inj h).symm, by simpa using (nullable_iff r).mp hr⟩
    · exact .inl h
  induction cs generalizing best seen r with
  | nil =>
    rw [longestFrom.eq_def] at h
    split at h
    · exact .inl h
    · exact hhere h
    · contradiction
  | cons c cs ih =>
    rw [longestFrom.eq_def] at h
    split at h
    · exact .inl h
    · contradiction
    · next heq =>
      obtain ⟨rfl, rfl⟩ := List.cons.inj heq
      rcases ih h with h | ⟨m, rfl, hm⟩
      · exact hhere h
      · exact .inr ⟨m + 1, by omega, cons_mem_language hm⟩

/-- **A match that is found is described.** -/
theorem take_mem_language {r : Regex} {text : List Char} {n : Nat} (h : r.longest text = some n) :
    text.take n ∈ r.language := by
  rcases take_mem_of_longestFrom h with h | ⟨m, rfl, hm⟩
  · cases h
  · rwa [Nat.zero_add]

end TestCatalog.Text.Regex
