import Mathlib.Data.List.Basic
import TestCatalog.Go.Tokenizer
import TestCatalog.Text.Bytes

/-!
# Proofs/Text/Standing — pieces of text at byte offsets

The parser goes through characters and counts bytes.  `StandsAt` says where a piece of text stands
in a source by its characters, and `StandsAt.isPrefix` says the same by the bytes.
-/

namespace TestCatalog.Text

open Go (byteLength)

/-! ## Bytes of texts -/

/-- The bytes of a text are those of its characters. -/
theorem bytes_eq_flatMap (text : String) :
    bytes text = text.toList.flatMap String.utf8EncodeChar := by
  obtain ⟨cs, rfl⟩ : ∃ cs, text = String.ofList cs := ⟨text.toList, String.ofList_toList.symm⟩
  simp [bytes, List.utf8Encode]

theorem byteLength_foldl (cs : List Char) (n : Nat) :
    cs.foldl (fun n c => n + c.utf8Size) n = n + byteLength cs := by
  induction cs generalizing n with
  | nil => rfl
  | cons c cs ih =>
    rw [byteLength, List.foldl_cons, List.foldl_cons, ih, ih (0 + _)]
    omega

theorem byteLength_nil : byteLength [] = 0 := rfl

theorem byteLength_cons (c : Char) (cs : List Char) :
    byteLength (c :: cs) = c.utf8Size + byteLength cs := by
  rw [byteLength, List.foldl_cons, byteLength_foldl, Nat.zero_add]

theorem byteLength_append (as bs : List Char) :
    byteLength (as ++ bs) = byteLength as + byteLength bs := by
  rw [byteLength, List.foldl_append, byteLength_foldl]
  rfl

theorem byteLength_pos {text : String} (h : text ≠ "") : 0 < byteLength text.toList := by
  cases hchars : text.toList with
  | nil => exact absurd (String.toList_eq_nil_iff.mp hchars) h
  | cons c cs =>
    have hpos := Char.utf8Size_pos c
    rw [byteLength_cons]
    omega

/-- The length of a text counts its bytes. -/
theorem length_flatMap_encode (cs : List Char) :
    (cs.flatMap String.utf8EncodeChar).length = byteLength cs := by
  induction cs with
  | nil => rfl
  | cons c cs ih =>
    rw [List.flatMap_cons, List.length_append, ih, String.length_utf8EncodeChar, byteLength_cons]

theorem length_bytes (text : String) : (bytes text).length = byteLength text.toList := by
  rw [bytes_eq_flatMap, length_flatMap_encode]

/-- Below 0x80 no byte of a character is less than its number. -/
theorem le_of_mem_utf8EncodeChar {c : Char} {n : Nat} (hn : n ≤ 0x80) (h : n ≤ c.toNat) :
    ∀ b ∈ String.utf8EncodeChar c, n ≤ b.toNat := by
  intro b hb
  obtain ⟨m, rfl, hlow, hhigh⟩ : ∃ m, b = UInt8.ofNat m ∧ n ≤ m ∧ m < 0x100 := by
    have hvalue : n ≤ c.val.toNat := h
    dsimp only [String.utf8EncodeChar] at hb
    split_ifs at hb
    all_goals
      simp only [List.mem_cons, List.not_mem_nil, or_false] at hb
      rcases hb with rfl | rfl | rfl | rfl <;> exact ⟨_, rfl, by omega, by omega⟩
  rwa [UInt8.toNat_ofNat_of_lt' hhigh]

/-! ## Where a text stands -/

/-- The text from an offset on. -/
def GoesOnAt (source : List Char) (offset : Nat) (rest : List Char) : Prop :=
  ∃ before, source = before ++ rest ∧ byteLength before = offset

/-- **A piece of text stands in a source at an offset.** -/
def StandsAt (source : List Char) (offset : Nat) (text : String) : Prop :=
  ∃ after, GoesOnAt source offset (text.toList ++ after)

theorem GoesOnAt.start (source : List Char) : GoesOnAt source 0 source := ⟨[], rfl, rfl⟩

/-- The text goes on behind its first characters. -/
theorem GoesOnAt.drop {source first rest : List Char} {offset : Nat}
    (h : GoesOnAt source offset (first ++ rest)) :
    GoesOnAt source (offset + byteLength first) rest := by
  obtain ⟨before, rfl, rfl⟩ := h
  exact ⟨before ++ first, (List.append_assoc ..).symm, byteLength_append ..⟩

theorem GoesOnAt.tail {source rest : List Char} {c : Char} {offset : Nat}
    (h : GoesOnAt source offset (c :: rest)) : GoesOnAt source (offset + c.utf8Size) rest := by
  have hdrop := (show GoesOnAt source offset ([c] ++ rest) from h).drop
  rwa [byteLength_cons, byteLength_nil, Nat.add_zero] at hdrop

/-- **Where a text stands, the bytes of the source go on with its bytes.** -/
theorem StandsAt.isPrefix {source text : String} {offset : Nat}
    (h : StandsAt source.toList offset text) : bytes text <+: (bytes source).drop offset := by
  obtain ⟨after, before, hsource, rfl⟩ := h
  refine ⟨after.flatMap String.utf8EncodeChar, ?_⟩
  rw [bytes_eq_flatMap source, hsource, List.flatMap_append, ← length_flatMap_encode,
    List.drop_left, List.flatMap_append, bytes_eq_flatMap]

end TestCatalog.Text
