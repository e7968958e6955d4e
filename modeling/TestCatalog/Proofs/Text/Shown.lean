import Mathlib.Data.List.Induction
import TestCatalog.Proofs.Text.Order
import TestCatalog.Proofs.Text.Standing

/-!
# Proofs/Text/Shown — what bytes are shown as

Bytes are shown by a machine that keeps the start of a character between them.  A byte below 0x80
ends whatever was started and is a character of its own, so what is shown can be cut there
(`shownFrom_append_ascii`): before and after a slash, names are shown each for itself.

* `shown_ofText` — a text is shown as it is.
* `rendered_append_ascii` — what is shown, as bytes again, is cut there too.
* `isSuffix_shown_iff` — an end of such characters is shown exactly if the bytes end in it.
-/

namespace TestCatalog.Raw

open Text (bytes_eq_flatMap le_of_mem_utf8EncodeChar)

/-- A character is read back from its number. -/
theorem toNat_ofNat_of_isValidChar {n : Nat} (h : n.isValidChar) : (Char.ofNat n).toNat = n := by
  rw [Char.ofNat, dif_pos h]
  exact UInt32.toNat_ofNatLT ..

/-- A byte below 0x80 is read back from its character… -/
theorem toNat_char_of_ascii {b : UInt8} (hb : b.toNat < 0x80) :
    (Char.ofNat b.toNat).toNat = b.toNat :=
  toNat_ofNat_of_isValidChar (.inl (by omega))

/-- …and such a character from its byte. -/
theorem toNat_byte_of_ascii {c : Char} (hc : c.toNat < 0x80) :
    (UInt8.ofNat c.toNat).toNat = c.toNat :=
  UInt8.toNat_ofNat_of_lt' (show c.toNat < 2 ^ 8 by omega)

/-! ## Steps -/

/-- A byte below 0x80 is a character of its own. -/
theorem reach_ascii (started : Option Started) {b : UInt8} (hb : b.toNat < 0x80) :
    reach started b = ⟨brokenOff started ++ [.ofNat b.toNat], none⟩ := by
  cases started with
  | none => simp [reach, firstByte, hb, brokenOff]
  | some s =>
    have hnot : ¬ (0x80 + s.low ≤ b.toNat ∧ b.toNat ≤ 0x80 + s.high) := by omega
    simp [reach, Started.byte, hnot, firstByte, hb, brokenOff]

/-- What is started becomes a character that takes more than one byte. -/
theorem Started.le_toNat_ofNat (s : Started) {bits : Nat} (hlow : s.low ≤ bits)
    (hhigh : bits ≤ s.high) (hmore : s.more = 0) :
    0x80 ≤ (Char.ofNat (s.value * 64 + bits)).toNat := by
  have hwide := s.wide
  have hvalid := s.valid
  rw [hmore, scale, Nat.mul_one] at hwide
  rw [hmore, scale, Nat.mul_one, Nat.mul_one] at hvalid
  rw [toNat_ofNat_of_isValidChar (by unfold Nat.isValidChar; omega)]
  omega

/-- What a byte from 0x80 on leads to: no character that takes one byte, and not nothing. -/
structure Reached.High (r : Reached) : Prop where
  le_toNat : ∀ c ∈ r.chars, 0x80 ≤ c.toNat
  ne_nil : r.started = none → r.chars ≠ []

theorem firstByte_high {b : Nat} (hb : 0x80 ≤ b) : (firstByte b).High := by
  rw [firstByte, if_neg (by omega)]
  split
  · exact ⟨by simp, by simp⟩
  · exact ⟨by simp [replacement], by simp⟩

/-- **A byte from 0x80 on leads to something, and to no character that takes one byte.** -/
theorem reach_high (started : Option Started) {b : UInt8} (hb : 0x80 ≤ b.toNat) :
    (reach started b).High := by
  have hfirst := firstByte_high hb
  cases started with
  | none => exact hfirst
  | some s =>
    rw [reach, Started.byte]
    split
    · next hrange =>
      split
      · exact ⟨by simp, by simp⟩
      · have hle : 0x80 ≤ (Char.ofNat (s.value * 64 + (b.toNat - 0x80))).toNat :=
          s.le_toNat_ofNat (by omega) (by omega) (by omega)
        exact ⟨by simpa using hle, by simp⟩
    · exact ⟨List.forall_mem_cons.mpr ⟨by decide, hfirst.le_toNat⟩, by simp⟩

/-! ## Runs -/

/-- What comes later does not change what has been shown. -/
theorem exists_shownFrom_append (started : Option Started) (front : List UInt8) :
    ∃ chars after, ∀ rest, shownFrom started (front ++ rest) = chars ++ shownFrom after rest := by
  induction front generalizing started with
  | nil => exact ⟨[], started, fun _ => rfl⟩
  | cons b front ih =>
    obtain ⟨chars, after, hrest⟩ := ih (reach started b).started
    refine ⟨(reach started b).chars ++ chars, after, fun rest => ?_⟩
    rw [List.cons_append, shownFrom, hrest, List.append_assoc]

/-- **What is shown can be cut at a byte below 0x80.** -/
theorem shownFrom_append_ascii (started : Option Started) (front : List UInt8) {b : UInt8}
    (hb : b.toNat < 0x80) (rest : List UInt8) :
    shownFrom started (front ++ b :: rest) =
      shownFrom started front ++ .ofNat b.toNat :: shownFrom none rest := by
  obtain ⟨chars, after, h⟩ := exists_shownFrom_append started front
  have hfront := h []
  rw [List.append_nil, shownFrom] at hfront
  rw [h, hfront, shownFrom, reach_ascii after hb]
  simp

theorem le_of_mem_brokenOff (started : Option Started) :
    ∀ c ∈ brokenOff started, 0x80 ≤ c.toNat := by
  cases started <;> simp [brokenOff, replacement]

/-- After a last byte from 0x80 on, something is shown last that no single byte is shown as. -/
theorem exists_shownFrom_concat (started : Option Started) (front : List UInt8) {b : UInt8}
    (hb : 0x80 ≤ b.toNat) :
    ∃ before last, shownFrom started (front ++ [b]) = before ++ last ∧ last ≠ []
      ∧ ∀ c ∈ last, 0x80 ≤ c.toNat := by
  obtain ⟨before, after, hrest⟩ := exists_shownFrom_append started front
  obtain ⟨hle, hne⟩ := reach_high after hb
  refine ⟨before, (reach after b).chars ++ brokenOff (reach after b).started, hrest [b], ?_,
    List.forall_mem_append.mpr ⟨hle, le_of_mem_brokenOff _⟩⟩
  cases hstarted : (reach after b).started with
  | none => simpa [brokenOff] using hne hstarted
  | some s => simp [brokenOff]

/-- No bytes are shown as nothing. -/
theorem shownFrom_eq_nil_iff {bs : List UInt8} : shownFrom none bs = [] ↔ bs = [] := by
  refine ⟨fun h => ?_, fun h => h ▸ rfl⟩
  rcases List.eq_nil_or_concat bs with hnil | ⟨front, b, rfl⟩
  · exact hnil
  rw [List.concat_eq_append] at h
  by_cases hb : b.toNat < 0x80
  · rw [shownFrom_append_ascii none front hb] at h
    simp at h
  · obtain ⟨before, last, hshown, hne, -⟩ := exists_shownFrom_concat none front (Nat.not_lt.mp hb)
    exact absurd (List.append_eq_nil_iff.mp (hshown.symm.trans h)).2 hne

/-- A last character that takes one byte is shown for that byte. -/
theorem eq_append_of_shownFrom {started : Option Started} {bs : List UInt8} {chars : List Char}
    {c : Char} (hc : c.toNat < 0x80) (h : shownFrom started bs = chars ++ [c]) :
    ∃ front, bs = front ++ [UInt8.ofNat c.toNat] ∧ shownFrom started front = chars := by
  rcases List.eq_nil_or_concat bs with rfl | ⟨front, b, rfl⟩
  · have hle := le_of_mem_brokenOff started c (by rw [← shownFrom, h]; simp)
    omega
  rw [List.concat_eq_append] at h ⊢
  by_cases hb : b.toNat < 0x80
  · rw [shownFrom_append_ascii started front hb] at h
    obtain ⟨hfront, hlast⟩ := List.append_inj' h rfl
    refine ⟨front, ?_, hfront⟩
    rw [← (List.cons.inj hlast).1, toNat_char_of_ascii hb, UInt8.ofNat_toNat]
  · obtain ⟨before, last, hshown, hne, hle⟩ :=
      exists_shownFrom_concat started front (Nat.not_lt.mp hb)
    have hlast : last.getLast? = some c := by
      rw [← List.getLast?_append_of_ne_nil before hne, ← hshown, h, List.getLast?_concat]
    have := hle c (List.mem_of_getLast? hlast)
    omega

/-! ## Texts -/

/-- A byte that holds six bits goes on with what has been started, if these are within the
limits. -/
theorem reach_bits {s : Started} {bits : Nat} (hbits : bits < 64) (hlow : s.low ≤ bits)
    (hhigh : bits ≤ s.high) :
    reach (some s) (UInt8.ofNat (bits + 0x80)) =
      if hmore : 0 < s.more then ⟨[], s.extend bits hlow hhigh hmore⟩
      else ⟨[.ofNat (s.value * 64 + bits)], none⟩ := by
  have hbyte : (UInt8.ofNat (bits + 0x80)).toNat = bits + 0x80 := by
    rw [UInt8.toNat_ofNat']
    omega
  rw [reach, hbyte, Started.byte, dif_pos (by omega)]
  simp only [Nat.add_sub_cancel]

/-- The last bytes of a character with a given number: each holds six bits. -/
def lastBytes (v : Nat) : Nat → List UInt8
  | 0 => []
  | more + 1 => UInt8.ofNat (v / scale more % 64 + 0x80) :: lastBytes v more

/-- A number without its last bits is that with six bits more taken off, and these put back. -/
theorem div_scale_eq (v more : Nat) :
    v / scale (more + 1) * 64 + v / scale more % 64 = v / scale more := by
  rw [scale, Nat.mul_comm 64, ← Nat.div_div_eq_div_mul]
  omega

/-- The last bytes finish what has been started. -/
theorem shownFrom_lastBytes {s : Started} {more v : Nat} (hmore : s.more = more)
    (hvalue : s.value = v / scale (more + 1)) (hlow : s.low ≤ v / scale more % 64)
    (hhigh : v / scale more % 64 ≤ s.high) (rest : List UInt8) :
    shownFrom (some s) (lastBytes v (more + 1) ++ rest) = .ofNat v :: shownFrom none rest := by
  have hbits (n : Nat) : n % 64 < 64 := Nat.mod_lt n (by decide)
  induction more generalizing s with
  | zero =>
    rw [lastBytes, List.cons_append, shownFrom, reach_bits (hbits _) hlow hhigh,
      dif_neg (by omega), hvalue, div_scale_eq, scale, Nat.div_one]
    rfl
  | succ more ih =>
    rw [lastBytes, List.cons_append, shownFrom, reach_bits (hbits _) hlow hhigh,
      dif_pos (by omega)]
    refine ih (s := s.extend _ hlow hhigh (by omega)) ?_ ?_ (Nat.zero_le _)
      (Nat.le_of_lt_succ (hbits _))
    · show s.more - 1 = more
      omega
    · show s.value * 64 + v / scale (more + 1) % 64 = v / scale (more + 1)
      rw [hvalue, div_scale_eq]

/-- A first byte that starts the character with a given number, when some bytes more come after the
next one. -/
def Starts (b v more : Nat) : Prop :=
  ∃ s, Started.ofByte? b = some s ∧ s.more = more ∧ s.value = v / scale (more + 1)
    ∧ s.low ≤ v / scale more % 64 ∧ v / scale more % 64 ≤ s.high

-- In each of the three, all ranges of first bytes but those of its length are out of reach.
theorem starts_two {v : Nat} (hlow : 0x80 ≤ v) (hhigh : v < 0x800) :
    Starts (v / 64 % 32 + 192) v 0 := by
  unfold Starts Started.ofByte?
  split_ifs <;> simp [scale] <;> omega

theorem starts_three {v : Nat} (hlow : 0x800 ≤ v) (hhigh : v < 0x10000)
    (hvalid : v < 0xd800 ∨ 0xdfff < v) : Starts (v / 4096 % 16 + 224) v 1 := by
  unfold Starts Started.ofByte?
  split_ifs <;> simp [scale] <;> omega

theorem starts_four {v : Nat} (hlow : 0x10000 ≤ v) (hhigh : v < 0x110000) :
    Starts (v / 262144 % 8 + 240) v 2 := by
  unfold Starts Started.ofByte?
  split_ifs <;> simp [scale] <;> omega

/-- A character of several bytes is shown if its first byte starts it. -/
theorem shownFrom_of_starts {b v more : Nat} (h : Starts b v more) (hlow : 0x80 ≤ b)
    (hhigh : b < 0x100) (rest : List UInt8) :
    shownFrom none (UInt8.ofNat b :: lastBytes v (more + 1) ++ rest) =
      .ofNat v :: shownFrom none rest := by
  obtain ⟨s, hs, hmore, hvalue, hleast, hgreatest⟩ := h
  have hreach : reach none (UInt8.ofNat b) = ⟨[], some s⟩ := by
    rw [reach, UInt8.toNat_ofNat_of_lt' hhigh, firstByte, if_neg (by omega), hs]
  rw [List.cons_append, shownFrom, hreach]
  exact shownFrom_lastBytes hmore hvalue hleast hgreatest rest

/-- **A character is shown for its bytes.** -/
theorem shownFrom_encodeChar (c : Char) (rest : List UInt8) :
    shownFrom none (String.utf8EncodeChar c ++ rest) = c :: shownFrom none rest := by
  obtain ⟨v, hv⟩ : ∃ v, c.val.toNat = v := ⟨_, rfl⟩
  have hvalid : v < 0xd800 ∨ 0xdfff < v ∧ v < 0x110000 := hv ▸ c.valid
  have hc : c = Char.ofNat v := hv ▸ (Char.ofNat_toNat c).symm
  dsimp only [String.utf8EncodeChar]
  rw [hv, hc]
  split_ifs with hone htwo hthree
  · have hbyte : (UInt8.ofNat v).toNat = v :=
      UInt8.toNat_ofNat_of_lt' (show v < 2 ^ 8 by omega)
    rw [List.singleton_append, shownFrom, reach_ascii none (by omega), hbyte]
    rfl
  · have hstarts := starts_two (v := v) (by omega) (by omega)
    simpa [lastBytes, scale] using shownFrom_of_starts hstarts (by omega) (by omega) rest
  · have hstarts := starts_three (v := v) (by omega) (by omega) (by omega)
    simpa [lastBytes, scale] using shownFrom_of_starts hstarts (by omega) (by omega) rest
  · have hstarts := starts_four (v := v) (by omega) (by omega)
    simpa [lastBytes, scale] using shownFrom_of_starts hstarts (by omega) (by omega) rest

theorem shownFrom_flatMap_encode (cs : List Char) :
    shownFrom none (cs.flatMap String.utf8EncodeChar) = cs := by
  induction cs with
  | nil => rfl
  | cons c cs ih => rw [List.flatMap_cons, shownFrom_encodeChar, ih]

/-- **A text is shown as it is.** -/
@[simp] theorem shown_ofText (text : String) : (ofText text).shown = text := by
  rw [shown, ofText, bytes_eq_flatMap, shownFrom_flatMap_encode, String.ofList_toList]

theorem toList_shown (r : Raw) : r.shown.toList = shownFrom none r.bytes := String.toList_ofList

/-! ## Characters of one byte -/

theorem utf8EncodeChar_ascii {c : Char} (h : c.toNat < 0x80) :
    String.utf8EncodeChar c = [UInt8.ofNat c.toNat] := by
  have hone : c.val.toNat ≤ 127 := Nat.le_of_lt_succ h
  dsimp only [String.utf8EncodeChar]
  rw [if_pos hone]
  rfl

/-- A byte below 0x80 stands in a text for a character that is this byte. -/
theorem mem_of_mem_bytes {text : String} {b : UInt8} (hb : b.toNat < 0x80)
    (h : b ∈ Text.bytes text) : Char.ofNat b.toNat ∈ text.toList := by
  rw [bytes_eq_flatMap] at h
  obtain ⟨c, hc, hbc⟩ := List.mem_flatMap.mp h
  have hascii : c.toNat < 0x80 := by
    by_contra hnot
    have := le_of_mem_utf8EncodeChar (Nat.le_refl _) (Nat.not_lt.mp hnot) b hbc
    omega
  rw [utf8EncodeChar_ascii hascii, List.mem_singleton] at hbc
  rwa [hbc, toNat_byte_of_ascii hascii, Char.ofNat_toNat]

/-- A character of one byte is shown only for that byte. -/
theorem mem_of_mem_shownFrom {started : Option Started} {bs : List UInt8} {c : Char}
    (hc : c.toNat < 0x80) (h : c ∈ shownFrom started bs) : UInt8.ofNat c.toNat ∈ bs := by
  induction bs generalizing started with
  | nil =>
    have := le_of_mem_brokenOff started c h
    omega
  | cons b bs ih =>
    rw [shownFrom, List.mem_append] at h
    rcases h with hhere | hlater
    · by_cases hb : b.toNat < 0x80
      · rw [reach_ascii started hb, List.mem_append, List.mem_singleton] at hhere
        rcases hhere with hbroken | rfl
        · have := le_of_mem_brokenOff started c hbroken
          omega
        · rw [toNat_char_of_ascii hb, UInt8.ofNat_toNat]
          exact List.mem_cons_self
      · have := (reach_high started (Nat.not_lt.mp hb)).le_toNat c hhere
        omega
    · exact List.mem_cons_of_mem _ (ih hlater)

/-- Such characters at the end are shown for their bytes. -/
theorem exists_append_of_shownFrom {started : Option Started} {bs : List UInt8}
    {chars ending : List Char} (hending : ending.all (·.toNat < 0x80))
    (h : shownFrom started bs = chars ++ ending) :
    ∃ front, bs = front ++ ending.flatMap String.utf8EncodeChar
      ∧ shownFrom started front = chars := by
  induction ending using List.reverseRecOn generalizing bs with
  | nil => exact ⟨bs, (List.append_nil bs).symm, by simpa using h⟩
  | append_singleton ending c ih =>
    rw [List.all_append, Bool.and_eq_true] at hending
    have hc : c.toNat < 0x80 := by simpa using hending.2
    rw [← List.append_assoc] at h
    obtain ⟨before, rfl, hbefore⟩ := eq_append_of_shownFrom hc h
    obtain ⟨front, rfl, hfront⟩ := ih hending.1 hbefore
    refine ⟨front, ?_, hfront⟩
    rw [List.flatMap_append, List.flatMap_singleton, utf8EncodeChar_ascii hc, List.append_assoc]

/-- …and are shown wherever these are. -/
theorem shownFrom_append_flatMap (started : Option Started) (front : List UInt8)
    {ending : List Char} (hending : ending.all (·.toNat < 0x80)) :
    shownFrom started (front ++ ending.flatMap String.utf8EncodeChar)
      = shownFrom started front ++ ending := by
  induction ending using List.reverseRecOn with
  | nil => simp
  | append_singleton ending c ih =>
    rw [List.all_append, Bool.and_eq_true] at hending
    have hc : c.toNat < 0x80 := by simpa using hending.2
    have hbyte := toNat_byte_of_ascii hc
    rw [List.flatMap_append, List.flatMap_singleton, utf8EncodeChar_ascii hc, ← List.append_assoc,
      shownFrom_append_ascii _ _ (by omega), ih hending.1, hbyte, Char.ofNat_toNat,
      List.append_assoc]
    rfl

/-- **An end of such characters is shown exactly if the bytes end in it.** -/
theorem isSuffix_shown_iff {r : Raw} {ending : String}
    (hending : ending.toList.all (·.toNat < 0x80)) :
    ending.toList <:+ r.shown.toList ↔ (ofText ending).bytes <:+ r.bytes := by
  rw [toList_shown, ofText, bytes_eq_flatMap]
  constructor
  · rintro ⟨chars, h⟩
    obtain ⟨front, hfront, -⟩ := exists_append_of_shownFrom hending h.symm
    exact ⟨front, hfront.symm⟩
  · rintro ⟨front, h⟩
    exact ⟨_, by rw [← h, shownFrom_append_flatMap _ _ hending]⟩

/-- **Only a text of such characters is shown as it.** -/
theorem shown_eq_iff {r : Raw} {text : String} (htext : text.toList.all (·.toNat < 0x80)) :
    r.shown = text ↔ r = text := by
  refine ⟨fun h => ?_, fun h => h ▸ shown_ofText text⟩
  have hshown : shownFrom none r.bytes = [] ++ text.toList := by rw [← toList_shown, h]; rfl
  obtain ⟨front, hfront, hnil⟩ := exists_append_of_shownFrom htext hshown
  rw [shownFrom_eq_nil_iff.mp hnil, List.nil_append, ← bytes_eq_flatMap] at hfront
  exact congrArg mk hfront

/-! ## What is shown, as bytes again -/

/-- The bytes of what is shown. -/
def rendered (r : Raw) : Raw := ofText r.shown

@[simp] theorem rendered_ofText (text : String) : (ofText text).rendered = ofText text := by
  rw [rendered, shown_ofText]

theorem bytes_rendered (r : Raw) :
    r.rendered.bytes = (shownFrom none r.bytes).flatMap String.utf8EncodeChar := by
  rw [rendered, ofText, bytes_eq_flatMap, toList_shown]

/-- Only a text of characters of one byte is rendered as it. -/
theorem rendered_eq_iff {r : Raw} {text : String} (htext : text.toList.all (·.toNat < 0x80)) :
    r.rendered = text ↔ r = text := by
  rw [rendered, ofText_inj, shown_eq_iff htext]

/-- What is rendered can be cut at a byte below 0x80. -/
theorem rendered_append_ascii (front : List UInt8) {b : UInt8} (hb : b.toNat < 0x80)
    (rest : List UInt8) :
    (mk (front ++ b :: rest)).rendered.bytes
      = (mk front).rendered.bytes ++ b :: (mk rest).rendered.bytes := by
  have hchar := toNat_char_of_ascii hb
  rw [bytes_rendered, shownFrom_append_ascii none front hb, List.flatMap_append, List.flatMap_cons,
    utf8EncodeChar_ascii (by omega), hchar, UInt8.ofNat_toNat, bytes_rendered, bytes_rendered]
  rfl

/-- Bytes below 0x80 are kept, and none come in. -/
theorem mem_rendered_iff {r : Raw} {b : UInt8} (hb : b.toNat < 0x80) :
    b ∈ r.rendered.bytes ↔ b ∈ r.bytes := by
  have hchar := toNat_char_of_ascii hb
  constructor
  · intro h
    have hshown := mem_of_mem_bytes hb h
    rw [toList_shown] at hshown
    simpa [hchar] using mem_of_mem_shownFrom (by omega) hshown
  · intro h
    obtain ⟨front, rest, hbytes⟩ := List.append_of_mem h
    obtain rfl : r = mk (front ++ b :: rest) := congrArg mk hbytes
    rw [rendered_append_ascii front hb]
    exact List.mem_append_right _ List.mem_cons_self

end TestCatalog.Raw
