/-!
# Text/Bytes — texts as bytes, and bytes shown as texts

Offsets count the bytes of a text in UTF-8.  The system keeps names, paths and arguments as bytes
too, and nothing makes these a text: a `Raw` is any list of bytes.  It is shown as a text in which a
character that is broken off, or a byte that starts none, is replaced by U+FFFD.
-/

namespace TestCatalog

/-- The bytes of a text in UTF-8. -/
def Text.bytes (text : String) : List UInt8 := text.toByteArray.data.toList

/-- A name or a path as the system keeps it. -/
structure Raw where
  bytes : List UInt8
deriving DecidableEq, Repr, Inhabited

namespace Raw

/-- The bytes of a text. -/
def ofText (text : String) : Raw := ⟨Text.bytes text⟩

instance : Coe String Raw := ⟨ofText⟩

instance : Append Raw := ⟨fun a b => ⟨a.bytes ++ b.bytes⟩⟩

/-- Texts with another one between them. -/
def intercalate (between : Raw) (texts : List Raw) : Raw :=
  ⟨between.bytes.intercalate (texts.map bytes)⟩

@[simp] theorem bytes_append (a b : Raw) : (a ++ b).bytes = a.bytes ++ b.bytes := rfl

@[simp] theorem bytes_intercalate (between : Raw) (texts : List Raw) :
    (intercalate between texts).bytes = between.bytes.intercalate (texts.map bytes) := rfl

theorem intercalate_singleton (between text : Raw) : intercalate between [text] = text :=
  congrArg mk List.intercalate_singleton

theorem intercalate_cons_cons (between text next : Raw) (texts : List Raw) :
    intercalate between (text :: next :: texts)
      = text ++ between ++ intercalate between (next :: texts) :=
  congrArg mk List.intercalate_cons_cons

@[simp] theorem bytes_ofText_empty : (ofText "").bytes = [] := rfl

def isEmpty (r : Raw) : Bool := r.bytes.isEmpty

/-- The number of bytes. -/
def size (r : Raw) : Nat := r.bytes.length

/-- Whether `a` comes before `b`, or is equal to it, in the order of their bytes. -/
def byteLE (a b : Raw) : Bool := decide (a.bytes ≤ b.bytes)

/-! ## As texts -/

/-- What is shown for bytes that are no character. -/
def replacement : Char := '�'

/-- The factor by which a number grows if a number of bytes come after it, each with six bits. -/
def scale : Nat → Nat
  | 0 => 1
  | more + 1 => 64 * scale more

/-- The start of a character of several bytes: the number that it gives so far, the least and the
greatest six bits that may come next, and how many bytes come after those.  However it goes on, it
becomes a character, and none of those that take one byte. -/
structure Started where
  value : Nat
  low : Nat
  high : Nat
  more : Nat
  wide : 0x80 ≤ (value * 64 + low) * scale more := by simp only [scale]; omega
  valid : (value * 64 + high + 1) * scale more ≤ 0xd800 ∨
    0xe000 ≤ (value * 64 + low) * scale more ∧ (value * 64 + high + 1) * scale more ≤ 0x110000 := by
      simp only [scale]; omega

/-- What a byte starts, if it is the first of several.  The bytes that can come second are limited
after four of them: what is left out would be too short a number for its bytes, a surrogate, or
beyond the last character. -/
def Started.ofByte? (b : Nat) : Option Started :=
  if _ : 0xc2 ≤ b ∧ b ≤ 0xdf then some { value := b - 0xc0, low := 0, high := 63, more := 0 }
  else if b = 0xe0 then some { value := 0, low := 0x20, high := 63, more := 1 }
  else if _ : b = 0xed then some { value := 0xd, low := 0, high := 0x1f, more := 1 }
  else if _ : 0xe1 ≤ b ∧ b ≤ 0xef then some { value := b - 0xe0, low := 0, high := 63, more := 1 }
  else if b = 0xf0 then some { value := 0, low := 0x10, high := 63, more := 2 }
  else if _ : 0xf1 ≤ b ∧ b ≤ 0xf3 then some { value := b - 0xf0, low := 0, high := 63, more := 2 }
  else if b = 0xf4 then some { value := 4, low := 0, high := 0xf, more := 2 }
  else none

/-- The start with six more bits, which are within the limits. -/
def Started.extend (s : Started) (bits : Nat) (hlow : s.low ≤ bits) (hhigh : bits ≤ s.high)
    (hmore : 0 < s.more) : Started :=
  have hscale : scale s.more = 64 * scale (s.more - 1) := by
    obtain ⟨more, hsucc⟩ := Nat.exists_eq_add_one.mpr hmore
    rw [hsucc, scale, Nat.add_sub_cancel]
  have hleast : (s.value * 64 + s.low) * scale s.more ≤
      ((s.value * 64 + bits) * 64 + 0) * scale (s.more - 1) := by
    rw [hscale, ← Nat.mul_assoc]
    exact Nat.mul_le_mul_right _ (by omega)
  have hgreatest : ((s.value * 64 + bits) * 64 + 63 + 1) * scale (s.more - 1) ≤
      (s.value * 64 + s.high + 1) * scale s.more := by
    rw [hscale, ← Nat.mul_assoc]
    exact Nat.mul_le_mul_right _ (by omega)
  { value := s.value * 64 + bits
    low := 0
    high := 63
    more := s.more - 1
    wide := Nat.le_trans s.wide hleast
    valid := s.valid.imp (Nat.le_trans hgreatest) fun h =>
      ⟨Nat.le_trans h.1 hleast, Nat.le_trans hgreatest h.2⟩ }

/-- What has been read for certain, and what has been started after that. -/
structure Reached where
  chars : List Char
  started : Option Started

/-- What a byte gives at the start of a character. -/
def firstByte (b : Nat) : Reached :=
  if b < 0x80 then ⟨[.ofNat b], none⟩
  else
    match Started.ofByte? b with
    | some s => ⟨[], s⟩
    | none => ⟨[replacement], none⟩

/-- What a byte gives after a start: it goes on with it, or breaks it off and is the first of what
comes next. -/
def Started.byte (s : Started) (b : Nat) : Reached :=
  if h : 0x80 + s.low ≤ b ∧ b ≤ 0x80 + s.high then
    if hmore : 0 < s.more then ⟨[], s.extend (b - 0x80) (by omega) (by omega) hmore⟩
    else ⟨[.ofNat (s.value * 64 + (b - 0x80))], none⟩
  else ⟨replacement :: (firstByte b).chars, (firstByte b).started⟩

/-- What the next byte gives, after a start if there is one. -/
def reach : Option Started → UInt8 → Reached
  | none, b => firstByte b.toNat
  | some s, b => s.byte b.toNat

/-- What is shown for a start at the end. -/
def brokenOff : Option Started → List Char
  | none => []
  | some _ => [replacement]

/-- The characters that are shown for bytes, after a start if there is one. -/
def shownFrom (started : Option Started) : List UInt8 → List Char
  | [] => brokenOff started
  | b :: rest =>
    let reached := reach started b
    reached.chars ++ shownFrom reached.started rest

/-- The text that is shown. -/
def shown (r : Raw) : String := String.ofList (shownFrom none r.bytes)

/-- The character that bytes start with, if they start with one. -/
def firstChar? (bytes : List UInt8) : Option Char :=
  (shownFrom none bytes).head?.filter fun c => (String.utf8EncodeChar c).isPrefixOf bytes

end Raw

end TestCatalog
