import Mathlib.Data.List.Basic

/-!
# Proofs/Json/Grammar — the texts that spell a JSON value

`Spells` is the grammar of JSON: which texts spell a value, an element with the blanks around it,
the items of an array, or the members of an object.  It says nothing of how a text is read.

* `Spells.determined` — the text of a value is that of no other: strings end at the first quote that
  no backslash protects, numbers and blanks extend as far as they can, and the first character that
  is not a blank tells all other cases apart.
* `Denotes.unique` — hence a text denotes at most one value.
-/

namespace TestCatalog

/-- A JSON value.  A number is `mantissa * 10 ^ exponent`. -/
inductive Json where
  | null
  | bool (b : Bool)
  | number (mantissa exponent : Int)
  | string (s : String)
  | array (items : List Json)
  | object (members : List (String × Json))

namespace Json

/-! ## Numbers -/

/-- One digit or more. -/
def Digits (cs : List Char) : Prop := cs ≠ [] ∧ ∀ c ∈ cs, c.isDigit = true

/-- The fraction of a number, if it has one: its digits and its text. -/
inductive Fraction : List Char → List Char → Prop
  | absent : Fraction [] []
  | present {digits : List Char} (h : Digits digits) : Fraction digits ('.' :: digits)

/-- The sign of an exponent and its text. -/
inductive Sign : Int → List Char → Prop
  | none : Sign 1 []
  | plus : Sign 1 ['+']
  | minus : Sign (-1) ['-']

/-- The exponent of a number, if it has one: its value and its text. -/
inductive Exponent : Int → List Char → Prop
  | absent : Exponent 0 []
  | present {e : Char} {sign : Int} {signText digits : List Char} (he : e = 'e' ∨ e = 'E')
      (hsign : Sign sign signText) (h : Digits digits) :
      Exponent (sign * Nat.ofDigitChars 10 digits 0) (e :: (signText ++ digits))

/-- A number without a sign.  Only `0` itself starts with the digit `0`. -/
inductive Unsigned : Nat → Int → List Char → Prop
  | mk {whole digits fraction exponent : List Char} {e : Int} (hwhole : Digits whole)
      (hzero : whole.head? = some '0' → whole = ['0']) (hfraction : Fraction digits fraction)
      (hexponent : Exponent e exponent) :
      Unsigned (Nat.ofDigitChars 10 (whole ++ digits) 0) (e - digits.length)
        (whole ++ (fraction ++ exponent))

/-- A number. -/
inductive Numeral : Int → Int → List Char → Prop
  | positive {n : Nat} {e : Int} {cs : List Char} (h : Unsigned n e cs) : Numeral n e cs
  | negative {n : Nat} {e : Int} {cs : List Char} (h : Unsigned n e cs) :
      Numeral (-(n : Int)) e ('-' :: cs)

/-! ## Strings -/

/-- What a character after a backslash stands for. -/
def escaped? (c : Char) : Option Char :=
  [('"', '"'), ('\\', '\\'), ('/', '/'), ('b', '\x08'), ('f', '\x0c'), ('n', '\n'), ('r', '\r'),
    ('t', '\t')].lookup c

/-- The value of a hexadecimal digit, small or capital. -/
def hexDigit? (c : Char) : Option Nat :=
  if '0' ≤ c ∧ c ≤ '9' then some (c.toNat - '0'.toNat)
  else if 'a' ≤ c ∧ c ≤ 'f' then some (c.toNat - 'a'.toNat + 10)
  else if 'A' ≤ c ∧ c ≤ 'F' then some (c.toNat - 'A'.toNat + 10)
  else none

/-- The value of four hexadecimal digits. -/
def hex? : List Char → Option Nat
  | [a, b, c, d] => do
    return 16 * (16 * (16 * (← hexDigit? a) + (← hexDigit? b)) + (← hexDigit? c)) + (← hexDigit? d)
  | _ => none

/-- **A character and how it may stand in a string**: as it is, behind a backslash, or by its number,
which two codes make up beyond `0xffff`. -/
inductive Coded (c : Char) : List Char → Prop
  | plain (hcontrol : 0x20 ≤ c.toNat) (hquote : c ≠ '"') (hbackslash : c ≠ '\\') : Coded c [c]
  | escape {e : Char} (he : escaped? e = some c) : Coded c ['\\', e]
  | code {digits : List Char} (hcode : hex? digits = some c.toNat) :
      Coded c ('\\' :: 'u' :: digits)
  | pair {digits digits' : List Char} {high low : Nat} (hhigh : hex? digits = some high)
      (hlow : hex? digits' = some low) (hrange : 0xd800 ≤ high ∧ high < 0xdc00)
      (hrange' : 0xdc00 ≤ low ∧ low < 0xe000)
      (hcode : c.toNat = 0x10000 + 0x400 * (high - 0xd800) + (low - 0xdc00)) :
      Coded c ('\\' :: 'u' :: (digits ++ '\\' :: 'u' :: digits'))

/-- The characters of a string and how they stand between its quotes. -/
inductive Quoted : List Char → List Char → Prop
  | nil : Quoted [] []
  | cons {c : Char} {s code cs : List Char} (hc : Coded c code) (h : Quoted s cs) :
      Quoted (c :: s) (code ++ cs)

/-! ## Values -/

/-- The values that have words. -/
def words : List (List Char × Json) :=
  [(['n', 'u', 'l', 'l'], .null), (['t', 'r', 'u', 'e'], .bool true),
    (['f', 'a', 'l', 's', 'e'], .bool false)]

/-- A value without parts. -/
inductive Scalar : Json → List Char → Prop
  | word {v : Json} {cs : List Char} (h : (cs, v) ∈ words) : Scalar v cs
  | number {m e : Int} {cs : List Char} (h : Numeral m e cs) : Scalar (.number m e) cs
  | string {s cs : List Char} (h : Quoted s cs) :
      Scalar (.string (String.ofList s)) ('"' :: (cs ++ ['"']))

/-- Whether a character may stand between two parts of a value. -/
def isBlank (c : Char) : Bool := c == ' ' || c == '\t' || c == '\n' || c == '\r'

/-- Blanks only. -/
def Blank (cs : List Char) : Prop := ∀ c ∈ cs, isBlank c = true

/-- What a piece of text may spell: a value, a value with blanks around it, the items of an array,
a member of an object, its members. -/
inductive Phrase where
  | value (v : Json)
  | element (v : Json)
  | items (vs : List Json)
  | member (m : String × Json)
  | members (ms : List (String × Json))

/-- **The grammar of JSON.** -/
inductive Spells : Phrase → List Char → Prop
  | scalar {v : Json} {cs : List Char} (h : Scalar v cs) : Spells (.value v) cs
  | array {vs : List Json} {cs : List Char} (h : Spells (.items vs) cs) :
      Spells (.value (.array vs)) ('[' :: (cs ++ [']']))
  | object {ms : List (String × Json)} {cs : List Char} (h : Spells (.members ms) cs) :
      Spells (.value (.object ms)) ('\x7b' :: (cs ++ ['\x7d']))
  | element {v : Json} {before cs after : List Char} (hbefore : Blank before)
      (h : Spells (.value v) cs) (hafter : Blank after) :
      Spells (.element v) (before ++ (cs ++ after))
  | noItems {cs : List Char} (h : Blank cs) : Spells (.items []) cs
  | lastItem {v : Json} {cs : List Char} (h : Spells (.element v) cs) : Spells (.items [v]) cs
  | moreItems {v w : Json} {vs : List Json} {cs later : List Char} (h : Spells (.element v) cs)
      (hlater : Spells (.items (w :: vs)) later) :
      Spells (.items (v :: w :: vs)) (cs ++ ',' :: later)
  | member {key : List Char} {v : Json} {before quoted after cs : List Char}
      (hbefore : Blank before) (hkey : Quoted key quoted) (hafter : Blank after)
      (h : Spells (.element v) cs) :
      Spells (.member (String.ofList key, v))
        (before ++ '"' :: (quoted ++ '"' :: (after ++ ':' :: cs)))
  | noMembers {cs : List Char} (h : Blank cs) : Spells (.members []) cs
  | lastMember {m : String × Json} {cs : List Char} (h : Spells (.member m) cs) :
      Spells (.members [m]) cs
  | moreMembers {m m' : String × Json} {ms : List (String × Json)} {cs later : List Char}
      (h : Spells (.member m) cs) (hlater : Spells (.members (m' :: ms)) later) :
      Spells (.members (m :: m' :: ms)) (cs ++ ',' :: later)

/-- **A text spells a value.** -/
def Denotes (text : String) (v : Json) : Prop := Spells (.element v) text.toList

/-! ## Where a part ends -/

/-- The text is at its end, or goes on with a character of a class. -/
def GoesOn (p : Char → Bool) (rest : List Char) : Prop := ∀ c ∈ rest.head?, p c = true

/-- Whether a character ends an element. -/
def isStop (c : Char) : Bool := c == ',' || c == ']' || c == '\x7d'

/-- Whether a character may follow a value. -/
def endsValue (c : Char) : Bool := isBlank c || isStop c

theorem GoesOn.imp {p q : Char → Bool} {rest : List Char} (h : GoesOn p rest)
    (hpq : ∀ c, p c = true → q c = true) : GoesOn q rest := fun c hc => hpq c (h c hc)

theorem goesOn_cons {p : Char → Bool} {c : Char} {rest : List Char} :
    GoesOn p (c :: rest) ↔ p c = true := by simp [GoesOn]

theorem goesOn_append {p : Char → Bool} {cs rest : List Char} (hcs : ∀ c ∈ cs, p c = true)
    (hrest : GoesOn p rest) : GoesOn p (cs ++ rest) := by
  cases cs with
  | nil => exact hrest
  | cons c cs => simpa [GoesOn] using hcs c (by simp)

/-- **A run of characters of a class ends where the text goes on with another.** -/
theorem run_unique {p : Char → Bool} {a a' r r' : List Char} (ha : ∀ c ∈ a, p c = true)
    (ha' : ∀ c ∈ a', p c = true) (hr : GoesOn (! p ·) r) (hr' : GoesOn (! p ·) r')
    (h : a ++ r = a' ++ r') : a = a' ∧ r = r' := by
  have htake : ∀ {b s : List Char}, (∀ c ∈ b, p c = true) → GoesOn (! p ·) s →
      (b ++ s).takeWhile p = b := by
    intro b s hb hs
    rw [List.takeWhile_append_of_pos hb]
    cases s with
    | nil => simp
    | cons c s => simp [(by simpa [GoesOn] using hs : p c = false)]
  have haa : a = a' := by rw [← htake ha hr, h, htake ha' hr']
  subst haa
  exact ⟨rfl, List.append_cancel_left h⟩

/-! ## A number is determined -/

/-- A character that does not go on with a number. -/
def endsNumber (c : Char) : Bool := !c.isDigit && c != '.' && c != 'e' && c != 'E'

theorem endsNumber_of_endsValue (c : Char) (h : endsValue c = true) : endsNumber c = true := by
  simp only [endsValue, isBlank, isStop, Bool.or_eq_true, beq_iff_eq] at h
  rcases h with (((rfl | rfl) | rfl) | rfl) | ((rfl | rfl) | rfl) <;> decide

theorem not_isDigit_of_endsNumber (c : Char) (h : endsNumber c = true) :
    (!c.isDigit) = true := by
  simp only [endsNumber, Bool.and_eq_true] at h
  exact h.1.1.1

theorem Digits.goesOn {ds : List Char} (h : Digits ds) (rest : List Char) :
    GoesOn Char.isDigit (ds ++ rest) := by
  intro c hc
  rw [List.head?_append_of_ne_nil _ h.1] at hc
  exact h.2 c (List.mem_of_mem_head? hc)

/-- A sign in front of a digit is determined. -/
theorem Sign.determined {σ σ' : Int} {s s' r r' : List Char} (h : Sign σ s) (h' : Sign σ' s')
    (hr : GoesOn Char.isDigit r) (hr' : GoesOn Char.isDigit r') (heq : s ++ r = s' ++ r') :
    σ = σ' ∧ r = r' := by
  have hplus : ∀ {t : List Char}, ¬ GoesOn Char.isDigit ('+' :: t) := by simp [GoesOn]
  have hminus : ∀ {t : List Char}, ¬ GoesOn Char.isDigit ('-' :: t) := by simp [GoesOn]
  cases h <;> cases h' <;> simp only [List.nil_append, List.cons_append] at heq
  case none.none => exact ⟨rfl, heq⟩
  case none.plus => exact absurd (heq ▸ hr) hplus
  case none.minus => exact absurd (heq ▸ hr) hminus
  case plus.none => exact absurd (heq.symm ▸ hr') hplus
  case plus.plus => exact ⟨rfl, (List.cons.inj heq).2⟩
  case plus.minus => simp at heq
  case minus.none => exact absurd (heq.symm ▸ hr') hminus
  case minus.plus => simp at heq
  case minus.minus => exact ⟨rfl, (List.cons.inj heq).2⟩

theorem goesOn_exponent {e : Int} {cs rest : List Char} (h : Exponent e cs)
    (hrest : GoesOn endsNumber rest) : GoesOn (! ·.isDigit) (cs ++ rest) := by
  rcases h with _ | ⟨rfl | rfl, -, -⟩
  · exact hrest.imp not_isDigit_of_endsNumber
  · simp [GoesOn]
  · simp [GoesOn]

/-- **An exponent is determined**, and so is where it ends. -/
theorem Exponent.determined {e e' : Int} {cs cs' rest rest' : List Char} (h : Exponent e cs)
    (h' : Exponent e' cs') (hrest : GoesOn endsNumber rest) (hrest' : GoesOn endsNumber rest')
    (heq : cs ++ rest = cs' ++ rest') : e = e' ∧ rest = rest' := by
  have hletter : ∀ {c : Char} {t : List Char}, c = 'e' ∨ c = 'E' →
      ¬ GoesOn endsNumber (c :: t) := by
    rintro c t (rfl | rfl) <;> simp [GoesOn, endsNumber]
  rcases h with _ | ⟨he, hsign, hds⟩ <;> rcases h' with _ | ⟨he', hsign', hds'⟩
  · exact ⟨rfl, heq⟩
  · rw [List.nil_append] at heq
    exact absurd (heq ▸ hrest) (hletter he')
  · rw [List.nil_append] at heq
    exact absurd (heq ▸ hrest') (hletter he)
  · rw [List.cons_append, List.cons_append, List.append_assoc, List.append_assoc] at heq
    obtain ⟨rfl, hdigits⟩ := hsign.determined hsign' (hds.goesOn rest) (hds'.goesOn rest')
      (List.cons.inj heq).2
    obtain ⟨rfl, rfl⟩ := run_unique hds.2 hds'.2 (hrest.imp not_isDigit_of_endsNumber)
      (hrest'.imp not_isDigit_of_endsNumber) hdigits
    exact ⟨rfl, rfl⟩

theorem Fraction.determined {ds ds' cs cs' rest rest' : List Char} (h : Fraction ds cs)
    (h' : Fraction ds' cs') (hrest : GoesOn (! ·.isDigit) rest)
    (hrest' : GoesOn (! ·.isDigit) rest') (hdot : GoesOn (· != '.') rest)
    (hdot' : GoesOn (· != '.') rest') (heq : cs ++ rest = cs' ++ rest') :
    ds = ds' ∧ rest = rest' := by
  rcases h with _ | hds <;> rcases h' with _ | hds'
  · exact ⟨rfl, heq⟩
  · rw [List.nil_append] at heq
    exact absurd (heq ▸ hdot) (by simp [GoesOn])
  · rw [List.nil_append] at heq
    exact absurd (heq ▸ hdot') (by simp [GoesOn])
  · exact run_unique hds.2 hds'.2 hrest hrest' (List.cons.inj heq).2

theorem goesOn_fraction {ds cs rest : List Char} (h : Fraction ds cs)
    (hrest : GoesOn (! ·.isDigit) rest) : GoesOn (! ·.isDigit) (cs ++ rest) := by
  rcases h with _ | -
  · exact hrest
  · simp [GoesOn]

theorem exponent_no_dot {e : Int} {cs rest : List Char} (h : Exponent e cs)
    (hrest : GoesOn endsNumber rest) : GoesOn (· != '.') (cs ++ rest) := by
  rcases h with _ | ⟨rfl | rfl, -, -⟩
  · exact hrest.imp fun c hc => by
      simp only [endsNumber, Bool.and_eq_true] at hc
      exact hc.1.1.2
  · simp [GoesOn]
  · simp [GoesOn]

/-- **A number without a sign is determined**: its digits, then its fraction, then its exponent go as
far as they can. -/
theorem Unsigned.determined {n n' : Nat} {e e' : Int} {cs cs' rest rest' : List Char}
    (h : Unsigned n e cs) (h' : Unsigned n' e' cs') (hrest : GoesOn endsNumber rest)
    (hrest' : GoesOn endsNumber rest') (heq : cs ++ rest = cs' ++ rest') :
    n = n' ∧ e = e' ∧ rest = rest' := by
  obtain ⟨hwhole, -, hfraction, hexponent⟩ := h
  obtain ⟨hwhole', -, hfraction', hexponent'⟩ := h'
  simp only [List.append_assoc] at heq
  have hlater := goesOn_exponent hexponent hrest
  have hlater' := goesOn_exponent hexponent' hrest'
  obtain ⟨rfl, heq'⟩ := run_unique hwhole.2 hwhole'.2 (goesOn_fraction hfraction hlater)
    (goesOn_fraction hfraction' hlater') heq
  obtain ⟨rfl, heq''⟩ := hfraction.determined hfraction' hlater hlater'
    (exponent_no_dot hexponent hrest) (exponent_no_dot hexponent' hrest') heq'
  obtain ⟨rfl, rfl⟩ := hexponent.determined hexponent' hrest hrest' heq''
  exact ⟨rfl, rfl, rfl⟩

theorem Unsigned.goesOn {n : Nat} {e : Int} {cs : List Char} (h : Unsigned n e cs)
    (rest : List Char) : GoesOn Char.isDigit (cs ++ rest) := by
  obtain ⟨hwhole, -⟩ := h
  rw [List.append_assoc]
  exact hwhole.goesOn _

/-- **A number is determined.** -/
theorem Numeral.determined {m m' e e' : Int} {cs cs' rest rest' : List Char} (h : Numeral m e cs)
    (h' : Numeral m' e' cs') (hrest : GoesOn endsNumber rest) (hrest' : GoesOn endsNumber rest')
    (heq : cs ++ rest = cs' ++ rest') : m = m' ∧ e = e' ∧ rest = rest' := by
  have hminus : ∀ {t : List Char}, ¬ GoesOn Char.isDigit ('-' :: t) := by simp [GoesOn]
  rcases h with h | h <;> rcases h' with h' | h'
  · obtain ⟨rfl, rfl, rfl⟩ := h.determined h' hrest hrest' heq
    exact ⟨rfl, rfl, rfl⟩
  · exact absurd (heq ▸ h.goesOn rest) hminus
  · exact absurd (heq.symm ▸ h'.goesOn rest') hminus
  · obtain ⟨rfl, rfl, rfl⟩ := h.determined h' hrest hrest' (List.cons.inj heq).2
    exact ⟨rfl, rfl, rfl⟩

/-! ## A string is determined -/

theorem length_of_hex? {cs : List Char} {n : Nat} (h : hex? cs = some n) : cs.length = 4 := by
  unfold hex? at h
  split at h
  · rfl
  · cases h

/-- No character has the number of half a pair. -/
theorem toNat_ne_half {c : Char} : ¬ (0xd800 ≤ c.toNat ∧ c.toNat < 0xe000) := by
  rintro ⟨hlow, hhigh⟩
  rcases c.valid with hc | ⟨hc, -⟩
  · exact absurd hc (Nat.not_lt.mpr hlow)
  · exact absurd hc (by change ¬ (0xdfff < c.toNat); omega)

/-- Codes of equal value in front of equal texts are equal. -/
theorem hex?_determined {ds ds' rest rest' : List Char} {n n' : Nat} (h : hex? ds = some n)
    (h' : hex? ds' = some n') (heq : ds ++ rest = ds' ++ rest') : n = n' ∧ rest = rest' := by
  obtain ⟨rfl, rfl⟩ := List.append_inj heq ((length_of_hex? h).trans (length_of_hex? h').symm)
  exact ⟨Option.some.inj (h.symm.trans h'), rfl⟩

/-- What follows a backslash tells the forms of a character apart. -/
theorem escaped?_ne_u {e c : Char} (h : escaped? e = some c) : e ≠ 'u' := by
  rintro rfl
  cases h

/-- **A character in a string is determined**, and so is where it ends. -/
theorem Coded.determined {c c' : Char} {cs cs' rest rest' : List Char} (h : Coded c cs)
    (h' : Coded c' cs') (heq : cs ++ rest = cs' ++ rest') : c = c' ∧ rest = rest' := by
  cases h <;> cases h' <;>
    simp only [List.cons_append, List.nil_append, List.cons.injEq, List.append_assoc, true_and]
      at heq
  case plain.plain => exact heq
  case plain.escape hc _ _ => exact absurd heq.1 hc
  case plain.code hc _ _ => exact absurd heq.1 hc
  case plain.pair hc _ _ _ _ _ _ _ _ _ => exact absurd heq.1 hc
  case escape.plain _ _ hc => exact absurd heq.1.symm hc
  case code.plain _ _ hc => exact absurd heq.1.symm hc
  case pair.plain _ _ hc => exact absurd heq.1.symm hc
  case escape.escape he _ he' =>
    obtain ⟨rfl, rfl⟩ := heq
    exact ⟨Option.some.inj (he.symm.trans he'), rfl⟩
  case escape.code he _ _ => exact absurd heq.1 (escaped?_ne_u he)
  case escape.pair he _ _ _ _ _ _ _ _ _ => exact absurd heq.1 (escaped?_ne_u he)
  case code.escape he => exact absurd heq.1.symm (escaped?_ne_u he)
  case pair.escape he => exact absurd heq.1.symm (escaped?_ne_u he)
  case code.code hcode _ hcode' =>
    obtain ⟨hc, hrest⟩ := hex?_determined hcode hcode' heq
    exact ⟨Char.toNat_inj.mp hc, hrest⟩
  case code.pair hcode _ _ _ _ hhigh _ hrange _ _ =>
    obtain ⟨rfl, -⟩ := hex?_determined hcode hhigh heq
    exact absurd ⟨hrange.1, by omega⟩ toNat_ne_half
  case pair.code hhigh _ hrange _ _ _ hcode =>
    obtain ⟨rfl, -⟩ := hex?_determined hhigh hcode heq
    exact absurd ⟨hrange.1, by omega⟩ toNat_ne_half
  case pair.pair hhigh hlow _ _ hcode _ _ _ _ hhigh' hlow' _ _ hcode' =>
    obtain ⟨rfl, hlater⟩ := hex?_determined hhigh hhigh' heq
    simp only [List.cons.injEq, true_and] at hlater
    obtain ⟨rfl, hrest⟩ := hex?_determined hlow hlow' hlater
    exact ⟨Char.toNat_inj.mp (hcode.trans hcode'.symm), hrest⟩

/-- No character in a string is a quote by itself. -/
theorem Coded.head_ne_quote {c : Char} {cs : List Char} (h : Coded c cs) :
    ∃ d ds, cs = d :: ds ∧ d ≠ '"' := by
  cases h with
  | plain _ hquote _ => exact ⟨c, [], rfl, hquote⟩
  | escape => exact ⟨_, _, rfl, by decide⟩
  | code => exact ⟨_, _, rfl, by decide⟩
  | pair => exact ⟨_, _, rfl, by decide⟩

/-- **A string is determined**, and so is the quote that ends it. -/
theorem Quoted.determined {s s' cs cs' rest rest' : List Char} (h : Quoted s cs)
    (h' : Quoted s' cs') (heq : cs ++ '"' :: rest = cs' ++ '"' :: rest') :
    s = s' ∧ rest = rest' := by
  induction h generalizing s' cs' with
  | nil =>
    cases h' with
    | nil => exact ⟨rfl, (List.cons.inj heq).2⟩
    | cons hc _ =>
      obtain ⟨d, ds, rfl, hd⟩ := hc.head_ne_quote
      exact absurd (List.cons.inj heq).1.symm hd
  | cons hc _ ih =>
    cases h' with
    | nil =>
      obtain ⟨d, ds, rfl, hd⟩ := hc.head_ne_quote
      exact absurd (List.cons.inj heq).1 hd
    | cons hc' h' =>
      rw [List.append_assoc, List.append_assoc] at heq
      obtain ⟨rfl, hlater⟩ := hc.determined hc' heq
      obtain ⟨rfl, rfl⟩ := ih h' hlater
      exact ⟨rfl, rfl⟩

/-! ## A value is determined -/

/-- The kinds of values that their first characters tell apart. -/
inductive Lead where
  | word
  | number
  | string
  | array
  | object

/-- The kind of a value. -/
def lead : Json → Lead
  | .null => .word
  | .bool _ => .word
  | .number _ _ => .number
  | .string _ => .string
  | .array _ => .array
  | .object _ => .object

/-- The kind of the values that start with a character, if there are any. -/
def leadOf? (c : Char) : Option Lead :=
  if c.isDigit || c == '-' then some .number
  else [('"', .string), ('[', .array), ('\x7b', .object), ('n', .word), ('t', .word),
    ('f', .word)].lookup c

theorem leadOf?_of_endsValue {c : Char} (h : endsValue c = true) : leadOf? c = none := by
  simp only [endsValue, isBlank, isStop, Bool.or_eq_true, beq_iff_eq] at h
  rcases h with (((rfl | rfl) | rfl) | rfl) | ((rfl | rfl) | rfl) <;> rfl

theorem words_lead {v : Json} {cs : List Char} (h : (cs, v) ∈ words) :
    ∃ c rest, cs = c :: rest ∧ leadOf? c = some v.lead := by
  simp only [words, List.mem_cons, Prod.mk.injEq, List.not_mem_nil, or_false] at h
  rcases h with ⟨rfl, rfl⟩ | ⟨rfl, rfl⟩ | ⟨rfl, rfl⟩ <;> exact ⟨_, _, rfl, rfl⟩

theorem Numeral.lead {m e : Int} {cs : List Char} (h : Numeral m e cs) :
    ∃ c rest, cs = c :: rest ∧ leadOf? c = some .number := by
  cases h with
  | negative => exact ⟨_, _, rfl, rfl⟩
  | positive h =>
    obtain ⟨⟨hne, hdigits⟩, -⟩ := h
    obtain ⟨c, whole, rfl⟩ := List.exists_cons_of_ne_nil hne
    exact ⟨c, _, rfl, by simp [leadOf?, hdigits c (by simp)]⟩

/-- **The first character of a value tells its kind.** -/
theorem Spells.lead {v : Json} {cs : List Char} (h : Spells (.value v) cs) :
    ∃ c rest, cs = c :: rest ∧ leadOf? c = some v.lead := by
  rcases h with (h | h | -) | - | -
  · exact words_lead h
  · exact h.lead
  · exact ⟨_, _, rfl, rfl⟩
  · exact ⟨_, _, rfl, rfl⟩
  · exact ⟨_, _, rfl, rfl⟩

/-- Values with equal texts are of one kind. -/
theorem Spells.lead_eq {v w : Json} {cs cs' rest rest' : List Char} (h : Spells (.value v) cs)
    (h' : Spells (.value w) cs') (heq : cs ++ rest = cs' ++ rest') : v.lead = w.lead := by
  obtain ⟨c, cs, rfl, hc⟩ := h.lead
  obtain ⟨c', cs', rfl, hc'⟩ := h'.lead
  obtain rfl := (List.cons.inj heq).1
  exact Option.some.inj (hc.symm.trans hc')

/-- The word of a value is determined. -/
theorem words_determined {v v' : Json} {cs cs' rest rest' : List Char} (h : (cs, v) ∈ words)
    (h' : (cs', v') ∈ words) (heq : cs ++ rest = cs' ++ rest') : v = v' ∧ rest = rest' := by
  simp only [words, List.mem_cons, Prod.mk.injEq, List.not_mem_nil, or_false] at h h'
  rcases h with ⟨rfl, rfl⟩ | ⟨rfl, rfl⟩ | ⟨rfl, rfl⟩ <;>
    rcases h' with ⟨rfl, rfl⟩ | ⟨rfl, rfl⟩ | ⟨rfl, rfl⟩ <;> simp at heq ⊢ <;> exact heq

theorem lead_of_mem_words {v : Json} {cs : List Char} (h : (cs, v) ∈ words) : v.lead = .word := by
  simp only [words, List.mem_cons, Prod.mk.injEq, List.not_mem_nil, or_false] at h
  rcases h with ⟨-, rfl⟩ | ⟨-, rfl⟩ | ⟨-, rfl⟩ <;> rfl

/-- **A value without parts is determined.** -/
theorem Scalar.determined {v v' : Json} {cs cs' rest rest' : List Char} (h : Scalar v cs)
    (h' : Scalar v' cs') (hrest : GoesOn endsValue rest) (hrest' : GoesOn endsValue rest')
    (heq : cs ++ rest = cs' ++ rest') : v = v' ∧ rest = rest' := by
  have hlead := (Spells.scalar h).lead_eq (.scalar h') heq
  rcases h with h | h | h <;> rcases h' with h' | h' | h'
  case word.word => exact words_determined h h' heq
  case number.number =>
    obtain ⟨rfl, rfl, rfl⟩ := h.determined h' (hrest.imp endsNumber_of_endsValue)
      (hrest'.imp endsNumber_of_endsValue) heq
    exact ⟨rfl, rfl⟩
  case string.string =>
    simp only [List.cons_append, List.append_assoc, List.nil_append] at heq
    obtain ⟨rfl, rfl⟩ := h.determined h' (List.cons.inj heq).2
    exact ⟨rfl, rfl⟩
  all_goals grind [lead_of_mem_words, Json.lead]

/-! ## Elements, members and lists of them are determined -/

/-- Blanks end where something else begins. -/
theorem Blank.determined {a a' r r' : List Char} (ha : Blank a) (ha' : Blank a')
    (hr : GoesOn (! isBlank ·) r) (hr' : GoesOn (! isBlank ·) r') (heq : a ++ r = a' ++ r') :
    r = r' := (run_unique ha ha' hr hr' heq).2

theorem isStop_not_blank (c : Char) (h : isStop c = true) : (!isBlank c) = true := by
  simp only [isStop, Bool.or_eq_true, beq_iff_eq] at h
  rcases h with (rfl | rfl) | rfl <;> rfl

theorem not_isBlank_of_not_endsValue {c : Char} (h : endsValue c = false) :
    (!isBlank c) = true := by
  simp only [endsValue, Bool.or_eq_false_iff] at h
  simp [h.1]

theorem GoesOn.after_blank {after rest : List Char} (hafter : Blank after)
    (hrest : GoesOn isStop rest) : GoesOn endsValue (after ++ rest) :=
  goesOn_append (fun c hc => by simp [endsValue, hafter c hc])
    (hrest.imp fun c hc => by simp [endsValue, hc])

section Listed

variable {α : Type} {part : α → List Char → Prop} {a : α} {as bs : List α}
  {cs cs' later rest rest' : List Char} {close : Char}

/-- Parts with commas between them, or blanks alone. -/
inductive Listed (part : α → List Char → Prop) : List α → List Char → Prop
  | none {cs : List Char} (h : Blank cs) : Listed part [] cs
  | last {a : α} {cs : List Char} (h : part a cs) : Listed part [a] cs
  | more {a b : α} {as : List α} {cs later : List Char} (h : part a cs)
      (hlater : Listed part (b :: as) later) : Listed part (a :: b :: as) (cs ++ ',' :: later)

/-- Parts that have more than blanks before the next comma or the end of the list. -/
def Solid (part : α → List Char → Prop) : Prop :=
  ∀ a cs, part a cs → ∃ before c later, cs = before ++ c :: later ∧ Blank before ∧
    endsValue c = false

/-- The text of this part is that of no other, wherever they end. -/
def Alone (part : α → List Char → Prop) (a : α) (cs : List Char) : Prop :=
  ∀ b cs' rest rest', part b cs' → GoesOn isStop rest → GoesOn isStop rest' →
    cs ++ rest = cs' ++ rest' → a = b ∧ rest = rest'

/-- The text of these parts is that of no others, up to the end of the list. -/
def ListedAlone (part : α → List Char → Prop) (close : Char) (as : List α) (cs : List Char) :
    Prop :=
  ∀ bs cs' rest rest', Listed part bs cs' → cs ++ close :: rest = cs' ++ close :: rest' →
    as = bs ∧ rest = rest'

/-- Blanks before the end of a list are no part of it. -/
theorem Solid.not_part (hsolid : Solid part) (h : part a cs) (hcs' : Blank cs')
    (hstop : isStop close = true) : cs' ++ close :: rest ≠ cs ++ rest' := by
  intro heq
  obtain ⟨before, c, later, rfl, hbefore, hc⟩ := hsolid a cs h
  rw [List.append_assoc] at heq
  have hrest := hcs'.determined hbefore (goesOn_cons.mpr (isStop_not_blank _ hstop))
    (goesOn_cons.mpr (not_isBlank_of_not_endsValue hc)) heq
  obtain rfl := (List.cons.inj hrest).1
  simp [endsValue, hstop] at hc

theorem listedAlone_nil (hsolid : Solid part) (hstop : isStop close = true) (hcs : Blank cs) :
    ListedAlone part close [] cs := by
  intro bs cs' rest rest' h' heq
  have hblank := isStop_not_blank _ hstop
  cases h' with
  | none hcs' =>
    have := hcs.determined hcs' (goesOn_cons.mpr hblank) (goesOn_cons.mpr hblank) heq
    exact ⟨rfl, (List.cons.inj this).2⟩
  | last h' => exact absurd heq (hsolid.not_part h' hcs hstop)
  | more h' => exact absurd (heq.trans (List.append_assoc ..)) (hsolid.not_part h' hcs hstop)

theorem listedAlone_singleton (hsolid : Solid part) (hstop : isStop close = true)
    (hcomma : close ≠ ',') (h : part a cs) (ih : Alone part a cs) :
    ListedAlone part close [a] cs := by
  intro bs cs' rest rest' h' heq
  have hclose : ∀ rest, GoesOn isStop (close :: rest) := fun _ => goesOn_cons.mpr hstop
  cases h' with
  | none hcs' => exact absurd heq.symm (hsolid.not_part h hcs' hstop)
  | last h' =>
    obtain ⟨rfl, heq'⟩ := ih _ _ _ _ h' (hclose _) (hclose _) heq
    exact ⟨rfl, (List.cons.inj heq').2⟩
  | more h' =>
    rw [List.append_assoc] at heq
    have heq' := (ih _ _ _ _ h' (hclose _) (goesOn_cons.mpr rfl) heq).2
    exact absurd (List.cons.inj heq').1 hcomma

theorem listedAlone_cons (hsolid : Solid part) (hstop : isStop close = true)
    (hcomma : close ≠ ',') (h : part a cs) (ih : Alone part a cs)
    (ihlater : ListedAlone part close as later) :
    ListedAlone part close (a :: as) (cs ++ ',' :: later) := by
  intro bs cs' rest rest' h' heq
  have hclose : ∀ rest, GoesOn isStop (close :: rest) := fun _ => goesOn_cons.mpr hstop
  rw [List.append_assoc] at heq
  cases h' with
  | none hcs' => exact absurd heq.symm (hsolid.not_part h hcs' hstop)
  | last h' =>
    have heq' := (ih _ _ _ _ h' (goesOn_cons.mpr rfl) (hclose _) heq).2
    exact absurd (List.cons.inj heq').1.symm hcomma
  | more h' hlater' =>
    rw [List.append_assoc] at heq
    obtain ⟨rfl, heq'⟩ := ih _ _ _ _ h' (goesOn_cons.mpr rfl) (goesOn_cons.mpr rfl) heq
    obtain ⟨rfl, rfl⟩ := ihlater _ _ _ _ hlater' (List.cons.inj heq').2
    exact ⟨rfl, rfl⟩

end Listed

/-- An element, as a part of an array. -/
def Element (v : Json) : List Char → Prop := Spells (.element v)

/-- A member, as a part of an object. -/
def Member (m : String × Json) : List Char → Prop := Spells (.member m)

theorem spells_items_iff {vs : List Json} {cs : List Char} :
    Spells (.items vs) cs ↔ Listed Element vs cs := by
  constructor
  · intro h
    generalize hp : Phrase.items vs = p at h
    induction h generalizing vs with
    | noItems h => cases hp; exact .none h
    | lastItem h => cases hp; exact .last h
    | moreItems h _ _ ihlater => cases hp; exact .more h (ihlater rfl)
    | _ => cases hp
  · intro h
    induction h with
    | none h => exact .noItems h
    | last h => exact .lastItem h
    | more h _ ih => exact .moreItems h ih

theorem spells_members_iff {ms : List (String × Json)} {cs : List Char} :
    Spells (.members ms) cs ↔ Listed Member ms cs := by
  constructor
  · intro h
    generalize hp : Phrase.members ms = p at h
    induction h generalizing ms with
    | noMembers h => cases hp; exact .none h
    | lastMember h => cases hp; exact .last h
    | moreMembers h _ _ ihlater => cases hp; exact .more h (ihlater rfl)
    | _ => cases hp
  · intro h
    induction h with
    | none h => exact .noMembers h
    | last h => exact .lastMember h
    | more h _ ih => exact .moreMembers h ih

/-- The first character of an element that is not a blank tells the kind of its value. -/
theorem element_lead {v : Json} {cs : List Char} (h : Element v cs) :
    ∃ before c later, cs = before ++ c :: later ∧ Blank before ∧ leadOf? c = some v.lead := by
  obtain _ | _ | _ | @⟨_, before, cs, after, hbefore, h, hafter⟩ := h
  obtain ⟨c, cs, rfl, hc⟩ := h.lead
  exact ⟨before, c, cs ++ after, rfl, hbefore, hc⟩

theorem solid_element : Solid Element := by
  intro v cs h
  obtain ⟨before, c, later, rfl, hbefore, hc⟩ := element_lead h
  refine ⟨before, c, later, rfl, hbefore, ?_⟩
  cases hends : endsValue c with
  | false => rfl
  | true => simp [leadOf?_of_endsValue hends] at hc

theorem solid_member : Solid Member := by
  intro m _ h
  obtain _ | _ | _ | _ | _ | _ | _ | ⟨hbefore, hkey, hafter, h⟩ := h
  exact ⟨_, '"', _, rfl, hbefore, rfl⟩

/-- The text of this value is that of no other, wherever they end. -/
def ValueAlone (v : Json) (cs : List Char) : Prop :=
  ∀ w cs' rest rest', Spells (.value w) cs' → GoesOn endsValue rest → GoesOn endsValue rest' →
    cs ++ rest = cs' ++ rest' → v = w ∧ rest = rest'

theorem Spells.not_blank {v : Json} {cs : List Char} (h : Spells (.value v) cs)
    (rest : List Char) : GoesOn (! isBlank ·) (cs ++ rest) := by
  obtain ⟨c, cs, rfl, hc⟩ := h.lead
  refine goesOn_cons.mpr ?_
  cases hblank : isBlank c with
  | false => rfl
  | true => simp [leadOf?_of_endsValue (c := c) (by simp [endsValue, hblank])] at hc

theorem alone_element {v : Json} {before cs after : List Char} (hbefore : Blank before)
    (h : Spells (.value v) cs) (hafter : Blank after) (ih : ValueAlone v cs) :
    Alone Element v (before ++ (cs ++ after)) := by
  rintro w _ rest rest' (_ | _ | _ | ⟨hbefore', h', hafter'⟩) hrest hrest' heq
  simp only [List.append_assoc] at heq
  have hvalue := hbefore.determined hbefore' (h.not_blank _) (h'.not_blank _) heq
  obtain ⟨rfl, hblank⟩ := ih _ _ _ _ h' (hrest.after_blank hafter) (hrest'.after_blank hafter') hvalue
  exact ⟨rfl, hafter.determined hafter' (hrest.imp isStop_not_blank)
    (hrest'.imp isStop_not_blank) hblank⟩

theorem alone_member {key : List Char} {v : Json} {before quoted after cs : List Char}
    (hbefore : Blank before) (hkey : Quoted key quoted) (hafter : Blank after)
    (ih : Alone Element v cs) :
    Alone Member (String.ofList key, v)
      (before ++ '"' :: (quoted ++ '"' :: (after ++ ':' :: cs))) := by
  intro n _ rest rest' h' hrest hrest' heq
  obtain _ | _ | _ | _ | _ | _ | _ | ⟨hbefore', hkey', hafter', h'⟩ := h'
  simp only [List.append_assoc, List.cons_append] at heq
  have hquote := hbefore.determined hbefore' (goesOn_cons.mpr rfl) (goesOn_cons.mpr rfl) heq
  obtain ⟨rfl, hcolon⟩ := hkey.determined hkey' (List.cons.inj hquote).2
  have hvalue := hafter.determined hafter' (goesOn_cons.mpr rfl) (goesOn_cons.mpr rfl) hcolon
  obtain ⟨rfl, rfl⟩ := ih _ _ _ _ h' hrest hrest' (List.cons.inj hvalue).2
  exact ⟨rfl, rfl⟩

/-! ## A value is determined -/

theorem valueAlone_scalar {v : Json} {cs : List Char} (h : Scalar v cs) : ValueAlone v cs := by
  intro w cs' rest rest' h' hrest hrest' heq
  have hlead := (Spells.scalar h).lead_eq h' heq
  cases h' with
  | scalar h' => exact h.determined h' hrest hrest' heq
  | array | object => rcases h with h | h | h <;> grind [lead_of_mem_words, Json.lead]

theorem valueAlone_array {vs : List Json} {cs : List Char} (h : Spells (.items vs) cs)
    (ih : ListedAlone Element ']' vs cs) : ValueAlone (.array vs) ('[' :: (cs ++ [']'])) := by
  intro w cs' rest rest' h' hrest hrest' heq
  have hlead := (Spells.array h).lead_eq h' heq
  cases h' with
  | scalar h' => rcases h' with h' | h' | h' <;> grind [lead_of_mem_words, Json.lead]
  | object h' => simp [Json.lead] at hlead
  | array h' =>
    simp only [List.cons_append, List.append_assoc, List.nil_append] at heq
    obtain ⟨rfl, rfl⟩ := ih _ _ _ _ (spells_items_iff.mp h') (List.cons.inj heq).2
    exact ⟨rfl, rfl⟩

theorem valueAlone_object {ms : List (String × Json)} {cs : List Char}
    (h : Spells (.members ms) cs) (ih : ListedAlone Member '\x7d' ms cs) :
    ValueAlone (.object ms) ('\x7b' :: (cs ++ ['\x7d'])) := by
  intro w cs' rest rest' h' hrest hrest' heq
  have hlead := (Spells.object h).lead_eq h' heq
  cases h' with
  | scalar h' => rcases h' with h' | h' | h' <;> grind [lead_of_mem_words, Json.lead]
  | array h' => simp [Json.lead] at hlead
  | object h' =>
    simp only [List.cons_append, List.append_assoc, List.nil_append] at heq
    obtain ⟨rfl, rfl⟩ := ih _ _ _ _ (spells_members_iff.mp h') (List.cons.inj heq).2
    exact ⟨rfl, rfl⟩

/-- The text of this phrase is that of no other of its sort. -/
def Phrase.Determined : Phrase → List Char → Prop
  | .value v => ValueAlone v
  | .element v => Alone Element v
  | .items vs => ListedAlone Element ']' vs
  | .member m => Alone Member m
  | .members ms => ListedAlone Member '\x7d' ms

/-- **The text of a phrase is that of no other of its sort.** -/
theorem Spells.determined {p : Phrase} {cs : List Char} (h : Spells p cs) : p.Determined cs := by
  induction h with
  | scalar h => exact valueAlone_scalar h
  | array h ih => exact valueAlone_array h ih
  | object h ih => exact valueAlone_object h ih
  | element hbefore h hafter ih => exact alone_element hbefore h hafter ih
  | noItems h => exact listedAlone_nil solid_element rfl h
  | lastItem h ih => exact listedAlone_singleton solid_element rfl (by decide) h ih
  | moreItems h _ ih ihlater => exact listedAlone_cons solid_element rfl (by decide) h ih ihlater
  | member hbefore hkey hafter _ ih => exact alone_member hbefore hkey hafter ih
  | noMembers h => exact listedAlone_nil solid_member rfl h
  | lastMember h ih => exact listedAlone_singleton solid_member rfl (by decide) h ih
  | moreMembers h _ ih ihlater =>
    exact listedAlone_cons solid_member rfl (by decide) h ih ihlater

/-- **A text denotes at most one value.** -/
theorem Denotes.unique {text : String} {v w : Json} (h : Denotes text v) (h' : Denotes text w) :
    v = w := by
  have hend : GoesOn isStop [] := by simp [GoesOn]
  exact (Spells.determined h w _ [] [] h' hend hend rfl).1

end Json

end TestCatalog
