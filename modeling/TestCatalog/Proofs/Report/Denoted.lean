import TestCatalog.Proofs.Json.Grammar
import TestCatalog.Report.Json

/-!
# Proofs/Report/Denoted — what the text of a listing denotes

A record is written as the object of its six fields, and a listing as the array of its records.  The
grammar of JSON knows nothing of layouts: the blanks of either layout stand where blanks may stand
(`Layout.Blanks`), every character is escaped so that it is read back (`coded_escape`), and a number
is written without leading zeros (`numeral_toDigits`).  A text denotes at most one value, so it can
be read in no other way.

* `render_denotes` — **the text of a listing denotes its records**, in either layout, and is the
  text of no other listing.
-/

namespace TestCatalog.Report

open Json (Blank Coded Denotes Element Listed Member Numeral Quoted Spells)

/-! ## The value of a record -/

/-- The object that a record is written as. -/
def Record.json (r : Record) : Json :=
  .object [("name", .string r.name), ("fileName", .string r.fileName),
    ("relativePath", .string r.relativePath), ("absolutePath", .string r.absolutePath),
    ("line", .number r.line 0), ("pos", .number r.pos 0)]

theorem Record.json_injective : Function.Injective Record.json := by
  intro r r' h
  cases r
  cases r'
  simp only [Record.json, Json.object.injEq, List.cons.injEq, Prod.mk.injEq, Json.string.injEq,
    Json.number.injEq, Int.natCast_inj, true_and, and_true] at h
  simpa using h

/-- The value of a field. -/
def Scalar.json : Scalar → Json
  | .text s => .string s
  | .number n => .number n 0

theorem Record.json_eq (r : Record) :
    r.json = .object (r.fields.map fun field => (field.1, field.2.json)) := rfl

/-! ## Scalars -/

theorem hex?_control : ∀ n < 0x20,
    Json.hex? ['0', '0', Nat.digitChar (n / 16), Nat.digitChar (n % 16)] = some n := by
  decide

/-- **An escaped character stands for itself.** -/
theorem coded_escape (c : Char) : Coded c (escape c) := by
  unfold escape
  split_ifs with hquote hbackslash h1 h2 h3 h4 h5 hcontrol
  all_goals try (subst c; exact .escape rfl)
  · exact .code (hex?_control _ hcontrol)
  · exact .plain (Nat.le_of_not_lt hcontrol) hquote hbackslash

theorem quoted_flatMap_escape (s : List Char) : Quoted s (s.flatMap escape) := by
  induction s with
  | nil => exact .nil
  | cons c s ih => exact .cons (coded_escape c) ih

/-- A number starts with the digit `0` only if it is `0`. -/
theorem toDigits_of_head (n : Nat) (h : (Nat.toDigits 10 n).head? = some '0') :
    Nat.toDigits 10 n = ['0'] := by
  induction n using Nat.strongRecOn with
  | ind n ih =>
    rw [Nat.toDigits_eq_if (by decide)] at h ⊢
    split_ifs at h ⊢ with hn
    · simpa using h
    · rw [List.head?_append_of_ne_nil _ Nat.toDigits_ne_nil] at h
      have hzero := ih (n / 10) (by omega) h
      have : n / 10 = 0 := by
        rw [← Nat.ofDigitChars_ten_toDigits (n := n / 10), hzero]
        rfl
      omega

theorem numeral_toDigits (n : Nat) : Numeral n 0 (Nat.toDigits 10 n) := by
  have hdigits : Json.Digits (Nat.toDigits 10 n) :=
    ⟨Nat.toDigits_ne_nil, fun c hc => Nat.isDigit_of_mem_toDigits (by decide) (by decide) hc⟩
  have h := Json.Unsigned.mk hdigits (toDigits_of_head n) .absent .absent
  simp only [List.append_nil, Nat.ofDigitChars_ten_toDigits, List.length_nil] at h
  exact .positive h

theorem scalar_chars (v : Scalar) : Json.Scalar v.json v.chars := by
  cases v with
  | text s =>
    have h := Json.Scalar.string (quoted_flatMap_escape s.toList)
    rwa [String.ofList_toList] at h
  | number n => exact .number (numeral_toDigits n)

/-! ## Lists -/

/-- Parts with commas between them, the last of which may have a tail. -/
theorem listed_intercalate {α β : Type} {part : β → List Char → Prop} {value : α → β}
    {chars : α → List Char} {tail : List Char} (h : ∀ a, part (value a) (chars a))
    (htail : ∀ a, part (value a) (chars a ++ tail)) {as : List α} (hne : as ≠ []) :
    Listed part (as.map value) ([','].intercalate (as.map chars) ++ tail) := by
  induction as with
  | nil => contradiction
  | cons a as ih =>
    cases as with
    | nil => simpa using .last (htail a)
    | cons b as => simpa [List.intercalate] using Listed.more (h a) (ih (by simp))

theorem blank_nil : Blank [] := by simp [Blank]

/-- The layouts that have blanks only. -/
def Layout.Blanks (layout : Layout) : Prop := (∀ depth, Blank (layout.lead depth)) ∧ Blank layout.gap

theorem Layout.blanks_compact : Layout.compact.Blanks := by
  simp [Layout.Blanks, Layout.compact, Blank]

theorem Layout.mem_lead_pretty {depth : Nat} {c : Char} (h : c ∈ Layout.pretty.lead depth) :
    c = '\n' ∨ c = '\t' := by
  simp only [Layout.pretty, List.mem_cons, List.mem_replicate] at h
  tauto

theorem Layout.blanks_pretty : Layout.pretty.Blanks := by
  constructor
  · intro depth c hc
    rcases mem_lead_pretty hc with rfl | rfl <;> rfl
  · simp [Layout.pretty, Blank, Json.isBlank]

section Layout

variable {layout : Layout} (hlayout : layout.Blanks)

include hlayout

theorem member_fieldChars (field : String × Scalar) {tail : List Char} (htail : Blank tail) :
    Member (field.1, field.2.json) (fieldChars layout field ++ tail) := by
  have hvalue : Spells (.element field.2.json) (layout.gap ++ (field.2.chars ++ tail)) :=
    .element hlayout.2 (.scalar (scalar_chars _)) htail
  have h := Spells.member (hlayout.1 2) (quoted_flatMap_escape field.1.toList) blank_nil hvalue
  simpa [fieldChars, quote, Member] using h

theorem element_recordChars (r : Record) {tail : List Char} (htail : Blank tail) :
    Element r.json (recordChars layout r ++ tail) := by
  have hmembers : Listed Member (r.fields.map fun field => (field.1, field.2.json))
      ([','].intercalate (r.fields.map (fieldChars layout)) ++ layout.lead 1) :=
    listed_intercalate (fun field => by simpa using member_fieldChars hlayout field blank_nil)
      (fun field => member_fieldChars hlayout field (hlayout.1 1)) (by simp [Record.fields])
  have h := Spells.element (hlayout.1 1) (.object (Json.spells_members_iff.mpr hmembers)) htail
  simpa [recordChars, Element, ← Record.json_eq] using h

/-- **A listing is written as the array of its records.** -/
theorem spells_listingChars {records : List Record} (hne : records ≠ []) :
    Spells (.element (.array (records.map Record.json))) (listingChars layout records) := by
  have hitems : Listed Element (records.map Record.json)
      ([','].intercalate (records.map (recordChars layout)) ++ layout.lead 0) :=
    listed_intercalate (fun r => by simpa using element_recordChars hlayout r blank_nil)
      (fun r => element_recordChars hlayout r (hlayout.1 0)) hne
  have h := Spells.element blank_nil (.array (Json.spells_items_iff.mpr hitems)) blank_nil
  simpa [listingChars] using h

end Layout

/-! ## The text of a listing -/

theorem toList_render (pretty : Bool) {records : List Record} (hne : records ≠ []) :
    (render pretty records).toList =
      listingChars (if pretty then .pretty else .compact) records := by
  simp [render, hne]

theorem denotes_render (pretty : Bool) {records : List Record} (hne : records ≠ []) :
    Denotes (render pretty records) (.array (records.map Record.json)) := by
  rw [Denotes, toList_render pretty hne]
  cases pretty with
  | false => exact spells_listingChars Layout.blanks_compact hne
  | true => exact spells_listingChars Layout.blanks_pretty hne

/-- The text for a listing without records denotes nothing. -/
theorem not_denotes_nothingFound (v : Json) : ¬ Denotes nothingFound v := by
  intro h
  obtain ⟨before, c, later, htext, hbefore, hc⟩ := Json.element_lead h
  have hhead : nothingFound.toList.head? = some 'N' := rfl
  rw [htext] at hhead
  cases before with
  | nil =>
    obtain rfl : c = 'N' := by simpa using hhead
    have hnone : Json.leadOf? 'N' = none := rfl
    simp [hnone] at hc
  | cons b before =>
    obtain rfl : b = 'N' := by simpa using hhead
    exact absurd (hbefore 'N' (by simp)) (by decide)

/-- **The text of a listing denotes the array of its records**, in either layout, and no other value.
So it is the text of no other listing, and not the text for a listing without records. -/
theorem render_denotes (pretty : Bool) (records : List Record) (hne : records ≠ []) :
    (∀ v, Denotes (render pretty records) v ↔ v = .array (records.map Record.json)) ∧
    (∀ mode others, others ≠ [] → render mode others = render pretty records →
      others = records) ∧
    ∀ mode, render mode [] ≠ render pretty records := by
  have hdenotes := denotes_render pretty hne
  refine ⟨fun v => ⟨fun h => h.unique hdenotes, fun h => h ▸ hdenotes⟩, ?_, ?_⟩
  · intro mode others hothers heq
    have h := denotes_render mode hothers
    rw [heq] at h
    have hitems := Json.array.inj (h.unique hdenotes)
    exact Record.json_injective.list_map hitems
  · intro mode heq
    exact not_denotes_nothingFound _ (heq ▸ hdenotes)

/-- A record whose texts hold quotes, backslashes, control characters and characters of several
bytes, and whose numbers go up to `2 ^ 64 - 1`. -/
def awkward : Record where
  name := "TestA/\"a\\\"\n\t\x01\""
  fileName := "é_test.go"
  relativePath := "[\x7b\"é\":null\x7d]/é_test.go"
  absolutePath := "/\x1f\x7f\x08😀/é_test.go"
  line := 0
  pos := 18446744073709551615

theorem awkward_denoted :
    [awkward, awkward] ≠ [] ∧
    ((∀ v, Denotes (render true [awkward, awkward]) v ↔ v = .array [awkward.json, awkward.json]) ∧
    (∀ mode others, others ≠ [] → render mode others = render true [awkward, awkward] →
      others = [awkward, awkward]) ∧
    ∀ mode, render mode [] ≠ render true [awkward, awkward]) :=
  ⟨by simp, render_denotes true [awkward, awkward] (by simp)⟩

end TestCatalog.Report
