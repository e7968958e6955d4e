import TestCatalog.Proofs.Json.Scan
import TestCatalog.Proofs.Report.Denoted
import TestCatalog.Proofs.Text.Standing

/-!
# Proofs/Report/Squeezed — the two layouts differ in blanks outside of strings

A listing is built of strings, numbers, signs and the blanks of its layout.  All but the blanks is
kept by a scan, and the blanks stand outside of strings, so that whatever the layout, what is kept
is the listing without blanks (`scans_listingChars`).

* `render_squeezed` — **without its blanks the text with a line for each field is the compact one**,
  no string holds a control character, and the compact text is a single line.
-/

namespace TestCatalog.Report

open Json (Scans isSpacing places squeeze)
open Text (bytes bytes_eq_flatMap le_of_mem_utf8EncodeChar)

/-! ## Parts of a listing -/

theorem scans_quote (s : String) : Scans .outside (quote s) (quote s) .outside := by
  have h := Scans.string (quoted_flatMap_escape s.toList)
  simpa [quote] using h

theorem scans_digits (n : Nat) :
    Scans .outside (Nat.toDigits 10 n) (Nat.toDigits 10 n) .outside := by
  refine .signs fun c hc => ?_
  have hdigit := Nat.isDigit_of_mem_toDigits (by decide) (by decide) hc
  have hlow : 0x30 ≤ c.toNat := of_decide_eq_true (Bool.and_eq_true_iff.mp hdigit).1
  refine ⟨by omega, ?_⟩
  rintro rfl
  cases hdigit

theorem scans_scalar (v : Scalar) : Scans .outside v.chars v.chars .outside := by
  cases v with
  | text s => exact scans_quote s
  | number n => exact scans_digits n

theorem scans_intercalate {α : Type} {chars kept : α → List Char}
    (h : ∀ a, Scans .outside (chars a) (kept a) .outside) (as : List α) :
    Scans .outside ([','].intercalate (as.map chars)) ([','].intercalate (as.map kept))
      .outside := by
  induction as with
  | nil => exact .nil
  | cons a as ih =>
    cases as with
    | nil => simpa using h a
    | cons b as =>
      have hcomma : Scans .outside [','] [','] .outside := .sign (by decide) (by decide)
      simpa [List.intercalate] using (h a).append (hcomma.append ih)

/-- The layouts that have newlines, tabs and spaces only. -/
def Layout.Spaced (layout : Layout) : Prop :=
  (∀ depth, ∀ c ∈ layout.lead depth, isSpacing c = true) ∧ ∀ c ∈ layout.gap, isSpacing c = true

theorem Layout.spaced_compact : Layout.compact.Spaced := ⟨nofun, nofun⟩

theorem Layout.spaced_pretty : Layout.pretty.Spaced := by
  constructor
  · intro depth c hc
    rcases mem_lead_pretty hc with rfl | rfl <;> rfl
  · exact List.forall_mem_singleton.mpr rfl

section Layout

variable {layout : Layout} (hlayout : layout.Spaced)

include hlayout

theorem scans_fieldChars (field : String × Scalar) :
    Scans .outside (fieldChars layout field) (fieldChars .compact field) .outside := by
  have hcolon : Scans .outside [':'] [':'] .outside := .sign (by decide) (by decide)
  have hvalue := (Scans.spacing hlayout.2).append (scans_scalar field.2)
  have hfield := (scans_quote field.1).append (hcolon.append hvalue)
  have h := (Scans.spacing (hlayout.1 2)).append hfield
  simpa [fieldChars, Layout.compact] using h

theorem scans_recordChars (r : Record) :
    Scans .outside (recordChars layout r) (recordChars .compact r) .outside := by
  have hlead := Scans.spacing (hlayout.1 1)
  have hopen : Scans .outside ['\x7b'] ['\x7b'] .outside := .sign (by decide) (by decide)
  have hclose : Scans .outside ['\x7d'] ['\x7d'] .outside := .sign (by decide) (by decide)
  have hfields := scans_intercalate (scans_fieldChars hlayout) r.fields
  have h := hlead.append (hopen.append (hfields.append (hlead.append hclose)))
  simpa [recordChars, Layout.compact] using h

/-- **Whatever the layout, what a scan keeps is the compact listing.** -/
theorem scans_listingChars (records : List Record) :
    Scans .outside (listingChars layout records) (listingChars .compact records) .outside := by
  have hopen : Scans .outside ['['] ['['] .outside := .sign (by decide) (by decide)
  have hclose : Scans .outside [']'] [']'] .outside := .sign (by decide) (by decide)
  have hrecords := scans_intercalate (scans_recordChars hlayout) records
  have h := hopen.append (hrecords.append ((Scans.spacing (hlayout.1 0)).append hclose))
  simpa [listingChars, Layout.compact] using h

end Layout

/-! ## The two texts -/

theorem scans_render (pretty : Bool) {records : List Record} (hne : records ≠ []) :
    Scans .outside (render pretty records).toList (render false records).toList .outside := by
  rw [toList_render pretty hne, toList_render false hne]
  cases pretty with
  | false => exact scans_listingChars Layout.spaced_compact records
  | true => exact scans_listingChars Layout.spaced_pretty records

/-- **The text with a line for each field, less the newlines, tabs and spaces outside of its
strings, is the compact text.**  In neither text is there a byte below `0x20` inside a string, and
in the compact one there is none at all, so that it is a single line. -/
theorem render_squeezed (records : List Record) (hne : records ≠ []) :
    squeeze (render true records) = render false records
    ∧ (∀ pretty, ∀ a ∈ places .outside (render pretty records).toList, a.1 ≠ .outside →
      ∀ b ∈ String.utf8EncodeChar a.2, 0x20 ≤ b)
    ∧ ∀ b ∈ bytes (render false records), 0x20 ≤ b := by
  refine ⟨?_, fun pretty a ha hplace => ?_, fun b hb => ?_⟩
  · rw [squeeze, (scans_render true hne).kept_eq, String.ofList_toList]
  · have hinside := (scans_render pretty hne).inside a ha hplace
    exact fun b hb => UInt8.le_iff_toNat_le.mpr
      (le_of_mem_utf8EncodeChar (by decide) hinside b hb)
  · rw [bytes_eq_flatMap] at hb
    obtain ⟨c, hc, hb⟩ := List.mem_flatMap.mp hb
    exact UInt8.le_iff_toNat_le.mpr
      (le_of_mem_utf8EncodeChar (by decide) ((scans_render false hne).solid c hc) b hb)

theorem awkward_squeezed :
    [awkward, awkward] ≠ []
    ∧ squeeze (render true [awkward, awkward]) = render false [awkward, awkward]
    ∧ (∀ pretty, ∀ a ∈ places .outside (render pretty [awkward, awkward]).toList, a.1 ≠ .outside →
      ∀ b ∈ String.utf8EncodeChar a.2, 0x20 ≤ b)
    ∧ ∀ b ∈ bytes (render false [awkward, awkward]), 0x20 ≤ b :=
  ⟨by simp, render_squeezed [awkward, awkward] (by simp)⟩

end TestCatalog.Report
