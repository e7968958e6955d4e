import TestCatalog.Proofs.Go.Checked
import TestCatalog.Proofs.Listing.Standing
import TestCatalog.Proofs.Source.Lines
import TestCatalog.Report.Record

/-!
# Proofs/Report/Position — a record points at the words it is found by

A record has a position, counted in bytes from `1`, and a line.  At its position the text goes on
with the name of the function, with the receiver of the call that starts a subtest, or with the key
of the row of a table; the literal that names the subtest follows (`Points`).

* `ofEntry_points` — every record of a text points at such a word, and its line is the one of the
  word.
-/

namespace TestCatalog.Report

open Go (IsLiteral Outlines byteLength)
open Listing Source
open Text (InOrder StandsAt bytes length_bytes)

/-- The bytes of a text go on with a word at a position. -/
def Begins (text : String) (pos : Nat) (word : String) : Prop :=
  word ≠ "" ∧ 1 ≤ pos ∧ bytes word <+: (bytes text).drop (pos - 1)

/-- A literal stands in a text behind a position, as it is written. -/
def Follows (text : String) (pos : Nat) (literal : String) : Prop :=
  IsLiteral literal ∧ ∃ later, pos < later ∧ Begins text later literal

/-- **The word at the position of an entry**: the name of the function for the function itself, the
receiver for a call in its body that starts a subtest, and the key for a row of a table before a loop
in its body. -/
inductive Points (text : String) (f : Function) (pos : Nat) : Option Child → Prop where
  | function (hname : Begins text pos f.name.name) : Points text f pos none
  | subtest {child : Child} {i : Nat} {receiver method : Ident} {arguments : List Expr}
      (hlists : Lists f.body (.run i) child)
      (hcall : f.body[i]? = some
        (.expr (.call (.selector (.ident receiver) method) arguments child.offset)))
      (hreceiver : Begins text pos receiver.name) (hliteral : Follows text pos child.literal) :
      Points text f pos (some child)
  | row {child : Child} {i j k l m : Nat} {loop : List Stmt} {field : String}
      (hlists : Lists f.body (.row i j k l m) child) (hloop : f.body[i]? = some (.range loop))
      (hfield : NamesField loop field) (hkey : Begins text pos field)
      (hliteral : Follows text pos child.literal) : Points text f pos (some child)

/-! ## Words at offsets -/

section

variable {text : String} {offset : Nat}

theorem begins_of_standsAt {word : String} (hne : word ≠ "")
    (h : StandsAt text.toList offset word) : Begins text (offset + 1) word :=
  ⟨hne, Nat.le_add_left 1 offset, h.isPrefix⟩

variable {word literal : String} {lo hi : Nat}
  (h : Named text.toList word literal offset lo hi)
include h

theorem begins_of_named : Begins text (offset + 1) word := begins_of_standsAt h.ne_empty h.stands

theorem follows_of_named : Follows text (offset + 1) literal := by
  obtain ⟨place, hplace, hstands⟩ := h.follows
  exact ⟨h.isLiteral, place + 1, Nat.succ_lt_succ hplace,
    begins_of_standsAt h.isLiteral.ne_empty hstands⟩

end

/-! ## Entries -/

theorem ne_empty_of_isTestName {name : String} (h : isTestName name = true) : name ≠ "" := by
  rintro rfl
  exact absurd h (by decide)

/-- An entry of a placed function is reported at the word that it is found by. -/
theorem entry_points {text : String} {f : Function} {lo hi : Nat}
    (hf : f.Lies text.toList lo hi) (hname : isTestName f.name.name = true) {entry : Entry}
    (hentry : entry ∈ entries f) :
    entry.function = f.name ∧ Points text f (entry.offset + 1) entry.child := by
  obtain ⟨mid, ⟨-, -, hstands⟩, hbody⟩ := hf
  rcases exists_site_of_mem_entries hentry with rfl | ⟨site, child, rfl, hlists⟩
  · exact ⟨rfl, .function (begins_of_standsAt (ne_empty_of_isTestName hname) hstands)⟩
  · cases site with
    | run i =>
      obtain ⟨receiver, method, arguments, hcall, hnamed⟩ := hlists.run_named hbody
      exact ⟨rfl, .subtest hlists hcall (begins_of_named hnamed) (follows_of_named hnamed)⟩
    | row i j k l m =>
      obtain ⟨loop, field, hloop, hfield, hnamed⟩ := hlists.row_named hbody
      exact ⟨rfl, .row hlists hloop hfield (begins_of_named hnamed) (follows_of_named hnamed)⟩

/-- **The record of an entry points into the text**: its position is there, its line is one more
than the number of newlines before the position, and at the position stands the word that the entry
is found by. -/
theorem ofEntry_points {text : String} {tree : Tree}
    (htree : Go.read text = .ok tree ∨ Outlines text tree) {entry : Entry}
    (hentry : entry ∈ entriesOf tree) {location : Location} {record : Record}
    (hrecord : record = Record.ofEntry entry location (Lines.ofText text)) :
    1 ≤ record.pos ∧ record.pos ≤ (bytes text).length
      ∧ record.line = 1 + ((bytes text).take (record.pos - 1)).count 10
      ∧ ∃ f ∈ testFunctions tree, entry.function = f.name
        ∧ Points text f record.pos entry.child := by
  have hlies := Go.outline_lies (htree.elim Go.outlines_of_read id)
  obtain ⟨f, hf, hmem⟩ := List.mem_flatMap.mp hentry
  obtain ⟨hfunction, hname⟩ := List.mem_filter.mp hf
  have hplaced := hlies.functions.of_mem (stretches_function text.toList) hfunction
  obtain ⟨hsame, hpoints⟩ := entry_points hplaced hname hmem
  subst hrecord
  refine ⟨Nat.le_add_left 1 entry.offset, ?_, line_ofText text entry.offset, f, hf, hsame, hpoints⟩
  rw [length_bytes]
  exact (inside_entry hmem _ _ hplaced).2

/-- The first row of the table in the sample, with a literal that goes over a line. -/
def sampleEntry : Entry := ⟨⟨"TestA", 22⟩, some ⟨"`é\n`", 56⟩⟩

def sampleRecord : Record :=
  Record.ofEntry sampleEntry ⟨"a_test.go", "p/a_test.go", "/p/a_test.go"⟩
    (Lines.ofText Go.sampleText)

theorem sampleRecord_points :
    Outlines Go.sampleText (Go.outline Go.sampleNodes)
      ∧ sampleEntry ∈ entriesOf (Go.outline Go.sampleNodes)
      ∧ sampleRecord.pos = 57
      ∧ 1 ≤ sampleRecord.pos ∧ sampleRecord.pos ≤ (bytes Go.sampleText).length
      ∧ sampleRecord.line = 1 + ((bytes Go.sampleText).take (sampleRecord.pos - 1)).count 10
      ∧ ∃ f ∈ testFunctions (Go.outline Go.sampleNodes), sampleEntry.function = f.name
        ∧ Points Go.sampleText f sampleRecord.pos sampleEntry.child := by
  have hentry : sampleEntry ∈ entriesOf (Go.outline Go.sampleNodes) := by decide +kernel
  exact ⟨Go.sample_outlines, hentry, rfl, ofEntry_points (.inr Go.sample_outlines) hentry rfl⟩

end TestCatalog.Report
