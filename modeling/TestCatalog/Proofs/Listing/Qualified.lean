import Mathlib.Data.List.TakeWhile
import TestCatalog.Listing.Name
import TestCatalog.Proofs.Text.Standing

/-!
# Proofs/Listing/Qualified — what the name of a child says

A literal of the source loses the blanks around it and its two delimiters, and nothing else: what is
left is a slice of the text from one character boundary to another.  The name of a child puts a slash
between its parent and what is left, so a parent without a slash can be read off the name again.

* `trim_padded`, `unquoteChars_delimited` — a literal is unquoted to its content.
* `unquote_slices` — whatever the text, no character is cut.
* `childPart_qualified` — the part behind the first slash is what the literal gives.
* `qualified_reads_back` — all of it for the names of tests.
-/

namespace TestCatalog.Listing

open Text (isBlank trim isIdentifierPart StandsAt byteLength_append byteLength_cons byteLength_nil)
open Go (byteLength)

/-! ## Literals and slices -/

/-- The delimiters of a literal: double quotes for an interpreted one, backquotes for a raw one. -/
def delimiters : List Char := ['"', '\x60']

/-- **A literal of the source**: its content between two equal delimiters, with blanks around
them. -/
def Delimits (literal content : String) : Prop :=
  ∃ left right, (∀ c ∈ left, isBlank c = true) ∧ (∀ c ∈ right, isBlank c = true)
    ∧ ∃ d ∈ delimiters, literal.toList = left ++ (d :: content.toList ++ [d]) ++ right

/-- **A slice of a text**: what stands from one byte up to another, both of them at the edge of a
character. -/
def Slice (text : List Char) (start stop : Nat) (piece : String) : Prop :=
  StandsAt text start piece ∧ start + byteLength piece.toList = stop

/-- How a character of a content shows in a name. -/
def shown (c : Char) : List Char := if c = '"' then [] else if c = ' ' then ['_'] else [c]

/-- The part of a name behind its first slash. -/
def childPart (name : String) : List Char := (name.toList.dropWhile (· ≠ '/')).tail

theorem not_isBlank_of_delimiter {d : Char} (h : d ∈ delimiters) : isBlank d = false := by
  simp only [delimiters, List.mem_cons, List.not_mem_nil, or_false] at h
  rcases h with rfl | rfl <;> rfl

theorem utf8Size_of_delimiter {d : Char} (h : d ∈ delimiters) : d.utf8Size = 1 := by
  simp only [delimiters, List.mem_cons, List.not_mem_nil, or_false] at h
  rcases h with rfl | rfl <;> rfl

/-! ## Trimming -/

theorem dropWhile_padded {left : List Char} (hleft : ∀ c ∈ left, isBlank c = true) {d : Char}
    (hd : isBlank d = false) (rest : List Char) :
    (left ++ d :: rest).dropWhile isBlank = d :: rest := by
  rw [List.dropWhile_append_of_pos hleft, List.dropWhile_cons_of_neg (by simp [hd])]

/-- **Blanks around a text are trimmed, and those inside it are kept**, if it starts and ends with
none. -/
theorem trim_padded {left right middle : List Char} (hleft : ∀ c ∈ left, isBlank c = true)
    (hright : ∀ c ∈ right, isBlank c = true) {d : Char} (hd : isBlank d = false) :
    trim (left ++ (d :: middle ++ [d]) ++ right) = d :: middle ++ [d] := by
  have hfront : (left ++ (d :: middle ++ [d]) ++ right).dropWhile isBlank
      = d :: middle ++ [d] ++ right := by
    rw [List.append_assoc]
    exact dropWhile_padded hleft hd (middle ++ [d] ++ right)
  have hback : (d :: middle ++ [d] ++ right).reverse
      = right.reverse ++ d :: (d :: middle).reverse := by
    simp only [List.reverse_append, List.reverse_cons, List.reverse_nil, List.nil_append,
      List.singleton_append]
  rw [trim, hfront, hback, dropWhile_padded (by simpa using hright) hd, List.reverse_cons,
    List.reverse_reverse]

/-! ## Unquoting -/

theorem between?_eq_some_iff {d : Char} {text content : List Char} :
    between? d text = some content ↔ text = d :: content ++ [d] := by
  constructor
  · intro h
    unfold between? at h
    split at h
    · next first rest =>
      split_ifs at h with hends
      obtain ⟨rfl, hlast⟩ := hends
      obtain ⟨front, rfl⟩ := List.getLast?_eq_some_iff.mp hlast
      rw [Option.some.injEq, List.dropLast_concat] at h
      rw [h, List.cons_append]
    · cases h
  · rintro rfl
    simp [between?]

/-- **Unquoting in two cases**: between two equal delimiters stands the content, and a text without
them is its own. -/
theorem unquoteChars_cases (literal : List Char) :
    (∃ d ∈ delimiters, trim literal = d :: unquoteChars literal ++ [d])
      ∨ unquoteChars literal = trim literal := by
  cases hquotes : between? '"' (trim literal) with
  | some content =>
    have hunquote : unquoteChars literal = content := by rw [unquoteChars, hquotes]
    refine .inl ⟨'"', by simp [delimiters], ?_⟩
    rw [hunquote]
    exact between?_eq_some_iff.mp hquotes
  | none =>
    cases hraw : between? '\x60' (trim literal) with
    | some content =>
      have hunquote : unquoteChars literal = content := by rw [unquoteChars, hquotes, hraw]; rfl
      refine .inl ⟨'\x60', by simp [delimiters], ?_⟩
      rw [hunquote]
      exact between?_eq_some_iff.mp hraw
    | none => exact .inr (by rw [unquoteChars, hquotes, hraw]; rfl)

/-- **What stands between two equal delimiters is the content**, whatever it starts or ends with. -/
theorem unquoteChars_delimited {literal content : List Char} {d : Char} (hd : d ∈ delimiters)
    (h : trim literal = d :: content ++ [d]) : unquoteChars literal = content := by
  have hsome : between? d (trim literal) = some content := between?_eq_some_iff.mpr h
  simp only [delimiters, List.mem_cons, List.not_mem_nil, or_false] at hd
  rcases hd with rfl | rfl
  · rw [unquoteChars, hsome]
  · -- A text that starts with a backquote does not start with a double quote.
    have hnone : between? '"' (trim literal) = none := by rw [h]; rfl
    rw [unquoteChars, hnone, hsome]
    rfl

theorem Delimits.trim_eq {literal content : String} (h : Delimits literal content) :
    ∃ d ∈ delimiters, trim literal.toList = d :: content.toList ++ [d] := by
  obtain ⟨left, right, hleft, hright, d, hd, hliteral⟩ := h
  refine ⟨d, hd, ?_⟩
  rw [hliteral]
  exact trim_padded hleft hright (not_isBlank_of_delimiter hd)

theorem Delimits.unquoteChars_eq {literal content : String} (h : Delimits literal content) :
    unquoteChars literal.toList = content.toList := by
  obtain ⟨d, hd, htrim⟩ := h.trim_eq
  exact unquoteChars_delimited hd htrim

/-- A delimiter takes one byte, so the content starts at the second byte and ends before the last. -/
theorem slice_delimited {text : List Char} {d : Char} (hd : d ∈ delimiters) {content : String}
    (h : text = d :: content.toList ++ [d]) : Slice text 1 (byteLength text - 1) content := by
  have hsize := utf8Size_of_delimiter hd
  subst h
  refine ⟨⟨[d], [d], rfl, ?_⟩, ?_⟩
  · rw [byteLength_cons, byteLength_nil, hsize]
  · rw [byteLength_append, byteLength_cons, byteLength_cons, byteLength_nil, hsize]
    omega

/-- **No text is cut inside a character**: its unquoted form is all of it but the blanks around it,
or that less one byte at each end. -/
theorem unquote_slices (literal : String) :
    unquote literal = String.ofList (trim literal.toList)
      ∨ Slice (trim literal.toList) 1 (byteLength (trim literal.toList) - 1) (unquote literal) := by
  rcases unquoteChars_cases literal.toList with ⟨d, hd, htrim⟩ | hsame
  · exact .inr (slice_delimited hd (by rw [unquote, String.toList_ofList, htrim]))
  · exact .inl (congrArg String.ofList hsame)

/-! ## Names -/

/-- **A name is spelled character by character**: double quotes are left out, and a space becomes an
underscore. -/
theorem toList_normalize (literal : String) :
    (normalize literal).toList = (unquoteChars literal.toList).flatMap shown := by
  rw [normalize, String.toList_ofList]
  induction unquoteChars literal.toList with
  | nil => rfl
  | cons c cs ih =>
    rw [List.flatMap_cons, ← ih]
    by_cases hquote : c = '"'
    · simp [hquote, shown]
    · by_cases hspace : c = ' ' <;> simp [hquote, hspace, shown]

theorem ne_of_mem_normalize {literal : String} {c : Char} (h : c ∈ (normalize literal).toList) :
    c ≠ '"' ∧ c ≠ ' ' := by
  rw [toList_normalize] at h
  obtain ⟨x, -, hc⟩ := List.mem_flatMap.mp h
  unfold shown at hc
  split_ifs at hc with hquote hspace
  · exact absurd hc List.not_mem_nil
  · rw [List.mem_singleton.mp hc]
    decide
  · rw [List.mem_singleton.mp hc]
    exact ⟨hquote, hspace⟩

theorem toList_qualified_some (parent literal : String) :
    (qualified parent (some literal)).toList
      = parent.toList ++ '/' :: (normalize literal).toList := by
  simp [qualified]

/-- An identifier of the source has no slash. -/
theorem slash_notMem_of_identifier {name : String}
    (h : ∀ c ∈ name.toList, isIdentifierPart c = true) : '/' ∉ name.toList := by
  intro hmem
  have hslash := h '/' hmem
  revert hslash
  decide

section

variable {parent : String} (hparent : '/' ∉ parent.toList)
include hparent

theorem ne_slash_of_mem_parent : ∀ c ∈ parent.toList, decide (c ≠ '/') = true := by
  intro c hc
  exact decide_eq_true fun heq => hparent (heq ▸ hc)

/-- **What stands before the first slash of a name is the parent.** -/
theorem takeWhile_qualified (literal : Option String) :
    (qualified parent literal).toList.takeWhile (· ≠ '/') = parent.toList := by
  cases literal with
  | none => exact List.takeWhile_eq_self_iff.mpr (ne_slash_of_mem_parent hparent)
  | some literal =>
    rw [toList_qualified_some, List.takeWhile_append_of_pos (ne_slash_of_mem_parent hparent),
      List.takeWhile_cons_of_neg (by simp), List.append_nil]

/-- From the first slash on a name is that of the child, if there is one. -/
theorem dropWhile_qualified (literal : Option String) :
    (qualified parent literal).toList.dropWhile (· ≠ '/')
      = (literal.map fun literal => '/' :: (normalize literal).toList).getD [] := by
  cases literal with
  | none => exact List.dropWhile_eq_nil_iff.mpr (ne_slash_of_mem_parent hparent)
  | some literal =>
    rw [toList_qualified_some, List.dropWhile_append_of_pos (ne_slash_of_mem_parent hparent),
      List.dropWhile_cons_of_neg (by simp)]
    rfl

/-- **The part behind the first slash is what the literal gives.** -/
theorem childPart_qualified (literal : String) :
    childPart (qualified parent (some literal)) = (normalize literal).toList := by
  rw [childPart, dropWhile_qualified hparent]
  rfl

/-- **A name is read in one way**: it tells the parent, whether there is a child, and how its literal
is spelled. -/
theorem qualified_inj {parent' : String} (hparent' : '/' ∉ parent'.toList)
    {literal literal' : Option String} (h : qualified parent literal = qualified parent' literal') :
    parent = parent' ∧ literal.map normalize = literal'.map normalize := by
  constructor
  · apply String.toList_injective
    rw [← takeWhile_qualified hparent literal, h, takeWhile_qualified hparent']
  · have hdrop := dropWhile_qualified hparent literal
    rw [h, dropWhile_qualified hparent'] at hdrop
    cases literal with
    | none =>
      cases literal' with
      | none => rfl
      | some literal' => cases hdrop
    | some literal =>
      cases literal' with
      | none => cases hdrop
      | some literal' =>
        exact congrArg some (String.toList_injective (List.cons.inj hdrop).2.symm)

end

/-- **The name of a child spells the content of its literal, and tells it from every other.**  A
literal is unquoted to its content, as a slice that cuts no character, and the name is the parent, a
slash, and the content without double quotes and with underscores for spaces.  Whatever text stands
for the literal, it is never cut inside a character, and behind the first slash there is neither a
double quote nor a space.  Equal names have the same parent, and both have a child or neither; the
children then are spelled alike.  All this holds for parents without a slash, as identifiers are. -/
theorem qualified_reads_back :
    (∀ name : String, (∀ c ∈ name.toList, isIdentifierPart c = true) → '/' ∉ name.toList)
    ∧ ∀ parent : String, '/' ∉ parent.toList →
      (∀ literal content : String, Delimits literal content →
        unquote literal = content
        ∧ Slice (trim literal.toList) 1 (byteLength (trim literal.toList) - 1) content
        ∧ (qualified parent (some literal)).toList
          = parent.toList ++ '/' :: content.toList.flatMap shown)
      ∧ (∀ literal : String,
        (unquote literal = String.ofList (trim literal.toList)
          ∨ Slice (trim literal.toList) 1 (byteLength (trim literal.toList) - 1) (unquote literal))
        ∧ childPart (qualified parent (some literal)) = (normalize literal).toList
        ∧ ∀ c ∈ childPart (qualified parent (some literal)), c ≠ '"' ∧ c ≠ ' ')
      ∧ ∀ (parent' : String) (literal literal' : Option String), '/' ∉ parent'.toList →
        qualified parent literal = qualified parent' literal' →
        parent = parent' ∧ literal.isSome = literal'.isSome
        ∧ literal.map normalize = literal'.map normalize := by
  refine ⟨fun name => slash_notMem_of_identifier, fun parent hparent => ⟨?_, ?_, ?_⟩⟩
  · intro literal content h
    obtain ⟨d, hd, htrim⟩ := h.trim_eq
    refine ⟨?_, slice_delimited hd htrim, ?_⟩
    · rw [unquote, h.unquoteChars_eq, String.ofList_toList]
    · rw [toList_qualified_some, toList_normalize, h.unquoteChars_eq]
  · intro literal
    have hchild := childPart_qualified hparent literal
    exact ⟨unquote_slices literal, hchild, fun c hc => ne_of_mem_normalize (hchild ▸ hc)⟩
  · intro parent' literal literal' hparent' h
    obtain ⟨hsame, hnormal⟩ := qualified_inj hparent hparent' h
    have hsome := congrArg Option.isSome hnormal
    rw [Option.isSome_map, Option.isSome_map] at hsome
    exact ⟨hsame, hsome, hnormal⟩

/-- A raw literal between blanks.  Its content starts with a double quote, holds a letter of two
bytes, and ends in a space. -/
def rawLiteral : String := "\t\x60\"é\" x \x60\n"

theorem delimits_rawLiteral : Delimits rawLiteral "\"é\" x " :=
  ⟨['\t'], ['\n'], List.forall_mem_singleton.mpr rfl, List.forall_mem_singleton.mpr rfl,
    '\x60', by simp [delimiters], by decide +kernel⟩

/-- The raw literal names its child `é_x_`, and so does the text `é_x_` without delimiters: equal names
tell how a literal is spelled, not which one it is. -/
theorem rawLiteral_reads_back :
    (∀ c ∈ "TestÉ".toList, isIdentifierPart c = true)
    ∧ unquote rawLiteral = "\"é\" x "
    ∧ Slice (trim rawLiteral.toList) 1 8 "\"é\" x "
    ∧ (qualified "TestÉ" (some rawLiteral)).toList = "TestÉ/é_x_".toList
    ∧ (∀ c ∈ childPart (qualified "TestÉ" (some rawLiteral)), c ≠ '"' ∧ c ≠ ' ')
    ∧ qualified "TestÉ" (some rawLiteral) = qualified "TestÉ" (some "é_x_")
    ∧ normalize rawLiteral = normalize "é_x_" := by
  have hall : "TestÉ".toList.all isIdentifierPart = true := by decide +kernel
  have hname : ∀ c ∈ "TestÉ".toList, isIdentifierPart c = true := List.all_eq_true.mp hall
  obtain ⟨hslash, h⟩ := qualified_reads_back
  obtain ⟨hliterals, htexts, hequal⟩ := h "TestÉ" (hslash "TestÉ" hname)
  obtain ⟨hunquote, hslice, hqualified⟩ := hliterals rawLiteral "\"é\" x " delimits_rawLiteral
  have hsame : qualified "TestÉ" (some rawLiteral) = qualified "TestÉ" (some "é_x_") := by
    decide +kernel
  obtain ⟨-, -, hnormal⟩ := hequal "TestÉ" _ _ (hslash "TestÉ" hname) hsame
  have hstop : byteLength (trim rawLiteral.toList) - 1 = 8 := by decide +kernel
  have hspelled : "TestÉ".toList ++ '/' :: "\"é\" x ".toList.flatMap shown
      = "TestÉ/é_x_".toList := by decide +kernel
  exact ⟨hname, hunquote, hstop ▸ hslice, hqualified.trans hspelled,
    (htexts rawLiteral).2.2, hsame, Option.some.inj hnormal⟩

end TestCatalog.Listing
