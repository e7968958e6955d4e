import TestCatalog.Proofs.Json.Grammar

/-!
# Proofs/Json/Scan — where the strings of a text are

A text is gone through once, and of each character it is noted whether it stands outside of strings,
inside one, or inside one behind a backslash (`places`).  So the blanks that lay a text out can be
told from those that its strings hold, and deleted (`squeeze`).  `Scans` says what comes of a piece
of text, and pieces are put together by `Scans.append`.

* `Scans.string` — what the grammar takes for a string, the scan does too.
-/

namespace TestCatalog.Json

/-! ## Scanning -/

/-- Where a character stands: outside of strings, inside one, or inside one behind a backslash. -/
inductive Place where
  | outside
  | inside
  | escaped
deriving DecidableEq, Repr, Inhabited

/-- Where the next character stands. -/
def Place.next : Place → Char → Place
  | .outside, c => if c = '"' then .inside else .outside
  | .inside, c => if c = '"' then .outside else if c = '\\' then .escaped else .inside
  | .escaped, _ => .inside

/-- The characters of a piece of text, each with the place where it stands. -/
def places : Place → List Char → List (Place × Char)
  | _, [] => []
  | place, c :: cs => (place, c) :: places (place.next c) cs

/-- Whether a character is one that texts are laid out with: a newline, a tab or a space. -/
def isSpacing (c : Char) : Bool := c == '\n' || c == '\t' || c == ' '

theorem le_of_isSpacing {c : Char} (h : isSpacing c = true) : c.toNat ≤ 0x20 := by
  simp only [isSpacing, Bool.or_eq_true, beq_iff_eq] at h
  rcases h with (rfl | rfl) | rfl <;> decide

/-- A piece of text without the newlines, tabs and spaces outside of strings. -/
def squeezeFrom (place : Place) (cs : List Char) : List Char :=
  ((places place cs).filter fun a => !(a.1 = .outside && isSpacing a.2)).map (·.2)

/-- **A text without the newlines, tabs and spaces outside of its strings.** -/
def squeeze (text : String) : String := String.ofList (squeezeFrom .outside text.toList)

/-- **What a scan makes of a piece of text**: where it ends, and what is kept. -/
structure Scans (start : Place) (cs kept : List Char) (stop : Place) : Prop where
  /-- The place behind the piece. -/
  stop_eq : cs.foldl Place.next start = stop
  /-- What is kept. -/
  kept_eq : squeezeFrom start cs = kept
  /-- There are no control characters inside strings. -/
  inside : ∀ a ∈ places start cs, a.1 ≠ .outside → 0x20 ≤ a.2.toNat
  /-- There are none in what is kept. -/
  solid : ∀ c ∈ kept, 0x20 ≤ c.toNat

section

variable {start mid stop : Place} {c : Char} {cs ds kept kept' : List Char}

theorem places_append (start : Place) (cs ds : List Char) :
    places start (cs ++ ds) = places start cs ++ places (cs.foldl Place.next start) ds := by
  induction cs generalizing start with
  | nil => rfl
  | cons c cs ih => rw [List.cons_append, places, ih, places, List.cons_append, List.foldl_cons]

theorem Scans.nil : Scans start [] [] start := ⟨rfl, rfl, nofun, nofun⟩

/-- **A scan goes on where it stopped.** -/
theorem Scans.append (h : Scans start cs kept mid) (h' : Scans mid ds kept' stop) :
    Scans start (cs ++ ds) (kept ++ kept') stop := by
  obtain ⟨rfl, rfl, hinside, hsolid⟩ := h
  obtain ⟨rfl, rfl, hinside', hsolid'⟩ := h'
  refine ⟨List.foldl_append, ?_, ?_, List.forall_mem_append.mpr ⟨hsolid, hsolid'⟩⟩
  · rw [squeezeFrom, places_append, List.filter_append, List.map_append]
    rfl
  · rw [places_append]
    exact List.forall_mem_append.mpr ⟨hinside, hinside'⟩

/-- A character that is kept. -/
theorem Scans.char (hcontrol : 0x20 ≤ c.toNat) (hspacing : start = .outside → isSpacing c = false) :
    Scans start [c] [c] (start.next c) := by
  refine ⟨rfl, ?_, by simpa [places] using fun _ => hcontrol, by simpa using hcontrol⟩
  cases start <;> simp_all [squeezeFrom, places]

/-- Characters that are kept and change nothing. -/
theorem Scans.steady (h : ∀ c ∈ cs, start.next c = start ∧ 0x20 ≤ c.toNat
    ∧ (start = .outside → isSpacing c = false)) : Scans start cs cs start := by
  induction cs with
  | nil => exact .nil
  | cons c cs ih =>
    obtain ⟨⟨hnext, hcontrol, hspacing⟩, hlater⟩ := List.forall_mem_cons.mp h
    have hfirst := Scans.char hcontrol hspacing
    rw [hnext] at hfirst
    exact hfirst.append (ih hlater)

/-- Outside of strings all is kept but blanks. -/
theorem Scans.signs (h : ∀ c ∈ cs, 0x20 < c.toNat ∧ c ≠ '"') : Scans .outside cs cs .outside := by
  refine .steady fun c hc => ?_
  obtain ⟨hcontrol, hquote⟩ := h c hc
  refine ⟨by simp [Place.next, hquote], Nat.le_of_lt hcontrol, fun _ => ?_⟩
  exact Bool.eq_false_iff.mpr fun hspacing => Nat.not_lt.mpr (le_of_isSpacing hspacing) hcontrol

theorem Scans.sign (hcontrol : 0x20 < c.toNat) (hquote : c ≠ '"') :
    Scans .outside [c] [c] .outside :=
  .signs (List.forall_mem_singleton.mpr ⟨hcontrol, hquote⟩)

/-- Blanks outside of strings are not kept. -/
theorem Scans.spacing (h : ∀ c ∈ cs, isSpacing c = true) : Scans .outside cs [] .outside := by
  induction cs with
  | nil => exact .nil
  | cons c cs ih =>
    obtain ⟨hc, hlater⟩ := List.forall_mem_cons.mp h
    have hquote : c ≠ '"' := by
      rintro rfl
      cases hc
    have hfirst : Scans .outside [c] [] .outside :=
      ⟨by simp [Place.next, hquote], by simp [squeezeFrom, places, hc], by simp [places], nofun⟩
    exact hfirst.append (ih hlater)

end

/-! ## Strings -/

section

variable {c e : Char} {cs : List Char}

/-- A character that stands for itself in a string. -/
def IsPlain (c : Char) : Prop := 0x20 ≤ c.toNat ∧ c ≠ '"' ∧ c ≠ '\\'

theorem scans_plain (h : ∀ c ∈ cs, IsPlain c) : Scans .inside cs cs .inside := by
  refine .steady fun c hc => ?_
  obtain ⟨hcontrol, hquote, hbackslash⟩ := h c hc
  exact ⟨by simp [Place.next, hquote, hbackslash], hcontrol, nofun⟩

/-- What stands behind a backslash ends no string. -/
theorem Scans.backslash (he : 0x20 ≤ e.toNat) (h : Scans .inside cs cs .inside) :
    Scans .inside ('\\' :: e :: cs) ('\\' :: e :: cs) .inside := by
  have hbackslash : Scans .inside ['\\'] ['\\'] .escaped := .char (by decide) nofun
  have hescaped : Scans .escaped [e] [e] .inside := .char he nofun
  exact hbackslash.append (hescaped.append h)

theorem isPlain_of_hexDigit? {n : Nat} (h : hexDigit? c = some n) : IsPlain c := by
  refine ⟨?_, ?_, ?_⟩
  · unfold hexDigit? at h
    split_ifs at h with hdigit hsmall hcapital
    · exact Nat.le_trans (by decide) hdigit.1
    · exact Nat.le_trans (by decide) hsmall.1
    · exact Nat.le_trans (by decide) hcapital.1
  · rintro rfl
    cases h
  · rintro rfl
    cases h

theorem isPlain_of_hex? {digits : List Char} {n : Nat} (h : hex? digits = some n) :
    ∀ c ∈ digits, IsPlain c := by
  unfold hex? at h
  split at h
  · simp only [Option.bind_eq_bind, Option.bind_eq_some_iff] at h
    obtain ⟨_, ha, _, hb, _, hc, _, hd, -⟩ := h
    simpa using ⟨isPlain_of_hexDigit? ha, isPlain_of_hexDigit? hb, isPlain_of_hexDigit? hc,
      isPlain_of_hexDigit? hd⟩
  · cases h

theorem le_of_escaped? (h : escaped? e = some c) : 0x20 ≤ e.toNat := by
  obtain ⟨before, after, htable, -⟩ := List.lookup_eq_some_iff.mp h
  have hmem : (e, c) ∈ before ++ (e, c) :: after := by simp
  rw [← htable] at hmem
  simp only [List.mem_cons, Prod.mk.injEq, List.not_mem_nil, or_false] at hmem
  rcases hmem with ⟨rfl, -⟩ | ⟨rfl, -⟩ | ⟨rfl, -⟩ | ⟨rfl, -⟩ | ⟨rfl, -⟩ | ⟨rfl, -⟩ | ⟨rfl, -⟩
    | ⟨rfl, -⟩
  all_goals decide

/-- **A character in a string keeps a scan inside**, however it is written. -/
theorem Coded.scans (h : Coded c cs) : Scans .inside cs cs .inside := by
  cases h with
  | plain hcontrol hquote hbackslash =>
    exact scans_plain (List.forall_mem_singleton.mpr ⟨hcontrol, hquote, hbackslash⟩)
  | escape he => exact .backslash (le_of_escaped? he) .nil
  | code hcode => exact .backslash (by decide) (scans_plain (isPlain_of_hex? hcode))
  | pair hhigh hlow _ _ _ =>
    exact .backslash (by decide) ((scans_plain (isPlain_of_hex? hhigh)).append
      (.backslash (by decide) (scans_plain (isPlain_of_hex? hlow))))

theorem Quoted.scans {s : List Char} (h : Quoted s cs) : Scans .inside cs cs .inside := by
  induction h with
  | nil => exact .nil
  | cons hc _ ih => exact hc.scans.append ih

/-- **The strings of the grammar are those that a scan finds.** -/
theorem Scans.string {s : List Char} (h : Quoted s cs) :
    Scans .outside ('"' :: (cs ++ ['"'])) ('"' :: (cs ++ ['"'])) .outside :=
  (Scans.char (by decide) fun _ => rfl).append
    (h.scans.append (Scans.char (by decide) nofun))

end

end TestCatalog.Json
