import Mathlib.Data.List.Chain
import TestCatalog.Proofs.Report.Location

/-!
# Proofs/Path/Joined — cleaning, joining and the normal form of a path

A cleaned path is written in one way only (`NormalForm`): a slash in front if it starts at the root,
else as many `..` as it goes up, then names, with one slash between any two parts and none behind
the last.  Its text is split into just these parts again.  As cleaning may be done before or after
steps are put together (`Route.clean_append_clean`, `Route.clean_clean_append`), it may be done
before or after paths are joined.

* `clean_join` — the parts of a join can be cleaned first.
* `normalForm_clean`, `NormalForm.clean_eq` — a cleaned path is in normal form, and a path in normal
  form is clean.
* `clean_join_normal` — both, and what follows for absolute paths.
-/

namespace TestCatalog.Path

open Route (IsClean)

/-! ## Joining cleaned paths -/

theorem clean_idem (p : Path) : p.clean.clean = p.clean := by
  rw [clean_eq_clean_iff, route_clean, Route.clean_clean]

/-- **Paths may be cleaned before they are joined.** -/
theorem clean_join (a b : Path) : (a.join b).clean = (a.clean.join b.clean).clean := by
  cases hb : b.isRooted with
  | true =>
    -- A path from the root is taken as it is, cleaned or not.
    have hclean : b.clean.isRooted = true := (isRooted_clean b).trans hb
    rw [join, join, if_pos hb, if_pos hclean, clean_idem]
  | false =>
    have hclean : b.clean.isRooted = false := (isRooted_clean b).trans hb
    rw [clean_eq_clean_iff, route_join a hb, route_join a.clean hclean, isRooted_clean, route_clean,
      route_clean, route_of_isRooted hb, Route.clean_append_clean]
    exact (Route.clean_clean_append a.isRooted a.route.steps b.route.steps).symm

/-- A `.` is passed over. -/
theorem clean_join_dot (p : Path) : (p.join ⟨"."⟩).clean = p.clean := by
  have hdot : (⟨"."⟩ : Path).route = ⟨false, []⟩ := rfl
  rw [clean_eq_clean_iff, route_join p rfl, hdot, List.append_nil]
  rfl

/-- A name that is followed by `..` is taken back. -/
theorem clean_join_up (p : Path) {name : Raw} (h : IsName name) :
    ((p.join ⟨name⟩).join ⟨".."⟩).clean = p.clean := by
  have hname := route_of_isName h
  have hdown := route_join p (isRooted_of_route hname)
  have hup : (⟨".."⟩ : Path).route = ⟨false, [.up]⟩ := rfl
  rw [clean_eq_clean_iff, route_join _ rfl, isRooted_of_route hdown, hdown, hname, hup,
    List.append_assoc, Route.clean_append]
  exact congrArg (Route.mk p.isRooted) (List.reverse_reverse _)

theorem absolute_clean (current : Option Path) (p : Path) :
    p.clean.absolute current = p.absolute current := by
  cases current with
  | none => rw [absolute, absolute, isRooted_clean, clean_idem]
  | some directory =>
    rw [absolute, absolute, isRooted_clean, clean_idem, clean_join directory p.clean, clean_idem,
      ← clean_join]

/-! ## The normal form -/

/-- **A text in normal form**, with the steps up and the names that it is made of. -/
structure NormalForm (text : Raw) (rooted : Bool) (ups : Nat) (names : List Raw) : Prop where
  /-- One slash stands between any two parts. -/
  text_eq : text = (if rooted then ("/" : Raw) else "")
    ++ Raw.intercalate "/" (List.replicate ups (".." : Raw) ++ names)
  /-- At the root there is no way up. -/
  no_up : rooted = true → ups = 0
  /-- The other parts are names. -/
  isName : ∀ name ∈ names, IsName name

/-- **A clean route goes up, and then down by names.** -/
theorem Route.IsClean.exists_names {rooted : Bool} {steps : List Step}
    (h : IsClean ⟨rooted, steps⟩) : ∃ (ups : Nat) (names : List Raw),
      steps = List.replicate ups .up ++ names.map .name ∧ (rooted = true → ups = 0) := by
  induction steps with
  | nil => exact ⟨0, [], rfl, fun _ => rfl⟩
  | cons s steps ih =>
    obtain ⟨ups, names, rfl, hups⟩ := ih (h.of_sublist (List.sublist_cons_self s _))
    cases s with
    | up =>
      exact ⟨ups + 1, names, rfl, fun hrooted => absurd List.mem_cons_self (h.no_up hrooted)⟩
    | name text =>
      -- Behind a name nothing goes up.
      obtain rfl : ups = 0 := by
        by_contra hne
        have hup : Step.up ∈ List.replicate ups Step.up ++ names.map Step.name :=
          List.mem_append_left _ (List.mem_replicate.mpr ⟨hne, rfl⟩)
        cases (List.pairwise_cons.mp h.ups_first).1 .up hup rfl
      exact ⟨0, text :: names, rfl, fun _ => rfl⟩

theorem map_text_steps (ups : Nat) (names : List Raw) :
    (List.replicate ups Step.up ++ names.map Step.name).map Step.text
      = List.replicate ups (".." : Raw) ++ names := by
  simp [Step.text, Function.comp_def]

/-- **A cleaned path is in normal form**, and split into the parts of that form. -/
theorem normalForm_clean (p : Path) : ∃ ups names,
    NormalForm p.clean.text p.isRooted ups names
      ∧ p.clean.parts = List.replicate ups (".." : Raw) ++ names := by
  have hclean : IsClean ⟨p.isRooted, p.route.clean.steps⟩ := Route.isClean_clean p.route
  obtain ⟨ups, names, hsteps, hups⟩ := hclean.exists_names
  have htexts := (congrArg (List.map Step.text) hsteps).trans (map_text_steps ups names)
  refine ⟨ups, names, ⟨?_, hups, fun name hname => ?_⟩, (parts_clean p).trans htexts⟩
  · rw [← htexts]
    rfl
  · have hmem : Step.name name ∈ p.route.clean.steps := by
      rw [hsteps]
      exact List.mem_append_right _ (List.mem_map_of_mem hname)
    exact plain_of_mem_clean _ hmem

/-- **A path in normal form is clean.** -/
theorem NormalForm.clean_eq {text : Raw} {rooted : Bool} {ups : Nat} {names : List Raw}
    (h : NormalForm text rooted ups names) : (⟨text⟩ : Path).clean = ⟨text⟩ := by
  have hups : IsClean ⟨rooted, List.replicate ups .up⟩ := by
    refine ⟨List.pairwise_of_forall_mem_list fun a ha _ _ _ => List.eq_of_mem_replicate ha, ?_⟩
    intro hrooted hup
    rw [h.no_up hrooted] at hup
    cases hup
  have hplain : ∀ s ∈ List.replicate ups .up ++ names.map Step.name, s.Plain := by
    intro s hs
    rcases List.mem_append.mp hs with hup | hname
    · rw [List.eq_of_mem_replicate hup]
      trivial
    · obtain ⟨name, hmem, rfl⟩ := List.mem_map.mp hname
      exact h.isName name hmem
  have hpath : (⟨text⟩ : Path) = ofRoute ⟨rooted, List.replicate ups .up ++ names.map .name⟩ := by
    rw [ofRoute, map_text_steps, h.text_eq]
  rw [hpath, clean, route_ofRoute hplain, (hups.append_names names).clean_eq]

/-! ## Slashes in the normal form -/

/-- Of two bytes that follow each other one is no slash. -/
def Parted (a b : UInt8) : Prop := a ≠ slash ∨ b ≠ slash

theorem isChain_parted_of_notMem {bs : List UInt8} (h : slash ∉ bs) : bs.IsChain Parted := by
  refine List.Pairwise.isChain (List.pairwise_of_forall_mem_list fun a ha b _ => ?_)
  exact .inl fun hslash => h (hslash ▸ ha)

/-- Parts that end in a slash have no two slashes in a row, even behind a slash. -/
theorem isChain_flatMap_slash {names : List (List UInt8)}
    (h : ∀ name ∈ names, name ≠ [] ∧ slash ∉ name) :
    (slash :: names.flatMap (· ++ [slash])).IsChain Parted := by
  induction names with
  | nil => exact .singleton slash
  | cons name names ih =>
    obtain ⟨⟨hne, hslash⟩, hnames⟩ := List.forall_mem_cons.mp h
    obtain ⟨b, bs, rfl⟩ := List.exists_cons_of_ne_nil hne
    have hb : b ≠ slash := fun hb => hslash (hb ▸ List.mem_cons_self)
    have hname : (slash :: b :: bs).IsChain Parted :=
      .cons_cons (.inr hb) (isChain_parted_of_notMem hslash)
    rw [List.flatMap_cons, List.append_assoc, ← List.cons_append]
    refine hname.append (ih hnames) fun a ha b _ => .inl fun hlast => hslash ?_
    rw [List.getLast?_cons_cons] at ha
    exact hlast ▸ List.mem_of_getLast? ha

theorem intercalate_append_slash {names : List (List UInt8)} (h : names ≠ []) :
    [slash].intercalate names ++ [slash] = names.flatMap (· ++ [slash]) := by
  induction names with
  | nil => contradiction
  | cons name names ih =>
    cases names with
    | nil => rw [List.intercalate_singleton, List.flatMap_singleton]
    | cons next names =>
      rw [List.flatMap_cons, ← ih (List.cons_ne_nil _ _), List.intercalate_cons_cons,
        List.append_assoc]

theorem not_infix_of_isChain {bs : List UInt8} (h : bs.IsChain Parted) : ¬ [slash, slash] <:+: bs :=
  fun hslashes => by simpa [Parted] using h.infix hslashes

section

variable {text : Raw} {rooted : Bool} {ups : Nat} {names : List Raw}
  (h : NormalForm text rooted ups names)
include h

theorem NormalForm.isName_or_up :
    ∀ part ∈ List.replicate ups (".." : Raw) ++ names, part = ".." ∨ IsName part := by
  intro part hpart
  rcases List.mem_append.mp hpart with hup | hname
  · exact .inl (List.eq_of_mem_replicate hup)
  · exact .inr (h.isName part hname)

theorem NormalForm.bytes_eq : text.bytes = (if rooted then [slash] else [])
    ++ [slash].intercalate ((List.replicate ups (".." : Raw) ++ names).map Raw.bytes) := by
  rw [h.text_eq]
  cases rooted <;> rfl

/-- A slash can be put behind a text in normal form, unless it has no parts. -/
theorem NormalForm.isChain (hne : List.replicate ups (".." : Raw) ++ names ≠ []) :
    (text.bytes ++ [slash]).IsChain Parted := by
  have hchain : (slash :: ((List.replicate ups (".." : Raw) ++ names).map Raw.bytes).flatMap
      (· ++ [slash])).IsChain Parted := by
    refine isChain_flatMap_slash fun _ hmem => ?_
    obtain ⟨part, hpart, rfl⟩ := List.mem_map.mp hmem
    rcases h.isName_or_up part hpart with rfl | hname
    · decide
    · exact ⟨Step.text_ne_nil (s := .name part) hname, hname.2.1⟩
  rw [← intercalate_append_slash (by simpa using hne)] at hchain
  rw [h.bytes_eq]
  cases rooted with
  | true => exact hchain
  | false => exact hchain.tail

/-- **In normal form there is one slash at a time**, and none at the end but that of the root. -/
theorem NormalForm.slashes :
    ¬ [slash, slash] <:+: text.bytes ∧ (text ≠ "/" → text.bytes.getLast? ≠ some slash) := by
  by_cases hne : List.replicate ups (".." : Raw) ++ names = []
  · have htext := h.bytes_eq
    rw [hne] at htext
    cases rooted with
    | true =>
      obtain rfl : text = "/" := Raw.ext_bytes htext
      exact ⟨by decide, fun hroot => absurd rfl hroot⟩
    | false =>
      obtain rfl : text = "" := Raw.ext_bytes htext
      exact ⟨by decide, fun _ => by decide⟩
  · have hchain := h.isChain hne
    refine ⟨not_infix_of_isChain hchain.left_of_append, fun _ hlast => ?_⟩
    obtain ⟨init, hinit⟩ := List.getLast?_eq_some_iff.mp hlast
    rw [hinit, List.append_assoc] at hchain
    exact not_infix_of_isChain hchain (List.suffix_append init _).isInfix

end

/-! ## The laws -/

/-- **Cleaning, joining and absolute paths.**  Paths may be cleaned before they are joined.  A
cleaned path is in normal form and split into the parts of that form, and the paths in normal form
are those that cleaning leaves as they are; it passes over `.` and takes back a name followed by
`..`.  A path and its cleaned form have the same absolute path, which starts at the root and goes
nowhere but down if the current directory starts at the root. -/
theorem clean_join_normal :
    (∀ a b : Path, (a.join b).clean = (a.clean.join b.clean).clean)
    ∧ (∀ p : Path, ∃ ups names, NormalForm p.clean.text p.isRooted ups names
      ∧ p.clean.isRooted = p.isRooted ∧ p.clean.parts = List.replicate ups (".." : Raw) ++ names
      ∧ ("." : Raw) ∉ p.clean.parts ∧ ("" : Raw) ∉ p.clean.parts
      ∧ ¬ [slash, slash] <:+: p.clean.text.bytes
      ∧ (p.clean ≠ ⟨"/"⟩ → p.clean.endsInSlash = false))
    ∧ (∀ p : Path, p.clean.clean = p.clean
      ∧ (p.clean = p ↔ ∃ ups names, NormalForm p.text p.isRooted ups names))
    ∧ (∀ p : Path, (p.join ⟨"."⟩).clean = p.clean
      ∧ ∀ name, IsName name → ((p.join ⟨name⟩).join ⟨".."⟩).clean = p.clean)
    ∧ (∀ current (p : Path), p.absolute current = p.clean.absolute current)
    ∧ ∀ directory p : Path, directory.isRooted = true →
      ∃ q, p.absolute (some directory) = .ok q ∧ q.isRooted = true ∧ (".." : Raw) ∉ q.parts := by
  refine ⟨clean_join, fun p => ?_, fun p => ⟨clean_idem p, fun hclean => ?_, ?_⟩,
    fun p => ⟨clean_join_dot p, fun name => clean_join_up p⟩,
    fun current p => (absolute_clean current p).symm, fun directory p hdirectory => ?_⟩
  · obtain ⟨ups, names, hform, hparts⟩ := normalForm_clean p
    obtain ⟨hsingle, hlast⟩ := hform.slashes
    have hpart : ∀ part ∈ p.clean.parts, part ≠ "." ∧ part ≠ "" := by
      intro part hpart
      rcases hform.isName_or_up part (hparts ▸ hpart) with rfl | ⟨hne, -, hdot, -⟩
      · decide
      · exact ⟨hdot, hne⟩
    refine ⟨ups, names, hform, isRooted_clean p, hparts, fun hdot => (hpart _ hdot).1 rfl,
      fun hempty => (hpart _ hempty).2 rfl, hsingle, fun hroot => ?_⟩
    have hend := hlast fun htext => hroot (congrArg Path.mk htext)
    simpa [endsInSlash] using hend
  · obtain ⟨ups, names, hform, -⟩ := normalForm_clean p
    rw [hclean] at hform
    exact ⟨ups, names, hform⟩
  · rintro ⟨ups, names, hform⟩
    exact hform.clean_eq
  · refine ⟨_, absolute_eq hdirectory p, isRooted_absolute directory p, fun hup => ?_⟩
    exact (isName_of_mem_parts_absolute _ hup).2.2.2 rfl

/-- A path that goes further up than the directory `/work` is deep, with a doubled slash, a `.`, a
name that is taken back, and a slash behind. -/
def climbing : Path := ⟨"../../c//./d/../"⟩

theorem climbing_cleaned :
    climbing.clean = ⟨"../../c"⟩ ∧ climbing.clean ≠ ⟨"/"⟩ ∧ climbing.clean.endsInSlash = false
    ∧ IsName "d" ∧ ((climbing.join ⟨"d"⟩).join ⟨".."⟩).clean = climbing.clean
    ∧ (⟨"/work"⟩ : Path).isRooted = true
    ∧ ∃ q, climbing.absolute (some ⟨"/work"⟩) = .ok q ∧ q.isRooted = true
      ∧ (".." : Raw) ∉ q.parts := by
  have hclean : climbing.clean = ⟨"../../c"⟩ := rfl
  have hroot : climbing.clean ≠ ⟨"/"⟩ := by
    rw [hclean]
    decide
  have hname : IsName "d" := by decide
  obtain ⟨-, hforms, -, hfolds, -, habsolute⟩ := clean_join_normal
  obtain ⟨ups, names, -, -, -, -, -, -, hend⟩ := hforms climbing
  exact ⟨hclean, hroot, hend hroot, hname, (hfolds climbing).2 "d" hname, rfl,
    habsolute ⟨"/work"⟩ climbing rfl⟩

end TestCatalog.Path
