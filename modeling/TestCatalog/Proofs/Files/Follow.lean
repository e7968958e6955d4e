import Mathlib.Data.List.Basic
import TestCatalog.Files.Tree

/-!
# Proofs/Files/Follow — a link at the end of a path

A path can be followed through a link at its end or up to it.  The two differ in this link alone
(`item_of_item_last`): what leads somewhere through the link also leads to the link, and a path that
ends in no link leads to the same item either way.

`follow_cases` says what one part of a path can do; the invariant `StopsAt` is carried along the
parts (`follow_stops`), and then by the number of links that may be followed (`followLinks_stops`).
-/

namespace TestCatalog.Files

theorem Item.below?_append (item : Item) (names names' : List Raw) :
    item.below? (names ++ names') = (item.below? names).bind (·.below? names') :=
  List.foldlM_append

/-- An entry of a directory, from where the directory is below. -/
theorem Item.below?_concat {item : Item} {names : List Raw} {entries : List (Raw × Item)}
    (h : item.below? names = some (.folder entries)) (name : Raw) :
    item.below? (names ++ [name]) = entries.lookup name := by
  rw [below?_append, h, Option.bind_some, below?, List.foldlM_cons]
  exact bind_pure (entries.lookup name)

/-- **What one part of a path can do**: it is refused, or it leads on, or it is a link, at which the
path ends or jumps.  Only the last depends on whether a link at the end is followed. -/
theorem follow_cases (root : Item) (trail : List Raw) (part : Raw) (rest : List Raw) :
    (∃ fault, ∀ last jump, follow root last jump trail (part :: rest) = .error fault)
    ∨ (∃ trail', ∀ last jump,
        follow root last jump trail (part :: rest) = follow root last jump trail' rest)
    ∨ ∃ target start parts, root.below? (part :: trail).reverse = some (.link target)
      ∧ ∀ last jump, follow root last jump trail (part :: rest)
        = if rest.isEmpty && !last then .ok (part :: trail) else jump start parts := by
  simp only [follow]
  rcases hfound : root.below? trail.reverse with _ | _ | _ | entries | _
  iterate 3 exact .inl ⟨_, fun _ _ => rfl⟩
  · dsimp only
    split_ifs
    · exact .inr (.inl ⟨_, fun _ _ => rfl⟩)
    · exact .inr (.inl ⟨_, fun _ _ => rfl⟩)
    · exact .inl ⟨_, fun _ _ => rfl⟩
    · rcases hentry : entries.lookup part with _ | _ | target | _ | _
      · exact .inl ⟨_, fun _ _ => rfl⟩
      · exact .inr (.inl ⟨_, fun _ _ => rfl⟩)
      · refine .inr (.inr ⟨target, _, _, ?_, fun _ _ => rfl⟩)
        rw [List.reverse_cons, Item.below?_concat hfound, hentry]
      · exact .inr (.inl ⟨_, fun _ _ => rfl⟩)
      · exact .inr (.inl ⟨_, fun _ _ => rfl⟩)
  · exact .inl ⟨_, fun _ _ => rfl⟩

/-- **Where a path stops short of a place**: at the place itself, or at a link. -/
def StopsAt (root : Item) (place : List Raw) (stop : Except Fault (List Raw)) : Prop :=
  ∃ trail, stop = .ok trail
    ∧ (trail = place ∨ ∃ target, root.below? trail.reverse = some (.link target))

/-- A run that stops at a link at the end keeps to the trail of one that does not, if their jumps
do. -/
theorem follow_stops {root : Item}
    {jump jump' : List Raw → List Raw → Except Fault (List Raw)}
    (hjump : ∀ trail parts place, jump trail parts = .ok place →
      StopsAt root place (jump' trail parts)) :
    ∀ (parts trail : List Raw) {place : List Raw},
      follow root true jump trail parts = .ok place →
        StopsAt root place (follow root false jump' trail parts)
  | [], trail, _, h => ⟨trail, rfl, .inl (Except.ok.inj h)⟩
  | part :: rest, trail, place, h => by
    obtain ⟨fault, hstep⟩ | ⟨trail', hstep⟩ | ⟨target, start, parts, hlink, hstep⟩ :=
      follow_cases root trail part rest
    · cases (hstep true jump).symm.trans h
    · rw [hstep] at h ⊢
      exact follow_stops hjump rest trail' h
    · rw [hstep, Bool.not_true, Bool.and_false, if_neg Bool.false_ne_true] at h
      rw [hstep]
      split_ifs
      · exact ⟨part :: trail, rfl, .inr ⟨target, hlink⟩⟩
      · exact hjump _ _ _ h

theorem followLinks_stops {root : Item} : ∀ (links : Nat) {trail parts place : List Raw},
    followLinks root true links trail parts = .ok place →
      StopsAt root place (followLinks root false links trail parts)
  | 0, _, _, _, h => follow_stops (fun _ _ _ hjump => by cases hjump) _ _ h
  | links + 1, _, _, _, h =>
    follow_stops (fun _ _ _ hjump => followLinks_stops links hjump) _ _ h

/-- A path is refused by its text, or it is followed from where it starts. -/
theorem FileSystem.locate_cases (fs : FileSystem) (path : Path) :
    (∃ fault, ∀ last, fs.locate last path = .error fault)
    ∨ ∃ start, ∀ last,
        fs.locate last path = followLinks fs.root last maxLinks start (partsToFollow path) := by
  simp only [locate]
  split_ifs
  iterate 3 exact .inl ⟨_, fun _ => rfl⟩
  · exact .inr ⟨_, fun _ => rfl⟩
  · rcases fs.current with _ | start
    · exact .inl ⟨_, fun _ => rfl⟩
    · exact .inr ⟨_, fun _ => rfl⟩

theorem FileSystem.locate_stops {fs : FileSystem} {path : Path} {place : List Raw}
    (h : fs.locate true path = .ok place) : StopsAt fs.root place (fs.locate false path) := by
  obtain ⟨fault, hlocate⟩ | ⟨start, hlocate⟩ := fs.locate_cases path
  · cases (hlocate true).symm.trans h
  · rw [hlocate] at h ⊢
    exact followLinks_stops maxLinks h

theorem FileSystem.item_eq_ok_iff {fs : FileSystem} {last : Bool} {path : Path} {item : Item} :
    fs.item last path = .ok item
      ↔ ∃ trail, fs.locate last path = .ok trail ∧ fs.root.below? trail.reverse = some item := by
  rw [FileSystem.item]
  rcases fs.locate last path with _ | trail
  · simp [bind, Except.bind]
  · rcases hfound : fs.root.below? trail.reverse with _ | found <;> simp [bind, Except.bind, hfound]

/-- **What a path leads to, its end not followed**: the same item, or a link. -/
theorem FileSystem.item_of_item_last {fs : FileSystem} {path : Path} {item : Item}
    (h : fs.item true path = .ok item) :
    fs.item false path = .ok item ∨ ∃ target, fs.item false path = .ok (.link target) := by
  obtain ⟨place, hplace, hitem⟩ := item_eq_ok_iff.mp h
  obtain ⟨trail, htrail, rfl | ⟨target, htarget⟩⟩ := locate_stops hplace
  · exact .inl (item_eq_ok_iff.mpr ⟨trail, htrail, hitem⟩)
  · exact .inr ⟨target, item_eq_ok_iff.mpr ⟨trail, htrail, htarget⟩⟩

end TestCatalog.Files
