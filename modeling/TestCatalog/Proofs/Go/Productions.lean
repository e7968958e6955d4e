import Mathlib.Data.List.Forall2
import TestCatalog.Go.Node

/-!
# Proofs/Go/Productions — what the productions of the grammar have in common

The productions are the rules written out, with numbers for the repetitions.  A *view* of a
production is the list of its symbols without these numbers, so that what holds of all productions
can be checked on the rules alone: `Arranged` says what a production looks like, and
`arranged_productions` that all of them look so.
-/

namespace TestCatalog.Go

open Parsing (Production Symbol)

/-! ## Views -/

/-- A symbol in its place in a production. -/
inductive View where
  | token (t : Terminal) (m : Mark)
  | category (k : Kind) (m : Mark)
  | repetition
deriving DecidableEq

namespace View

/-- What the symbol contributes beyond its node. -/
def mark : View → Mark
  | .token _ m | .category _ m => m
  | .repetition => {}

/-- Whether the symbol is that of a view. -/
def Shows : View → Symbol → Prop
  | .token t _, x => x = .terminal t.index
  | .category k _, x => x = .category k.index
  | .repetition, x => ∃ n, Kind.count ≤ n ∧ x = .category n

/-- Whether the symbol may stand inside a source file: it is neither its end nor a whole one. -/
def isInner : View → Bool
  | .token t _ => t ≠ .finish
  | .category k _ => k ≠ .sourceFile
  | .repetition => true

/-- Whether the symbol makes one node that counts as a child. -/
def isVisible : View → Bool
  | .token t _ => t.kind ≠ .punctuation
  | .category k _ => !k.isHidden
  | .repetition => false

/-- Whether the symbol makes one such node, possibly through a category of expressions. -/
def isSolid : View → Bool
  | .category .expression _ => true
  | v => v.isVisible

/-- Whether the symbol makes one node, which is neither a block nor a statement list. -/
def isList : View → Bool
  | .category k m => !k.isHidden && m.label.getD k ≠ .block && m.label.getD k ≠ .statementList
  | _ => false

end View

/-- The views of the sequences that a pattern stands for. -/
def Pattern.views : Pattern → List (List View)
  | .empty => [[]]
  | .token t m => [[.token t m]]
  | .category k m => [[.category k m]]
  | .seq p q => p.views.flatMap fun a => q.views.map (a ++ ·)
  | .alt p q => p.views ++ q.views
  | .many _ => [[.repetition]]

/-! ## Arrangement -/

/-- The kinds of nodes that more is asked of, or that do not count as children. -/
def reservedKinds : List Kind :=
  [.numberLiteral, .runeLiteral, .rawStringLiteral, .interpretedStringLiteral, .callExpression,
    .selectorExpression, .compositeLiteral, .literalElement, .keyedElement, .comment, .punctuation]

/-- The kinds of nodes of which more is asked than that their children stand in order. -/
def leadingKinds : List Kind := [.callExpression, .selectorExpression, .literalElement, .keyedElement]

/-- The part that the first child plays in such a node. -/
def leadRole : Kind → Option Role
  | .callExpression => some .function
  | .selectorExpression => some .operand
  | .keyedElement => some .key
  | _ => none

/-- Whether a node of that kind takes the child in that part for a list of expressions: the
arguments of a call, and the elements of a composite literal. -/
def takesExprs (kind : Kind) (role : Option Role) : Bool :=
  kind = .callExpression && role = some .arguments
    || kind = .compositeLiteral && role = some .body

/-- **What a production looks like.** -/
structure Arranged (kind : Option Kind) (views : List View) : Prop where
  /-- Its nodes count as children. -/
  counted : ∀ k ∈ kind, k ≠ .comment ∧ k ≠ .punctuation
  /-- No symbol gets a kind that more is asked of. -/
  labels : ∀ v ∈ views, ∀ l ∈ v.mark.label, l ∉ reservedKinds
  /-- Only a source file has the end of the text, and none is inside another node. -/
  inner : ∀ v ∈ views, v.isInner = true ∨ kind = some .sourceFile ∧ v = .token .finish {}
  /-- The parts are played in their order. -/
  ordered : (views.filterMap (·.mark.role)).Pairwise (·.ctorIdx < ·.ctorIdx)
  /-- Where no node is made, no part is played. -/
  silent : kind.all Kind.isHidden = true → ∀ v ∈ views, v.mark.role = none
  /-- Calls, selectors, elements and pairs start with the node that leads them. -/
  lead : ∀ k ∈ kind, k ∈ leadingKinds →
    ∃ v ∈ views.head?, v.isSolid = true ∧ v.mark.role = leadRole k
  /-- An expression is one node. -/
  single : kind = some .expression → views.length = 1 ∧ ∀ v ∈ views, v.isVisible = true
  /-- A pair has a value. -/
  pair : kind = some .keyedElement → ∃ v ∈ views, v.isVisible = true ∧ v.mark.role = some .value
  /-- No block is taken for a list of expressions. -/
  lists : ∀ k ∈ kind, ∀ v ∈ views, takesExprs k v.mark.role = true → v.isList = true

instance (kind : Option Kind) (views : List View) : Decidable (Arranged kind views) :=
  decidable_of_iff
    ((∀ k ∈ kind, k ≠ .comment ∧ k ≠ .punctuation) ∧ (∀ v ∈ views, ∀ l ∈ v.mark.label, l ∉ reservedKinds)
      ∧ (∀ v ∈ views, v.isInner = true ∨ kind = some .sourceFile ∧ v = .token .finish {})
      ∧ (views.filterMap (·.mark.role)).Pairwise (·.ctorIdx < ·.ctorIdx)
      ∧ (kind.all Kind.isHidden = true → ∀ v ∈ views, v.mark.role = none)
      ∧ (∀ k ∈ kind, k ∈ leadingKinds →
        ∃ v ∈ views.head?, v.isSolid = true ∧ v.mark.role = leadRole k)
      ∧ (kind = some .expression → views.length = 1 ∧ ∀ v ∈ views, v.isVisible = true)
      ∧ (kind = some .keyedElement →
        ∃ v ∈ views, v.isVisible = true ∧ v.mark.role = some .value)
      ∧ ∀ k ∈ kind, ∀ v ∈ views, takesExprs k v.mark.role = true → v.isList = true)
    ⟨fun ⟨a, b, c, d, e, f, g, h, i⟩ => ⟨a, b, c, d, e, f, g, h, i⟩,
      fun ⟨a, b, c, d, e, f, g, h, i⟩ => ⟨a, b, c, d, e, f, g, h, i⟩⟩

theorem arranged_rules :
    ∀ r ∈ rules, ∀ views ∈ r.pattern.views, Arranged (some r.kind) views := by
  decide +kernel

theorem arranged_repetitions :
    ∀ p ∈ rules.flatMap (·.pattern.repetitions), ∀ views ∈ p.views,
      Arranged none views ∧ Arranged none (.repetition :: views) := by
  decide +kernel

/-! ## Productions -/

theorem Kind.index_lt (k : Kind) : k.index < Kind.count := by
  cases k <;> decide

theorem Kind.index_injective {k l : Kind} (h : k.index = l.index) : k = l := by
  rw [← Kind.ofNat_ctorIdx k, ← Kind.ofNat_ctorIdx l]
  exact congrArg Kind.ofNat h

theorem Terminal.index_injective {t u : Terminal} (h : t.index = u.index) : t = u := by
  rw [← Terminal.ofNat_ctorIdx t, ← Terminal.ofNat_ctorIdx u]
  exact congrArg Terminal.ofNat h

theorem count_le_repetitionIndex (p : Pattern) : Kind.count ≤ repetitionIndex p :=
  Nat.le_add_right _ _

/-- The symbols and marks of a production, as its views have them. -/
structure Viewed (views : List View) (parts : List Symbol) (marks : List Mark) : Prop where
  /-- The symbols. -/
  shows : List.Forall₂ View.Shows views parts
  /-- The marks. -/
  marks_eq : marks = views.map View.mark

theorem Viewed.append {views views' : List View} {parts parts' : List Symbol}
    {marks marks' : List Mark} (h : Viewed views parts marks) (h' : Viewed views' parts' marks') :
    Viewed (views ++ views') (parts ++ parts') (marks ++ marks') :=
  ⟨List.rel_append h.shows h'.shows, by rw [h.marks_eq, h'.marks_eq, List.map_append]⟩

/-- **A sequence that a pattern stands for has a view.** -/
theorem exists_viewed {p : Pattern} {steps : List Step}
    (h : steps ∈ p.alternatives repetitionIndex) :
    ∃ views ∈ p.views, Viewed views (steps.map (·.symbol)) (steps.map (·.mark)) := by
  induction p generalizing steps with
  | empty =>
    obtain rfl := List.mem_singleton.mp h
    exact ⟨[], List.mem_singleton.mpr rfl, .nil, rfl⟩
  | token t m =>
    obtain rfl := List.mem_singleton.mp h
    exact ⟨[.token t m], List.mem_singleton.mpr rfl, .cons rfl .nil, rfl⟩
  | category k m =>
    obtain rfl := List.mem_singleton.mp h
    exact ⟨[.category k m], List.mem_singleton.mpr rfl, .cons rfl .nil, rfl⟩
  | seq p q ihp ihq =>
    obtain ⟨first, hfirst, h⟩ := List.mem_flatMap.mp h
    obtain ⟨second, hsecond, rfl⟩ := List.mem_map.mp h
    obtain ⟨views, hviews, hviewed⟩ := ihp hfirst
    obtain ⟨views', hviews', hviewed'⟩ := ihq hsecond
    refine ⟨views ++ views', ?_, ?_⟩
    · exact List.mem_flatMap.mpr ⟨views, hviews, List.mem_map.mpr ⟨views', hviews', rfl⟩⟩
    · rw [List.map_append, List.map_append]
      exact hviewed.append hviewed'
  | alt p q ihp ihq =>
    rcases List.mem_append.mp h with h | h
    · obtain ⟨views, hviews, hviewed⟩ := ihp h
      exact ⟨views, List.mem_append_left _ hviews, hviewed⟩
    · obtain ⟨views, hviews, hviewed⟩ := ihq h
      exact ⟨views, List.mem_append_right _ hviews, hviewed⟩
  | many p =>
    obtain rfl := List.mem_singleton.mp h
    exact ⟨[.repetition], List.mem_singleton.mpr rfl,
      .cons ⟨_, count_le_repetitionIndex p, rfl⟩ .nil, rfl⟩

/-- The number of the category of a kind; a repetition has one behind all kinds. -/
inductive Numbered : Option Kind → Nat → Prop
  | kind (k : Kind) : Numbered (some k) k.index
  | repetition {n : Nat} (h : Kind.count ≤ n) : Numbered none n

theorem Numbered.eq_some {kind : Option Kind} {k : Kind} (h : Numbered kind k.index) :
    kind = some k := by
  generalize hn : k.index = n at h
  cases h with
  | kind l => rw [Kind.index_injective hn]
  | repetition hcount =>
    have hlt := Kind.index_lt k
    omega

theorem Numbered.eq_none {kind : Option Kind} {n : Nat} (h : Numbered kind n)
    (hn : Kind.count ≤ n) : kind = none := by
  cases h with
  | kind l =>
    have hlt := Kind.index_lt l
    omega
  | repetition => rfl

/-- **Every production is arranged**, and its category is that of its kind. -/
theorem arranged_productions {m : MarkedProduction} (h : m ∈ markedProductions) :
    ∃ views, Arranged m.kind views ∧ Viewed views m.production.parts m.marks
      ∧ Numbered m.kind m.production.category := by
  rw [markedProductions, List.mem_toArray] at h
  rcases List.mem_append.mp h with h | h
  · obtain ⟨r, hr, h⟩ := List.mem_flatMap.mp h
    obtain ⟨steps, hsteps, rfl⟩ := List.mem_map.mp h
    obtain ⟨views, hviews, hviewed⟩ := exists_viewed (List.mem_eraseDups.mp hsteps)
    exact ⟨views, arranged_rules r hr views hviews, hviewed, .kind r.kind⟩
  · obtain ⟨p, hp, h⟩ := List.mem_flatMap.mp h
    obtain ⟨steps, hsteps, h⟩ := List.mem_flatMap.mp h
    obtain ⟨views, hviews, hviewed⟩ := exists_viewed (List.mem_eraseDups.mp hsteps)
    obtain ⟨hplain, hgrown⟩ := arranged_repetitions p (List.mem_eraseDups.mp hp) views hviews
    have hcount := count_le_repetitionIndex p
    rcases List.mem_pair.mp h with rfl | rfl
    · exact ⟨views, hplain, hviewed, .repetition hcount⟩
    · exact ⟨.repetition :: views, hgrown, ⟨.cons ⟨_, hcount, rfl⟩ hviewed.shows,
        congrArg (_ :: ·) hviewed.marks_eq⟩, .repetition hcount⟩

end TestCatalog.Go
