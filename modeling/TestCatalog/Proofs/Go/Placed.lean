import TestCatalog.Proofs.Go.Productions
import TestCatalog.Proofs.Go.Token
import TestCatalog.Proofs.Text.Stretch

/-!
# Proofs/Go/Placed — nodes that are placed in a text

`Placed` says of the nodes of a text what a reader of the nodes may rely on: siblings stand one after
another, a node that has children starts no later than they do, leaves are pieces of the text, and
calls, selectors, elements and pairs have the children that make them so.  Signs and comments that
play no part are left out of account.
-/

namespace TestCatalog.Go

open Text (InOrder StandsAt Stretches)

/-! ## Placed nodes -/

/-- Whether the node is a sign or a comment that plays no part. -/
def Node.isTrivia : Node → Bool
  | .leaf r k _ _ => r.isNone && !(k.isNamed && k ≠ .comment)
  | .branch _ _ _ _ => false

/-- The kinds of literals. -/
def literalKinds : List Kind :=
  [.numberLiteral, .runeLiteral, .rawStringLiteral, .interpretedStringLiteral]

/-- **What is asked of the children of a node.** -/
structure Shaped (kind : Kind) (start : Nat) (children : List Node) : Prop where
  /-- The parts are played in their order. -/
  ordered : (children.filterMap Node.role).Pairwise (·.ctorIdx ≤ ·.ctorIdx)
  /-- Calls, selectors, elements and pairs start with the node that leads them. -/
  lead : kind ∈ leadingKinds →
    ∃ n ∈ children.find? (!·.isTrivia), n.start = start ∧ n.counts = true ∧ n.role = leadRole kind
  /-- A pair has a value. -/
  pair : kind = .keyedElement → ∃ n ∈ children, n.role = some .value

mutual

/-- **A node lies in a stretch of the text**: a leaf is a piece of it, and children lie behind the
start of their node. -/
def Node.Lies (source : List Char) : Node → Nat → Nat → Prop
  | .leaf _ k s t, lo, hi =>
    lo ≤ s ∧ s < hi ∧ t ≠ "" ∧ StandsAt source s t ∧ (k ∈ literalKinds → IsLiteral t)
  | .branch _ k s cs, lo, hi => lo ≤ s ∧ StandsAt source s "" ∧ Shaped k s cs
    ∧ ∃ stop, s < stop ∧ stop ≤ hi ∧ NodesLie source cs s stop

/-- Nodes lie one after another in a stretch of the text. -/
def NodesLie (source : List Char) : List Node → Nat → Nat → Prop
  | [], lo, hi => lo ≤ hi
  | n :: ns, lo, hi =>
    if n.isTrivia then NodesLie source ns lo hi
    else ∃ mid, n.Lies source lo mid ∧ NodesLie source ns mid hi

end

/-- **Nodes that are placed in a text.** -/
def Placed (text : String) (nodes : List Node) : Prop :=
  NodesLie text.toList nodes 0 (byteLength text.toList)

variable {source : List Char}

theorem nodesLie_iff {ns : List Node} {lo hi : Nat} :
    NodesLie source ns lo hi
      ↔ InOrder (Node.Lies source) (ns.filter (!·.isTrivia)) lo hi := by
  induction ns generalizing lo with
  | nil => rfl
  | cons n ns ih =>
    rw [NodesLie]
    split_ifs with htrivia
    · rw [ih, List.filter_cons_of_neg (by simpa using htrivia)]
    · rw [List.filter_cons_of_pos (by simpa using htrivia), InOrder]
      exact exists_congr fun mid => and_congr_right fun _ => ih

theorem stretches_node (source : List Char) : Stretches (Node.Lies source) where
  le {n lo hi} h := by
    cases n with
    | leaf r k s t =>
      obtain ⟨hlo, hhi, -⟩ := h
      omega
    | branch r k s cs =>
      obtain ⟨hlo, -, -, stop, hs, hhi, -⟩ := h
      omega
  mono {n lo lo' hi hi'} h hlo' hhi' := by
    cases n with
    | leaf r k s t =>
      obtain ⟨hlo, hhi, h⟩ := h
      exact ⟨by omega, by omega, h⟩
    | branch r k s cs =>
      obtain ⟨hlo, hstands, hshaped, stop, hs, hhi, h⟩ := h
      exact ⟨by omega, hstands, hshaped, stop, hs, by omega, h⟩

theorem NodesLie.append {ns ms : List Node} {lo mid hi : Nat} (h : NodesLie source ns lo mid)
    (h' : NodesLie source ms mid hi) : NodesLie source (ns ++ ms) lo hi := by
  rw [nodesLie_iff] at h h' ⊢
  rw [List.filter_append]
  exact h.append (stretches_node source) h'

theorem NodesLie.mono {ns : List Node} {lo lo' hi hi' : Nat} (h : NodesLie source ns lo hi)
    (hlo : lo' ≤ lo) (hhi : hi ≤ hi') : NodesLie source ns lo' hi' := by
  rw [nodesLie_iff] at h ⊢
  exact h.mono (stretches_node source) hlo hhi

/-- Signs and comments take no place. -/
theorem nodesLie_of_trivia {ns : List Node} {lo hi : Nat} (h : ∀ n ∈ ns, n.isTrivia = true)
    (hle : lo ≤ hi) : NodesLie source ns lo hi := by
  rw [nodesLie_iff, List.filter_eq_nil_iff.mpr (by simpa using h)]
  exact hle

/-! ## Parts of nodes -/

theorem isTrivia_playing (r : Option Role) (n : Node) : (n.playing r).isTrivia = n.isTrivia := by
  cases n with
  | leaf s k start t =>
    simp only [Node.playing, Node.isTrivia]
    split_ifs with hcounts
    · rw [hcounts, Bool.not_true, Bool.and_false, Bool.and_false]
    · rfl
  | branch s k start cs => rfl

theorem lies_playing {r : Option Role} {n : Node} {lo hi : Nat} (h : n.Lies source lo hi) :
    (n.playing r).Lies source lo hi := by
  cases n <;> exact h

theorem NodesLie.map_playing {r : Option Role} {ns : List Node} {lo hi : Nat}
    (h : NodesLie source ns lo hi) : NodesLie source (ns.map (·.playing r)) lo hi := by
  rw [nodesLie_iff] at h ⊢
  have hfilter : (ns.map (·.playing r)).filter (!·.isTrivia)
      = (ns.filter (!·.isTrivia)).map (·.playing r) := by
    rw [List.filter_map]
    exact congrArg _ (List.filter_congr fun n _ => by simp [isTrivia_playing])
  rw [hfilter]
  exact h.map fun n _ a b hn => lies_playing hn

end TestCatalog.Go
