import TestCatalog.Go.Read
import TestCatalog.Proofs.Go.Placed

/-!
# Proofs/Go/Derived — the nodes of a derivation

A derivation reads a stretch of the text, and so do its parts; its nodes lie in that stretch
(`nodesLie_nodes`).  What is asked of the children of a node comes from how the production of the
node is arranged: the marks of its views are the parts that the children play (`role_of_mem_nodes`),
and a solid view makes a single node that counts (`nodes_of_solid`).

* `readNodes_placed` — the nodes that the parser gives for a text are placed in it.
-/

namespace TestCatalog.Go

open Text (GoesOnAt StandsAt)
open Parsing (Derivation ReadsAll readsAll_cons)

variable {source : List Char}

/-! ## Derivations and their productions -/

/-- A derivation reads the source by the productions of the grammar. -/
abbrev Reads (source : List Char) (d : Derivation) (a b : Nat) : Prop :=
  d.Reads tables.productions (TokenStands source) a b

/-- A derivation reads the symbol of a view. -/
def Fits (v : View) (d : Derivation) : Prop := v.Shows (d.symbol tables.productions)

/-- The production of that number, with its marks. -/
def ruleOf (p : Nat) : MarkedProduction := markedProductions.getD p default

theorem production_eq (p : Nat) : tables.productions.getD p default = (ruleOf p).production := by
  have htables : tables.productions = markedProductions.map (·.production) := rfl
  rw [htables, ruleOf, Array.getD_eq_getD_getElem?, Array.getD_eq_getD_getElem?,
    Array.getElem?_map]
  cases markedProductions[p]? <;> rfl

/-- A number without a production has the one that spells nothing. -/
theorem mem_or_eq_default {α : Type} [Inhabited α] (xs : Array α) (i : Nat) :
    xs.getD i default ∈ xs ∨ xs.getD i default = default := by
  rw [Array.getD_eq_getD_getElem?]
  cases h : xs[i]? with
  | none => exact .inr rfl
  | some x => exact .inl (Array.mem_of_getElem? h)

/-- **The parts of a node are read as the views of its production say.** -/
theorem exists_views {p : Nat} {parts : List Derivation} {a b : Nat}
    (h : Reads source (.node p parts) a b) :
    ∃ views, Arranged (ruleOf p).kind views ∧ List.Forall₂ Fits views parts
      ∧ (ruleOf p).marks = views.map View.mark
      ∧ Numbered (ruleOf p).kind (tables.productions.getD p default).category := by
  obtain ⟨hne, hparts, -⟩ := h
  rw [production_eq] at hparts ⊢
  have hrule : ruleOf p ∈ markedProductions ∨ ruleOf p = default :=
    mem_or_eq_default markedProductions p
  rcases hrule with hmem | hdefault
  · obtain ⟨views, harranged, ⟨hshows, hmarks⟩, hnumbered⟩ := arranged_productions hmem
    refine ⟨views, harranged, ?_, hmarks, hnumbered⟩
    rw [← hparts, List.forall₂_map_right_iff] at hshows
    exact hshows
  · have hnone : (default : MarkedProduction).production.parts = [] := rfl
    rw [hdefault, hnone, List.map_eq_nil_iff] at hparts
    exact absurd hparts hne

theorem terminal_of_fits {v : View} {t : Parsing.Token} (h : Fits v (.leaf t)) :
    ∃ u m, v = .token u m ∧ t.terminal = u.index := by
  cases v with
  | token u m => exact ⟨u, m, rfl, Parsing.Symbol.terminal.inj h⟩
  | category k m => cases h
  | repetition =>
    obtain ⟨n, -, heq⟩ := h
    cases heq

/-- **The kind of a node is that of the view it fits.** -/
theorem kind_of_fits {v : View} {p : Nat} {parts : List Derivation} {a b : Nat}
    (h : Reads source (.node p parts) a b) (hfits : Fits v (.node p parts)) :
    (∃ k m, v = .category k m ∧ (ruleOf p).kind = some k)
      ∨ v = .repetition ∧ (ruleOf p).kind = none := by
  obtain ⟨views, -, -, -, hnumbered⟩ := exists_views h
  cases v with
  | token t m => cases hfits
  | category k m =>
    rw [Parsing.Symbol.category.inj hfits] at hnumbered
    exact .inl ⟨k, m, rfl, hnumbered.eq_some⟩
  | repetition =>
    obtain ⟨n, hn, heq⟩ := hfits
    rw [Parsing.Symbol.category.inj heq] at hnumbered
    exact .inr ⟨rfl, hnumbered.eq_none hn⟩

/-! ## Where a derivation starts and stops -/

theorem readsAll_le_of {ds : List Derivation} {a b : Nat}
    (hle : ∀ d ∈ ds, ∀ {a b}, Reads source d a b → a ≤ b)
    (h : ReadsAll tables.productions (TokenStands source) ds a b) : a ≤ b := by
  induction ds generalizing a with
  | nil => exact Nat.le_of_eq h
  | cons d ds ih =>
    obtain ⟨c, hd, hds⟩ := readsAll_cons.mp h
    obtain ⟨hled, hleds⟩ := List.forall_mem_cons.mp hle
    exact Nat.le_trans (hled hd) (ih hleds hds)

theorem reads_le {d : Derivation} {a b : Nat} (h : Reads source d a b) : a ≤ b := by
  induction d using Derivation.ind generalizing a b with
  | leaf t =>
    have hstop := h.stop_eq
    have hstart := h.le_start
    omega
  | node p parts ih => exact readsAll_le_of ih h.2.2

theorem readsAll_le {ds : List Derivation} {a b : Nat}
    (h : ReadsAll tables.productions (TokenStands source) ds a b) : a ≤ b :=
  readsAll_le_of (fun _ _ => reads_le) h

/-- **A derivation starts at its first token**, and may be read from there. -/
theorem reads_start {d : Derivation} {a b : Nat} (h : Reads source d a b) :
    a ≤ d.start ∧ Reads source d d.start b ∧ StandsAt source d.start "" := by
  induction d using Derivation.ind generalizing a b with
  | leaf t =>
    obtain ⟨after, hat⟩ := h.stands
    exact ⟨h.le_start, { h with le_start := Nat.le_refl _ }, _, hat⟩
  | node p parts ih =>
    obtain ⟨hne, hparts, hreads⟩ := h
    obtain ⟨d, ds, rfl⟩ := List.exists_cons_of_ne_nil hne
    obtain ⟨c, hd, hds⟩ := readsAll_cons.mp hreads
    obtain ⟨hstart, hd, hstands⟩ := ih d List.mem_cons_self hd
    exact ⟨hstart, ⟨hne, hparts, readsAll_cons.mpr ⟨c, hd, hds⟩⟩, hstands⟩

theorem reads_stop_le {d : Derivation} {a b : Nat} (h : Reads source d a b) :
    b ≤ byteLength source := by
  induction d using Derivation.ind generalizing a b with
  | leaf t =>
    obtain ⟨after, before, hsource, hstart⟩ := h.stands
    have hstop := h.stop_eq
    rw [hsource, Text.byteLength_append, Text.byteLength_append]
    omega
  | node p parts ih =>
    obtain ⟨hne, -, h⟩ := h
    clear p
    induction parts generalizing a with
    | nil => contradiction
    | cons d ds ihds =>
      obtain ⟨c, hd, hds⟩ := readsAll_cons.mp h
      obtain ⟨hih, hihs⟩ := List.forall_mem_cons.mp ih
      by_cases hds' : ds = []
      · subst hds'
        exact hds ▸ hih hd
      · exact ihds hihs hds' hds

/-- **What is inside a source file is not empty.** -/
theorem start_lt {v : View} {d : Derivation} {a b : Nat} (hfits : Fits v d)
    (hinner : v.isInner = true) (h : Reads source d a b) : d.start < b := by
  induction d using Derivation.ind generalizing v a b with
  | leaf t =>
    obtain ⟨u, m, rfl, hterminal⟩ := terminal_of_fits hfits
    have hfinish : t.terminal ≠ Terminal.finish.index := by
      intro hfinish
      obtain rfl := Terminal.index_injective (hterminal.symm.trans hfinish)
      cases hinner
    have hpos := Text.byteLength_pos (h.ne_empty hfinish)
    have hstop := h.stop_eq
    rw [Derivation.start]
    omega
  | node p parts ih =>
    obtain ⟨views, harranged, hparts, -, -⟩ := exists_views h
    have hkind := kind_of_fits h hfits
    obtain ⟨hne, -, h⟩ := h
    cases hparts with
    | nil => contradiction
    | @cons w d views ds hw hds =>
      obtain ⟨c, hd, hreads⟩ := readsAll_cons.mp h
      have hwinner : w.isInner = true := by
        rcases harranged.inner w List.mem_cons_self with hw | ⟨hsource, -⟩
        · exact hw
        · rcases hkind with ⟨k, m, rfl, hk⟩ | ⟨-, hk⟩
          · obtain rfl := Option.some.inj (hk.symm.trans hsource)
            cases hinner
          · cases hk.symm.trans hsource
      exact Nat.lt_of_lt_of_le (ih d List.mem_cons_self hw hwinner hd) (readsAll_le hreads)

/-! ## The nodes of parts -/

theorem nodes_of_none {p : Nat} (h : (ruleOf p).kind = none) (mark : Mark)
    (parts : List Derivation) :
    nodes mark (.node p parts) = nodesOfParts (ruleOf p).marks parts := by
  rw [ruleOf] at h
  rw [nodes, h, ruleOf]

theorem nodes_of_hidden {p : Nat} {k : Kind} (h : (ruleOf p).kind = some k)
    (hk : k.isHidden = true) (mark : Mark) (parts : List Derivation) :
    nodes mark (.node p parts)
      = (nodesOfParts (ruleOf p).marks parts).map (·.playing mark.role) := by
  rw [ruleOf] at h
  rw [nodes, h, ruleOf]
  exact if_pos hk

theorem nodes_of_shown {p : Nat} {k : Kind} (h : (ruleOf p).kind = some k)
    (hk : k.isHidden = false) (mark : Mark) (parts : List Derivation) :
    nodes mark (.node p parts) = [.branch mark.role (mark.label.getD k)
      (Derivation.node p parts).start (nodesOfParts (ruleOf p).marks parts)] := by
  rw [ruleOf] at h
  rw [nodes, h, ruleOf]
  exact if_neg (by simp [hk])

/-- The nodes of the parts of a production, part by part. -/
theorem mem_nodesOfParts {views : List View} {parts : List Derivation}
    (h : List.Forall₂ Fits views parts) {n : Node}
    (hmem : n ∈ nodesOfParts (views.map View.mark) parts) :
    ∃ v ∈ views, ∃ d ∈ parts, Fits v d ∧ n ∈ nodes v.mark d := by
  induction h with
  | nil => cases hmem
  | @cons v d views parts hfits _ ih =>
    rw [List.map_cons, nodesOfParts] at hmem
    rcases List.mem_append.mp hmem with hmem | hmem
    · exact ⟨v, List.mem_cons_self, d, List.mem_cons_self, hfits, hmem⟩
    · obtain ⟨w, hw, e, he, hfits, hmem⟩ := ih hmem
      exact ⟨w, List.mem_cons_of_mem _ hw, e, List.mem_cons_of_mem _ he, hfits, hmem⟩

theorem readsAll_of_mem {ds : List Derivation} {a b : Nat}
    (h : ReadsAll tables.productions (TokenStands source) ds a b) {d : Derivation} (hd : d ∈ ds) :
    ∃ a b, Reads source d a b := by
  induction ds generalizing a with
  | nil => cases hd
  | cons e ds ih =>
    obtain ⟨c, he, hds⟩ := readsAll_cons.mp h
    rcases List.mem_cons.mp hd with rfl | hd
    · exact ⟨a, c, he⟩
    · exact ih hds hd

theorem role_playing {n : Node} {r : Option Role} (h : n.role = none) :
    (n.playing r).role = none ∨ (n.playing r).role = r := by
  cases n with
  | leaf s k start t =>
    obtain rfl : s = none := h
    simp only [Node.playing, Node.role]
    split_ifs
    · exact .inr rfl
    · exact .inl rfl
  | branch s k start cs =>
    obtain rfl : s = none := h
    exact .inr rfl

/-- **The nodes of a derivation play the part of its mark, or none.** -/
theorem role_of_mem_nodes {v : View} {d : Derivation} {a b : Nat} (hfits : Fits v d)
    (h : Reads source d a b) {n : Node} (hmem : n ∈ nodes v.mark d) :
    n.role = none ∨ n.role = v.mark.role := by
  induction d using Derivation.ind generalizing v a b n with
  | leaf t =>
    rw [nodes] at hmem
    rcases List.mem_append.mp hmem with hmem | hmem
    · obtain ⟨comment, -, rfl⟩ := List.mem_map.mp hmem
      exact .inl rfl
    · obtain rfl := List.mem_singleton.mp hmem
      exact .inr rfl
  | node p parts ih =>
    obtain ⟨views, harranged, hparts, hmarks, -⟩ := exists_views h
    -- where the production makes no node, its parts play none
    have hsilent : (ruleOf p).kind.all Kind.isHidden = true →
        ∀ n ∈ nodesOfParts (ruleOf p).marks parts, n.role = none := by
      intro hkind n hn
      rw [hmarks] at hn
      obtain ⟨w, hw, e, he, hfits, hn⟩ := mem_nodesOfParts hparts hn
      obtain ⟨a', b', hreads⟩ := readsAll_of_mem h.2.2 he
      have hrole := ih e he hfits hreads hn
      rwa [harranged.silent hkind w hw, or_self] at hrole
    rcases kind_of_fits h hfits with ⟨k, m, rfl, hkind⟩ | ⟨rfl, hkind⟩
    · cases hk : k.isHidden with
      | true =>
        rw [nodes_of_hidden hkind hk] at hmem
        obtain ⟨c, hc, rfl⟩ := List.mem_map.mp hmem
        exact role_playing (hsilent (by rw [hkind]; exact hk) c hc)
      | false =>
        rw [nodes_of_shown hkind hk] at hmem
        obtain rfl := List.mem_singleton.mp hmem
        exact .inr rfl
    · rw [nodes_of_none hkind] at hmem
      exact .inl (hsilent (by rw [hkind]; rfl) n hmem)

/-! ## Symbols that make one node -/

/-- Nodes of which all but the last are trivia. -/
def EndsIn (ns : List Node) (n : Node) : Prop :=
  ∃ before, ns = before ++ [n] ∧ ∀ m ∈ before, m.isTrivia = true

theorem leafKind_index (t : Terminal) : leafKind t.index = t.kind := by
  cases t <;> rfl

theorem Terminal.kind_ne_comment (t : Terminal) : t.kind ≠ .comment := by
  cases t <;> decide

/-- A label that nothing more is asked of leaves a node counted. -/
theorem counts_label {label : Option Kind} {k : Kind} (hlabel : ∀ l ∈ label, l ∉ reservedKinds)
    (hk : k ≠ .comment ∧ k ≠ .punctuation) :
    ((label.getD k).isNamed && label.getD k ≠ .comment) = true := by
  cases label with
  | none => simp [Kind.isNamed, hk]
  | some l =>
    have hl := hlabel l rfl
    simp only [reservedKinds, List.mem_cons, not_or] at hl
    simp [Kind.isNamed, hl]

/-- **A visible symbol makes one node.** -/
theorem nodes_of_visible {v : View} {d : Derivation} {a b : Nat} (hfits : Fits v d)
    (h : Reads source d a b) (hvisible : v.isVisible = true)
    (hlabel : ∀ l ∈ v.mark.label, l ∉ reservedKinds) :
    ∃ n, EndsIn (nodes v.mark d) n ∧ n.start = d.start ∧ n.counts = true
      ∧ n.role = v.mark.role := by
  cases d with
  | leaf t =>
    obtain ⟨u, m, rfl, hterminal⟩ := terminal_of_fits hfits
    have hcounts := counts_label hlabel ⟨u.kind_ne_comment, by simpa [View.isVisible] using hvisible⟩
    rw [nodes, hterminal, leafKind_index]
    refine ⟨_, ⟨_, rfl, fun c hc => ?_⟩, rfl, hcounts, rfl⟩
    obtain ⟨piece, -, rfl⟩ := List.mem_map.mp hc
    rfl
  | node p parts =>
    rcases kind_of_fits h hfits with ⟨k, m, rfl, hkind⟩ | ⟨rfl, -⟩
    · obtain ⟨views, harranged, -⟩ := exists_views h
      rw [nodes_of_shown hkind (by simpa [View.isVisible] using hvisible)]
      exact ⟨_, ⟨[], rfl, by simp⟩, rfl, counts_label hlabel (harranged.counted k hkind), rfl⟩
    · cases hvisible

theorem EndsIn.map_playing {ns : List Node} {n : Node} (h : EndsIn ns n) (r : Option Role) :
    EndsIn (ns.map (·.playing r)) (n.playing r) := by
  obtain ⟨before, rfl, hbefore⟩ := h
  refine ⟨before.map (·.playing r), by simp, fun m hm => ?_⟩
  obtain ⟨m', hm', rfl⟩ := List.mem_map.mp hm
  rw [isTrivia_playing]
  exact hbefore m' hm'

theorem playing_of_counts {n : Node} (hcounts : n.counts = true) (hrole : n.role = none)
    (r : Option Role) :
    (n.playing r).start = n.start ∧ (n.playing r).counts = true ∧ (n.playing r).role = r := by
  cases n with
  | leaf s k start t =>
    obtain rfl : s = none := hrole
    refine ⟨rfl, hcounts, ?_⟩
    simp only [Node.playing, Node.role]
    exact if_pos hcounts
  | branch s k start cs =>
    obtain rfl : s = none := hrole
    exact ⟨rfl, hcounts, rfl⟩

/-- **A solid symbol makes one node**, which starts where the symbol does and plays its part. -/
theorem nodes_of_solid {v : View} {d : Derivation} {a b : Nat} (hfits : Fits v d)
    (h : Reads source d a b) (hsolid : v.isSolid = true)
    (hlabel : ∀ l ∈ v.mark.label, l ∉ reservedKinds) :
    ∃ n, EndsIn (nodes v.mark d) n ∧ n.start = d.start ∧ n.counts = true
      ∧ n.role = v.mark.role := by
  by_cases hvisible : v.isVisible = true
  · exact nodes_of_visible hfits h hvisible hlabel
  · obtain ⟨m, rfl⟩ : ∃ m, v = .category .expression m := by
      unfold View.isSolid at hsolid
      split at hsolid
      · exact ⟨_, rfl⟩
      · exact absurd hsolid hvisible
    cases d with
    | leaf t =>
      obtain ⟨u, m', heq, -⟩ := terminal_of_fits hfits
      cases heq
    | node p parts =>
      obtain ⟨k, m', heq, hkind⟩ | ⟨heq, -⟩ := kind_of_fits h hfits
      · obtain ⟨rfl, rfl⟩ := View.category.inj heq
        obtain ⟨views, harranged, hparts, hmarks, -⟩ := exists_views h
        obtain ⟨hlength, hvisibles⟩ := harranged.single hkind
        obtain ⟨w, rfl⟩ := List.length_eq_one_iff.mp hlength
        obtain ⟨d, ds, hw, hds, rfl⟩ := List.forall₂_cons_left_iff.mp hparts
        obtain rfl := List.forall₂_nil_left_iff.mp hds
        obtain ⟨c, hd, -⟩ := readsAll_cons.mp h.2.2
        obtain ⟨n, hends, hstart, hcounts, hrole⟩ := nodes_of_visible hw hd
          (hvisibles w List.mem_cons_self) (harranged.labels w List.mem_cons_self)
        rw [harranged.silent (by rw [hkind]; rfl) w List.mem_cons_self] at hrole
        obtain ⟨hstart', hcounts', hrole'⟩ := playing_of_counts hcounts hrole m.role
        rw [nodes_of_hidden hkind rfl, hmarks, List.map_singleton, nodesOfParts, nodesOfParts,
          List.append_nil]
        exact ⟨_, hends.map_playing m.role, hstart'.trans hstart, hcounts', hrole'⟩
      · cases heq

/-! ## The children of a node -/

theorem not_isTrivia_of_counts {n : Node} (h : n.counts = true) : n.isTrivia = false := by
  cases n with
  | leaf r k start t =>
    have hcounts : (k.isNamed && k ≠ .comment) = true := h
    rw [Node.isTrivia, hcounts, Bool.not_true, Bool.and_false]
  | branch r k start cs => rfl

theorem EndsIn.find? {ns : List Node} {n : Node} (h : EndsIn ns n) (hcounts : n.counts = true)
    (rest : List Node) : (ns ++ rest).find? (!·.isTrivia) = some n := by
  obtain ⟨before, rfl, hbefore⟩ := h
  have hnone : before.find? (!·.isTrivia) = none :=
    List.find?_eq_none.mpr fun m hm => by simp [hbefore m hm]
  rw [List.append_assoc, List.find?_append, hnone]
  simp [not_isTrivia_of_counts hcounts]

section Children

variable {views : List View} {parts : List Derivation} (hparts : List.Forall₂ Fits views parts)
  (hreads : ∀ d ∈ parts, ∃ a b, Reads source d a b)
include hparts hreads

/-- **The children of a node play their parts in the order of the production.** -/
theorem ordered_nodesOfParts
    (h : (views.filterMap (·.mark.role)).Pairwise (·.ctorIdx < ·.ctorIdx)) :
    ((nodesOfParts (views.map View.mark) parts).filterMap Node.role).Pairwise
      (·.ctorIdx ≤ ·.ctorIdx) := by
  induction hparts with
  | nil => exact .nil
  | @cons v d views parts hfits hparts ih =>
    obtain ⟨⟨a, b, hd⟩, hds⟩ := List.forall_mem_cons.mp hreads
    have hfirst : ∀ r ∈ (nodes v.mark d).filterMap Node.role, v.mark.role = some r := by
      intro r hr
      obtain ⟨n, hn, hrole⟩ := List.mem_filterMap.mp hr
      rcases role_of_mem_nodes hfits hd hn with hnone | hmark
      · cases hnone.symm.trans hrole
      · exact hmark.symm.trans hrole
    have hlater : ∀ r ∈ (nodesOfParts (views.map View.mark) parts).filterMap Node.role,
        r ∈ views.filterMap (·.mark.role) := by
      intro r hr
      obtain ⟨n, hn, hrole⟩ := List.mem_filterMap.mp hr
      obtain ⟨w, hw, e, he, hfits, hn⟩ := mem_nodesOfParts hparts hn
      obtain ⟨a, b, he⟩ := hds e he
      rcases role_of_mem_nodes hfits he hn with hnone | hmark
      · cases hnone.symm.trans hrole
      · exact List.mem_filterMap.mpr ⟨w, hw, hmark.symm.trans hrole⟩
    rw [List.map_cons, nodesOfParts, List.filterMap_append, List.pairwise_append]
    have hrest : (views.filterMap (·.mark.role)).Pairwise (·.ctorIdx < ·.ctorIdx) :=
      h.sublist ((List.sublist_cons_self v views).filterMap _)
    refine ⟨List.pairwise_of_forall_mem_list fun r hr s hs => ?_, ih hds hrest, fun r hr s hs => ?_⟩
    · rw [Option.some.inj ((hfirst r hr).symm.trans (hfirst s hs))]
    · have hcons : (v :: views).filterMap (·.mark.role) = r :: views.filterMap (·.mark.role) :=
        List.filterMap_cons_some (hfirst r hr)
      rw [hcons, List.pairwise_cons] at h
      exact Nat.le_of_lt (h.1 s (hlater s hs))

/-- Every symbol of a production makes its nodes. -/
theorem exists_nodes_subset {v : View} (hv : v ∈ views) :
    ∃ d a b, Fits v d ∧ Reads source d a b
      ∧ ∀ n ∈ nodes v.mark d, n ∈ nodesOfParts (views.map View.mark) parts := by
  induction hparts with
  | nil => cases hv
  | @cons w d views parts hfits _ ih =>
    obtain ⟨⟨a, b, hd⟩, hds⟩ := List.forall_mem_cons.mp hreads
    rw [List.map_cons, nodesOfParts]
    rcases List.mem_cons.mp hv with rfl | hv
    · exact ⟨d, a, b, hfits, hd, fun n hn => List.mem_append_left _ hn⟩
    · obtain ⟨e, a', b', hfits, he, hsub⟩ := ih hds hv
      exact ⟨e, a', b', hfits, he, fun n hn => List.mem_append_right _ (hsub n hn)⟩

/-- The first child of a call, a selector, an element or a pair. -/
theorem lead_nodesOfParts {k : Kind} (harranged : Arranged (some k) views) (p : Nat)
    (hk : k ∈ leadingKinds) :
    ∃ n ∈ (nodesOfParts (views.map View.mark) parts).find? (!·.isTrivia),
      n.start = (Derivation.node p parts).start ∧ n.counts = true ∧ n.role = leadRole k := by
  obtain ⟨v, hv, hsolid, hrole⟩ := harranged.lead k rfl hk
  cases hparts with
  | nil => cases hv
  | @cons v' d views parts hfits _ =>
    obtain rfl := Option.some.inj hv
    obtain ⟨a, b, hd⟩ := hreads d List.mem_cons_self
    obtain ⟨n, hends, hstart, hcounts, hnrole⟩ :=
      nodes_of_solid hfits hd hsolid (harranged.labels v' List.mem_cons_self)
    rw [List.map_cons, nodesOfParts, hends.find? hcounts]
    exact ⟨n, rfl, hstart, hcounts, hnrole.trans hrole⟩

/-- The value of a pair. -/
theorem pair_nodesOfParts (harranged : Arranged (some .keyedElement) views) :
    ∃ n ∈ nodesOfParts (views.map View.mark) parts, n.role = some .value := by
  obtain ⟨v, hv, hvisible, hrole⟩ := harranged.pair rfl
  obtain ⟨d, a, b, hfits, hd, hsub⟩ := exists_nodes_subset hparts hreads hv
  obtain ⟨n, ⟨before, hnodes, -⟩, -, -, hnrole⟩ :=
    nodes_of_visible hfits hd hvisible (harranged.labels v hv)
  refine ⟨n, hsub n ?_, hnrole.trans hrole⟩
  rw [hnodes]
  exact List.mem_append_right _ List.mem_cons_self

/-- **The children of a node have the shape that is asked of them**, also under a label, which is
none that more is asked of. -/
theorem shaped_nodesOfParts {k : Kind} (harranged : Arranged (some k) views) (p : Nat)
    {label : Option Kind} (hlabel : ∀ l ∈ label, l ∉ reservedKinds) :
    Shaped (label.getD k) (Derivation.node p parts).start
      (nodesOfParts (views.map View.mark) parts) := by
  refine ⟨ordered_nodesOfParts hparts hreads harranged.ordered, fun hlead => ?_, fun hpair => ?_⟩
  · cases label with
    | none => exact lead_nodesOfParts hparts hreads harranged p hlead
    | some l =>
      have hreserved : ∀ l ∈ leadingKinds, l ∈ reservedKinds := by decide
      exact absurd (hreserved l hlead) (hlabel l rfl)
  · cases label with
    | none =>
      obtain rfl : k = .keyedElement := hpair
      exact pair_nodesOfParts hparts hreads harranged
    | some l =>
      obtain rfl : l = .keyedElement := hpair
      exact absurd (by decide) (hlabel _ rfl)

end Children

/-! ## Nodes lie where their derivation reads -/

/-- The terminals of literals make literals. -/
theorem mem_literalTerminals {t : Terminal} (h : t.kind ∈ literalKinds) :
    t.index ∈ literalTerminals := by
  cases t <;> first | decide | exact absurd h (by decide)

/-- A leaf with a label is no literal. -/
theorem kind_of_literal {label : Option Kind} {k : Kind} (hlabel : ∀ l ∈ label, l ∉ reservedKinds)
    (h : label.getD k ∈ literalKinds) : k ∈ literalKinds := by
  cases label with
  | none => exact h
  | some l =>
    have hreserved : ∀ l ∈ literalKinds, l ∈ reservedKinds := by decide
    exact absurd (hreserved l h) (hlabel l rfl)

theorem nodesLie_leaf {v : View} {t : Parsing.Token} {a b : Nat} (hfits : Fits v (.leaf t))
    (hv : v.isInner = true ∨ v = .token .finish {})
    (hlabel : ∀ l ∈ v.mark.label, l ∉ reservedKinds) (h : Reads source (.leaf t) a b) :
    NodesLie source (nodes v.mark (.leaf t)) a b := by
  have hle := reads_le h
  rw [nodes]
  refine NodesLie.append (nodesLie_of_trivia (fun n hn => ?_) (Nat.le_refl a)) ?_
  · obtain ⟨piece, -, rfl⟩ := List.mem_map.mp hn
    rfl
  · obtain ⟨u, m, rfl, hterminal⟩ := terminal_of_fits hfits
    rcases hv with hinner | hfinish
    · have hlt := start_lt hfits hinner h
      rw [NodesLie]
      split_ifs
      · exact hle
      · have hne : t.piece.text ≠ "" := by
          intro hempty
          have hstop : t.piece.start + Go.byteLength t.piece.text.toList = b := h.stop_eq
          rw [hempty] at hstop
          exact Nat.ne_of_lt hlt hstop
        refine ⟨b, ⟨h.le_start, hlt, hne, h.stands, fun hliteral => h.literal ?_⟩, Nat.le_refl b⟩
        rw [hterminal, leafKind_index] at hliteral
        rw [hterminal]
        exact mem_literalTerminals (kind_of_literal hlabel hliteral)
    · obtain ⟨rfl, rfl⟩ := View.token.inj hfinish
      refine nodesLie_of_trivia (List.forall_mem_singleton.mpr ?_) hle
      rw [hterminal]
      rfl

theorem nodesLie_parts {views : List View} {parts : List Derivation} {a b : Nat}
    (hparts : List.Forall₂ Fits views parts)
    (ih : ∀ d ∈ parts, ∀ {v : View} {a b : Nat}, Fits v d →
      v.isInner = true ∨ v = .token .finish {} → (∀ l ∈ v.mark.label, l ∉ reservedKinds) →
      Reads source d a b → NodesLie source (nodes v.mark d) a b)
    (hviews : ∀ v ∈ views, v.isInner = true ∨ v = .token .finish {})
    (hlabels : ∀ v ∈ views, ∀ l ∈ v.mark.label, l ∉ reservedKinds)
    (h : ReadsAll tables.productions (TokenStands source) parts a b) :
    NodesLie source (nodesOfParts (views.map View.mark) parts) a b := by
  induction hparts generalizing a with
  | nil => exact Nat.le_of_eq h
  | @cons v d views parts hfits _ ihparts =>
    obtain ⟨c, hd, hds⟩ := readsAll_cons.mp h
    obtain ⟨ihd, ihds⟩ := List.forall_mem_cons.mp ih
    obtain ⟨hv, hviews⟩ := List.forall_mem_cons.mp hviews
    obtain ⟨hlabel, hlabels⟩ := List.forall_mem_cons.mp hlabels
    rw [List.map_cons, nodesOfParts]
    exact (ihd hfits hv hlabel hd).append (ihparts ihds hviews hlabels hds)

/-- **The nodes of a derivation lie where it reads.** -/
theorem nodesLie_nodes {v : View} {d : Derivation} {a b : Nat} (hfits : Fits v d)
    (hv : v.isInner = true ∨ v = .token .finish {})
    (hlabel : ∀ l ∈ v.mark.label, l ∉ reservedKinds) (h : Reads source d a b) :
    NodesLie source (nodes v.mark d) a b := by
  induction d using Derivation.ind generalizing v a b with
  | leaf t => exact nodesLie_leaf hfits hv hlabel h
  | node p parts ih =>
    obtain ⟨views, harranged, hparts, hmarks, -⟩ := exists_views h
    have hviews : ∀ v ∈ views, v.isInner = true ∨ v = .token .finish {} :=
      fun v hv => (harranged.inner v hv).imp_right And.right
    have hchildren : ∀ {a b}, Reads source (.node p parts) a b →
        NodesLie source (nodesOfParts (ruleOf p).marks parts) a b := by
      intro a b h
      rw [hmarks]
      exact nodesLie_parts hparts ih hviews harranged.labels h.2.2
    rcases kind_of_fits h hfits with ⟨k, m, rfl, hkind⟩ | ⟨rfl, hkind⟩
    · cases hk : k.isHidden with
      | true =>
        rw [nodes_of_hidden hkind hk]
        exact (hchildren h).map_playing
      | false =>
        have hinner : (View.category k m).isInner = true := hv.resolve_right nofun
        obtain ⟨hstart, hreads, hstands⟩ := reads_start h
        have hlt := start_lt hfits hinner h
        rw [hkind] at harranged
        have hshaped := shaped_nodesOfParts hparts (fun d hd => readsAll_of_mem h.2.2 hd) harranged p
          hlabel
        rw [← hmarks] at hshaped
        rw [nodes_of_shown hkind hk]
        exact ⟨b, ⟨hstart, hstands, hshaped, b, hlt, Nat.le_refl b, hchildren hreads⟩,
          Nat.le_refl b⟩
    · rw [nodes_of_none hkind]
      exact hchildren h

/-! ## The nodes of a text -/

/-- The top-level nodes of a derivation lie where it reads. -/
theorem nodesLie_top {p : Nat} {parts : List Derivation} {a b : Nat}
    (h : Reads source (.node p parts) a b) :
    NodesLie source (nodesOfParts (ruleOf p).marks parts) a b := by
  obtain ⟨views, harranged, hparts, hmarks, -⟩ := exists_views h
  rw [hmarks]
  refine nodesLie_parts hparts (fun d _ => nodesLie_nodes) ?_ harranged.labels h.2.2
  exact fun v hv => (harranged.inner v hv).imp_right And.right

/-- A text is read from its start on, or from behind a byte order mark. -/
theorem exists_reads_of_derive {text : List Char} {d : Derivation} (h : derive text = .ok d) :
    ∃ p parts a b, d = .node p parts ∧ Reads text d a b := by
  have hparse : ∀ {offset rest}, GoesOnAt text offset rest →
      language.parse offset rest = .ok d → ∃ p parts a b, d = .node p parts ∧ Reads text d a b := by
    intro offset rest hat h
    obtain ⟨p, -, parts, stop, hd, hreads⟩ :=
      Parsing.Language.parse_reads (nextToken_sound text) hat h
    exact ⟨p, parts, offset, stop, hd, hreads⟩
  unfold derive at h
  split at h
  · next rest => exact hparse ⟨['\ufeff'], rfl, rfl⟩ h
  · exact hparse (GoesOnAt.start text) h

/-- **The nodes that the parser gives for a text are placed in it.** -/
theorem readNodes_placed {text : String} {ns : List Node} (h : readNodes text.toList = .ok ns) :
    Placed text ns := by
  rw [readNodes] at h
  cases hderive : derive text.toList with
  | error offset =>
    rw [hderive] at h
    cases h
  | ok d =>
    obtain ⟨p, parts, a, b, rfl, hreads⟩ := exists_reads_of_derive hderive
    rw [hderive] at h
    obtain rfl := Except.ok.inj h
    exact (nodesLie_top hreads).mono (Nat.zero_le a) (reads_stop_le hreads)

end TestCatalog.Go
