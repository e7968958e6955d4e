import TestCatalog.Proofs.Go.Outline

/-!
# Proofs/Go/Blocks — the blocks of a text hold statements

A block is a node whose children are statements, unless the node around it takes it for a list of
expressions.  Nodes of any shape may do so; those of a text never do, because the grammar has an
argument list or a literal value there (`Arranged.lists`).

* `blocksHold_of_mem_nodes` — the blocks of a derivation hold statements.
* `blocksHold_of_read` — so do those of a text.
-/

namespace TestCatalog.Go

open Parsing (Derivation)

/-- The kinds of nodes that have statements for children. -/
def blockKinds : List Kind := [.block, .statementList]

/-- Whether the children of a node are statements: it is a block or a statement list, and the node
around it, of kind `parent`, does not take it for a list of expressions.  In a text it never does
(`blocksHold_of_read`). -/
def holdsStatements (parent : Kind) (role : Option Role) (kind : Kind) : Bool :=
  kind ∈ blockKinds && !takesExprs parent role

/-- **A node stands somewhere among nodes**, as a child of a node of kind `parent`.  The nodes
themselves are the children of a node of kind `kind`. -/
inductive Within : Kind → List Node → Kind → Node → Prop where
  | here {kind : Kind} {ns : List Node} {n : Node} (h : n ∈ ns) : Within kind ns kind n
  | deeper {kind parent : Kind} {ns : List Node} {m n : Node} (hm : m ∈ ns)
      (h : Within m.kind m.children parent n) : Within kind ns parent n

/-- **Every block among the children of a node holds statements**, at any depth. -/
def BlocksHold (kind : Kind) (ns : List Node) : Prop :=
  ∀ parent n, Within kind ns parent n → n.kind ∈ blockKinds →
    holdsStatements parent n.role n.kind = true

variable {source : List Char}

/-! ## Blocks of nodes -/

theorem blocksHold_nil (kind : Kind) : BlocksHold kind [] := by
  intro parent n hwithin
  cases hwithin with
  | here h => cases h
  | deeper hm => cases hm

/-- It is enough that the children themselves are taken right, and that the same holds below
them. -/
theorem blocksHold_of_children {kind : Kind} {ns : List Node}
    (hhere : ∀ n ∈ ns, n.kind ∈ blockKinds → takesExprs kind n.role = false)
    (hbelow : ∀ n ∈ ns, BlocksHold n.kind n.children) : BlocksHold kind ns := by
  intro parent n hwithin hkind
  cases hwithin with
  | here hn =>
    rw [holdsStatements, hhere n hn hkind]
    simpa using hkind
  | deeper hm h => exact hbelow _ hm parent n h hkind

theorem kind_playing (r : Option Role) (n : Node) : (n.playing r).kind = n.kind := by
  cases n <;> rfl

theorem children_playing (r : Option Role) (n : Node) : (n.playing r).children = n.children := by
  cases n <;> rfl

/-! ## Blocks of derivations -/

/-- A symbol that is taken for a list of expressions makes no block. -/
theorem kind_of_isList {v : View} {d : Derivation} {a b : Nat} (hfits : Fits v d)
    (h : Reads source d a b) (hlist : v.isList = true) {n : Node} (hn : n ∈ nodes v.mark d) :
    n.kind ∉ blockKinds := by
  cases d with
  | leaf t =>
    obtain ⟨u, m, rfl, -⟩ := terminal_of_fits hfits
    cases hlist
  | node p parts =>
    rcases kind_of_fits h hfits with ⟨k, m, rfl, hkind⟩ | ⟨rfl, -⟩
    · simp only [View.isList, Bool.and_eq_true, Bool.not_eq_true', decide_eq_true_eq] at hlist
      obtain ⟨⟨hshown, hblock⟩, hgroup⟩ := hlist
      rw [nodes_of_shown hkind hshown] at hn
      obtain rfl := List.mem_singleton.mp hn
      simp only [Node.kind, View.mark, blockKinds, List.mem_cons, List.not_mem_nil, or_false, not_or]
      exact ⟨hblock, hgroup⟩
    · cases hlist

/-- The children that a production gives a node are taken right, also under a label. -/
theorem takesExprs_of_mem {k : Kind} {views : List View} {parts : List Derivation}
    (harranged : Arranged (some k) views) (hparts : List.Forall₂ Fits views parts)
    (hreads : ∀ d ∈ parts, ∃ a b, Reads source d a b) {label : Option Kind}
    (hlabel : ∀ l ∈ label, l ∉ reservedKinds) {n : Node}
    (hn : n ∈ nodesOfParts (views.map View.mark) parts) (hkind : n.kind ∈ blockKinds) :
    takesExprs (label.getD k) n.role = false := by
  rw [Bool.eq_false_iff]
  intro htakes
  obtain ⟨v, hv, d, hd, hfits, hn⟩ := mem_nodesOfParts hparts hn
  obtain ⟨a, b, hd⟩ := hreads d hd
  have hk : label.getD k = k := by
    cases label with
    | none => rfl
    | some l =>
      have hl := hlabel l rfl
      simp only [reservedKinds, List.mem_cons, not_or] at hl
      simp [takesExprs, hl] at htakes
  have hrole : n.role = v.mark.role := by
    refine (role_of_mem_nodes hfits hd hn).resolve_left fun hnone => ?_
    simp [takesExprs, hnone] at htakes
  rw [hk, hrole] at htakes
  exact kind_of_isList hfits hd (harranged.lists k rfl v hv htakes) hn hkind

/-- **The blocks of a derivation hold statements.** -/
theorem blocksHold_of_mem_nodes {v : View} {d : Derivation} {a b : Nat} (hfits : Fits v d)
    (hlabel : ∀ l ∈ v.mark.label, l ∉ reservedKinds) (h : Reads source d a b) {n : Node}
    (hn : n ∈ nodes v.mark d) : BlocksHold n.kind n.children := by
  induction d using Derivation.ind generalizing v a b n with
  | leaf t =>
    have hleaf : n.children = [] := by
      rw [nodes] at hn
      rcases List.mem_append.mp hn with hn | hn
      · obtain ⟨piece, -, rfl⟩ := List.mem_map.mp hn
        rfl
      · obtain rfl := List.mem_singleton.mp hn
        rfl
    rw [hleaf]
    exact blocksHold_nil n.kind
  | node p parts ih =>
    obtain ⟨views, harranged, hparts, hmarks, -⟩ := exists_views h
    have hreads : ∀ d ∈ parts, ∃ a b, Reads source d a b := fun d hd => readsAll_of_mem h.2.2 hd
    have hbelow : ∀ c ∈ nodesOfParts (ruleOf p).marks parts, BlocksHold c.kind c.children := by
      intro c hc
      rw [hmarks] at hc
      obtain ⟨w, hw, e, he, hfits, hc⟩ := mem_nodesOfParts hparts hc
      obtain ⟨a', b', hread⟩ := hreads e he
      exact ih e he hfits (harranged.labels w hw) hread hc
    rcases kind_of_fits h hfits with ⟨k, m, rfl, hkind⟩ | ⟨rfl, hkind⟩
    · cases hk : k.isHidden with
      | true =>
        rw [nodes_of_hidden hkind hk] at hn
        obtain ⟨c, hc, rfl⟩ := List.mem_map.mp hn
        rw [kind_playing, children_playing]
        exact hbelow c hc
      | false =>
        rw [nodes_of_shown hkind hk] at hn
        obtain rfl := List.mem_singleton.mp hn
        rw [hkind] at harranged
        refine blocksHold_of_children (fun c hc => ?_) hbelow
        exact takesExprs_of_mem harranged hparts hreads hlabel (hmarks ▸ hc)
    · rw [nodes_of_none hkind] at hn
      exact hbelow n hn

/-- **Every block of a text holds statements.** -/
theorem blocksHold_of_read {text : List Char} {ns : List Node} (h : readNodes text = .ok ns) :
    BlocksHold .sourceFile ns := by
  rw [readNodes] at h
  cases hderive : derive text with
  | error offset =>
    rw [hderive] at h
    cases h
  | ok d =>
    obtain ⟨p, parts, a, b, rfl, hreads⟩ := exists_reads_of_derive hderive
    rw [hderive] at h
    obtain rfl := Except.ok.inj h
    obtain ⟨views, harranged, hparts, hmarks, -⟩ := exists_views hreads
    refine blocksHold_of_children (fun n _ _ => rfl) fun n hn => ?_
    change n ∈ nodesOfParts (ruleOf p).marks parts at hn
    rw [hmarks] at hn
    obtain ⟨v, hv, e, he, hfits, hn⟩ := mem_nodesOfParts hparts hn
    obtain ⟨a', b', hread⟩ := readsAll_of_mem hreads.2.2 he
    exact blocksHold_of_mem_nodes hfits (harranged.labels v hv) hread hn

end TestCatalog.Go
