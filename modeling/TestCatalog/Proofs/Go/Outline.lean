import TestCatalog.Go.Read
import TestCatalog.Proofs.Go.Derived
import TestCatalog.Proofs.Source.Placed

/-!
# Proofs/Go/Outline — the syntax tree of a text is placed in it

The outline of placed nodes is a placed tree.  A node is outlined from its children, the ones that
play a part found by that part, so the argument goes along the nodes: what a node stands for lies
where the node does, and so does what its children stand for.

* `outline_lies` — the outline of placed nodes is placed.
* `outlines_of_read` — so is the tree that the parser gives.
-/

namespace TestCatalog.Go

open Source (Decl Expr ExprsLie Function Stmt Tree exprsLie_iff stretches_expr stretches_ident
  stretches_stmt)
open Text (InOrder Stretches)

/-- **The syntax tree of a text**: the outline of nodes that are placed in it. -/
def Outlines (text : String) (tree : Tree) : Prop :=
  ∃ nodes, Placed text nodes ∧ outline nodes = tree

/-- The children of a node. -/
def Node.children : Node → List Node
  | .leaf _ _ _ _ => []
  | .branch _ _ _ cs => cs

/-- What holds of a node whenever it holds of its children holds of all nodes. -/
theorem Node.ind {motive : Node → Prop} (leaf : ∀ r k s t, motive (.leaf r k s t))
    (branch : ∀ r k s cs, (∀ c ∈ cs, motive c) → motive (.branch r k s cs)) (n : Node) : motive n :=
  @Node.rec motive (fun ns => ∀ n ∈ ns, motive n) leaf branch nofun
    (fun _ _ hn hns => List.forall_mem_cons.mpr ⟨hn, hns⟩) n

/-! ## Children by the part they play -/

theorem exprs_eq (ns : List Node) : exprs ns = (ns.filter (·.counts)).map (·.expr) := by
  induction ns with
  | nil => rfl
  | cons n ns ih =>
    rw [exprs, List.filter_cons, ih]
    split_ifs <;> rfl

theorem firstExpr_eq (ns : List Node) : firstExpr ns = (ns.find? (·.counts)).map (·.expr) := by
  induction ns with
  | nil => rfl
  | cons n ns ih =>
    rw [firstExpr, List.find?_cons, ih]
    cases n.counts <;> rfl

theorem exprAt_eq (r : Role) (ns : List Node) : exprAt r ns = (childAt r ns).map (·.expr) := by
  induction ns with
  | nil => rfl
  | cons n ns ih =>
    rw [exprAt, ih, childAt, childAt, List.find?_cons]
    by_cases hrole : n.role = some r <;> simp [hrole]

theorem innerExprsAt_eq (r : Role) (ns : List Node) :
    innerExprsAt r ns = ((childAt r ns).map (exprs ·.children)).getD [] := by
  induction ns with
  | nil => rfl
  | cons n ns ih =>
    cases n with
    | leaf s k start t =>
      rw [innerExprsAt, ih, childAt, childAt, List.find?_cons]
      by_cases hrole : s = some r <;> simp [hrole, Node.role, Node.children, exprs]
    | branch s k start cs =>
      rw [innerExprsAt, ih, childAt, childAt, List.find?_cons]
      by_cases hrole : s = some r <;> simp [hrole, Node.role, Node.children]

theorem stmtsAt_eq (r : Role) (ns : List Node) :
    stmtsAt r ns = (childAt r ns).map (stmts ·.children) := by
  induction ns with
  | nil => rfl
  | cons n ns ih =>
    cases n with
    | leaf s k start t =>
      rw [stmtsAt, ih, childAt, childAt, List.find?_cons]
      by_cases hrole : s = some r <;> simp [hrole, Node.role, Node.children, stmts]
    | branch s k start cs =>
      rw [stmtsAt, ih, childAt, childAt, List.find?_cons]
      by_cases hrole : s = some r <;> simp [hrole, Node.role, Node.children]

theorem not_isTrivia_of_role {n : Node} {r : Role} (h : n.role = some r) : n.isTrivia = false := by
  cases n with
  | leaf s k start t =>
    obtain rfl : s = some r := h
    rfl
  | branch s k start cs => rfl

theorem role_of_childAt {r : Role} {ns : List Node} {n : Node} (h : childAt r ns = some n) :
    n.role = some r := by
  simpa using List.find?_some h

/-- The node that leads is the first of every kind that it is of. -/
theorem find?_of_lead {ns : List Node} {n : Node} {p : Node → Bool}
    (hn : ns.find? (!·.isTrivia) = some n) (hp : p n = true)
    (hsolid : ∀ m, p m = true → m.isTrivia = false) : ns.find? p = some n := by
  obtain ⟨-, before, after, rfl, hbefore⟩ := List.find?_eq_some_iff_append.mp hn
  refine List.find?_eq_some_iff_append.mpr ⟨hp, before, after, rfl, fun m hm => ?_⟩
  have htrivia : m.isTrivia = true := by simpa using hbefore m hm
  by_contra hcontra
  have hpm : p m = true := by simpa using hcontra
  rw [hsolid m hpm] at htrivia
  cases htrivia

theorem childAt_of_lead {ns : List Node} {n : Node} {r : Role}
    (hn : ns.find? (!·.isTrivia) = some n) (hrole : n.role = some r) : childAt r ns = some n :=
  find?_of_lead hn (by simpa using hrole) fun m hm => not_isTrivia_of_role (by simpa using hm)

/-! ## Where children lie -/

section

variable {source : List Char} {ns : List Node} {lo hi : Nat}

theorem NodesLie.of_mem (h : NodesLie source ns lo hi) {n : Node} (hn : n ∈ ns)
    (hsolid : n.isTrivia = false) : n.Lies source lo hi :=
  (nodesLie_iff.mp h).of_mem (stretches_node source) (List.mem_filter.mpr ⟨hn, by simp [hsolid]⟩)

theorem NodesLie.of_childAt (h : NodesLie source ns lo hi) {r : Role} {n : Node}
    (hn : childAt r ns = some n) : n.Lies source lo hi :=
  h.of_mem (List.mem_of_find?_eq_some hn) (not_isTrivia_of_role (role_of_childAt hn))

theorem NodesLie.split {ms : List Node} (h : NodesLie source (ns ++ ms) lo hi) :
    ∃ mid, NodesLie source ns lo mid ∧ NodesLie source ms mid hi := by
  simp only [nodesLie_iff, List.filter_append] at h ⊢
  exact h.split

theorem NodesLie.le (h : NodesLie source ns lo hi) : lo ≤ hi :=
  (nodesLie_iff.mp h).le (stretches_node source)

/-- **Of two children, the one whose part is played first ends before the other starts.** -/
theorem NodesLie.childAt_before (h : NodesLie source ns lo hi)
    (hordered : (ns.filterMap Node.role).Pairwise (·.ctorIdx ≤ ·.ctorIdx)) {r r' : Role}
    (hr : r.ctorIdx < r'.ctorIdx) {n n' : Node} (hn : childAt r ns = some n)
    (hn' : childAt r' ns = some n') : ∃ mid, n.Lies source lo mid ∧ n'.Lies source mid hi := by
  have hrole := role_of_childAt hn
  have hrole' := role_of_childAt hn'
  obtain ⟨-, before, after, rfl, -⟩ := List.find?_eq_some_iff_append.mp hn
  have hafter : n' ∈ after := by
    rcases List.mem_append.mp (List.mem_of_find?_eq_some hn') with hmem | hmem
    · rw [List.filterMap_append, List.pairwise_append] at hordered
      have hle := hordered.2.2 r' (List.mem_filterMap.mpr ⟨n', hmem, hrole'⟩) r
        (List.mem_filterMap.mpr ⟨n, List.mem_cons_self, hrole⟩)
      omega
    · rcases List.mem_cons.mp hmem with rfl | hmem
      · obtain rfl := Option.some.inj (hrole.symm.trans hrole')
        omega
      · exact hmem
  obtain ⟨start, hbefore, hrest⟩ := h.split
  rw [NodesLie, if_neg (by simp [not_isTrivia_of_role hrole])] at hrest
  obtain ⟨mid, hlies, hrest⟩ := hrest
  exact ⟨mid, (stretches_node source).mono hlies hbefore.le (Nat.le_refl mid),
    hrest.of_mem hafter (not_isTrivia_of_role hrole')⟩

/-- What the children that count stand for lies where they do. -/
theorem NodesLie.map_counting {α : Type} {Lies : α → Nat → Nat → Prop} {f : Node → α}
    (h : NodesLie source ns lo hi) (hf : ∀ n ∈ ns, ∀ a b, n.Lies source a b → Lies (f n) a b) :
    InOrder Lies ((ns.filter (·.counts)).map f) lo hi := by
  have hsub : (ns.filter (·.counts)).Sublist (ns.filter (!·.isTrivia)) :=
    List.monotone_filter_right ns fun n hn => by simp [not_isTrivia_of_counts hn]
  exact ((nodesLie_iff.mp h).sublist (stretches_node source) hsub).map
    fun n hn => hf n (List.mem_of_mem_filter hn)

theorem ident_lies {n : Node} (h : n.Lies source lo hi) : n.ident.Lies source lo hi := by
  cases n with
  | leaf r k s t =>
    obtain ⟨hlo, hhi, -, hstands, -⟩ := h
    exact ⟨hlo, hhi, hstands⟩
  | branch r k s cs =>
    obtain ⟨hlo, hstands, -, stop, hstop, hhi, -⟩ := h
    exact ⟨hlo, Nat.lt_of_lt_of_le hstop hhi, hstands⟩

end

/-! ## Expressions -/

/-- What a node and its children stand for lies where the node does, and starts with it. -/
structure ExprPlaced (source : List Char) (n : Node) (lo hi : Nat) : Prop where
  /-- The expression it stands for. -/
  lies : n.expr.Lies source lo hi
  /-- Where that starts. -/
  start : ∀ m ∈ n.expr.start?, m = n.start
  /-- The expressions that its children stand for. -/
  inner : InOrder (Expr.Lies source) (exprs n.children) lo hi

section

variable {source : List Char} {children : List Node} {lo hi : Nat}
  (hplaced : ∀ c ∈ children, ∀ {lo hi}, c.Lies source lo hi → ExprPlaced source c lo hi)
include hplaced

theorem exprs_lie (h : NodesLie source children lo hi) :
    InOrder (Expr.Lies source) (exprs children) lo hi := by
  rw [exprs_eq]
  exact h.map_counting fun n hn a b hlies => (hplaced n hn hlies).lies

theorem innerExprsAt_lie (h : NodesLie source children lo hi) (r : Role) :
    InOrder (Expr.Lies source) (innerExprsAt r children) lo hi := by
  rw [innerExprsAt_eq]
  cases hchild : childAt r children with
  | none => exact h.le
  | some n => exact (hplaced n (List.mem_of_find?_eq_some hchild) (h.of_childAt hchild)).inner

variable {start : Nat}

/-- The child that leads a node. -/
theorem exists_lead {kind : Kind} (hshaped : Shaped kind start children)
    (hkind : kind ∈ leadingKinds) : ∃ n ∈ children, children.find? (!·.isTrivia) = some n
      ∧ n.counts = true ∧ n.role = leadRole kind
      ∧ ∀ {lo hi}, n.Lies source lo hi → ∀ m ∈ n.expr.start?, m = start := by
  obtain ⟨n, hn, rfl, hcounts, hrole⟩ := hshaped.lead hkind
  have hmem := List.mem_of_find?_eq_some hn
  exact ⟨n, hmem, hn, hcounts, hrole, fun hlies => (hplaced n hmem hlies).start⟩

/-- An element of a literal is the expression that it holds. -/
theorem element_placed (hshaped : Shaped .literalElement start children)
    (h : NodesLie source children start hi) (r : Option Role) :
    (Node.branch r .literalElement start children).expr.Lies source start hi
      ∧ ∀ m ∈ (Node.branch r .literalElement start children).expr.start?, m = start := by
  obtain ⟨n, hmem, hn, hcounts, -, hstart⟩ := exists_lead hplaced hshaped (by decide)
  have hfirst := find?_of_lead (p := (·.counts)) hn hcounts fun m => not_isTrivia_of_counts
  have hexpr : (Node.branch r .literalElement start children).expr = n.expr := by
    rw [Node.expr, firstExpr_eq, hfirst]
    rfl
  have hlies := h.of_mem hmem (not_isTrivia_of_counts hcounts)
  rw [hexpr]
  exact ⟨(hplaced n hmem hlies).lies, hstart hlies⟩

/-- A call starts with what is called, and the arguments follow. -/
theorem call_placed (hshaped : Shaped .callExpression start children)
    (h : NodesLie source children start hi) (hstart : start < hi) (r : Option Role) :
    (Node.branch r .callExpression start children).expr.Lies source start hi
      ∧ ∀ m ∈ (Node.branch r .callExpression start children).expr.start?, m = start := by
  obtain ⟨n, hmem, hn, -, hrole, hlead⟩ := exists_lead hplaced hshaped (by decide)
  have hcallee : childAt .function children = some n := childAt_of_lead hn hrole
  have hlies := h.of_childAt hcallee
  have hexpr : (Node.branch r .callExpression start children).expr
      = .call n.expr (innerExprsAt .arguments children) start := by
    rw [Node.expr, exprAt_eq, hcallee]
    rfl
  rw [hexpr]
  refine ⟨⟨Nat.le_refl start, hlead hlies, ?_⟩, by simp [Expr.start?]⟩
  rw [innerExprsAt_eq]
  cases harguments : childAt .arguments children with
  | none =>
    exact ⟨hi, hi, hstart, Nat.le_refl hi, (hplaced n hmem hlies).lies, Nat.le_refl hi⟩
  | some inner =>
    obtain ⟨mid, hbefore, hbehind⟩ :=
      h.childAt_before hshaped.ordered (by decide) hcallee harguments
    exact ⟨mid, hi, hstart, Nat.le_refl hi, (hplaced n hmem hbefore).lies,
      exprsLie_iff.mpr (hplaced inner (List.mem_of_find?_eq_some harguments) hbehind).inner⟩

/-- A selector starts with what is selected from, and the field follows. -/
theorem selector_placed (hshaped : Shaped .selectorExpression start children)
    (h : NodesLie source children start hi) (r : Option Role) :
    (Node.branch r .selectorExpression start children).expr.Lies source start hi
      ∧ ∀ m ∈ (Node.branch r .selectorExpression start children).expr.start?, m = start := by
  obtain ⟨n, hmem, hn, -, hrole, hlead⟩ := exists_lead hplaced hshaped (by decide)
  have hoperand : childAt .operand children = some n := childAt_of_lead hn hrole
  rw [Node.expr, exprAt_eq, hoperand]
  cases hfield : childAt .field children with
  | none => exact ⟨h.le, nofun⟩
  | some field =>
    obtain ⟨mid, hbefore, hbehind⟩ := h.childAt_before hshaped.ordered (by decide) hoperand hfield
    refine ⟨⟨start, mid, Nat.le_refl start, (stretches_node source).le hbefore, ?_, ?_⟩, ?_⟩
    · exact (hplaced n hmem hbefore).lies
    · exact ident_lies hbehind
    · exact hlead hbefore

/-- A pair starts with its key, and the value follows. -/
theorem keyed_placed (hshaped : Shaped .keyedElement start children)
    (h : NodesLie source children start hi) (r : Option Role) :
    (Node.branch r .keyedElement start children).expr.Lies source start hi
      ∧ ∀ m ∈ (Node.branch r .keyedElement start children).expr.start?, m = start := by
  obtain ⟨n, hmem, hn, -, hrole, hlead⟩ := exists_lead hplaced hshaped (by decide)
  have hkey : childAt .key children = some n := childAt_of_lead hn hrole
  obtain ⟨n', hn', hrole'⟩ := hshaped.pair rfl
  obtain ⟨value, hvalue⟩ : ∃ value, childAt .value children = some value :=
    Option.isSome_iff_exists.mp (List.find?_isSome.mpr ⟨n', hn', by simpa using hrole'⟩)
  obtain ⟨mid, hbefore, hbehind⟩ := h.childAt_before hshaped.ordered (by decide) hkey hvalue
  have hexpr : (Node.branch r .keyedElement start children).expr = .keyed n.expr value.expr := by
    rw [Node.expr, exprAt_eq, exprAt_eq, hkey, hvalue]
    rfl
  rw [hexpr]
  refine ⟨⟨start, mid, hi, Nat.le_refl start, h.le, Nat.le_refl hi, ?_, ?_⟩, hlead hbefore⟩
  · exact (hplaced n hmem hbefore).lies
  · exact (hplaced value (List.mem_of_find?_eq_some hvalue) hbehind).lies

end

variable {source : List Char} {lo hi : Nat}

theorem leaf_placed {r : Option Role} {k : Kind} {s : Nat} {t : String}
    (h : (Node.leaf r k s t).Lies source lo hi) : ExprPlaced source (.leaf r k s t) lo hi := by
  have hle := (stretches_node source).le h
  obtain ⟨hlo, hhi, hne, hstands, hliteral⟩ := h
  refine ⟨?_, ?_, hle⟩
  · unfold Node.expr
    split
    case h_1 | h_2 | h_3 | h_4 => exact ⟨hlo, hhi, hstands, hliteral (by decide)⟩
    case h_5 | h_6 => exact ⟨hne, hlo, hhi, hstands⟩
    case h_7 => exact hle
  · unfold Node.expr
    split <;> intro m hm <;> cases hm <;> rfl

/-- **What a node stands for lies where the node does.** -/
theorem expr_placed (n : Node) : ∀ {lo hi}, n.Lies source lo hi → ExprPlaced source n lo hi := by
  induction n using Node.ind with
  | leaf r k s t => exact leaf_placed
  | branch r k s cs ih =>
    intro lo hi h
    obtain ⟨hlo, -, hshaped, stop, hstop, hhi, hcs⟩ := h
    have hnode : (Node.branch r k s cs).expr.Lies source s stop
        ∧ ∀ m ∈ (Node.branch r k s cs).expr.start?, m = s := by
      unfold Node.expr
      split
      case h_1 => exact element_placed ih hshaped hcs r
      case h_2 => exact call_placed ih hshaped hcs hstop r
      case h_3 => exact selector_placed ih hshaped hcs r
      case h_4 =>
        refine ⟨⟨Nat.le_refl s, stop, hstop, Nat.le_refl stop, ?_⟩, by simp [Expr.start?]⟩
        exact exprsLie_iff.mpr (innerExprsAt_lie ih hcs .body)
      case h_5 =>
        refine ⟨⟨Nat.le_refl s, stop, hstop, Nat.le_refl stop, ?_⟩, by simp [Expr.start?]⟩
        exact exprsLie_iff.mpr (exprs_lie ih hcs)
      case h_6 => exact keyed_placed ih hshaped hcs r
      case h_7 => exact ⟨hcs.le, nofun⟩
    exact ⟨(stretches_expr source).mono hnode.1 hlo hhi, hnode.2,
      (exprs_lie ih hcs).mono (stretches_expr source) hlo hhi⟩

/-! ## Statements -/

theorem exprsAt_lie {r : Role} {children : List Node} {n : Node} (hn : childAt r children = some n)
    (h : n.Lies source lo hi) : InOrder (Expr.Lies source) (exprsAt r children) lo hi := by
  rw [exprsAt, hn]
  have hplaced := expr_placed n h
  split
  · next heq => cases heq
  · next s start inner heq =>
    obtain rfl := Option.some.inj heq
    exact hplaced.inner
  · next m _ heq =>
    obtain rfl := Option.some.inj heq
    exact ⟨hi, hplaced.lies, Nat.le_refl hi⟩

/-- The two sides of an assignment follow each other. -/
theorem assign_lies {kind : Kind} {start : Nat} {children : List Node}
    (hshaped : Shaped kind start children) (h : NodesLie source children lo hi) :
    (Stmt.assign (exprsAt .left children) (exprsAt .right children)).Lies source lo hi := by
  have hnone : ∀ {r}, childAt r children = none → exprsAt r children = [] := by
    intro r hr
    rw [exprsAt, hr]
  cases hleft : childAt .left children with
  | none =>
    cases hright : childAt .right children with
    | none =>
      rw [hnone hleft, hnone hright]
      exact ⟨lo, Nat.le_refl lo, h.le⟩
    | some right =>
      rw [hnone hleft]
      exact ⟨lo, Nat.le_refl lo, exprsAt_lie hright (h.of_childAt hright)⟩
  | some left =>
    cases hright : childAt .right children with
    | none =>
      rw [hnone hright]
      exact ⟨hi, exprsAt_lie hleft (h.of_childAt hleft), Nat.le_refl hi⟩
    | some right =>
      obtain ⟨mid, hbefore, hbehind⟩ :=
        h.childAt_before hshaped.ordered (by decide) hleft hright
      exact ⟨mid, exprsAt_lie hleft hbefore, exprsAt_lie hright hbehind⟩

theorem stmt_lies {n : Node} (h : n.Lies source lo hi) : n.stmt.Lies source lo hi := by
  have hle := (stretches_node source).le h
  cases n with
  | leaf r k s t => exact hle
  | branch r k s cs =>
    obtain ⟨hlo, -, hshaped, stop, hstop, hhi, hcs⟩ := h
    have hwide : NodesLie source cs lo hi := hcs.mono hlo hhi
    unfold Node.stmt
    split
    case h_1 =>
      rw [firstExpr_eq]
      cases hfirst : cs.find? (·.counts) with
      | none => exact hle
      | some n =>
        have hsolid := not_isTrivia_of_counts (List.find?_some hfirst)
        exact (expr_placed n (hwide.of_mem (List.mem_of_find?_eq_some hfirst) hsolid)).lies
    case h_2 | h_3 => exact assign_lies hshaped hwide
    case h_4 =>
      split
      · split <;> exact hle
      · exact hle
    case h_5 => exact hle

/-- Statements lie where the nodes do of which they are taken, whatever that says of each of them;
lists of statements are taken apart. -/
theorem stmts_inOrder {Lies : Stmt → Nat → Nat → Prop} (hlies : Stretches Lies) {ns : List Node}
    (hstmt : ∀ n ∈ ns, ∀ {lo hi}, n.Lies source lo hi → Lies n.stmt lo hi)
    (hinner : ∀ n ∈ ns, ∀ {lo hi}, n.Lies source lo hi → InOrder Lies (stmts n.children) lo hi)
    (h : NodesLie source ns lo hi) : InOrder Lies (stmts ns) lo hi := by
  induction ns generalizing lo with
  | nil => exact h
  | cons n ns ih =>
    obtain ⟨hn, hns⟩ := List.forall_mem_cons.mp hinner
    obtain ⟨hone, hstmts⟩ := List.forall_mem_cons.mp hstmt
    rw [NodesLie] at h
    split_ifs at h with htrivia
    · cases n with
      | leaf r k s t =>
        have hcounts : (Node.leaf r k s t).counts ≠ true := fun hcounts => by
          cases htrivia.symm.trans (not_isTrivia_of_counts hcounts)
        rw [stmts, if_neg hcounts]
        exact ih hstmts hns h
      | branch r k s cs => cases htrivia
    · obtain ⟨mid, hnode, hrest⟩ := h
      have hle := (stretches_node source).le hnode
      have hlater := ih hstmts hns hrest
      cases n with
      | leaf r k s t =>
        rw [stmts]
        split_ifs
        · exact ⟨mid, hone hnode, hlater⟩
        · exact hlater.mono hlies hle (Nat.le_refl hi)
      | branch r k s cs =>
        rw [stmts]
        split_ifs
        · exact (hn hnode).append hlies hlater
        · exact ⟨mid, hone hnode, hlater⟩
        · exact hlater.mono hlies hle (Nat.le_refl hi)

theorem stmts_children_lie (n : Node) :
    ∀ {lo hi}, n.Lies source lo hi → InOrder (Stmt.Lies source) (stmts n.children) lo hi := by
  induction n using Node.ind with
  | leaf r k s t => exact fun h => (stretches_node source).le h
  | branch r k s cs ih =>
    intro lo hi h
    obtain ⟨hlo, -, -, stop, hstop, hhi, hcs⟩ := h
    exact stmts_inOrder (stretches_stmt source) (fun n _ => stmt_lies) ih (hcs.mono hlo hhi)

/-! ## Declarations -/

/-- **The name of a function lies before its block**, whose statements are the body. -/
theorem function_parts {n : Node} {f : Function} (hf : n.decl = .function f)
    (h : n.Lies source lo hi) : ∃ mid, f.name.Lies source lo mid
      ∧ (f.body = [] ∧ mid ≤ hi
        ∨ ∃ block : Node, block.Lies source mid hi ∧ f.body = stmts block.children) := by
  unfold Node.decl at hf
  split at hf
  · next r s children =>
    obtain ⟨hlo, -, hshaped, stop, hstop, hhi, hcs⟩ := h
    have hwide : NodesLie source children lo hi := hcs.mono hlo hhi
    cases hname : childAt .name children with
    | none =>
      rw [hname] at hf
      cases hf
    | some name =>
      rw [hname] at hf
      obtain rfl := Decl.function.inj hf
      rw [stmtsAt_eq]
      cases hbody : childAt .body children with
      | none => exact ⟨hi, ident_lies (hwide.of_childAt hname), .inl ⟨rfl, Nat.le_refl hi⟩⟩
      | some body =>
        obtain ⟨mid, hbefore, hbehind⟩ :=
          hwide.childAt_before hshaped.ordered (by decide) hname hbody
        exact ⟨mid, ident_lies hbefore, .inr ⟨body, hbehind, rfl⟩⟩
  · cases hf

theorem decl_lies {n : Node} (h : n.Lies source lo hi) : n.decl.Lies source lo hi := by
  cases hdecl : n.decl with
  | other => exact (stretches_node source).le h
  | function f =>
    obtain ⟨mid, hname, ⟨hbody, hle⟩ | ⟨block, hblock, hbody⟩⟩ := function_parts hdecl h
    · exact ⟨mid, hname, hbody ▸ hle⟩
    · exact ⟨mid, hname, hbody ▸ stmts_children_lie block hblock⟩

/-- **The outline of placed nodes is placed.** -/
theorem outline_lies {text : String} {tree : Tree} (h : Outlines text tree) : tree.Lies text := by
  obtain ⟨nodes, hplaced, rfl⟩ := h
  exact NodesLie.map_counting hplaced fun n _ a b => decl_lies

/-- **The tree that the parser gives for a text outlines it.** -/
theorem outlines_of_read {text : String} {tree : Tree} (h : read text = .ok tree) :
    Outlines text tree := by
  rw [read] at h
  cases hnodes : readNodes text.toList with
  | error offset =>
    rw [hnodes] at h
    cases h
  | ok nodes =>
    rw [hnodes] at h
    exact ⟨nodes, readNodes_placed hnodes, Except.ok.inj h⟩

end TestCatalog.Go
