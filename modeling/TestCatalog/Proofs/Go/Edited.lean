import Mathlib.Logic.Relation
import TestCatalog.Listing.Entry
import TestCatalog.Proofs.Go.Blocks
import TestCatalog.Proofs.Go.Checked

/-!
# Proofs/Go/Edited — comments and groups leave the outline as it is

A node is outlined from what can be seen of its children: the expressions of those that count, the
child that plays a part, and the statements they stand for.  A comment plays no part and does not
count, and a statement list shows the statements in it, so neither can be seen.

* `Edit` — one comment put among the children of some node, or one statement list put around some
  statements of a block, at any depth.
* `Edit.looksSame` — such a change cannot be seen.
* `outline_eq_of_edited` — any number of them, made or undone, leave the outline as it is.
-/

namespace TestCatalog.Go

open Source (Expr Stmt)

/-! ## Edits -/

/-- A comment that plays no part. -/
def Node.IsComment (n : Node) : Prop := n.kind = .comment ∧ n.role = none

/-- **One change among the children of a node**, of which are given its kind and whether its children
are statements. -/
inductive Edit : Kind → Bool → List Node → List Node → Prop where
  /-- A comment is put somewhere. -/
  | comment {kind : Kind} {statements : Bool} (before after : List Node) {c : Node}
      (hc : c.IsComment) : Edit kind statements (before ++ after) (before ++ c :: after)
  /-- A statement list is put around statements. -/
  | group {kind : Kind} (before inner after : List Node) (start : Nat) :
      Edit kind true (before ++ inner ++ after)
        (before ++ .branch none .statementList start inner :: after)
  /-- The change is among the children of a child. -/
  | inside {kind inner : Kind} {statements : Bool} (before after : List Node) (role : Option Role)
      (start : Nat) {children children' : List Node}
      (h : Edit inner (holdsStatements kind role inner) children children') :
      Edit kind statements (before ++ .branch role inner start children :: after)
        (before ++ .branch role inner start children' :: after)

/-- **The top-level nodes of a file after any number of changes**, each of them made or undone. -/
def Edited : List Node → List Node → Prop := Relation.EqvGen (Edit .sourceFile false)

/-! ## What can be seen of children -/

/-- The expressions of one side of an assignment. -/
def sideExprs : Node → List Expr
  | .branch _ .expressionList _ inner => exprs inner
  | n => [n.expr]

/-- **Two children that look alike** to a node of that kind. -/
structure Alike (parent : Kind) (n n' : Node) : Prop where
  /-- They play the same part. -/
  role : n.role = n'.role
  /-- They are of the same kind. -/
  kind : n.kind = n'.kind
  /-- They stand for the same name. -/
  ident : n.ident = n'.ident
  /-- They stand for the same expression. -/
  expr : n.expr = n'.expr
  /-- They stand for the same statement. -/
  stmt : n.stmt = n'.stmt
  /-- They stand for the same declaration. -/
  decl : n.decl = n'.decl
  /-- As the side of an assignment they have the same expressions. -/
  side : sideExprs n = sideExprs n'
  /-- As a list of expressions they have the same. -/
  inner : takesExprs parent n.role = true → exprs n.children = exprs n'.children
  /-- As blocks they have the same statements. -/
  body : stmts n.children = stmts n'.children

theorem Alike.refl (parent : Kind) (n : Node) : Alike parent n n :=
  ⟨rfl, rfl, rfl, rfl, rfl, rfl, rfl, fun _ => rfl, rfl⟩

theorem Alike.counts {parent : Kind} {n n' : Node} (h : Alike parent n n') :
    n.counts = n'.counts := by
  rw [Node.counts, Node.counts, h.kind]

/-- **Two lists of children that look alike** to a node of that kind. -/
structure LooksSame (parent : Kind) (ns ns' : List Node) : Prop where
  /-- Those that count stand for the same expressions. -/
  exprs : exprs ns = exprs ns'
  /-- They stand for the same declarations. -/
  decls : (ns.filter (·.counts)).map (·.decl) = (ns'.filter (·.counts)).map (·.decl)
  /-- Either both have a range clause, or neither. -/
  range : ns.any (·.kind = .rangeClause) = ns'.any (·.kind = .rangeClause)
  /-- Those that play a part look alike. -/
  childAt : ∀ r, Option.Rel (Alike parent) (childAt r ns) (childAt r ns')

/-! ### Children by what is read off them

The first and the last expression are those of the list of all, and what is read off a part is read
off the child that plays it; so `exprs` and `childAt` say all. -/

theorem exprsAt_eq (r : Role) (ns : List Node) :
    exprsAt r ns = ((childAt r ns).map sideExprs).getD [] := by
  rw [exprsAt]
  rcases childAt r ns with _ | n
  · rfl
  · rw [Option.map_some, Option.getD_some]
    unfold sideExprs
    split <;> simp_all

theorem firstExpr_eq_head? (ns : List Node) : firstExpr ns = (exprs ns).head? := by
  rw [firstExpr_eq, exprs_eq, List.head?_map, List.head?_filter]

theorem lastExpr_eq_getLast? (ns : List Node) : lastExpr ns = (exprs ns).getLast? := by
  induction ns with
  | nil => rfl
  | cons n ns ih =>
    rw [lastExpr, exprs, ih]
    split_ifs with hcounts
    · rw [List.getLast?_cons]
      rcases (exprs ns).getLast? with _ | e <;> rfl
    · rcases (exprs ns).getLast? with _ | e <;> rfl

namespace LooksSame

variable {parent : Kind} {ns ns' : List Node} (h : LooksSame parent ns ns')
include h

theorem firstExpr_eq : firstExpr ns = firstExpr ns' := by
  rw [firstExpr_eq_head?, firstExpr_eq_head?, h.exprs]

theorem lastExpr_eq : lastExpr ns = lastExpr ns' := by
  rw [lastExpr_eq_getLast?, lastExpr_eq_getLast?, h.exprs]

/-- A part is played in neither list, or by two children that look alike. -/
theorem childAt_cases (r : Role) :
    (Go.childAt r ns = none ∧ Go.childAt r ns' = none)
      ∨ ∃ n n', Go.childAt r ns = some n ∧ Go.childAt r ns' = some n' ∧ Alike parent n n' := by
  have hrel := h.childAt r
  generalize Go.childAt r ns = o, Go.childAt r ns' = o' at hrel ⊢
  rcases hrel with halike | _
  · exact .inr ⟨_, _, rfl, rfl, halike⟩
  · exact .inl ⟨rfl, rfl⟩

/-- What is read off the child that plays a part is the same. -/
theorem map_childAt {α : Type} {f : Node → α} (r : Role)
    (hf : ∀ n n', n.role = some r → Alike parent n n' → f n = f n') :
    (Go.childAt r ns).map f = (Go.childAt r ns').map f := by
  rcases h.childAt_cases r with ⟨hn, hn'⟩ | ⟨n, n', hn, hn', halike⟩
  · rw [hn, hn']
  · rw [hn, hn']
    exact congrArg some (hf n n' (role_of_childAt hn) halike)

theorem exprAt_eq (r : Role) : exprAt r ns = exprAt r ns' := by
  rw [Go.exprAt_eq, Go.exprAt_eq]
  exact h.map_childAt r fun n n' _ halike => halike.expr

theorem exprsAt_eq (r : Role) : exprsAt r ns = exprsAt r ns' := by
  rw [Go.exprsAt_eq, Go.exprsAt_eq, h.map_childAt r fun n n' _ halike => halike.side]

theorem stmtsAt_eq (r : Role) : stmtsAt r ns = stmtsAt r ns' := by
  rw [Go.stmtsAt_eq, Go.stmtsAt_eq]
  exact h.map_childAt r fun n n' _ halike => halike.body

/-- The child that is taken for a list of expressions has the same ones. -/
theorem innerExprsAt_eq {r : Role} (htakes : takesExprs parent (some r) = true) :
    innerExprsAt r ns = innerExprsAt r ns' := by
  rw [Go.innerExprsAt_eq, Go.innerExprsAt_eq,
    h.map_childAt r fun n n' hrole halike => halike.inner (hrole ▸ htakes)]

/-- **A node whose children look the same stands for the same expression.** -/
theorem expr_branch (role : Option Role) (start : Nat) :
    (Node.branch role parent start ns).expr = (Node.branch role parent start ns').expr := by
  unfold Node.expr
  rw [h.firstExpr_eq, h.lastExpr_eq, h.exprs, h.exprAt_eq .function, h.exprAt_eq .operand,
    h.exprAt_eq .key, h.exprAt_eq .value]
  split
  · rfl
  · rw [h.innerExprsAt_eq (r := .arguments) rfl]
  · rcases h.childAt_cases .field with ⟨hn, hn'⟩ | ⟨n, n', hn, hn', halike⟩
    · rw [hn, hn']
    · rw [hn, hn']
      rcases exprAt .operand ns' with _ | operand
      · rfl
      · exact congrArg (Expr.selector operand) halike.ident
  · rw [h.innerExprsAt_eq (r := .body) rfl]
  all_goals rfl

/-- **…and for the same statement.** -/
theorem stmt_branch (role : Option Role) (start : Nat) :
    (Node.branch role parent start ns).stmt = (Node.branch role parent start ns').stmt := by
  unfold Node.stmt
  rw [h.firstExpr_eq, h.exprsAt_eq .left, h.exprsAt_eq .right, h.range, h.stmtsAt_eq .body]

/-- **…and for the same declaration.** -/
theorem decl_branch (role : Option Role) (start : Nat) :
    (Node.branch role parent start ns).decl = (Node.branch role parent start ns').decl := by
  by_cases hkind : parent = .functionDeclaration
  · subst hkind
    rw [Node.decl, Node.decl, h.stmtsAt_eq .body]
    rcases h.childAt_cases .name with ⟨hn, hn'⟩ | ⟨n, n', hn, hn', halike⟩
    · rw [hn, hn']
    · rw [hn, hn']
      simp only [halike.ident]
  · rw [Node.decl.eq_def, Node.decl.eq_def]
    split <;> simp_all

end LooksSame

/-- **A node among whose children a change cannot be seen looks the same.**  In a block the
statements are enough, because nothing else is read off it. -/
theorem alike_branch {parent kind : Kind} {role : Option Role} {children children' : List Node}
    (start : Nat) (hstmts : stmts children = stmts children')
    (hsame : holdsStatements parent role kind = false → LooksSame kind children children') :
    Alike parent (.branch role kind start children) (.branch role kind start children') := by
  by_cases hholds : holdsStatements parent role kind = true
  · rw [holdsStatements, Bool.and_eq_true, decide_eq_true_iff, Bool.not_eq_true', blockKinds,
      List.mem_pair] at hholds
    obtain ⟨rfl | rfl, htakes⟩ := hholds
    all_goals
      refine ⟨rfl, rfl, rfl, rfl, rfl, rfl, rfl, fun h => ?_, hstmts⟩
      exact absurd (htakes.symm.trans h) Bool.false_ne_true
  · have hsame := hsame (Bool.not_eq_true _ ▸ hholds)
    have hexpr := hsame.expr_branch role start
    refine ⟨rfl, rfl, rfl, hexpr, hsame.stmt_branch role start, hsame.decl_branch role start, ?_,
      fun _ => hsame.exprs, hstmts⟩
    by_cases hlist : kind = .expressionList
    · subst hlist
      exact hsame.exprs
    · unfold sideExprs
      split <;> simp_all

/-! ## One change -/

theorem stmts_append (ns ms : List Node) : stmts (ns ++ ms) = stmts ns ++ stmts ms := by
  induction ns with
  | nil => rfl
  | cons n ns ih =>
    rcases n with ⟨r, k, s, t⟩ | ⟨r, k, s, cs⟩
    · rw [List.cons_append, stmts, stmts, ih]
      split_ifs <;> rfl
    · rw [List.cons_append, stmts, stmts, ih]
      split_ifs
      · rw [List.append_assoc]
      · rfl
      · rfl

theorem childAt_append (r : Role) (ns ms : List Node) :
    childAt r (ns ++ ms) = (childAt r ns).or (childAt r ms) := by
  rw [childAt, childAt, childAt, List.find?_append]

/-- What looks alike looks alike among the same children. -/
theorem LooksSame.amid {parent : Kind} {ns ns' : List Node} (h : LooksSame parent ns ns')
    (before after : List Node) :
    LooksSame parent (before ++ (ns ++ after)) (before ++ (ns' ++ after)) where
  exprs := by
    have hexprs := h.exprs
    rw [exprs_eq, exprs_eq] at hexprs
    simp only [exprs_eq, List.filter_append, List.map_append, hexprs]
  decls := by simp only [List.filter_append, List.map_append, h.decls]
  range := by simp only [List.any_append, h.range]
  childAt r := by
    simp only [childAt_append]
    rcases Go.childAt r before with _ | n
    · rcases h.childAt_cases r with ⟨hn, hn'⟩ | ⟨n, n', hn, hn', halike⟩
      · rw [hn, hn']
        rcases Go.childAt r after with _ | n
        · exact .none
        · exact .some (.refl parent n)
      · rw [hn, hn']
        exact .some halike
    · exact .some (.refl parent n)

theorem Node.IsComment.counts {c : Node} (hc : c.IsComment) : c.counts = false := by
  rw [Node.counts, hc.1]
  rfl

/-- **A comment cannot be seen.** -/
theorem Node.IsComment.looksSame {c : Node} (hc : c.IsComment) (parent : Kind) :
    LooksSame parent [] [c] where
  exprs := by simp [exprs_eq, hc.counts]
  decls := by simp [hc.counts]
  range := by simp [hc.1]
  childAt r := by
    have hnone : Go.childAt r [c] = none := by simp [Go.childAt, hc.2]
    rw [hnone]
    exact .none

theorem Node.IsComment.stmts_eq {c : Node} (hc : c.IsComment) : stmts [c] = [] := by
  have hcounts := hc.counts
  obtain ⟨hkind, -⟩ := hc
  rcases c with ⟨r, k, s, t⟩ | ⟨r, k, s, cs⟩
  · rw [stmts, if_neg (by simp [hcounts]), stmts]
  · obtain rfl : k = .comment := hkind
    rw [stmts, if_neg (by decide), if_neg (by simp [hcounts]), stmts]

theorem Alike.looksSame {parent : Kind} {n n' : Node} (h : Alike parent n n') :
    LooksSame parent [n] [n'] where
  exprs := by
    rw [exprs, exprs, h.counts, h.expr]
    rfl
  decls := by
    rw [List.filter_singleton, List.filter_singleton, h.counts]
    rcases n'.counts <;> simp [h.decl]
  range := by simp [h.kind]
  childAt r := by
    rw [Go.childAt, Go.childAt, List.find?_singleton, List.find?_singleton, h.role]
    split_ifs
    · exact .some h
    · exact .none

theorem stmts_branch {r : Option Role} {k : Kind} {s : Nat} {cs cs' : List Node}
    (hstmts : stmts cs = stmts cs')
    (hstmt : (Node.branch r k s cs).stmt = (Node.branch r k s cs').stmt) :
    stmts [.branch r k s cs] = stmts [.branch r k s cs'] := by
  rw [stmts, stmts, hstmts, hstmt]
  rfl

/-- **One change cannot be seen**: the statements stay the same, and if the children are no
statements, so does all that can be seen of them. -/
theorem Edit.looksSame {kind : Kind} {statements : Bool} {ns ns' : List Node}
    (h : Edit kind statements ns ns') :
    stmts ns = stmts ns' ∧ (statements = false → LooksSame kind ns ns') := by
  induction h with
  | @comment kind statements before after c hc =>
    refine ⟨?_, fun _ => (hc.looksSame kind).amid before after⟩
    rw [← List.singleton_append, stmts_append, stmts_append, stmts_append, hc.stmts_eq,
      List.nil_append]
  | @group kind before inner after start =>
    refine ⟨?_, nofun⟩
    rw [← List.singleton_append, stmts_append, stmts_append, stmts_append, stmts_append, stmts,
      if_pos rfl, stmts, List.append_nil, List.append_assoc]
  | @inside kind inner statements before after role start children children' _ ih =>
    obtain ⟨hstmts, hsame⟩ := ih
    have halike := alike_branch start hstmts hsame
    refine ⟨?_, fun _ => halike.looksSame.amid before after⟩
    rw [← List.singleton_append, stmts_append, stmts_append, stmts_branch hstmts halike.stmt,
      ← stmts_append, ← stmts_append]
    rfl

/-! ## Any number of changes -/

theorem outline_eq_of_looksSame {nodes nodes' : List Node} (h : LooksSame .sourceFile nodes nodes') :
    outline nodes = outline nodes' := by
  rw [outline, outline, h.decls]

/-- **Comments and groups leave the outline as it is.**  Comments may be put anywhere or taken away,
and statement lists may be put around statements of any block or dissolved, at any depth and any
number of times: the file has the same syntax tree, and so the same entries. -/
theorem outline_eq_of_edited {nodes nodes' : List Node} (h : Edited nodes nodes') :
    outline nodes = outline nodes'
    ∧ Listing.entriesOf (outline nodes) = Listing.entriesOf (outline nodes') := by
  have houtline : outline nodes = outline nodes' := by
    induction h with
    | rel ns ns' hedit => exact outline_eq_of_looksSame (hedit.looksSame.2 rfl)
    | refl ns => rfl
    | symm ns ns' _ ih => exact ih.symm
    | trans ns ns' ns'' _ _ ih ih' => exact ih.trans ih'
  exact ⟨houtline, congrArg Listing.entriesOf houtline⟩

/-- The second function of the sample. -/
def sampleSecond : Node :=
  .branch none .functionDeclaration 148
    [.leaf (some .name) .identifier 153 "TestB", .branch (some .body) .block 161 []]

/-- The sample with other statements in its first block. -/
def sampleWith (statements : List Node) : List Node :=
  [.branch none .functionDeclaration 17
    [.leaf (some .name) .identifier 22 "TestA", .branch (some .body) .block 42 statements],
    sampleSecond]

theorem edited_sampleWith {statements statements' : List Node}
    (h : Edit .block true statements statements') :
    Edited (sampleWith statements) (sampleWith statements') :=
  .rel _ _ (.inside [] [sampleSecond] none 17
    (.inside [.leaf (some .name) .identifier 22 "TestA"] [] (some .body) 42 h))

/-- The sample's last statement, with some nodes between the two arguments of its call. -/
def sampleLast (between : List Node) : Node :=
  sampleRun 130
    (.leaf none .interpretedStringLiteral 136 "\"ü\"" :: between ++ [.leaf none .identifier 142 "f"])

/-- The first two statements of the sample. -/
def sampleTable : List Node := sampleBody.take 2

/-- The sample's statements, the first two in lists of two depths, and a comment in the last. -/
def regrouped : List Node :=
  [.branch none .statementList 45 [.branch none .statementList 45 sampleTable],
    sampleLast [.leaf none .comment 140 "//"]]

/-- The comment before the first function is gone, the list of its statements has given way to two
lists around the first two of them, and there is a comment between the arguments of the last: the
same four tests are found at the same places. -/
theorem regrouped_outline :
    Edited sampleNodes (sampleWith regrouped)
    ∧ outline sampleNodes = outline (sampleWith regrouped)
    ∧ (Listing.entriesOf (outline (sampleWith regrouped))).map (·.offset) = [56, 71, 130, 153] := by
  have huncommented : Edited sampleNodes (sampleWith [.branch none .statementList 45 sampleBody]) :=
    .symm _ _ (.rel _ _ (.comment [] _ ⟨rfl, rfl⟩))
  have hdissolved := edited_sampleWith (.group [] sampleBody [] 45)
  have hinner := edited_sampleWith (.group [] sampleTable [sampleLast []] 45)
  have houter := edited_sampleWith
    (.group [] [.branch none .statementList 45 sampleTable] [sampleLast []] 45)
  have hcommented : Edited _ (sampleWith regrouped) := edited_sampleWith
    (.inside [.branch none .statementList 45 [.branch none .statementList 45 sampleTable]] [] none
      130 (.inside [] [] none 130 (.inside [_] [] (some .arguments) 135
        (.comment [_] [.leaf none .identifier 142 "f"] ⟨rfl, rfl⟩))))
  have hedited : Edited sampleNodes (sampleWith regrouped) :=
    .trans _ _ _ huncommented (.trans _ _ _ (.symm _ _ hdissolved)
      (.trans _ _ _ hinner (.trans _ _ _ houter hcommented)))
  exact ⟨hedited, (outline_eq_of_edited hedited).1, by decide +kernel⟩

end TestCatalog.Go
