import TestCatalog.Proofs.Go.Checked

/-!
# Proofs/Go/Offsets — the offsets of a syntax tree follow the text

A syntax tree keeps offsets at names, literals, calls and composite literals.  Read from the front
(`Tree.offsets`), they never decrease, and those of one function lie before those of the next.  For
expressions this is what `Expr.Lies` says (`Expr.Lies.ascend`).  Of a loop `Stmt.Lies` says nothing,
so its body is followed back to the block that it is taken of (`block_of_range`), and the argument
goes along the nodes.

* `stmts_ascend` — the statements of a block, loops in loops included.
* `read_offsets_ascend` — the offsets of a whole tree.
-/

namespace TestCatalog

namespace Source

open Text (Ascend InOrder)

/-! ## The offsets of a tree -/

mutual

/-- The offsets in an expression: a call before what is called before the arguments, an operand
before its field, a key before its value. -/
def Expr.offsets : Expr → List Nat
  | .call callee arguments offset => offset :: (callee.offsets ++ exprsOffsets arguments)
  | .selector operand field => operand.offsets ++ [field.offset]
  | .composite elements offset => offset :: exprsOffsets elements
  | .keyed key value => key.offsets ++ value.offsets
  | .literal _ offset => [offset]
  | .ident i => [i.offset]
  | .other => []

/-- The offsets in expressions. -/
def exprsOffsets : List Expr → List Nat
  | [] => []
  | e :: es => e.offsets ++ exprsOffsets es

end

mutual

/-- The offsets in a statement: the left side of an assignment before the right. -/
def Stmt.offsets : Stmt → List Nat
  | .expr e => e.offsets
  | .assign left right => exprsOffsets left ++ exprsOffsets right
  | .range body => stmtsOffsets body
  | .other => []

/-- The offsets in statements. -/
def stmtsOffsets : List Stmt → List Nat
  | [] => []
  | s :: ss => s.offsets ++ stmtsOffsets ss

end

/-- The offsets in a function: its name before its body. -/
def Function.offsets (f : Function) : List Nat := f.name.offset :: stmtsOffsets f.body

/-- The offsets in a file. -/
def Tree.offsets (tree : Tree) : List Nat := tree.functions.flatMap Function.offsets

theorem exprsOffsets_eq (es : List Expr) : exprsOffsets es = es.flatMap Expr.offsets := by
  induction es with
  | nil => rfl
  | cons e es ih => rw [exprsOffsets, List.flatMap_cons, ih]

theorem stmtsOffsets_eq (ss : List Stmt) : stmtsOffsets ss = ss.flatMap Stmt.offsets := by
  induction ss with
  | nil => rfl
  | cons s ss ih => rw [stmtsOffsets, List.flatMap_cons, ih]

/-! ## Expressions -/

/-- What holds of an expression whenever it holds of its parts holds of all expressions. -/
theorem Expr.ind {motive : Expr → Prop}
    (call : ∀ callee arguments offset, motive callee → (∀ e ∈ arguments, motive e) →
      motive (.call callee arguments offset))
    (selector : ∀ operand field, motive operand → motive (.selector operand field))
    (composite : ∀ elements offset, (∀ e ∈ elements, motive e) →
      motive (.composite elements offset))
    (keyed : ∀ key value, motive key → motive value → motive (.keyed key value))
    (literal : ∀ text offset, motive (.literal text offset)) (ident : ∀ i, motive (.ident i))
    (other : motive .other) (e : Expr) : motive e :=
  @Expr.rec motive (fun es => ∀ e ∈ es, motive e) call selector composite keyed literal ident other
    nofun (fun _ _ he hes => List.forall_mem_cons.mpr ⟨he, hes⟩) e

section

variable {source : List Char}

theorem exprs_ascend {es : List Expr} {lo hi : Nat} (h : InOrder (Expr.Lies source) es lo hi)
    (hes : ∀ e ∈ es, ∀ {lo hi}, e.Lies source lo hi → Ascend e.offsets lo hi) :
    Ascend (exprsOffsets es) lo hi := by
  rw [exprsOffsets_eq]
  exact h.ascend fun e he _ _ => hes e he

/-- **The offsets of an expression ascend where it lies.** -/
theorem Expr.Lies.ascend {e : Expr} :
    ∀ {lo hi}, e.Lies source lo hi → Ascend e.offsets lo hi := by
  induction e using Expr.ind with
  | call callee arguments offset hcallee harguments =>
    rintro lo hi ⟨hlo, -, mid, stop, hstop, hhi, hfirst, hrest⟩
    have hparts := (hcallee hfirst).append (exprs_ascend (exprsLie_iff.mp hrest) harguments)
    exact (hparts.cons hlo hstop).mono (Nat.le_refl lo) hhi
  | selector operand field hoperand =>
    rintro lo hi ⟨start, mid, hlo, -, hfirst, hmid, hhi, -⟩
    exact ((hoperand hfirst).mono hlo (Nat.le_refl mid)).append (.singleton hmid hhi)
  | composite elements offset helements =>
    rintro lo hi ⟨hlo, stop, hstop, hhi, hrest⟩
    have hparts := exprs_ascend (exprsLie_iff.mp hrest) helements
    exact (hparts.cons hlo hstop).mono (Nat.le_refl lo) hhi
  | keyed key value hkey hvalue =>
    rintro lo hi ⟨start, mid, stop, hlo, -, hhi, hfirst, hrest⟩
    exact ((hkey hfirst).append (hvalue hrest)).mono hlo hhi
  | literal text offset =>
    rintro lo hi ⟨hlo, hhi, -⟩
    exact .singleton hlo hhi
  | ident i =>
    rintro lo hi ⟨-, hlo, hhi, -⟩
    exact .singleton hlo hhi
  | other => exact fun h => .nil h

/-- The offsets of a statement ascend where it lies, if those in the body of a loop do. -/
theorem Stmt.Lies.ascend {s : Stmt} {lo hi : Nat} (h : s.Lies source lo hi)
    (hbody : ∀ body, s = .range body → Ascend (stmtsOffsets body) lo hi) :
    Ascend s.offsets lo hi := by
  cases s with
  | expr e => exact Expr.Lies.ascend h
  | assign left right =>
    obtain ⟨mid, hleft, hright⟩ := h
    exact (exprs_ascend hleft fun _ _ => Expr.Lies.ascend).append
      (exprs_ascend hright fun _ _ => Expr.Lies.ascend)
  | range body => exact hbody body rfl
  | other => exact .nil h

end

end Source

namespace Go

open Source (Decl Function Stmt Tree functions_inOrder stmtsOffsets stmtsOffsets_eq)
open Text (Ascend InOrder Stretches stretches_ascend)

variable {source : List Char} {lo hi : Nat}

/-! ## Statements and loops -/

/-- **The body of a loop is taken of its block.** -/
theorem block_of_range {n : Node} {body : List Stmt} (h : n.stmt = .range body) :
    ∃ block, childAt .body n.children = some block ∧ body = stmts block.children := by
  cases n with
  | leaf r k s t => cases h
  | branch r k s cs =>
    unfold Node.stmt at h
    split at h
    case h_1 => split at h <;> cases h
    case h_2 | h_3 | h_5 => cases h
    case h_4 =>
      rw [stmtsAt_eq] at h
      cases hblock : childAt .body cs with
      | none =>
        rw [hblock] at h
        split_ifs at h
        cases h
      | some block =>
        rw [hblock] at h
        split_ifs at h
        exact ⟨block, hblock, (Stmt.range.inj h).symm⟩

/-- What a node and its children stand for has its offsets in order. -/
structure StmtPlaced (n : Node) (lo hi : Nat) : Prop where
  /-- The statement it stands for. -/
  stmt : Ascend n.stmt.offsets lo hi
  /-- The statements that its children stand for. -/
  inner : InOrder (fun s => Ascend s.offsets) (stmts n.children) lo hi

theorem StmtPlaced.ascend {n : Node} (h : StmtPlaced n lo hi) :
    Ascend (stmtsOffsets (stmts n.children)) lo hi := by
  rw [stmtsOffsets_eq]
  exact h.inner.ascend fun _ _ _ _ => id

/-- **The offsets of statements ascend where their nodes lie.** -/
theorem stmts_ascend (n : Node) : ∀ {lo hi}, n.Lies source lo hi → StmtPlaced n lo hi := by
  induction n using Node.ind with
  | leaf r k s t =>
    intro lo hi h
    have hle := (stretches_node source).le h
    exact ⟨.nil hle, hle⟩
  | branch r k s cs ih =>
    intro lo hi h
    obtain ⟨hlo, -, -, stop, hstop, hhi, hcs⟩ := id h
    have hwide : NodesLie source cs lo hi := hcs.mono hlo hhi
    refine ⟨(stmt_lies h).ascend fun body hbody => ?_, ?_⟩
    · obtain ⟨block, hblock, rfl⟩ := block_of_range hbody
      have hmem : block ∈ cs := List.mem_of_find?_eq_some hblock
      exact (ih block hmem (hwide.of_childAt hblock)).ascend
    · exact stmts_inOrder (stretches_ascend _) (fun n hn _ _ hn' => (ih n hn hn').stmt)
        (fun n hn _ _ hn' => (ih n hn hn').inner) hwide

/-! ## Functions -/

/-- A function lies in a stretch with its name before the offsets of its body. -/
def Headed (f : Function) (lo hi : Nat) : Prop :=
  ∃ mid, lo ≤ f.name.offset ∧ f.name.offset < mid ∧ Ascend (stmtsOffsets f.body) mid hi

theorem stretches_headed : Stretches Headed where
  le h := by
    obtain ⟨mid, hlo, hmid, hbody⟩ := h
    have hhi := hbody.le
    omega
  mono h hlo' hhi' := by
    obtain ⟨mid, hlo, hmid, hbody⟩ := h
    exact ⟨mid, Nat.le_trans hlo' hlo, hmid, hbody.mono (Nat.le_refl mid) hhi'⟩

theorem Headed.name_lt {f : Function} (h : Headed f lo hi) :
    ∀ n ∈ stmtsOffsets f.body, f.name.offset < n := by
  obtain ⟨mid, -, hmid, hbody⟩ := h
  exact fun n hn => Nat.lt_of_lt_of_le hmid (hbody.bounds n hn).1

theorem Headed.ascend {f : Function} (h : Headed f lo hi) : Ascend f.offsets lo hi := by
  obtain ⟨mid, hlo, hmid, hbody⟩ := h
  exact (hbody.mono (Nat.le_of_lt hmid) (Nat.le_refl hi)).cons hlo
    (Nat.lt_of_lt_of_le hmid hbody.le)

/-- **The name of a function lies before its body.** -/
theorem headed_of_decl {n : Node} {f : Function} (hf : n.decl = .function f)
    (h : n.Lies source lo hi) : Headed f lo hi := by
  obtain ⟨mid, ⟨hlo, hmid, -⟩, hbody⟩ := function_parts hf h
  refine ⟨mid, hlo, hmid, ?_⟩
  rcases hbody with ⟨hnone, hle⟩ | ⟨block, hblock, hstmts⟩
  · rw [hnone]
    exact .nil hle
  · rw [hstmts]
    exact (stmts_ascend block hblock).ascend

/-- A declaration that, if it is of a function, has the name first. -/
def HeadedDecl (d : Decl) (lo hi : Nat) : Prop := lo ≤ hi ∧ ∀ f, d = .function f → Headed f lo hi

theorem stretches_headedDecl : Stretches HeadedDecl where
  le h := h.1
  mono h hlo' hhi' := ⟨Nat.le_trans hlo' (Nat.le_trans h.1 hhi'), fun f hf =>
    stretches_headed.mono (h.2 f hf) hlo' hhi'⟩

/-- The functions of a text follow each other. -/
theorem headed_functions {text : String} {tree : Tree} (h : Outlines text tree) :
    InOrder Headed tree.functions 0 (byteLength text.toList) := by
  obtain ⟨nodes, hplaced, rfl⟩ := h
  have hdecls : InOrder HeadedDecl (outline nodes).decls 0 (byteLength text.toList) :=
    NodesLie.map_counting hplaced fun n _ a b hn =>
      ⟨(stretches_node text.toList).le hn, fun f hf => headed_of_decl hf hn⟩
  exact functions_inOrder stretches_headedDecl stretches_headed (fun f _ _ h => h.2 f rfl) hdecls

/-- **The offsets of a syntax tree follow the text.**  Read from the front they never decrease.  The
name of each function is before all that is in its body, and both are before the name of every later
function. -/
theorem read_offsets_ascend {text : String} {tree : Tree}
    (htree : read text = .ok tree ∨ Outlines text tree) :
    tree.offsets.Pairwise (· ≤ ·)
    ∧ (∀ f ∈ tree.functions, ∀ n ∈ stmtsOffsets f.body, f.name.offset < n)
    ∧ tree.functions.Pairwise fun f later => ∀ n ∈ f.offsets, n < later.name.offset := by
  have hfunctions := headed_functions (htree.elim outlines_of_read id)
  refine ⟨(hfunctions.ascend fun f _ _ _ => Headed.ascend).sorted, fun f hf => ?_, ?_⟩
  · exact (hfunctions.of_mem stretches_headed hf).name_lt
  · refine (hfunctions.pairwise stretches_headed).imp ?_
    rintro f later ⟨mid, hf, next, hlater, -⟩ n hn
    exact Nat.lt_of_lt_of_le (hf.ascend.bounds n hn).2 hlater

theorem sample_offsets :
    Outlines sampleText (outline sampleNodes)
      ∧ (outline sampleNodes).offsets = [22, 45, 51, 55, 56, 62, 70, 71, 77, 109, 109, 111, 115,
        117, 123, 130, 130, 132, 136, 142, 153]
      ∧ (outline sampleNodes).offsets.Pairwise (· ≤ ·)
      ∧ (∀ f ∈ (outline sampleNodes).functions, ∀ n ∈ stmtsOffsets f.body, f.name.offset < n)
      ∧ (outline sampleNodes).functions.Pairwise fun f later =>
        ∀ n ∈ f.offsets, n < later.name.offset :=
  ⟨sample_outlines, rfl, read_offsets_ascend (.inr sample_outlines)⟩

end Go

end TestCatalog
