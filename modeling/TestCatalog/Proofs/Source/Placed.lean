import TestCatalog.Proofs.Go.Token
import TestCatalog.Proofs.Text.Stretch
import TestCatalog.Source.Tree

/-!
# Proofs/Source/Placed — syntax trees that are placed in a text

A syntax tree keeps the offsets of some of its parts.  `Tree.Lies` says that they are right: names
and literals stand at their offsets, a call starts where the name it is called by starts, and parts
that follow each other in the tree do so in the text.  What is inside a loop is never reported, so
nothing is asked of it.
-/

namespace TestCatalog.Source

open Go (IsLiteral byteLength)
open Text (InOrder StandsAt Stretches)

/-- A name lies where it stands. -/
def Ident.Lies (source : List Char) (i : Ident) (lo hi : Nat) : Prop :=
  lo ≤ i.offset ∧ i.offset < hi ∧ StandsAt source i.offset i.name

/-- The offset at which an expression starts, where the tree has it. -/
def Expr.start? : Expr → Option Nat
  | .call _ _ offset | .composite _ offset | .literal _ offset => some offset
  | .selector operand _ => operand.start?
  | .keyed key _ => key.start?
  | .ident i => some i.offset
  | .other => none

mutual

/-- **An expression lies in a stretch of the text.** -/
def Expr.Lies (source : List Char) : Expr → Nat → Nat → Prop
  | .call callee arguments offset, lo, hi => lo ≤ offset ∧ (∀ n ∈ callee.start?, n = offset)
    ∧ ∃ mid stop, offset < stop ∧ stop ≤ hi ∧ callee.Lies source offset mid
      ∧ ExprsLie source arguments mid stop
  | .selector operand field, lo, hi => ∃ start mid, lo ≤ start ∧ start ≤ mid
    ∧ operand.Lies source start mid ∧ field.Lies source mid hi
  | .composite elements offset, lo, hi =>
    lo ≤ offset ∧ ∃ stop, offset < stop ∧ stop ≤ hi ∧ ExprsLie source elements offset stop
  | .keyed key value, lo, hi => ∃ start mid stop, lo ≤ start ∧ start ≤ stop ∧ stop ≤ hi
    ∧ key.Lies source start mid ∧ value.Lies source mid stop
  | .literal text offset, lo, hi =>
    lo ≤ offset ∧ offset < hi ∧ StandsAt source offset text ∧ IsLiteral text
  | .ident i, lo, hi => i.name ≠ "" ∧ i.Lies source lo hi
  | .other, lo, hi => lo ≤ hi

/-- Expressions lie one after another in a stretch of the text. -/
def ExprsLie (source : List Char) : List Expr → Nat → Nat → Prop
  | [], lo, hi => lo ≤ hi
  | e :: es, lo, hi => ∃ mid, e.Lies source lo mid ∧ ExprsLie source es mid hi

end

/-- A statement lies in a stretch of the text. -/
def Stmt.Lies (source : List Char) : Stmt → Nat → Nat → Prop
  | .expr e, lo, hi => e.Lies source lo hi
  | .assign left right, lo, hi => ∃ mid, InOrder (Expr.Lies source) left lo mid
    ∧ InOrder (Expr.Lies source) right mid hi
  | .range _, lo, hi | .other, lo, hi => lo ≤ hi

/-- A function lies in a stretch of the text: its name, and behind it the statements. -/
def Function.Lies (source : List Char) (f : Function) (lo hi : Nat) : Prop :=
  ∃ mid, f.name.Lies source lo mid ∧ InOrder (Stmt.Lies source) f.body mid hi

/-- A declaration lies in a stretch of the text. -/
def Decl.Lies (source : List Char) : Decl → Nat → Nat → Prop
  | .function f, lo, hi => f.Lies source lo hi
  | .other, lo, hi => lo ≤ hi

/-- **A syntax tree is placed in a text**: its declarations lie there one after another. -/
def Tree.Lies (tree : Tree) (text : String) : Prop :=
  InOrder (Decl.Lies text.toList) tree.decls 0 (byteLength text.toList)

/-! ## Stretches -/

section

variable {source : List Char}

theorem exprsLie_iff {es : List Expr} {lo hi : Nat} :
    ExprsLie source es lo hi ↔ InOrder (Expr.Lies source) es lo hi := by
  induction es generalizing lo with
  | nil => rfl
  | cons e es ih =>
    rw [ExprsLie, InOrder]
    exact exists_congr fun mid => and_congr_right fun _ => ih

theorem stretches_ident (source : List Char) : Stretches (Ident.Lies source) where
  le h := by
    obtain ⟨hlo, hhi, -⟩ := h
    omega
  mono h hlo' hhi' := by
    obtain ⟨hlo, hhi, h⟩ := h
    exact ⟨by omega, by omega, h⟩

theorem stretches_expr (source : List Char) : Stretches (Expr.Lies source) where
  le {e lo hi} h := by
    cases e with
    | call callee arguments offset =>
      obtain ⟨hlo, -, mid, stop, hstop, hhi, -⟩ := h
      omega
    | selector operand field =>
      obtain ⟨start, mid, hlo, hmid, -, hfield⟩ := h
      have hhi := (stretches_ident source).le hfield
      omega
    | composite elements offset =>
      obtain ⟨hlo, stop, hstop, hhi, -⟩ := h
      omega
    | keyed key value =>
      obtain ⟨start, mid, stop, hlo, hstop, hhi, -⟩ := h
      omega
    | literal text offset =>
      obtain ⟨hlo, hhi, -⟩ := h
      omega
    | ident i => exact (stretches_ident source).le h.2
    | other => exact h
  mono {e lo lo' hi hi'} h hlo' hhi' := by
    cases e with
    | call callee arguments offset =>
      obtain ⟨hlo, hstart, mid, stop, hstop, hhi, h⟩ := h
      exact ⟨by omega, hstart, mid, stop, hstop, by omega, h⟩
    | selector operand field =>
      obtain ⟨start, mid, hlo, hmid, hoperand, hfield⟩ := h
      exact ⟨start, mid, by omega, hmid, hoperand,
        (stretches_ident source).mono hfield (Nat.le_refl mid) hhi'⟩
    | composite elements offset =>
      obtain ⟨hlo, stop, hstop, hhi, h⟩ := h
      exact ⟨by omega, stop, hstop, by omega, h⟩
    | keyed key value =>
      obtain ⟨start, mid, stop, hlo, hstop, hhi, h⟩ := h
      exact ⟨start, mid, stop, by omega, hstop, by omega, h⟩
    | literal text offset =>
      obtain ⟨hlo, hhi, h⟩ := h
      exact ⟨by omega, by omega, h⟩
    | ident i => exact ⟨h.1, (stretches_ident source).mono h.2 hlo' hhi'⟩
    | other => exact Nat.le_trans hlo' (Nat.le_trans h hhi')

theorem stretches_stmt (source : List Char) : Stretches (Stmt.Lies source) where
  le {s lo hi} h := by
    cases s with
    | expr e => exact (stretches_expr source).le h
    | assign left right =>
      obtain ⟨mid, hleft, hright⟩ := h
      exact Nat.le_trans (hleft.le (stretches_expr source)) (hright.le (stretches_expr source))
    | range body => exact h
    | other => exact h
  mono {s lo lo' hi hi'} h hlo' hhi' := by
    cases s with
    | expr e => exact (stretches_expr source).mono h hlo' hhi'
    | assign left right =>
      obtain ⟨mid, hleft, hright⟩ := h
      exact ⟨mid, hleft.mono (stretches_expr source) hlo' (Nat.le_refl mid),
        hright.mono (stretches_expr source) (Nat.le_refl mid) hhi'⟩
    | range body => exact Nat.le_trans hlo' (Nat.le_trans h hhi')
    | other => exact Nat.le_trans hlo' (Nat.le_trans h hhi')

theorem stretches_function (source : List Char) : Stretches (Function.Lies source) where
  le h := by
    obtain ⟨mid, hname, hbody⟩ := h
    exact Nat.le_trans ((stretches_ident source).le hname) (hbody.le (stretches_stmt source))
  mono h hlo' hhi' := by
    obtain ⟨mid, hname, hbody⟩ := h
    exact ⟨mid, (stretches_ident source).mono hname hlo' (Nat.le_refl mid),
      hbody.mono (stretches_stmt source) (Nat.le_refl mid) hhi'⟩

theorem stretches_decl (source : List Char) : Stretches (Decl.Lies source) where
  le {d lo hi} h := by
    cases d with
    | function f => exact (stretches_function source).le h
    | other => exact h
  mono {d lo lo' hi hi'} h hlo' hhi' := by
    cases d with
    | function f => exact (stretches_function source).mono h hlo' hhi'
    | other => exact Nat.le_trans hlo' (Nat.le_trans h hhi')

/-- What declarations in order say of the functions among them, it says of these in order. -/
theorem functions_inOrder {P : Decl → Nat → Nat → Prop} {Q : Function → Nat → Nat → Prop}
    (hP : Stretches P) (hQ : Stretches Q) (hfunction : ∀ f a b, P (.function f) a b → Q f a b)
    {tree : Tree} {lo hi : Nat} (h : InOrder P tree.decls lo hi) :
    InOrder Q tree.functions lo hi := by
  refine InOrder.filterMap hP hQ h fun d _ f hf a b hd => ?_
  cases d with
  | function g =>
    obtain rfl := Option.some.inj hf
    exact hfunction g a b hd
  | other => cases hf

/-- **The functions of a tree lie one after another.** -/
theorem Tree.Lies.functions {tree : Tree} {text : String} (h : tree.Lies text) :
    InOrder (Function.Lies text.toList) tree.functions 0 (byteLength text.toList) :=
  functions_inOrder (stretches_decl _) (stretches_function _) (fun _ _ _ => id) h

end

end TestCatalog.Source
