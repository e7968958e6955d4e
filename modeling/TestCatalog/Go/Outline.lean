import TestCatalog.Go.Node
import TestCatalog.Source.Tree

/-!
# Go/Outline — from nodes to syntax trees

The part of a concrete syntax tree that the catalog looks at.  Signs and comments never matter, and
statement lists inside a block are taken apart at any depth.
-/

namespace TestCatalog.Go

open Source (Ident Expr Stmt Function Decl Tree)

/-- The name a node stands for. -/
def Node.ident (n : Node) : Ident := ⟨n.text, n.start⟩

/-- The first child that plays a part. -/
def childAt (r : Role) (children : List Node) : Option Node :=
  children.find? (·.role = some r)

mutual

/-- The expression a node stands for. -/
def Node.expr : Node → Expr
  | .leaf _ kind start text =>
    match kind with
    | .numberLiteral | .runeLiteral | .rawStringLiteral | .interpretedStringLiteral =>
      .literal text start
    | .identifier | .fieldIdentifier => .ident ⟨text, start⟩
    | _ => .other
  | .branch _ kind start children =>
    match kind with
    | .literalElement => (firstExpr children).getD .other
    | .callExpression =>
      match exprAt .function children with
      | some callee => .call callee (innerExprsAt .arguments children) start
      | none => .other
    | .selectorExpression =>
      match exprAt .operand children, childAt .field children with
      | some operand, some field => .selector operand field.ident
      | _, _ => .other
    | .compositeLiteral => .composite (innerExprsAt .body children) start
    | .literalValue => .composite (exprs children) start
    | .keyedElement =>
      match exprAt .key children <|> firstExpr children,
          exprAt .value children <|> lastExpr children with
      | some key, some value => .keyed key value
      | _, _ => .other
    | _ => .other

/-- The expressions the children stand for. -/
def exprs : List Node → List Expr
  | [] => []
  | n :: ns => if n.counts then n.expr :: exprs ns else exprs ns

/-- The expression the first child stands for. -/
def firstExpr : List Node → Option Expr
  | [] => none
  | n :: ns => if n.counts then some n.expr else firstExpr ns

/-- The expression the last child stands for. -/
def lastExpr : List Node → Option Expr
  | [] => none
  | n :: ns =>
    match lastExpr ns with
    | some e => some e
    | none => if n.counts then some n.expr else none

/-- The expression the child that plays a part stands for. -/
def exprAt (r : Role) : List Node → Option Expr
  | [] => none
  | n :: ns => if n.role = some r then some n.expr else exprAt r ns

/-- The expressions inside the child that plays a part. -/
def innerExprsAt (r : Role) : List Node → List Expr
  | [] => []
  | .leaf s _ _ _ :: ns => if s = some r then [] else innerExprsAt r ns
  | .branch s _ _ children :: ns => if s = some r then exprs children else innerExprsAt r ns

end

/-- The expressions of one side of an assignment. -/
def exprsAt (r : Role) (children : List Node) : List Expr :=
  match childAt r children with
  | none => []
  | some (.branch _ .expressionList _ inner) => exprs inner
  | some n => [n.expr]

mutual

/-- The statement a node stands for. -/
def Node.stmt : Node → Stmt
  | .leaf _ _ _ _ => .other
  | .branch _ kind _ children =>
    match kind with
    | .expressionStatement =>
      match firstExpr children with
      | some e => .expr e
      | none => .other
    | .shortVarDeclaration | .assignmentStatement =>
      .assign (exprsAt .left children) (exprsAt .right children)
    | .forStatement =>
      if children.any (·.kind = .rangeClause) then
        match stmtsAt .body children with
        | some body => .range body
        | none => .other
      else .other
    | _ => .other

/-- The statements the children of a block stand for. -/
def stmts : List Node → List Stmt
  | [] => []
  | .leaf r k s t :: ns =>
    if (Node.leaf r k s t).counts then .other :: stmts ns else stmts ns
  | .branch r k s children :: ns =>
    if k = .statementList then stmts children ++ stmts ns
    else if (Node.branch r k s children).counts then (Node.branch r k s children).stmt :: stmts ns
    else stmts ns

/-- The statements of the block that plays a part. -/
def stmtsAt (r : Role) : List Node → Option (List Stmt)
  | [] => none
  | .leaf s _ _ _ :: ns => if s = some r then some [] else stmtsAt r ns
  | .branch s _ _ children :: ns => if s = some r then some (stmts children) else stmtsAt r ns

end

/-- The declaration a node stands for. -/
def Node.decl : Node → Decl
  | .branch _ .functionDeclaration _ children =>
    match childAt .name children with
    | some name => .function ⟨name.ident, (stmtsAt .body children).getD []⟩
    | none => .other
  | _ => .other

/-- The source file whose top-level nodes are given. -/
def outline (nodes : List Node) : Tree := ⟨(nodes.filter (·.counts)).map (·.decl)⟩

end TestCatalog.Go
