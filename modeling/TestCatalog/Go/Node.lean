import TestCatalog.Go.Grammar

/-!
# Go/Node — from derivations to syntax nodes

A node has a kind, the offset at which it starts, the part it plays in its parent, and either a text
or children.  Derivations become nodes by leaving out hidden categories and repetitions, whose
children go to the node around them.  Comments stand among the children, before the token they
precede.
-/

namespace TestCatalog.Go

open Parsing (Derivation Piece)

/-- A node of a concrete syntax tree. -/
inductive Node where
  | leaf (role : Option Role) (kind : Kind) (start : Nat) (text : String)
  | branch (role : Option Role) (kind : Kind) (start : Nat) (children : List Node)
deriving Repr, Inhabited

namespace Node

/-- The part the node plays in its parent. -/
def role : Node → Option Role
  | .leaf r _ _ _ | .branch r _ _ _ => r

/-- The kind of the node. -/
def kind : Node → Kind
  | .leaf _ k _ _ | .branch _ k _ _ => k

/-- The offset of the first byte of the node. -/
def start : Node → Nat
  | .leaf _ _ n _ | .branch _ _ n _ => n

/-- The text of a leaf. -/
def text : Node → String
  | .leaf _ _ _ s => s
  | .branch _ _ _ _ => ""

/-- Whether the node counts as a child: it is neither a sign nor a comment. -/
def counts (n : Node) : Bool := n.kind.isNamed && n.kind ≠ .comment

/-- Gives the node a role if it counts and has none. -/
def playing (r : Option Role) : Node → Node
  | .leaf s k n t => .leaf (if k.isNamed && k ≠ .comment then s <|> r else s) k n t
  | .branch s k n cs => .branch (s <|> r) k n cs

/-- A comment. -/
def comment (p : Piece) : Node := .leaf none .comment p.start p.text

end Node

/-- The kinds of the leaves that are not signs. -/
def leafKinds : List (Nat × Kind) :=
  ([.identifier, .makerWord, .blankWord, .number, .rune, .rawText, .quotedText, .constantWord] :
    List Terminal).map fun t => (t.index, t.kind)

/-- The kind of leaf a numbered terminal makes. -/
def leafKind (terminal : Nat) : Kind := (leafKinds.lookup terminal).getD .punctuation

mutual

/-- The nodes of a derivation that has a mark in its production. -/
def nodes (mark : Mark) : Derivation → List Node
  | .leaf t =>
    t.comments.map Node.comment
      ++ [.leaf mark.role (mark.label.getD (leafKind t.terminal)) t.piece.start t.piece.text]
  | .node p parts =>
    let rule := markedProductions.getD p default
    let children := nodesOfParts rule.marks parts
    match rule.kind with
    | none => children
    | some k =>
      if k.isHidden then children.map (·.playing mark.role)
      else [.branch mark.role (mark.label.getD k) (Derivation.node p parts).start children]

/-- The nodes of the parts of a production. -/
def nodesOfParts : List Mark → List Derivation → List Node
  | _, [] => []
  | [], d :: ds => nodes {} d ++ nodesOfParts [] ds
  | m :: ms, d :: ds => nodes m d ++ nodesOfParts ms ds

end

end TestCatalog.Go
