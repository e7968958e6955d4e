import TestCatalog.Parsing.Frontier

/-!
# Parsing/Parse — all readings of a text, and the best of them

The text is read by a tokenizer that is told which terminals may come next, so readings that differ
in what they expect may take different tokens from the same text.  The frontiers are processed in
the order of their places.  The text has a reading if one of them gets behind the terminal that
stands for the end of the text; of several the one of the highest score is taken.
-/

namespace TestCatalog.Parsing

/-- A token, the offset behind it, and the text from there. -/
structure Lexed where
  token : Token
  stop : Nat
  rest : List Char

/-- Whether two tokens taken from the same text are the same. -/
def Lexed.same (a b : Lexed) : Bool :=
  a.token.terminal == b.token.terminal && a.token.piece.start == b.token.piece.start
    && a.stop == b.stop

/-- Takes the next token from a text that starts at an offset, given the terminals that may come
next.  If there is none, the offset of the text that cannot be read is the answer. -/
abbrev Tokenizer := TerminalSet → Nat → List Char → Except Nat Lexed

/-- The readings that have come to one place, and the text behind it. -/
structure Front where
  stop : Nat
  rest : List Char
  tops : List Stack

/-- Adds a reading at its place, keeping the places in ascending order. -/
def Front.insert (lexed : Lexed) (state : State) (e : Edge Stack) : List Front → List Front
  | [] => [⟨lexed.stop, lexed.rest, [.node state lexed.stop [e]]⟩]
  | f :: fs =>
    if lexed.stop < f.stop then
      ⟨lexed.stop, lexed.rest, [.node state lexed.stop [e]]⟩ :: f :: fs
    else if lexed.stop = f.stop then
      { f with tops := (addEdge f.stop state e f.tops).1 } :: fs
    else f :: Front.insert lexed state e fs

/-- The readings of one place by the token they take from the text. -/
def Front.byToken (tables : Tables) (next : Tokenizer) (front : Front) :
    List (Lexed × List Stack) :=
  front.tops.foldl (fun groups s =>
    match next (tables.expected s.state) front.stop front.rest with
    | .error _ => groups
    | .ok lexed =>
      if groups.any (·.1.same lexed) then
        groups.map fun g => if g.1.same lexed then (g.1, g.2 ++ [s]) else g
      else groups ++ [(lexed, [s])]) []

/-- The offset at which a place cannot be read on, the last one if readings differ. -/
def Front.failure (tables : Tables) (next : Tokenizer) (front : Front) : Nat :=
  (front.tops.map fun s =>
    match next (tables.expected s.state) front.stop front.rest with
    | .error offset => offset
    | .ok lexed => lexed.token.piece.start).foldl max front.stop

/-- A grammar, how its terminals are read, and the productions of a whole text. -/
structure Language where
  tables : Tables
  next : Tokenizer
  starts : List Nat
  /-- The terminal that stands for the end of the text, the last part of those productions. -/
  finish : Nat

namespace Language

variable (language : Language)

/-- The readings of the whole text that end with an edge: those that leave nothing below. -/
def wholes (e : Edge Stack) : List (Derivation × Int) :=
  language.starts.flatMap fun p =>
    let parts := (language.tables.production p).parts
    (Stack.extend (parts.length - 1) ⟨[e.tree], e.weight, e.below⟩).filterMap fun path =>
      if path.base.edges.isEmpty &&
          path.parts.map (·.symbol language.tables.productions) = parts then
        some (.node p path.parts, path.weight)
      else none

/-- The reading of the highest score, the first of several. -/
def best : List (Derivation × Int) → Option Derivation
  | [] => none
  | r :: rest => some (rest.foldl (fun b c => if b.2 < c.2 then c else b) r).1

/-- Reads on from the first of the places.  The answer is a reading of the whole text, or the offset
at which the text cannot be read. -/
def run : Nat → Front → List Front → Except Nat Derivation
  | 0, front, _ => .error front.stop
  | fuel + 1, front, later =>
    let new := (front.byToken language.tables language.next).flatMap fun (lexed, tops) =>
      (language.tables.read lexed.token front.stop tops).map (lexed, ·)
    let whole := new.flatMap fun (lexed, _, e) =>
      if lexed.token.terminal = language.finish then language.wholes e else []
    match best whole with
    | some tree => .ok tree
    | none =>
      match new.foldl (fun acc (lexed, state, e) => Front.insert lexed state e acc) later with
      | [] => .error (front.failure language.tables language.next)
      | front :: later => run fuel front later

/-- Reads a text that starts at an offset. -/
def parse (offset : Nat) (text : List Char) : Except Nat Derivation :=
  language.run (text.length + 2)
    ⟨offset, text, [.node (language.tables.initial language.starts) offset []]⟩ []

end Language

end TestCatalog.Parsing
