import TestCatalog.Go.Terminal
import TestCatalog.Parsing.Parse

/-!
# Go/Tokenizer — the next token of a text

The next token is the longest one among those the grammar expects.  Blanks and comments in front of
it are passed over, unless the end of a line is itself expected.
-/

namespace TestCatalog.Go

open Text (Regex isIdentifierStart isIdentifierPart)
open Parsing (TerminalSet Piece Token Lexed)

/-- A way to recognise a terminal at the front of a text. -/
inductive Lexeme where
  | signs (texts : List (List Char))
  | shape (r : Regex)

/-- The length of the longest match at the front of a text. -/
def Lexeme.longest (text : List Char) : Lexeme → Option Nat
  | .signs texts => ((texts.filter (·.isPrefixOf text)).map List.length).max?
  | .shape r => r.longest text

/-- The terminals other than words, with their lexemes. -/
def lexemes : List (Nat × Lexeme) :=
  (Terminal.signs.map fun (t, texts) => (t.index, .signs (texts.map String.toList)))
    ++ Terminal.shapes.map fun (t, r) => (t.index, .shape r)

/-- The longest of the expected terminals other than words at the front of a text. -/
def longestSign (expected : TerminalSet) (text : List Char) : Option (Nat × Nat) :=
  lexemes.foldl (fun best (t, lexeme) =>
    if expected.has t then
      match lexeme.longest text, best with
      | none, _ => best
      | some n, none => some (t, n)
      | some n, some (_, m) => if m < n then some (t, n) else best
    else best) none

/-- The terminal of a word.  A word with a terminal of its own is that terminal where it is
expected; elsewhere it is an identifier unless it is reserved. -/
def wordTerminal (expected : TerminalSet) (word : String) : Option Nat :=
  match Terminal.reservedWords.lookup word with
  | some t => if expected.has t.index then some t.index else none
  | none =>
    match Terminal.softWords.lookup word with
    | some t => if expected.has t.index then some t.index else identifier
    | none => identifier
where
  identifier :=
    if expected.has Terminal.identifier.index then some Terminal.identifier.index else none

/-- The terminal at the front of a text, and its length. -/
def terminalAt (expected : TerminalSet) (text : List Char) : Option (Nat × Nat) :=
  match text with
  | [] => none
  | c :: _ =>
    if isIdentifierStart c then
      let word := text.takeWhile isIdentifierPart
      (wordTerminal expected (String.ofList word)).map (·, word.length)
    else longestSign expected text

/-- The number of bytes of a text. -/
def byteLength (text : List Char) : Nat := text.foldl (fun n c => n + c.utf8Size) 0

/-- The first characters of a text as a piece at an offset. -/
def pieceAt (offset count : Nat) (text : List Char) : Piece :=
  ⟨offset, String.ofList (text.take count)⟩

/-- The next token of a text behind the comments passed over so far.  The first `skip` characters
belong to the last of these comments. -/
def nextTokenFrom (expected : TerminalSet) :
    Nat → List Piece → Nat → List Char → Except Nat Lexed
  | _, comments, offset, [] =>
    if expected.has Terminal.finish.index then
      .ok ⟨⟨Terminal.finish.index, ⟨offset, ""⟩, comments.reverse⟩, offset, []⟩
    else .error offset
  | skip + 1, comments, offset, c :: cs =>
    nextTokenFrom expected skip comments (offset + c.utf8Size) cs
  | 0, comments, offset, c :: cs =>
    match if c = '/' then Shape.comment.longest (c :: cs) else none with
    | some n =>
      nextTokenFrom expected (n - 1) (pieceAt offset n (c :: cs) :: comments)
        (offset + c.utf8Size) cs
    | none =>
      match terminalAt expected (c :: cs) with
      | some (t, n) =>
        .ok ⟨⟨t, pieceAt offset n (c :: cs), comments.reverse⟩,
          offset + byteLength ((c :: cs).take n), (c :: cs).drop n⟩
      | none =>
        if Shape.blanks.contains c then
          nextTokenFrom expected 0 comments (offset + c.utf8Size) cs
        else .error offset

/-- The next token of a text. -/
def nextToken : Parsing.Tokenizer := fun expected offset text =>
  nextTokenFrom expected 0 [] offset text

end TestCatalog.Go
