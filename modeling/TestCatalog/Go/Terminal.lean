import TestCatalog.Text.Regex
import TestCatalog.Text.Letters
import TestCatalog.Parsing.Production

/-!
# Go/Terminal — the terminals of Go

Signs and words that play the same part everywhere in the grammar are one terminal with several
spellings.  A reserved word is never an identifier; the other words with a terminal of their own are
identifiers wherever the grammar has no use for that terminal.
-/

namespace TestCatalog.Go

open Text (Regex)
open Text.Regex (lit oneOf noneOf all any opt times)

/-- The terminals of the grammar. -/
inductive Terminal where
  | finish
  | lineEnd
  | semicolon
  | comma
  | colon
  | dot
  | ellipsis
  | openParen
  | closeParen
  | openBracket
  | closeBracket
  | openBrace
  | closeBrace
  | assign
  | define
  | updateSign
  | increment
  | decrement
  | arrow
  | star
  | ampersand
  | factorSign
  | signSign
  | bar
  | tilde
  | bang
  | compareSign
  | bothSign
  | eitherSign
  | breakWord
  | caseWord
  | chanWord
  | constWord
  | continueWord
  | defaultWord
  | deferWord
  | elseWord
  | fallthroughWord
  | forWord
  | funcWord
  | goWord
  | gotoWord
  | ifWord
  | importWord
  | interfaceWord
  | mapWord
  | packageWord
  | rangeWord
  | returnWord
  | selectWord
  | structWord
  | switchWord
  | typeWord
  | varWord
  | blankWord
  | makerWord
  | constantWord
  | identifier
  | number
  | rune
  | rawText
  | quotedText
deriving DecidableEq, Repr, Inhabited

namespace Terminal

/-- The number of the terminal in the parser's tables. -/
def index (t : Terminal) : Nat := t.ctorIdx

/-- The number of terminals. -/
def count : Nat := quotedText.index + 1

/-- The texts of the terminals that are signs. -/
def signs : List (Terminal × List String) :=
  [ (.lineEnd, ["\n", "\x00"]), (.semicolon, [";"]), (.comma, [","]), (.colon, [":"]),
    (.dot, ["."]), (.ellipsis, ["..."]), (.openParen, ["("]), (.closeParen, [")"]),
    (.openBracket, ["["]), (.closeBracket, ["]"]), (.openBrace, ["\x7b"]), (.closeBrace, ["\x7d"]),
    (.assign, ["="]), (.define, [":="]),
    (.updateSign, ["*=", "/=", "%=", "<<=", ">>=", "&=", "&^=", "+=", "-=", "|=", "^="]),
    (.increment, ["++"]), (.decrement, ["--"]), (.arrow, ["<-"]), (.star, ["*"]),
    (.ampersand, ["&"]), (.factorSign, ["/", "%", "<<", ">>", "&^"]), (.signSign, ["+", "-", "^"]),
    (.bar, ["|"]), (.tilde, ["~"]), (.bang, ["!"]),
    (.compareSign, ["==", "!=", "<", "<=", ">", ">="]), (.bothSign, ["&&"]), (.eitherSign, ["||"]) ]

/-- The reserved words. -/
def reservedWords : List (String × Terminal) :=
  [ ("break", .breakWord), ("case", .caseWord), ("chan", .chanWord), ("const", .constWord),
    ("continue", .continueWord), ("default", .defaultWord), ("defer", .deferWord),
    ("else", .elseWord), ("fallthrough", .fallthroughWord), ("for", .forWord), ("func", .funcWord),
    ("go", .goWord), ("goto", .gotoWord), ("if", .ifWord), ("import", .importWord),
    ("interface", .interfaceWord), ("map", .mapWord), ("package", .packageWord),
    ("range", .rangeWord), ("return", .returnWord), ("select", .selectWord),
    ("struct", .structWord), ("switch", .switchWord), ("type", .typeWord), ("var", .varWord) ]

/-- The words that are identifiers where the grammar has no other use for them. -/
def softWords : List (String × Terminal) :=
  [ ("_", .blankWord), ("new", .makerWord), ("make", .makerWord), ("nil", .constantWord),
    ("true", .constantWord), ("false", .constantWord), ("iota", .constantWord) ]

end Terminal

/-! ## Shapes of literals and comments -/

namespace Shape

/-- A decimal digit. -/
def decimalDigit : Regex := .char (.range '0' '9')

/-- An octal digit. -/
def octalDigit : Regex := .char (.range '0' '7')

/-- A hexadecimal digit. -/
def hexDigit : Regex :=
  .char (.either (.range '0' '9') (.either (.range 'a' 'f') (.range 'A' 'F')))

/-- Digits, where one underscore may stand between two of them. -/
def digits (digit : Regex) : Regex :=
  .seq digit (.star (.seq (opt (lit '_')) digit))

/-- A whole number: binary, decimal, octal or hexadecimal. -/
def int : Regex :=
  any [
    all [lit '0', oneOf ['b', 'B'], opt (lit '_'), digits (oneOf ['0', '1'])],
    lit '0',
    all [.char (.range '1' '9'), opt (all [opt (lit '_'), digits decimalDigit])],
    all [lit '0', opt (oneOf ['o', 'O']), opt (lit '_'), digits octalDigit],
    all [lit '0', oneOf ['x', 'X'], opt (lit '_'), digits hexDigit] ]

/-- The exponent of a number, behind one of two letters. -/
def exponent (letters : List Char) : Regex :=
  all [oneOf letters, opt (oneOf ['+', '-']), digits decimalDigit]

/-- A number with a fraction or an exponent. -/
def float : Regex :=
  any [
    all [digits decimalDigit, lit '.', opt (digits decimalDigit), opt (exponent ['e', 'E'])],
    all [digits decimalDigit, exponent ['e', 'E']],
    all [lit '.', digits decimalDigit, opt (exponent ['e', 'E'])],
    all [lit '0', oneOf ['x', 'X'],
      any [
        all [opt (lit '_'), digits hexDigit, lit '.', opt (digits hexDigit)],
        all [opt (lit '_'), digits hexDigit],
        all [lit '.', digits hexDigit] ],
      exponent ['p', 'P']] ]

/-- A number: whole, with a fraction, or imaginary. -/
def number : Regex :=
  any [int, float, all [any [digits decimalDigit, int, float], lit 'i']]

/-- A character between single quotes. -/
def rune : Regex :=
  all [lit '\'',
    any [
      noneOf ['\'', '\\'],
      all [lit '\\',
        any [
          all [lit 'x', times hexDigit 2],
          times octalDigit 3,
          all [lit 'u', times hexDigit 4],
          all [lit 'U', times hexDigit 8],
          oneOf ['a', 'b', 'f', 'n', 'r', 't', 'v', '\\', '\'', '"'] ]] ],
    lit '\'']

/-- Text between backquotes, as it stands. -/
def rawText : Regex :=
  all [lit '\x60', .star (noneOf ['\x60']), lit '\x60']

/-- A comment to the end of the line. -/
def lineComment : Regex :=
  all [lit '/', lit '/', .star (noneOf ['\n'])]

/-- A comment between its two marks. -/
def blockComment : Regex :=
  let stars := Regex.seq (lit '*') (.star (lit '*'))
  let others := Regex.star (noneOf ['*'])
  all [lit '/', lit '*', others, stars,
    .star (all [noneOf ['/', '*'], others, stars]), lit '/']

/-- A comment. -/
def comment : Regex := .alt lineComment blockComment

/-- The characters between tokens that carry no meaning. -/
def blanks : List Char := [' ', '\t', '\n', '\x0b', '\x0c', '\r']

/-- Text between double quotes, with escapes.  A line ends inside it only where comments follow, the
last of which ends with its mark. -/
def quotedText : Regex :=
  let blank := Regex.star (oneOf blanks)
  let brk := all [lit '\n', blank, .star (all [lineComment, lit '\n', blank]), blockComment]
  let escape := all [lit '\\',
    any [
      noneOf ['x', 'u', 'U'],
      all [lit 'x', times hexDigit 2],
      all [lit 'u', times hexDigit 4],
      all [lit 'U', times hexDigit 8] ]]
  all [lit '"', .star (any [noneOf ['"', '\n', '\\'], escape, brk]), lit '"']

end Shape

/-- The terminals that are described by a shape. -/
def Terminal.shapes : List (Terminal × Regex) :=
  [ (.number, Shape.number), (.rune, Shape.rune), (.rawText, Shape.rawText),
    (.quotedText, Shape.quotedText) ]

end TestCatalog.Go
