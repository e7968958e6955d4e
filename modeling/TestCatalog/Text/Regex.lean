/-!
# Text/Regex — regular expressions, matched by derivatives

Regular expressions over characters, matched by derivatives: `derive c r` reads what is left of `r`
behind the character `c`.  `longest` gives the length of the longest part at the front of a text
that the expression describes.
-/

namespace TestCatalog.Text

/-- A set of characters. -/
inductive CharSet where
  | none
  | one (c : Char)
  | range (lo hi : Char)
  | either (a b : CharSet)
  | except (a : CharSet)

/-- Membership of a character. -/
def CharSet.has : CharSet → Char → Bool
  | .none, _ => false
  | .one d, c => c == d
  | .range lo hi, c => lo ≤ c && c ≤ hi
  | .either a b, c => a.has c || b.has c
  | .except a, c => !a.has c

/-- The set of some characters. -/
def CharSet.of : List Char → CharSet
  | [] => .none
  | c :: cs => .either (.one c) (.of cs)

/-- A regular expression. -/
inductive Regex where
  | void
  | empty
  | char (s : CharSet)
  | seq (r s : Regex)
  | alt (r s : Regex)
  | star (r : Regex)

namespace Regex

/-- Whether the empty text is described. -/
def nullable : Regex → Bool
  | .void => false
  | .empty => true
  | .char _ => false
  | .seq r s => r.nullable && s.nullable
  | .alt r s => r.nullable || s.nullable
  | .star _ => true

/-- A sequence, shortened where one side is void or empty. -/
def join : Regex → Regex → Regex
  | .void, _ => .void
  | _, .void => .void
  | .empty, s => s
  | r, s => .seq r s

/-- A choice, shortened where one side is void. -/
def either : Regex → Regex → Regex
  | .void, s => s
  | r, .void => r
  | r, s => .alt r s

/-- What is left of an expression behind a character. -/
def derive (c : Char) : Regex → Regex
  | .void => .void
  | .empty => .void
  | .char s => if s.has c then .empty else .void
  | .seq r s =>
    if r.nullable then either (join (derive c r) s) (derive c s) else join (derive c r) s
  | .alt r s => either (derive c r) (derive c s)
  | .star r => join (derive c r) (.star r)

/-- The length of the longest match that is at least `seen` characters long, where `seen` characters
are read already and `best` is the longest match among those. -/
def longestFrom (best : Option Nat) (seen : Nat) : Regex → List Char → Option Nat
  | .void, _ => best
  | r, [] => if r.nullable then some seen else best
  | r, c :: cs =>
    longestFrom (if r.nullable then some seen else best) (seen + 1) (derive c r) cs

/-- The length of the longest part at the front of a text that the expression describes. -/
def longest (r : Regex) (text : List Char) : Option Nat := longestFrom none 0 r text

/-! ## Building expressions -/

/-- One given character. -/
def lit (c : Char) : Regex := .char (.one c)

/-- One of some characters. -/
def oneOf (cs : List Char) : Regex := .char (.of cs)

/-- Any character but some. -/
def noneOf (cs : List Char) : Regex := .char (.except (.of cs))

/-- All of some expressions in a row. -/
def all : List Regex → Regex
  | [] => .empty
  | [r] => r
  | r :: rs => .seq r (all rs)

/-- One of some expressions. -/
def any : List Regex → Regex
  | [] => .void
  | [r] => r
  | r :: rs => .alt r (any rs)

/-- An expression or nothing. -/
def opt (r : Regex) : Regex := .alt r .empty

/-- An expression a number of times. -/
def times (r : Regex) : Nat → Regex
  | 0 => .empty
  | n + 1 => .seq r (times r n)

/-- The characters of a text in a row. -/
def text (s : String) : Regex := all (s.toList.map lit)

end Regex

end TestCatalog.Text
