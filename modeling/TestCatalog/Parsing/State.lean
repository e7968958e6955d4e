import TestCatalog.Parsing.Corner

/-!
# Parsing/State — what the text read so far allows

A position is a place inside a production.  A state is what the text read so far allows: the
positions that may have been reached behind at least one part, each with the terminals that may
follow once its production is complete.  States are computed from one another as the text is read;
`Tables` holds what depends on the grammar alone.

Where several actions are possible on a terminal, `Tables.choose` keeps those of the highest
precedence, then looks at associativity; what is still undecided is pursued in parallel.
-/

namespace TestCatalog.Parsing

/-- A place in a production, given by its number: the part behind the place, none at the end, the
terminals that part may begin with, and those the part behind it may begin with, if there is one. -/
structure Position where
  production : Nat
  next : Option Symbol
  first : TerminalSet
  following : Option TerminalSet
deriving Inhabited

/-- A production entered at the left edge of a category, behind its first part.  `follow` has the
terminals that may follow it inside the category, and `atEnd` says whether it may also end where the
category ends. -/
structure Corner where
  position : Nat
  follow : TerminalSet
  atEnd : Bool
deriving Inhabited

/-- What the parser needs to know of a grammar.  The places of one production are in a row in
`positions`, from the one that `origins` gives for it; `weight` is what each terminal adds to the
score of a reading. -/
structure Tables where
  productions : Array Production
  positions : Array Position
  origins : Array Nat
  terminals : Nat
  weight : Nat → Int
  /-- By category and symbol: the productions that start with the symbol at the left edge. -/
  corners : Array (Array (Array Corner))

/-- A number for each symbol of a grammar with so many terminals. -/
def Symbol.code (terminals : Nat) : Symbol → Nat
  | .terminal t => t
  | .category c => terminals + c

/-- The places of a production. -/
def Production.positions (firsts : Array TerminalSet) (number : Nat) :
    List Symbol → List Position
  | [] => [⟨number, none, 0, none⟩]
  | x :: rest =>
    ⟨number, some x, x.firstOf firsts, rest.head?.map (·.firstOf firsts)⟩
      :: Production.positions firsts number rest

/-- The productions that may be entered at the left edge of a category, by their first symbol. -/
def cornersOf (productions : Array Production) (origins : Array Nat) (terminals symbols : Nat)
    (found : Array (Option Opening)) : Array (Array Corner) :=
  (productions.zip origins).foldl (fun acc (p, origin) =>
    match found.getD p.category none, p.parts with
    | some o, x :: _ => acc.modify (x.code terminals) (·.push ⟨origin + 1, o.follow, o.atEnd⟩)
    | _, _ => acc) (Array.replicate symbols #[])

/-- The tables of a grammar. -/
def Tables.ofProductions (productions : Array Production) (terminals categories : Nat)
    (weight : Nat → Int) : Tables :=
  let firsts := firstSets productions categories
  let origins := (productions.foldl (fun (acc, n) p => (acc.push n, n + p.parts.length + 1))
    ((#[] : Array Nat), 0)).1
  { productions, terminals, weight, origins
    positions := (productions.toList.zipIdx.flatMap fun (p, i) =>
      Production.positions firsts i p.parts).toArray
    corners := (Array.range categories).map fun c =>
      cornersOf productions origins terminals (terminals + categories)
        (openings productions firsts categories c) }

/-- A position that may have been reached, and what may follow its production. -/
structure Entry where
  position : Nat
  follow : TerminalSet
deriving DecidableEq, Repr, Inhabited

/-- What the text read so far allows, in ascending order of positions. -/
abbrev State := List Entry

namespace State

/-- Adds an entry, joining it to one at the same position. -/
def insert (e : Entry) : State → State
  | [] => [e]
  | f :: rest =>
    if e.position < f.position then e :: f :: rest
    else if e.position = f.position then ⟨f.position, f.follow ||| e.follow⟩ :: rest
    else f :: insert e rest

end State

namespace Tables

variable (tables : Tables)

/-- The position of that number. -/
def position (number : Nat) : Position := tables.positions.getD number default

/-- The production of that number. -/
def production (number : Nat) : Production := tables.productions.getD number default

/-- The state before any text: at the start of each of some productions. -/
def initial (productions : List Nat) : State :=
  productions.foldl (fun acc p => State.insert ⟨tables.origins.getD p 0, 0⟩ acc) []

/-- The terminals that may come next. -/
def expected (state : State) : TerminalSet :=
  state.foldl (fun acc e =>
    let here := tables.position e.position
    acc ||| (if here.next.isNone then e.follow else here.first)) 0

/-- The state behind one more symbol. -/
def advance (state : State) (x : Symbol) : State :=
  state.foldl (fun acc e =>
    let here := tables.position e.position
    match here.next with
    | none => acc
    | some y =>
      let acc := if y = x then State.insert ⟨e.position + 1, e.follow⟩ acc else acc
      match y with
      | .terminal _ => acc
      | .category c =>
        let outer := here.following.getD e.follow
        ((tables.corners.getD c #[]).getD (x.code tables.terminals) #[]).foldl (fun acc k =>
          State.insert ⟨k.position, k.follow ||| (if k.atEnd then outer else 0)⟩ acc) acc) []

/-- The productions a state has complete before a terminal, of the highest precedence only. -/
def complete (state : State) (terminal : Nat) : List Nat :=
  let done := state.filterMap fun e =>
    let here := tables.position e.position
    if here.next.isNone && e.follow.has terminal then some here.production else none
  let best := done.map fun p => (tables.production p).precedence
  done.filter fun p => best.all (· ≤ (tables.production p).precedence)

/-- The precedences of the productions a state would go on with on a terminal. -/
def ongoing (state : State) (terminal : Nat) : List Int :=
  state.filterMap fun e =>
    let here := tables.position e.position
    if here.first.has terminal then some (tables.production here.production).precedence else none

/-- What to do on a terminal: whether it is read, and which productions are taken as complete. -/
structure Decision where
  reads : Bool
  completes : List Nat

/-- What to do on a terminal.  A complete production gives way to ongoing ones of higher precedence,
and wins over those of lower precedence; at equal precedence it wins if it groups to the left and
gives way if it groups to the right.  In all other cases both are pursued. -/
def choose (state : State) (terminal : Nat) : Decision :=
  let done := tables.complete state terminal
  let going := tables.ongoing state terminal
  match done with
  | [] => ⟨!going.isEmpty, []⟩
  | p :: _ =>
    if going.isEmpty then ⟨false, done⟩
    else
      let level := (tables.production p).precedence
      let higher := going.any (level < ·)
      let lower := going.any (· < level)
      let sides := done.map fun q => (tables.production q).associativity
      if higher && !lower then ⟨true, []⟩
      else if lower && !higher then ⟨false, done⟩
      else if lower && higher then ⟨true, done⟩
      else if sides.all (· = .left) then ⟨false, done⟩
      else if sides.all (· = .right) then ⟨true, []⟩
      else ⟨true, done⟩

end Tables

end TestCatalog.Parsing
