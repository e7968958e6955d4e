import TestCatalog.Parsing.Stack

/-!
# Parsing/Frontier — the stacks at one place in the text

The frontier is the list of stacks at one place in the text, one for each state.  Before a terminal
is read, every production that is complete there is put in place of its parts, in all readings,
until nothing new appears; then the terminal is put on each stack that can go on with it.
-/

namespace TestCatalog.Parsing

/-- Adds a way to a state of the frontier.  The second component says whether that changes it. -/
def addEdge (stop : Nat) (state : State) (e : Edge Stack) : List Stack → List Stack × Bool
  | [] => ([.node state stop [e]], true)
  | s :: rest =>
    if s.state == state then
      let (edges, changed) := e.add s.edges
      (.node state stop edges :: rest, changed)
    else
      let (rest, changed) := addEdge stop state e rest
      (s :: rest, changed)

namespace Tables

variable (tables : Tables)

/-- Puts a production in place of its parts along one path, if the parts spell it. -/
def complete? (production : Nat) (path : Stack.Path) : Option (State × Edge Stack) :=
  let p := tables.production production
  if path.parts.map (·.symbol tables.productions) = p.parts then
    some (tables.advance path.base.state (.category p.category),
      ⟨.node production path.parts, path.weight + p.weight, path.base⟩)
  else none

/-- What becomes of an edge on a state before a terminal: each complete production that ends with it
is put in place of its parts. -/
def completions (terminal : Nat) (state : State) (e : Edge Stack) : List (State × Edge Stack) :=
  (tables.choose state terminal).completes.flatMap fun p =>
    (Stack.extend ((tables.production p).parts.length - 1) ⟨[e.tree], e.weight, e.below⟩).filterMap
      (tables.complete? p)

/-- Completes productions before a terminal until nothing new appears.  The list holds the edges
that are still to be looked at. -/
def saturate (terminal stop : Nat) :
    Nat → List (State × Edge Stack) → List Stack → List Stack
  | 0, _, frontier => frontier
  | _ + 1, [], frontier => frontier
  | fuel + 1, (state, e) :: todo, frontier =>
    let (todo, frontier) := (tables.completions terminal state e).foldl (fun (todo, frontier) new =>
      let (frontier, changed) := addEdge stop new.1 new.2 frontier
      (if changed then new :: todo else todo, frontier)) (todo, frontier)
    saturate terminal stop fuel todo frontier

/-- The edges of all stacks of a frontier, with their states. -/
def allEdges (frontier : List Stack) : List (State × Edge Stack) :=
  frontier.flatMap fun s => s.edges.map fun e => (s.state, e)

/-- Puts a token on a stack if its state can go on with it. -/
def shift? (token : Token) (s : Stack) : Option (State × Edge Stack) :=
  if (tables.choose s.state token.terminal).reads then
    some (tables.advance s.state (.terminal token.terminal),
      ⟨.leaf token, tables.weight token.terminal, s⟩)
  else none

/-- The readings behind a token, given those before it. -/
def read (token : Token) (stop : Nat) (frontier : List Stack) : List (State × Edge Stack) :=
  (tables.saturate token.terminal stop (64 * (stop + 1)) (allEdges frontier) frontier).filterMap
    (tables.shift? token)

end Tables

end TestCatalog.Parsing
