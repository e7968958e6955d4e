import TestCatalog.Path.Basic

/-!
# Path/Clean — cleaned paths, and the path from one to another

A path is cleaned by taking back each name that is followed by `..`.  At the root `..` goes nowhere;
at the start of a relative path it stays, because what it leads to is not known from the text.
-/

namespace TestCatalog.Path

/-- Takes one more step after those in `back`, of which the last comes first. -/
def Route.step (rooted : Bool) (back : List Step) (s : Step) : List Step :=
  match s with
  | .name text => .name text :: back
  | .up =>
    match back with
    | .name _ :: rest => rest
    | .up :: _ => .up :: back
    | [] => if rooted then [] else [.up]

/-- The same route without detours. -/
def Route.clean (r : Route) : Route := ⟨r.rooted, (r.steps.foldl (Route.step r.rooted) []).reverse⟩

/-- The shortest path that says the same. -/
def clean (p : Path) : Path := ofRoute p.route.clean

/-- The directory that holds the end of a path; a path without steps has none. -/
def parent? (p : Path) : Option Path :=
  if p.route.steps.isEmpty then none
  else some (ofRoute { p.route with steps := p.route.steps.dropLast })

/-- The steps from `base` that two lists do not share at their start. -/
def divide : List Step → List Step → List Step × List Step
  | a :: base, b :: target => if a = b then divide base target else (a :: base, b :: target)
  | base, target => (base, target)

/-- The path that leads from `base` to `target`: up to the last directory that they share, and down
from there.  There is none if only one of them starts at the root, or if `base` goes up to a
directory whose name is not known. -/
def relative? (base target : Path) : Option Path :=
  let b := base.route.clean
  let t := target.route.clean
  if b.rooted ≠ t.rooted then none
  else
    let (up, down) := divide b.steps t.steps
    if Step.up ∈ up then none
    else
      let steps := up.map (fun _ => Step.up) ++ down
      some (if steps.isEmpty then ⟨"."⟩ else ofRoute ⟨false, steps⟩)

end TestCatalog.Path
