import Routing.Route.Pattern
import Routing.Tree.Merge

/-!
# Composing routes

A list of patterns with handlers becomes one tree: each route is built on its own, in order, and the
trees are merged from the left.
-/

universe u

namespace Routing.Route

variable {H : Type u}

/-- The tree of a single pattern. -/
def buildPattern (pattern : String) (handler : H) : Logged Fault (Tree H) :=
  match Route.parse pattern with
  | .ok r => r.build handler
  | .error fault => .fail fault

/-- The trees of patterns in their order, up to the first fault. -/
def buildPatterns : List (String × H) → Logged Fault (List (Tree H))
  | [] => pure []
  | (pattern, handler) :: rest => do
    let t ← buildPattern pattern handler
    let ts ← buildPatterns rest
    return t :: ts

/-- The tree of all patterns; there must be at least one. -/
def compose [Combine H] (routes : List (String × H)) : Logged Fault (Tree H) := do
  let trees ← buildPatterns routes
  .after (.composing trees.length) (Tree.mergeAll trees)

end Routing.Route
