import Routing.Captures
import Routing.Logged
import Routing.Tree.Basic

/-!
# Walking a tree

A request is a list of segments. At each position the next segment takes the literal child of that
key, else the child behind the parameter, else the wildcard child, which takes all segments left.
There is no way back: a segment that the parameter rejects ends the walk. Every walk has an
`Outcome`; a request is answered by the handler of the position where its walk arrives.
-/

universe u

namespace Routing

/-- How a walk ends: at a position, or with the segment that leads nowhere. -/
inductive Outcome (H : Type u) where
  | arrived (position : Tree H) (captures : Captures)
  | rejected (segment param label : String)
  | unmatched (label segment : String)

/-- A handler found for a request, with what it is called with. -/
structure Hit (H : Type u) where
  handler : H
  segments : List String
  captures : Captures

namespace Tree

variable {H : Type u}

/-- The walk of a list of segments from a position, with the captures made so far. -/
def walk : List String → Tree H → Captures → Outcome H
  | [], t, seen => .arrived t seen
  | segment :: rest, t, seen =>
    match t.literal? segment, t.param, t.wildcard with
    | some child, _, _ => walk rest child seen
    | none, some (p, child), _ =>
      match seen.read? p segment with
      | some seen => walk rest child seen
      | none => .rejected segment p.name t.label
    | none, none, some child => .arrived child (seen.addWildcard (segment :: rest))
    | none, none, none => .unmatched t.label segment

end Tree

namespace Outcome

variable {H : Type u}

/-- The position where a walk has arrived, with the captures. -/
def arrival? : Outcome H → Option (Tree H × Captures)
  | .arrived position captures => some (position, captures)
  | .rejected .. | .unmatched .. => none

/-- What is reported of a walk over a number of segments. -/
def event (asked : Nat) : Outcome H → Event
  | .arrived position _ => .resolved asked position.label
  | .rejected segment param label => .rejected segment param label
  | .unmatched label segment => .unmatched label segment

end Outcome

namespace Tree

variable {H : Type u}

/-- The position that a request leads to, with or without a handler, and the captures. -/
def resolve (t : Tree H) (segments : List String) : Option (Tree H × Captures) :=
  (walk segments t .empty).arrival?

/-- The handler for a request, if its walk arrives at a position that has one. -/
def hit? (t : Tree H) (segments : List String) : Option (Hit H) :=
  (t.resolve segments).bind fun (position, captures) =>
    position.handler.map fun handler => ⟨handler, segments, captures⟩

/-- What the walk of a request reports. -/
def walkEvent (t : Tree H) (segments : List String) : Event :=
  (walk segments t .empty).event segments.length

end Tree

end Routing
