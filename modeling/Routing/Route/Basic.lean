import Routing.Tree.Draft

/-!
# Single routes

A route is a list of pieces. It is written with a slash in front of each piece, and built into a
chain of positions with one handler at its end. The chain is built from its end, so of several keys
that are no literal keys the last one is reported; a wildcard in front of another piece is reported
before anything is built.
-/

universe u

namespace Routing

/-- One step of a route: a literal key, a parameter or a wildcard. -/
inductive Piece where
  | literal (text : String)
  | param (p : Param)
  | wildcard

/-- The pieces of a route in their order. -/
abbrev Route := List Piece

namespace Piece

/-- A literal piece; one slash in front of the text is dropped. -/
def path (text : String) : Piece := .literal (String.ofList (Path.dropSlash text.toList))

/-- How a piece is printed within a route. -/
def display : Piece → String
  | .literal text => "/" ++ text
  | .param p => "/:" ++ p.name
  | .wildcard => "/*"

/-- The label of the position in front of a piece, within a route. -/
def label : Piece → String
  | .literal text => "::PATH:" ++ text ++ "::"
  | .param p => p.label
  | .wildcard => Tree.wildcardLabel

def isWildcard : Piece → Bool
  | .wildcard => true
  | .literal _ | .param _ => false

/-- The draft of a position with one child, behind the piece. -/
def attach {H : Type u} (child : Tree H) : Piece → Except Fault (Draft H)
  | .literal text => (Draft.empty.addLiteral text child).accepted
  | .param p => (Draft.empty.setParam p child).accepted
  | .wildcard => (Draft.empty.setWildcard child).accepted

end Piece

namespace Route

variable {H : Type u}

/-- How a route is printed; without pieces it is a single slash. -/
def display (r : Route) : String :=
  if r.isEmpty then "/" else String.join (r.map Piece.display)

/-- Whether a wildcard stands in front of another piece. -/
def hasInnerWildcard (r : Route) : Bool := r.dropLast.any Piece.isWildcard

/-- The label of the position where the rest of a route starts, within a route. -/
def label : Route → String
  | [] => Tree.bottomLabel
  | piece :: _ => piece.label

/-- The chain of positions along the pieces, its first position under the given label. -/
def chain (handler : H) (label : String) : Route → Logged Fault (Tree H)
  | [] => (Draft.empty.setHandler handler).announceFreeze label
  | piece :: rest => do
    let child ← chain handler (Route.label rest) rest
    let draft ← .ofExcept (piece.attach child)
    draft.announceFreeze label

/-- The tree that holds a single route. -/
def build (handler : H) (r : Route) : Logged Fault (Tree H) :=
  if r.hasInnerWildcard then .fail (.invalidPattern r.display .wildcardNotLast)
  else if r.isEmpty then chain handler Tree.rootLabel r
  else do
    let t ← chain handler Tree.rootLabel r
    .announce (.builtRoute r.display) t

end Route

end Routing
