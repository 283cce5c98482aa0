import Routing.Route.Basic

/-!
# Patterns

A pattern is the text of a route. One slash in front and one at the end are dropped; if nothing is
left the route is empty, otherwise every piece between slashes stands for a piece of the route:

* a star for a wildcard, in the last place only,
* a colon and a name for a text parameter; a second colon and `str` or `string` may follow,
* a colon, a name, a second colon and `int` or `number` for an integer parameter,
* a literal key for itself.
-/

namespace Routing

namespace Piece

/-- The parameter of a name, of the kind that is written behind the name. -/
def ofKind (name kind : String) : Except RouteFault Piece :=
  if kind = "str" ∨ kind = "string" then .ok (.param (.text name))
  else if kind = "int" ∨ kind = "number" then .ok (.param (.number name))
  else .error (.unknownKind kind)

/-- A parameter from what follows its first colon. -/
def parseParam (cs : List Char) : Except RouteFault Piece :=
  let name := cs.takeWhile (· ≠ ':')
  if name = [] then .error .emptyName
  else match cs.dropWhile (· ≠ ':') with
    | [] => ofKind (String.ofList name) "str"
    | _ :: kind => ofKind (String.ofList name) (String.ofList kind)

/-- The piece that stands between two slashes; a wildcard must be the last one. -/
def parse (isLast : Bool) : List Char → Except RouteFault Piece
  | ['*'] => if isLast then .ok .wildcard else .error .wildcardNotLast
  | ':' :: cs => parseParam cs
  | cs =>
    let text := String.ofList cs
    if isKey text then .ok (.literal text) else .error (.invalidCharacters text)

end Piece

namespace Route

/-- The pieces of a pattern in order, or what is wrong with the first wrong one. -/
def parsePieces : List (List Char) → Except RouteFault Route
  | [] => .ok []
  | cs :: rest => do
    let piece ← Piece.parse rest.isEmpty cs
    let pieces ← parsePieces rest
    return piece :: pieces

/-- Drops one slash at the end, if there is one. -/
def dropFinalSlash (cs : List Char) : List Char :=
  if cs.getLast? = some '/' then cs.dropLast else cs

/-- A pattern less one slash in front and one at the end. -/
def patternBody (pattern : String) : List Char :=
  dropFinalSlash (Path.dropSlash pattern.toList)

/-- Reads a route from its pattern; a fault tells the whole pattern and a reason. -/
def parse (pattern : String) : Except Fault Route :=
  match patternBody pattern with
  | [] => .ok []
  | body => (parsePieces (body.splitOn '/')).mapError (.invalidPattern pattern)

end Route

end Routing
