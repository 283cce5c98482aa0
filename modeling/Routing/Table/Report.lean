import Routing.Json.Text
import Routing.Path
import Routing.Table.Names
import Routing.Tree.Walk

/-!
# Match reports

A matched path is answered with a `Report`: the segments of the path, the names of the routes that
end where it leads, and the captures, by name. A report is printed as one line of JSON, and `null`
is printed for a path that matches nothing.
-/

namespace Routing.Table

/-- The hit for a path, if there is one. -/
def hit? (t : Tree Names) (path : String) : Option (Hit Names) :=
  t.hit? (Path.segments path)

/-- What is reported of a match; integers and texts are listed by name. -/
structure Report where
  segments : List String
  routes : List String
  integers : Dict Int64
  strings : Dict String
  wildcard : List String

namespace Report

/-- The report of the names that are called for a request. -/
def ofHit (hit : Hit Names) : Report where
  segments := hit.segments
  routes := hit.handler.list
  integers := hit.captures.integers.sorted
  strings := hit.captures.strings.sorted
  wildcard := hit.captures.wildcard

/-- A report as a JSON object. -/
def json (r : Report) : String :=
  Json.object [
    ("segments", Json.array (r.segments.map Json.quote)),
    ("routes", Json.array (r.routes.map Json.quote)),
    ("integers", Json.object (r.integers.map fun (name, n) => (name, Text.writeInt64 n))),
    ("strings", Json.object (r.strings.map fun (name, s) => (name, Json.quote s))),
    ("wildcard", Json.array (r.wildcard.map Json.quote))]

end Report

/-- The report of a path, if it matches. -/
def match? (t : Tree Names) (path : String) : Option Report := (hit? t path).map Report.ofHit

/-- What is printed for a path. -/
def reportPath (t : Tree Names) (path : String) : String :=
  ((match? t path).map Report.json).getD "null"

end Routing.Table
