import Routing.Json.Doc
import Routing.Route.Compose
import Routing.Table.Fault
import Routing.Table.Names

/-!
# Route tables

A table is a list of entries, each a pattern and a name. Written in JSON it is an array whose items
are either objects with the fields `pattern` and `name`, each exactly once, or arrays of exactly the
two texts. An object may have other fields; what they hold does not matter.
-/

namespace Routing

/-- A pattern and the name that answers it. -/
structure Entry where
  pattern : String
  name : String
deriving DecidableEq

namespace Entry

/-- The text in the only field of a key. -/
def field? (key : String) (fields : List (Option String × Json.Doc)) : Option String :=
  match fields.filter fun field => field.1 = some key with
  | [(_, .text value)] => value
  | _ => none

/-- Reads an entry in either of its two forms. -/
def ofDoc? : Json.Doc → Option Entry
  | .array [.text (some pattern), .text (some name)] => some ⟨pattern, name⟩
  | .object fields =>
    if fields.all fun field => field.1.isSome then do
      let pattern ← field? "pattern" fields
      let name ← field? "name" fields
      return ⟨pattern, name⟩
    else none
  | _ => none

end Entry

namespace Table

/-- Reads a table from its JSON text. -/
def parse (content : String) : Except Fault (List Entry) :=
  match Json.Doc.parse? content with
  | some (.array items) =>
    match items.mapM Entry.ofDoc? with
    | some entries => .ok entries
    | none => .error .invalid
  | _ => .error .invalid

/-- The tree of a table, each entry answered by its name. -/
def build (entries : List Entry) : Logged Fault (Tree Names) :=
  (Route.compose (entries.map fun entry => (entry.pattern, ⟨[entry.name]⟩))).mapFault .unbuilt

theorem build_eq_ok_iff {entries : List Entry} {t : Tree Names} :
    (build entries).result = .ok t ↔
      (Route.compose (entries.map fun entry => (entry.pattern, (⟨[entry.name]⟩ : Names)))).result =
        .ok t :=
  Logged.mapFault_eq_ok_iff

end Table

end Routing
