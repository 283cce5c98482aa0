import Routing.Tree.Merge

/-!
# Names as handlers

In a table a route is answered by its name. Routes that end at the same position share it: their
names are listed in the order of the table.
-/

namespace Routing

/-- The names of the routes that share a position. -/
structure Names where
  list : List String
deriving DecidableEq

instance : Combine Names where
  combine mine theirs := ⟨mine.list ++ theirs.list⟩

end Routing
