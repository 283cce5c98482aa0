import Routing.Tree.Basic

/-!
# The positions of a tree, one after the other

`Tree.rows` lists a tree's positions, each in front of what stands behind it: the literal children
by key, then the child behind the parameter, then the wildcard child. A row tells how deep its
position lies and by which step it is reached. The rows of the literal children are made one child
after the other and sorted by their keys, as the literal children are (`rowsFrom_eq_append`).
-/

universe u

namespace Routing

/-- How a position is reached from the one in front of it. -/
inductive Step where
  | root
  | literal (key : String)
  | param (p : Param)
  | wildcard

/-- What is listed of a position. -/
structure Row (H : Type u) where
  /-- How many steps lead from the outermost position to this one. -/
  depth : Nat
  step : Step
  label : String
  handler : Option H

namespace Tree

variable {H : Type u}

mutual

/-- The rows of a tree that is reached by a step, its outermost position at the given depth. -/
def rowsFrom (depth : Nat) (step : Step) : Tree H → List (Row H)
  | .node label handler literals param wildcard =>
    ⟨depth, step, label, handler⟩ ::
      ((Dict.sorted (literalRows (depth + 1) literals)).flatMap Prod.snd ++
        paramRows (depth + 1) param ++ wildcardRows (depth + 1) wildcard)

/-- The rows of each literal child, under its key. -/
def literalRows (depth : Nat) : List (String × Tree H) → Dict (List (Row H))
  | [] => []
  | (key, child) :: rest => (key, child.rowsFrom depth (.literal key)) :: literalRows depth rest

/-- The rows of the child behind a parameter. -/
def paramRows (depth : Nat) : Option (Param × Tree H) → List (Row H)
  | none => []
  | some (p, child) => child.rowsFrom depth (.param p)

/-- The rows of the child behind a wildcard. -/
def wildcardRows (depth : Nat) : Option (Tree H) → List (Row H)
  | none => []
  | some child => child.rowsFrom depth .wildcard

end

/-- The rows of all positions, the outermost one first. -/
def rows (t : Tree H) : List (Row H) := t.rowsFrom 0 .root

theorem literalRows_eq_map (depth : Nat) (literals : List (String × Tree H)) :
    literalRows depth literals =
      literals.map fun entry => (entry.1, entry.2.rowsFrom depth (.literal entry.1)) := by
  induction literals with
  | nil => rfl
  | cons entry rest ih => rw [literalRows, ih, List.map_cons]

/-- A position's row stands in front of the rows of its children, the literal ones by key. -/
theorem rowsFrom_eq_append (depth : Nat) (step : Step) (t : Tree H) :
    t.rowsFrom depth step = ⟨depth, step, t.label, t.handler⟩ ::
      ((t.literalChildren.flatMap fun entry =>
          entry.2.rowsFrom (depth + 1) (.literal entry.1)) ++
        paramRows (depth + 1) t.param ++ wildcardRows (depth + 1) t.wildcard) := by
  obtain ⟨label, handler, literals, param, wildcard⟩ := t
  rw [rowsFrom, literalRows_eq_map, Dict.sorted_map, List.flatMap_map]
  rfl

end Tree

end Routing
