import Routing.Fault
import Routing.Logged
import Routing.Tree.Basic

/-!
# Merging route trees

`Tree.merge` lays one tree over another. A position that both trees have gets the label of the right
one and the combination of both handlers; behind parameters the right descriptor is kept. Everything
that only one tree has is kept as it is. A list of trees is merged from the left.

Every part of a merged tree is the `Option.merge` of the same part of both trees: `handler_merge`
for handlers and `child?_merge` for the child behind any edge.
-/

universe u

namespace Routing

/-- Handlers that can share a position: the left one was there before the right one. -/
class Combine (H : Type u) where
  combine : H → H → H

namespace Tree

variable {H : Type u} [Combine H]

mutual

/-- Lays the second tree over the first. -/
def merge (mine : Tree H) : Tree H → Tree H
  | .node label handler literals param wildcard =>
    .node label (mine.handler.merge Combine.combine handler) (mergeLiterals mine.literals literals)
      (mergeParam mine.param param) (mergeWildcard mine.wildcard wildcard)
termination_by structural theirs => theirs

/-- The children of both behind literal keys. -/
def mergeLiterals (mine : Dict (Tree H)) : List (String × Tree H) → Dict (Tree H)
  | [] => mine
  | (key, theirs) :: rest =>
    let merged := match Dict.find? key mine with
      | some child => child.merge theirs
      | none => theirs
    Dict.insert key merged (mergeLiterals mine rest)
termination_by structural theirs => theirs

/-- The child behind the parameter, with the second descriptor if there is one. -/
def mergeParam (mine : Option (Param × Tree H)) : Option (Param × Tree H) → Option (Param × Tree H)
  | none => mine
  | some (p, theirs) =>
    let merged := match mine with
      | some (_, child) => child.merge theirs
      | none => theirs
    some (p, merged)
termination_by structural theirs => theirs

/-- The child behind the wildcard. -/
def mergeWildcard (mine : Option (Tree H)) : Option (Tree H) → Option (Tree H)
  | none => mine
  | some theirs =>
    let merged := match mine with
      | some child => child.merge theirs
      | none => theirs
    some merged
termination_by structural theirs => theirs

end

/-! ### Parts of a merged tree -/

@[simp] theorem label_merge (mine theirs : Tree H) : (mine.merge theirs).label = theirs.label := by
  cases theirs; rfl

@[simp] theorem handler_merge (mine theirs : Tree H) :
    (mine.merge theirs).handler = mine.handler.merge Combine.combine theirs.handler := by
  cases theirs; rfl

theorem find?_mergeLiterals (key : String) (mine theirs : Dict (Tree H)) :
    Dict.find? key (mergeLiterals mine theirs) =
      (Dict.find? key mine).merge merge (Dict.find? key theirs) := by
  induction theirs with
  | nil => cases h : Dict.find? key mine <;> simp [mergeLiterals, h]
  | cons entry rest ih =>
    obtain ⟨k, child⟩ := entry
    rw [mergeLiterals, Dict.find?_insert, Dict.find?_cons]
    by_cases hk : key = k
    · subst hk
      cases h : Dict.find? key mine <;> simp
    · simp [hk, ih]

theorem ascending_mergeLiterals {mine : Dict (Tree H)} (h : Dict.Ascending mine)
    (theirs : Dict (Tree H)) : Dict.Ascending (mergeLiterals mine theirs) := by
  induction theirs with
  | nil => simpa [mergeLiterals] using h
  | cons entry rest ih => exact ih.insert ..

/-- The descriptor of a merged tree's parameter. -/
theorem descriptor_merge (mine theirs : Tree H) :
    (mine.merge theirs).param.map Prod.fst =
      (theirs.param.map Prod.fst).or (mine.param.map Prod.fst) := by
  obtain ⟨_, _, _, param, _⟩ := theirs
  rcases param with _ | ⟨p, child⟩ <;> simp [merge, mergeParam]

theorem child?_merge (mine theirs : Tree H) (e : Edge) :
    (mine.merge theirs).child? e = (mine.child? e).merge merge (theirs.child? e) := by
  obtain ⟨label, handler, literals, param, wildcard⟩ := theirs
  cases e with
  | literal key => exact find?_mergeLiterals key mine.literals literals
  | param =>
    rcases param with _ | ⟨p, child⟩ <;> cases h : mine.param <;>
      simp [child?, merge, mergeParam, h]
  | wildcard =>
    cases wildcard <;> cases h : mine.wildcard <;> simp [child?, merge, mergeWildcard, h]

/-- Merges and reports it. -/
def announceMerge {ε : Type} (mine theirs : Tree H) : Logged ε (Tree H) :=
  .announce (.merging theirs.label mine.label) (mine.merge theirs)

/-- Merges a list of trees from the left; there must be at least one. -/
def mergeAll : List (Tree H) → Logged Fault (Tree H)
  | [] => .fail .nothingToMerge
  | first :: rest => rest.foldlM announceMerge first

end Tree

end Routing
