import Routing.Tree.Draft

/-!
# Plans

A plan describes a whole tree at once: a list of clauses, where the clause for a child carries the
plan of the child. The clauses of a position are staged in order. One of them can be faulty where it
stands: a text that is no literal key, a second parameter, a second wildcard. What is staged has one
slot for such faults, which keeps the first. It is reported before any plan below is looked at; then
come the plans behind literal keys in the order of their clauses, the one behind the parameter and
the one behind the wildcard.
-/

universe u v

namespace Routing

/-- A clause of a plan, where `C` stands for what is said of a child. -/
inductive Clause (H : Type u) (C : Type v) where
  | handler (h : H)
  | literal (text : String) (child : C)
  | param (p : Param) (child : C)
  | wildcard (child : C)

/-- What is said of a position, with the plans of its children. -/
inductive Plan (H : Type u) where
  | mk (clauses : List (Clause H (Plan H)))

namespace Clause

variable {H : Type u} {C : Type v}

/-- A child behind a literal key; one slash in front of the key is dropped. -/
def path (text : String) (child : C) : Clause H C :=
  .literal (String.ofList (Path.dropSlash text.toList)) child

/-- Drops a colon in front of a name, and a slash in front of the colon. -/
def dropMarker : List Char → List Char
  | '/' :: ':' :: cs => cs
  | ':' :: cs => cs
  | cs => cs

/-- A child behind a text parameter; the name may be written as in a pattern. -/
def text (name : String) (child : C) : Clause H C :=
  .param (.text (String.ofList (dropMarker name.toList))) child

/-- A child behind an integer parameter. -/
def number (name : String) (child : C) : Clause H C :=
  .param (.number name) child

end Clause

/-- What the clauses so far have staged: the handler and the children of a position, and the first
fault met on the way. -/
structure Staged (H : Type u) (C : Type v) where
  handler : Option H := none
  literals : List (String × C) := []
  param : Option (Param × C) := none
  wildcard : Option C := none
  fault : Option Fault := none

namespace Staged

variable {H : Type u} {C : Type v}

/-- Notes a fault; the first one noted stays. -/
def record (s : Staged H C) (fault : Fault) : Staged H C :=
  if s.fault.isNone then { s with fault := some fault } else s

/-- Stages one more clause. A literal child is staged even under a text that is no key, a second
parameter or wildcard is not. -/
def stage (s : Staged H C) : Clause H C → Staged H C
  | .handler h => { s with handler := some h }
  | .literal text child =>
    let s := if isKey text then s else s.record (.invalidSegment text)
    { s with literals := s.literals ++ [(text, child)] }
  | .param p child =>
    if s.param.isSome then s.record .duplicateParam else { s with param := some (p, child) }
  | .wildcard child =>
    if s.wildcard.isSome then s.record .duplicateWildcard else { s with wildcard := some child }

/-- All clauses, staged in order. -/
def ofClauses (clauses : List (Clause H C)) : Staged H C := clauses.foldl stage {}

end Staged

namespace Draft

variable {H : Type u}

/-- Adds literal children, in order. -/
def addLiterals (d : Draft H) : List (String × Logged Fault (Tree H)) → Logged Fault (Draft H)
  | [] => pure d
  | (text, child) :: rest => do
    let t ← child
    let d ← .ofExcept (d.addLiteral text t).accepted
    addLiterals d rest

/-- Sets the parameter, if one is staged. -/
def addParam (d : Draft H) : Option (Param × Logged Fault (Tree H)) → Logged Fault (Draft H)
  | none => pure d
  | some (p, child) => do
    let t ← child
    .ofExcept (d.setParam p t).accepted

/-- Sets the wildcard, if one is staged. -/
def addWildcard (d : Draft H) : Option (Logged Fault (Tree H)) → Logged Fault (Draft H)
  | none => pure d
  | some child => do
    let t ← child
    .ofExcept (d.setWildcard t).accepted

/-- The position that was staged, unless a fault was. -/
def assemble (label : String) (s : Staged H (Logged Fault (Tree H))) : Logged Fault (Tree H) :=
  match s.fault with
  | some fault => .fail fault
  | none => do
    let d ← addLiterals { handler := s.handler } s.literals
    let d ← addParam d s.param
    let d ← addWildcard d s.wildcard
    d.announceFreeze label

end Draft

namespace Plan

variable {H : Type u}

mutual

/-- The tree of a plan, its first position under the given label. -/
def buildAt (label : String) : Plan H → Logged Fault (Tree H)
  | .mk clauses => Draft.assemble label (.ofClauses (buildClauses clauses))

/-- Clauses with the trees of their children in place of the plans. -/
def buildClauses : List (Clause H (Plan H)) → List (Clause H (Logged Fault (Tree H)))
  | [] => []
  | clause :: rest => buildClause clause :: buildClauses rest

/-- A clause with the tree of its child, labelled after the edge in front of it. -/
def buildClause : Clause H (Plan H) → Clause H (Logged Fault (Tree H))
  | .handler h => .handler h
  | .literal text child => .literal text (child.buildAt text)
  | .param p child => .param p (child.buildAt p.label)
  | .wildcard child => .wildcard (child.buildAt Tree.wildcardLabel)

end

/-- The tree of a whole plan. -/
def build (plan : Plan H) : Logged Fault (Tree H) := do
  let t ← plan.buildAt Tree.rootLabel
  .announce (.builtPlan t.literalCount) t

end Plan

end Routing
