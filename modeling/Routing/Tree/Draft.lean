import Routing.Fault
import Routing.Logged
import Routing.Path
import Routing.Tree.Basic

/-!
# Drafts of a position

A `Draft` collects what a position will hold and is then frozen under a label. The handler set last
and the literal child added last under a key are kept; the parameter and the wildcard can be set
once, and a second attempt is refused. A call that may be refused gives an `Edited`: its result, and
the draft that it leaves behind in either case, with which the caller may go on.
-/

universe u

namespace Routing

/-- What is collected of a position before it is frozen. -/
structure Draft (H : Type u) where
  handler : Option H := none
  literals : Dict (Tree H) := []
  param : Option (Param × Tree H) := none
  wildcard : Option (Tree H) := none

namespace Draft

variable {H : Type u}

/-- The result of a call on a draft, and the draft behind the call. -/
structure Edited (H : Type u) where
  result : Except Fault Unit
  draft : Draft H

/-- The draft behind a call, for callers that give up when the call is refused. -/
def Edited.accepted (e : Edited H) : Except Fault (Draft H) :=
  match e.result with
  | .ok () => .ok e.draft
  | .error fault => .error fault

/-- A draft without handler or children. -/
def empty : Draft H := {}

/-- Sets the handler, in place of one that was set before. -/
def setHandler (handler : H) (d : Draft H) : Draft H :=
  { d with handler := some handler }

/-- Adds a literal child, in place of one under the same key; refused if the key is none. -/
def addLiteral (key : String) (child : Tree H) (d : Draft H) : Edited H :=
  if isKey key then ⟨.ok (), { d with literals := Dict.insert key child d.literals }⟩
  else ⟨.error (.invalidSegment key), d⟩

/-- Sets the parameter and the child behind it; refused if there is a parameter. -/
def setParam (p : Param) (child : Tree H) (d : Draft H) : Edited H :=
  match d.param with
  | some _ => ⟨.error .duplicateParam, d⟩
  | none => ⟨.ok (), { d with param := some (p, child) }⟩

/-- Sets the wildcard child; refused if there is one. -/
def setWildcard (child : Tree H) (d : Draft H) : Edited H :=
  match d.wildcard with
  | some _ => ⟨.error .duplicateWildcard, d⟩
  | none => ⟨.ok (), { d with wildcard := some child }⟩

/-- The position that a draft describes. -/
def freeze (label : String) (d : Draft H) : Tree H :=
  .node label d.handler d.literals d.param d.wildcard

/-- Freezes and reports it. -/
def announceFreeze {ε : Type} (label : String) (d : Draft H) : Logged ε (Tree H) :=
  .announce
    (.created label d.handler.isSome d.literals.length d.param.isSome d.wildcard.isSome)
    (d.freeze label)

/-! ### Accepted calls -/

theorem accepted_addLiteral (key : String) (child : Tree H) (d : Draft H) :
    (d.addLiteral key child).accepted =
      if isKey key then .ok { d with literals := Dict.insert key child d.literals }
      else .error (.invalidSegment key) := by
  rw [addLiteral]
  split <;> rfl

theorem accepted_setParam {d : Draft H} (free : d.param = none) (p : Param) (child : Tree H) :
    (d.setParam p child).accepted = .ok { d with param := some (p, child) } := by
  rw [setParam, free]
  rfl

theorem accepted_setWildcard {d : Draft H} (free : d.wildcard = none) (child : Tree H) :
    (d.setWildcard child).accepted = .ok { d with wildcard := some child } := by
  rw [setWildcard, free]
  rfl

theorem Edited.accepted_eq_ok_iff {e : Edited H} {d : Draft H} :
    e.accepted = .ok d ↔ e.result = .ok () ∧ e.draft = d := by
  obtain ⟨result, draft⟩ := e
  cases result with
  | ok => simp [accepted]
  | error fault => simp [accepted]

end Draft

/-- A parameter with the position behind it, from parts that must be both present or both absent. -/
def pairParam {H : Type u} : Option Param → Option (Tree H) →
    Except Fault (Option (Param × Tree H))
  | some p, some child => .ok (some (p, child))
  | none, none => .ok none
  | _, _ => .error .incompleteParam

end Routing
