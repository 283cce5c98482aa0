import Routing.Plan

/-!
# What clauses stage

Staging goes through the clauses of a position one by one. What is there at the end can be read off
the list: the last handler, every literal child, the first parameter, the first wildcard, and the
first clause that is faulty because of the slots taken before it.
-/

universe u v

namespace Routing

namespace Clause

variable {H : Type u} {C : Type v}

/-- The first fault among clauses, given which of the slots are already taken. -/
def firstFault (hasParam hasWildcard : Bool) : List (Clause H C) → Option Fault
  | [] => none
  | .handler _ :: rest => firstFault hasParam hasWildcard rest
  | .literal text _ :: rest =>
    if isKey text then firstFault hasParam hasWildcard rest else some (.invalidSegment text)
  | .param _ _ :: rest =>
    if hasParam then some .duplicateParam else firstFault true hasWildcard rest
  | .wildcard _ :: rest =>
    if hasWildcard then some .duplicateWildcard else firstFault hasParam true rest

/-- The handler given last. -/
def lastHandler : List (Clause H C) → Option H
  | [] => none
  | .handler h :: rest => (lastHandler rest).or (some h)
  | _ :: rest => lastHandler rest

/-- The literal children, in order. -/
def allLiterals : List (Clause H C) → List (String × C)
  | [] => []
  | .literal text child :: rest => (text, child) :: allLiterals rest
  | _ :: rest => allLiterals rest

/-- The parameter given first, with the child behind it. -/
def firstParam? : List (Clause H C) → Option (Param × C)
  | [] => none
  | .param p child :: _ => some (p, child)
  | _ :: rest => firstParam? rest

/-- The child behind the wildcard given first. -/
def firstWildcard? : List (Clause H C) → Option C
  | [] => none
  | .wildcard child :: _ => some child
  | _ :: rest => firstWildcard? rest

theorem mem_allLiterals {clauses : List (Clause H C)} {text : String} {child : C} :
    (text, child) ∈ allLiterals clauses ↔ .literal text child ∈ clauses := by
  induction clauses with
  | nil => simp [allLiterals]
  | cons clause rest ih => cases clause <;> simp [allLiterals, ih]

end Clause

namespace Staged

open Clause

variable {H : Type u} {C : Type v}

theorem record_eq (s : Staged H C) (fault : Fault) :
    s.record fault = { s with fault := s.fault.or (some fault) } := by
  obtain ⟨_, _, _, _, f⟩ := s
  cases f <;> rfl

/-- Staging more clauses adds literal children behind those there are, fills free slots, notes a
fault if none is noted yet, and replaces the handler. -/
theorem foldl_stage (clauses : List (Clause H C)) (s : Staged H C) :
    clauses.foldl stage s =
      { handler := (lastHandler clauses).or s.handler
        literals := s.literals ++ allLiterals clauses
        param := s.param.or (firstParam? clauses)
        wildcard := s.wildcard.or (firstWildcard? clauses)
        fault := s.fault.or (firstFault s.param.isSome s.wildcard.isSome clauses) } := by
  induction clauses generalizing s with
  | nil => simp [lastHandler, allLiterals, firstParam?, firstWildcard?, firstFault]
  | cons clause rest ih =>
    rw [List.foldl_cons, ih]
    cases clause with
    | handler h =>
      simp [stage, lastHandler, allLiterals, firstParam?, firstWildcard?, firstFault]
    | literal text child =>
      by_cases key : isKey text = true <;>
        simp [stage, key, record_eq, lastHandler, allLiterals, firstParam?, firstWildcard?,
          firstFault]
    | param p child =>
      cases taken : s.param <;>
        simp [stage, taken, record_eq, lastHandler, allLiterals, firstParam?, firstWildcard?,
          firstFault]
    | wildcard child =>
      cases taken : s.wildcard <;>
        simp [stage, taken, record_eq, lastHandler, allLiterals, firstParam?, firstWildcard?,
          firstFault]

/-- What is staged can be read off the clauses. -/
theorem ofClauses_eq (clauses : List (Clause H C)) :
    ofClauses clauses =
      { handler := lastHandler clauses
        literals := allLiterals clauses
        param := firstParam? clauses
        wildcard := firstWildcard? clauses
        fault := firstFault false false clauses } := by
  simp [ofClauses, foldl_stage]

theorem literals_ofClauses (clauses : List (Clause H C)) :
    (ofClauses clauses).literals = allLiterals clauses := by
  rw [ofClauses_eq]

theorem fault_ofClauses (clauses : List (Clause H C)) :
    (ofClauses clauses).fault = firstFault false false clauses := by
  rw [ofClauses_eq]

end Staged

end Routing
