import Routing.Proofs.Captures
import Routing.Proofs.Spine
import Routing.Proofs.Walk

/-!
# Walks of concatenated requests

A walk never looks back: where the walk of the first segments has arrived, the walk of the rest goes
on from there with the captures made so far (`walk_append`). Only a wildcard, which leaves something
in the captures that nothing else leaves there, takes the rest as well. What is captured on the way
on does not depend on the captures made before and overrides them (`arrival?_walk_override`).

Main statement: `resolve_append`.
-/

universe u

namespace Routing

theorem Captures.wildcard_read? {p : Param} {segment : String} {c d : Captures}
    (h : c.read? p segment = some d) : d.wildcard = c.wildcard := by
  obtain ⟨v, -, rfl⟩ := Option.map_eq_some_iff.mp h
  exact wildcard_add ..

theorem Captures.Ordered.read? {p : Param} {segment : String} {c d : Captures} (hc : c.Ordered)
    (h : c.read? p segment = some d) : d.Ordered := by
  obtain ⟨v, -, rfl⟩ := Option.map_eq_some_iff.mp h
  exact hc.add ..

namespace Outcome

variable {H : Type u}

/-- How a walk goes on after a first part that ended like this. -/
def resume (rest : List String) : Outcome H → Outcome H
  | .arrived n found =>
    if found.wildcard = [] then Tree.walk rest n found else .arrived n (found.addWildcard rest)
  | .rejected segment param label => .rejected segment param label
  | .unmatched label segment => .unmatched label segment

end Outcome

namespace Tree

variable {H : Type u}

/-- **A walk goes on where it has arrived**, with a wildcard taking everything left. -/
theorem walk_append (front rest : List String) {t : Tree H} {seen : Captures}
    (h : seen.wildcard = []) :
    walk (front ++ rest) t seen = (walk front t seen).resume rest := by
  induction front generalizing t seen with
  | nil => simp [walk, Outcome.resume, h]
  | cons segment front ih =>
    rw [List.cons_append, walk, walk]
    cases t.literal? segment with
    | some child => exact ih h
    | none =>
      rcases t.param with _ | ⟨p, child⟩
      · cases t.wildcard with
        | none => rfl
        | some child => simp [Outcome.resume, Captures.addWildcard]
      · simp only
        cases hr : seen.read? p segment with
        | none => rfl
        | some seen' => exact ih ((Captures.wildcard_read? hr).trans h)

/-- **Captures made before only add up**: a walk finds the same with any captures to start from,
and overrides them. -/
theorem arrival?_walk_override (segments : List String) (t : Tree H) {seen : Captures}
    (h : seen.Ordered) (later : Captures) :
    (walk segments t (seen.override later)).arrival? =
      (walk segments t later).arrival?.map fun (n, found) => (n, seen.override found) := by
  induction segments generalizing t later with
  | nil => rfl
  | cons segment rest ih =>
    rw [arrival?_walk_cons, arrival?_walk_cons]
    cases t.child? (.literal segment) with
    | some child => exact ih child later
    | none =>
      cases t.descriptor? with
      | none => cases t.child? .wildcard <;> rfl
      | some p =>
        simp only [Captures.read?_override h]
        cases later.read? p segment with
        | none => rfl
        | some later' =>
          cases t.child? .param with
          | none => rfl
          | some child => exact ih child later'

theorem ordered_of_arrival {segments : List String} {t n : Tree H} {seen found : Captures}
    (hs : seen.Ordered) (h : (walk segments t seen).arrival? = some (n, found)) :
    found.Ordered := by
  induction segments generalizing t seen with
  | nil =>
    obtain ⟨-, rfl⟩ : t = n ∧ seen = found := by simpa using h
    exact hs
  | cons segment rest ih =>
    rw [arrival?_walk_cons] at h
    cases hl : t.child? (.literal segment) with
    | some child =>
      rw [hl] at h
      exact ih hs h
    | none =>
      rw [hl] at h
      cases hd : t.descriptor? with
      | some p =>
        simp only [hd, Option.bind_eq_some_iff] at h
        obtain ⟨seen', hr, child, -, h⟩ := h
        exact ih (hs.read? hr) h
      | none =>
        simp only [hd, Option.map_eq_some_iff, Prod.mk.injEq] at h
        obtain ⟨child, -, -, rfl⟩ := h
        exact hs.addWildcard _

theorem arrival?_resume (rest : List String) (outcome : Outcome H) :
    (outcome.resume rest).arrival? = outcome.arrival?.bind fun (n, found) =>
      if found.wildcard = [] then (walk rest n found).arrival?
      else some (n, found.addWildcard rest) := by
  cases outcome with
  | arrived n found =>
    by_cases hw : found.wildcard = [] <;> simp [Outcome.resume, Outcome.arrival?, hw]
  | rejected => rfl
  | unmatched => rfl

/-- **Requests one after the other.** What leads nowhere leads nowhere with more segments behind it.
Where a request has come without a wildcard, the rest of a longer one goes on as a request of its
own, whose captures override those made before: under every name its value of a type is found, or
else the one found before. Behind a wildcard the rest is captured with it. -/
theorem resolve_append (t : Tree H) (front rest : List String) :
    (t.resolve front = none → t.resolve (front ++ rest) = none) ∧
    ∀ n found, t.resolve front = some (n, found) →
      (found.wildcard = [] →
        (t.resolve (front ++ rest) = none ↔ n.resolve rest = none) ∧
        ∀ m later, n.resolve rest = some (m, later) →
          t.resolve (front ++ rest) = some (m, found.override later) ∧
          (∀ k, (found.override later).int? k = (later.int? k).or (found.int? k)) ∧
          (∀ k, (found.override later).text? k = (later.text? k).or (found.text? k)) ∧
          (found.override later).wildcard = later.wildcard) ∧
      (found.wildcard ≠ [] →
        t.resolve (front ++ rest) = some (n, found.addWildcard rest)) := by
  have whole : t.resolve (front ++ rest) = (t.resolve front).bind fun (n, found) =>
      if found.wildcard = [] then (walk rest n found).arrival?
      else some (n, found.addWildcard rest) := by
    rw [resolve, walk_append front rest rfl, arrival?_resume]
    rfl
  refine ⟨fun h => by rw [whole, h, Option.bind_none], fun n found h => ?_⟩
  have onward : t.resolve (front ++ rest) =
      if found.wildcard = [] then (walk rest n found).arrival?
      else some (n, found.addWildcard rest) := by
    rw [whole, h]
    rfl
  constructor
  · intro hw
    have ordered : found.Ordered := ordered_of_arrival Captures.ordered_empty h
    have alone := arrival?_walk_override rest n ordered .empty
    rw [Captures.override_empty hw] at alone
    rw [onward, if_pos hw, alone]
    refine ⟨Option.map_eq_none_iff, fun m later hm => ⟨?_, fun k => ?_, fun k => ?_, rfl⟩⟩
    · exact Option.map_eq_some_iff.mpr ⟨(m, later), hm, rfl⟩
    · exact Captures.int?_override k found later
    · exact Captures.text?_override k found later
  · intro hw
    rw [onward, if_neg hw]

end Tree

theorem resolve_append_numbers :
    let tail : Route := [.param (.number "id"), .wildcard]
    let t := Route.spine "files" "t" (.literal "u" :: .param (.number "id") :: tail)
    let n := Route.spine "files" (Route.label tail) tail
    let m := Route.spine "files" Tree.bottomLabel []
    let found : Captures := { integers := [("id", 7)] }
    let later : Captures := { integers := [("id", 8)], wildcard := ["a"] }
    t.resolve ["x"] = none ∧ t.resolve (["x"] ++ ["7"]) = none ∧
      t.resolve ["u", "7"] = some (n, found) ∧ found.wildcard = [] ∧
      n.resolve ["8", "a"] = some (m, later) ∧
      t.resolve (["u", "7"] ++ ["8", "a"]) = some (m, found.override later) ∧
      (found.override later).int? "id" = some 8 ∧ (found.override later).wildcard ≠ [] ∧
      t.resolve ((["u", "7"] ++ ["8", "a"]) ++ ["b"]) =
        some (m, (found.override later).addWildcard ["b"]) := by
  intro tail t n m found later
  have nowhere : t.resolve ["x"] = none := rfl
  have here : t.resolve ["u", "7"] = some (n, found) := rfl
  have there : n.resolve ["8", "a"] = some (m, later) := rfl
  have both := ((Tree.resolve_append t ["u", "7"] ["8", "a"]).2 n found here).1 rfl
  obtain ⟨onward, ints, -⟩ := both.2 m later there
  have taken : (found.override later).wildcard ≠ [] := List.cons_ne_nil "a" []
  have stuck := (Tree.resolve_append t ["x"] ["7"]).1 nowhere
  have further := ((Tree.resolve_append t _ ["b"]).2 m _ onward).2 taken
  exact ⟨nowhere, stuck, here, rfl, there, onward, ints "id", taken, further⟩

end Routing
