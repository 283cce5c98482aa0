import Routing.Proofs.Captures
import Routing.Proofs.Composed
import Routing.Proofs.Walk
import Routing.Table.Names

/-!
# Answering requests from the list of routes

`Flat.answer?` answers a request from the list of parsed routes alone. It keeps the routes that are
still active and a position, the same in all of them: the next segment keeps the routes that have
it as a literal there, else those that have a parameter there, which is read by the last of them,
else those that have a wildcard there, which takes all segments left. The routes that end where the
request does answer it, their handlers combined from the left. What is read and collected on the way
is kept in maps and a list of the interpreter's own.

The composed tree gives the same answers: a walk that has come to an address of the tree agrees
with the interpreter whose active routes are those through the address (`answer?_eq`).

Main statement: `hit?_compose`.
-/

universe u

namespace Routing

namespace Flat

variable {H : Type u}

/-- The routes that go along an edge at a position. -/
def along (i : Nat) (e : Edge) (active : List (Route × H)) : List (Route × H) :=
  active.filter fun r => r.1[i]?.map Piece.edge = some e

/-- The parameter at a position of the last route that has one there. -/
def lastParam? (i : Nat) (active : List (Route × H)) : Option Param :=
  (active.filterMap fun r => r.1[i]?.bind Piece.param?).getLast?

variable [Combine H]

/-- The handlers of the routes that end at a position, combined from the left. -/
def ended? (i : Nat) (active : List (Route × H)) : Option H :=
  leftFold? Combine.combine ((active.filter fun r => r.1.length = i).map Prod.snd)

/-- The handler and the findings for the segments left, from the routes that are active. -/
def answer : List String → Nat → List (Route × H) → Findings → Option (H × Findings)
  | [], i, active, seen => (ended? i active).map fun handler => (handler, seen)
  | segment :: rest, i, active, seen =>
    if along i (.literal segment) active ≠ [] then
      answer rest (i + 1) (along i (.literal segment) active) seen
    else match lastParam? i active with
      | some p =>
        match p.read segment with
        | some v => answer rest (i + 1) (along i .param active) (seen.store p.name v)
        | none => none
      | none =>
        if along i .wildcard active ≠ [] then
          (ended? (i + 1) (along i .wildcard active)).map fun handler =>
            (handler, seen.collect (segment :: rest))
        else none

/-- The answer to a request: at first all routes are active and nothing is found. -/
def answer? (routes : List (Route × H)) (segments : List String) : Option (H × Findings) :=
  answer segments 0 routes .nothing

end Flat

/-! ### Routes through an address -/

namespace Route

variable {H : Type u}

theorem concat_prefix_iff {a l : List Edge} {e : Edge} :
    a ++ [e] <+: l ↔ a <+: l ∧ l[a.length]? = some e := by
  constructor
  · rintro ⟨t, rfl⟩
    exact ⟨⟨e :: t, by simp⟩, by simp⟩
  · rintro ⟨⟨t, rfl⟩, h⟩
    cases t with
    | nil => simp at h
    | cons e' t =>
      obtain rfl : e' = e := by simpa using h
      exact ⟨t, by simp⟩

theorem through_ne_nil_iff {a : List Edge} {routes : List (Route × H)} :
    through a routes ≠ [] ↔ ∃ r ∈ routes, a <+: r.1.address := by
  simp [through]

/-- The routes through an address that go on along an edge. -/
theorem along_through (a : List Edge) (e : Edge) (routes : List (Route × H)) :
    Flat.along a.length e (through a routes) = through (a ++ [e]) routes := by
  unfold Flat.along through
  rw [List.filter_filter]
  refine List.filter_congr fun r _ => ?_
  rw [← Bool.decide_and, decide_eq_decide, concat_prefix_iff, address, List.getElem?_map, and_comm]

/-- The routes through an address that end after its length end there. -/
theorem ended?_through [Combine H] (a : List Edge) (routes : List (Route × H)) :
    Flat.ended? a.length (through a routes) =
      leftFold? Combine.combine (endingAt a routes) := by
  unfold Flat.ended? endingAt through
  rw [List.filter_filter]
  congr 2
  refine List.filter_congr fun r _ => ?_
  rw [← Bool.decide_and, decide_eq_decide, ← length_address]
  constructor
  · rintro ⟨hlen, hpre⟩
    exact (hpre.eq_of_length hlen.symm).symm
  · rintro rfl
    exact ⟨rfl, List.prefix_refl _⟩

end Route

/-! ### Simulation -/

namespace Composed

variable {H : Type u} [Combine H] {routes : List (Route × H)} {t : Tree H}

/-- There is a child behind an edge exactly if an active route goes along it. -/
theorem along_ne_nil_iff (law : Composed routes t) {a : List Edge} {n : Tree H}
    (hn : t.at? a = some n) (e : Edge) :
    Flat.along a.length e (Route.through a routes) ≠ [] ↔ (n.child? e).isSome := by
  rw [Route.along_through, Route.through_ne_nil_iff, ← law.position, Tree.at?_concat hn]

theorem lastParam?_eq (law : Composed routes t) {a : List Edge} {n : Tree H}
    (hn : t.at? a = some n) :
    Flat.lastParam? a.length (Route.through a routes) = n.descriptor? := by
  rw [← Tree.descriptorAt?_eq hn, law.descriptor]
  rfl

theorem ended?_eq (law : Composed routes t) {a : List Edge} {n : Tree H}
    (hn : t.at? a = some n) :
    Flat.ended? a.length (Route.through a routes) = n.handler := by
  rw [Route.ended?_through, ← law.handler, Tree.handlerAt?_eq hn]

/-- **Simulation**: from the position at an address, the walk ends with the handler and the findings
that the interpreter ends with from the routes through that address. -/
theorem answer?_eq (law : Composed routes t) (segments : List String) {a : List Edge}
    {n : Tree H} (hn : t.at? a = some n) (seen : Captures) :
    (n.answer? segments seen).map (Prod.map id Captures.findings) =
      Flat.answer segments a.length (Route.through a routes) seen.findings := by
  induction segments generalizing a n seen with
  | nil =>
    rw [Tree.answer?, Tree.arrival?_walk_nil, Flat.answer, law.ended?_eq hn, Option.bind_some,
      Option.map_map]
    rfl
  | cons segment rest ih =>
    -- behind an edge stand the routes that go along it, so the hypothesis applies to every child
    have next {e : Edge} {child : Tree H} (he : n.child? e = some child) :
        t.at? (a ++ [e]) = some child := (Tree.at?_concat hn e).trans he
    have ended {e : Edge} {child : Tree H} (he : n.child? e = some child) :
        Flat.ended? (a.length + 1) (Flat.along a.length e (Route.through a routes)) =
          child.handler := by
      rw [Route.along_through, ← law.ended?_eq (next he), List.length_append]
      rfl
    have deeper {e : Edge} {child : Tree H} (he : n.child? e = some child) (seen : Captures) :
        (child.answer? rest seen).map (Prod.map id Captures.findings) =
          Flat.answer rest (a.length + 1) (Flat.along a.length e (Route.through a routes))
            seen.findings := by
      rw [Route.along_through, ih (next he) seen, List.length_append]
      rfl
    rw [Tree.answer?, Tree.arrival?_walk_cons, Flat.answer, law.lastParam?_eq hn]
    cases hl : n.child? (.literal segment) with
    | some child =>
      rw [if_pos ((law.along_ne_nil_iff hn _).mpr (by simp [hl]))]
      exact deeper hl seen
    | none =>
      rw [if_neg (mt (law.along_ne_nil_iff hn _).mp (by simp [hl]))]
      cases hd : n.descriptor? with
      | some p =>
        obtain ⟨child, hc⟩ := Tree.child?_param_of_descriptor? hd
        cases hv : p.read segment with
        | none => simp [Captures.read?_of_none hv, hv]
        | some v =>
          simp only [Captures.read?_of_some hv, hv, hc, Option.bind_some, ← Captures.findings_add]
          exact deeper hc _
      | none =>
        cases hw : n.child? .wildcard with
        | none =>
          rw [if_neg (mt (law.along_ne_nil_iff hn _).mp (by simp [hw]))]
          rfl
        | some child =>
          rw [if_pos ((law.along_ne_nil_iff hn _).mpr (by simp [hw])), ended hw,
            ← Captures.findings_addWildcard]
          exact Option.map_map ..

theorem hit?_eq (law : Composed routes t) (segments : List String) :
    (t.hit? segments).map (fun hit => (hit.handler, hit.segments, hit.captures.findings)) =
      (Flat.answer? routes segments).map fun (handler, found) => (handler, segments, found) := by
  have all : Route.through [] routes = routes := List.filter_eq_self.mpr (by simp)
  have sim := law.answer?_eq segments (Tree.at?_nil t) .empty
  rw [List.length_nil, all] at sim
  rw [Tree.hit?_eq_answer?, Flat.answer?, ← Captures.findings_empty, ← sim, Option.map_map,
    Option.map_map]
  rfl

end Composed

/-- **The composed tree answers like the list of routes.** Whatever the handlers and their
combination: patterns that all parse, at least one, compose into a tree that has a hit for a request
exactly if the interpreter on the parsed routes has an answer, with the same handler, the request's
segments, the same integers and texts under every name and the same segments in the wildcard. -/
theorem hit?_compose {H : Type u} [Combine H] {entries : List (String × H)}
    {routes : List (Route × H)} (nonempty : entries ≠ [])
    (parsed : Route.parseAll entries = .ok routes) :
    ∃ t, (Route.compose entries).result = .ok t ∧
      ∀ segments,
        (t.hit? segments).map (fun hit => (hit.handler, hit.segments, hit.captures.findings)) =
          (Flat.answer? routes segments).map fun (handler, found) =>
            (handler, segments, found) := by
  obtain ⟨t, ht, law⟩ := composed_mergeAll ((Route.ne_nil_of_parseAll parsed).mpr nonempty)
  refine ⟨t, ?_, law.hit?_eq⟩
  rw [Route.result_compose, parsed]
  exact ht

theorem hit?_compose_overlapping :
    let entries : List (String × Names) := [("/a/:x", ⟨["text"]⟩), ("/a/:y:int/:y:int", ⟨["pair"]⟩),
      ("a/*", ⟨["hidden"]⟩), ("/b/*", ⟨["rest"]⟩)]
    let number : Piece := .param (.number "y")
    let routes : List (Route × Names) := [([.literal "a", .param (.text "x")], ⟨["text"]⟩),
      ([.literal "a", number, number], ⟨["pair"]⟩), ([.literal "a", .wildcard], ⟨["hidden"]⟩),
      ([.literal "b", .wildcard], ⟨["rest"]⟩)]
    let told (hit : Hit Names) :=
      (hit.handler.list, hit.captures.int? "y", hit.captures.text? "x", hit.captures.wildcard)
    entries ≠ [] ∧ Route.parseAll entries = .ok routes ∧
      ∃ t, (Route.compose entries).result = .ok t ∧
        (t.hit? ["a", "7"]).map told = some (["text"], some 7, none, []) ∧
        -- the second integer replaces the first one
        (t.hit? ["a", "7", "8"]).map told = some (["pair"], some 8, none, []) ∧
        (t.hit? ["a", "z"]).map told = none ∧
        (t.hit? ["b", "c", "d"]).map told = some (["rest"], none, none, ["c", "d"]) := by
  intro entries number routes told
  have parsed : Route.parseAll entries = .ok routes := rfl
  obtain ⟨t, ht, answers⟩ := hit?_compose (by simp [entries]) parsed
  -- the same is told of what the interpreter finds
  have look (segments : List String) : (t.hit? segments).map told =
      (Flat.answer? routes segments).map fun (handler, found) =>
        (handler.list, found.integers "y", found.texts "x", found.rest) := by
    have read := congrArg (Option.map fun (answer : Names × List String × Findings) =>
      (answer.1.list, answer.2.2.integers "y", answer.2.2.texts "x", answer.2.2.rest))
      (answers segments)
    rwa [Option.map_map, Option.map_map] at read
  exact ⟨by simp [entries], parsed, t, ht, (look _).trans rfl, (look _).trans rfl,
    (look _).trans rfl, (look _).trans rfl⟩

end Routing
