import Routing.Proofs.Captures
import Routing.Proofs.Spine
import Routing.Proofs.Walk

/-!
# The language of a single route

A request `Agrees` with a route if at every position of the route it has a segment that the piece
there accepts, and no segments behind them unless the route ends in a wildcard. The tree of a route
answers exactly these requests, and captures the values that the parameters read, one after the
other, and the segments from the wildcard on (`answer?_spine_eq_some_iff`).

Main statement: `hit?_of_build`.
-/

universe u

namespace Routing

/-! ### Agreement -/

namespace Piece

/-- A piece takes a segment in its place. -/
def Accepts : Piece → String → Prop
  | .literal text, segment => segment = text
  | .param p, segment => (p.read segment).isSome
  | .wildcard, _ => True

/-- What a parameter stores for a segment, by name. -/
def value? : Piece → String → Option (String × Value)
  | .param p, segment => (p.read segment).map fun v => (p.name, v)
  | .literal _, _ | .wildcard, _ => none

end Piece

namespace Route

def endsInWildcard (r : Route) : Bool := r.getLast?.any Piece.isWildcard

/-- The segments agree with the route position by position. -/
structure Agrees (r : Route) (segments : List String) : Prop where
  accepted : ∀ (i : Nat) (piece : Piece), r[i]? = some piece →
    ∃ segment, segments[i]? = some segment ∧ piece.Accepts segment
  length : r.endsInWildcard = false → segments.length = r.length

/-- What the parameters of a route read, in their order. -/
def values (r : Route) (segments : List String) : List (String × Value) :=
  (r.zip segments).filterMap fun place => place.1.value? place.2

/-- The segments from the position of the wildcard on. -/
def rest (r : Route) (segments : List String) : List String :=
  if r.endsInWildcard then segments.drop (r.length - 1) else []

@[simp] theorem values_nil (segments : List String) : values [] segments = [] := rfl

@[simp] theorem rest_nil (segments : List String) : rest [] segments = [] := rfl

@[simp] theorem rest_wildcard (segments : List String) : rest [.wildcard] segments = segments := rfl

section Cons

variable {piece : Piece} {r : Route} {segment : String} {segments : List String}

theorem endsInWildcard_cons (h : piece ≠ .wildcard) :
    endsInWildcard (piece :: r) = r.endsInWildcard := by
  cases r with
  | nil => cases piece <;> first | rfl | exact absurd rfl h
  | cons next r => simp [endsInWildcard, List.getLast?_cons_cons]

theorem values_cons : values (piece :: r) (segment :: segments) =
    (piece.value? segment).toList ++ r.values segments := by
  rw [values, List.zip_cons_cons, List.filterMap_cons]
  cases piece.value? segment <;> simp [values]

theorem rest_cons (h : piece ≠ .wildcard) :
    rest (piece :: r) (segment :: segments) = r.rest segments := by
  rw [rest, rest, endsInWildcard_cons h]
  cases r with
  | nil => rfl
  | cons next r => rfl

theorem agrees_nil_iff : Agrees [] segments ↔ segments = [] := by
  constructor
  · intro h
    exact List.eq_nil_of_length_eq_zero (h.length rfl)
  · rintro rfl
    exact ⟨fun i piece hi => by simp at hi, fun _ => rfl⟩

theorem not_agrees_nil : ¬ Agrees (piece :: r) [] := by
  intro h
  obtain ⟨_, hs, -⟩ := h.accepted 0 piece rfl
  cases hs

theorem agrees_cons_iff (h : piece ≠ .wildcard) :
    Agrees (piece :: r) (segment :: segments) ↔ piece.Accepts segment ∧ r.Agrees segments := by
  constructor
  · intro agrees
    obtain ⟨s, hs, here⟩ := agrees.accepted 0 piece rfl
    obtain rfl : segment = s := Option.some.inj hs
    refine ⟨here, fun i next hi => agrees.accepted (i + 1) next hi, fun hr => ?_⟩
    have lengths := agrees.length ((endsInWildcard_cons h).trans hr)
    simpa using lengths
  · rintro ⟨here, agrees⟩
    refine ⟨fun i next hi => ?_, fun hr => ?_⟩
    · cases i with
      | zero =>
        obtain rfl : piece = next := Option.some.inj hi
        exact ⟨segment, rfl, here⟩
      | succ i => exact agrees.accepted i next hi
    · have lengths := agrees.length ((endsInWildcard_cons h).symm.trans hr)
      simpa using lengths

/-- A wildcard takes any segments, but it takes one. -/
theorem agrees_wildcard : Agrees [.wildcard] (segment :: segments) := by
  refine ⟨fun i next hi => ?_, fun hr => by cases hr⟩
  cases i with
  | zero =>
    obtain rfl : Piece.wildcard = next := Option.some.inj hi
    exact ⟨segment, rfl, trivial⟩
  | succ i => simp at hi

end Cons

end Route

/-! ### The walk along a spine -/

namespace Tree

variable {H : Type u}

section Wrap

variable (child : Tree H) (label segment : String) (segments : List String) (seen : Captures)

theorem answer?_nil_wrap (piece : Piece) : answer? [] (piece.wrap child label) seen = none := by
  simp [answer?]

theorem answer?_wrap_literal (text : String) :
    answer? (segment :: segments) (Piece.wrap child label (.literal text)) seen =
      if segment = text then answer? segments child seen else none := by
  rw [answer?, arrival?_walk_cons, Piece.child?_wrap]
  by_cases hs : segment = text
  · simp [hs, Piece.edge, answer?]
  · simp [hs, Piece.edge, Piece.param?, Piece.child?_wrap]

theorem answer?_wrap_param (p : Param) :
    answer? (segment :: segments) (Piece.wrap child label (.param p)) seen =
      (seen.read? p segment).bind fun seen => answer? segments child seen := by
  rw [answer?, arrival?_walk_cons, Piece.child?_wrap]
  cases hr : seen.read? p segment <;>
    simp [hr, Piece.edge, Piece.param?, Piece.child?_wrap, answer?]

theorem answer?_wrap_wildcard :
    answer? (segment :: segments) (Piece.wrap child label .wildcard) seen =
      child.handler.map fun h => (h, seen.addWildcard (segment :: segments)) := by
  rw [answer?, arrival?_walk_cons, Piece.child?_wrap]
  simp [Piece.edge, Piece.param?, Piece.child?_wrap]

end Wrap

end Tree

namespace Route

variable {H : Type u} {r : Route}

theorem answer?_spine_nil (handler : H) (label : String) (segments : List String)
    (seen : Captures) : Tree.answer? segments (spine handler label []) seen =
      if segments = [] then some (handler, seen) else none := by
  cases segments with
  | nil => rfl
  | cons segment segments =>
    have bare : (spine handler label []).descriptor? = none := rfl
    simp [Tree.answer?, Tree.arrival?_walk_cons, bare]

/-- **The tree of a sound route answers exactly the requests that agree with it.** -/
theorem answer?_spine_eq_some_iff (sound : r.Sound) (handler h : H) (label : String)
    (segments : List String) (seen found : Captures) :
    Tree.answer? segments (spine handler label r) seen = some (h, found) ↔
      h = handler ∧ r.Agrees segments ∧
        found = (seen.addAll (r.values segments)).addWildcard (r.rest segments) := by
  induction r generalizing label segments seen with
  | nil =>
    rw [answer?_spine_nil, agrees_nil_iff]
    by_cases hs : segments = []
    · rw [if_pos hs]
      simp [hs, eq_comm]
    · rw [if_neg hs]
      simp [hs]
  | cons piece r ih =>
    obtain ⟨-, last, tail⟩ := sound_cons_iff.mp sound
    rw [spine]
    cases segments with
    | nil => simp [Tree.answer?_nil_wrap, not_agrees_nil]
    | cons segment segments =>
      cases piece with
      | literal text =>
        rw [Tree.answer?_wrap_literal, agrees_cons_iff (by simp), rest_cons (by simp), values_cons]
        by_cases hs : segment = text
        · rw [if_pos hs, ih tail]
          simp [Piece.Accepts, Piece.value?, hs]
        · simp [Piece.Accepts, hs]
      | param p =>
        rw [Tree.answer?_wrap_param, agrees_cons_iff (by simp), rest_cons (by simp), values_cons,
          Captures.read?]
        cases hv : p.read segment with
        | none => simp [Piece.Accepts, hv]
        | some v =>
          rw [Option.map_some, Option.bind_some, ih tail]
          simp [Piece.Accepts, Piece.value?, hv, Captures.addAll_cons]
      | wildcard =>
        obtain rfl := last rfl
        rw [Tree.answer?_wrap_wildcard]
        simp [spine, agrees_wildcard, values_cons, Piece.value?, eq_comm]

/-- **A single route matches exactly its language.** Where a route of any pieces is built, its tree
answers a request exactly if the request agrees with the route, and then with the handler of the
route. The wildcard holds the segments from its position on, and under a name the integer and the
text are found that the last parameter of the name has read of each type. -/
theorem hit?_of_build {handler : H} {t : Tree H} (built : (r.build handler).result = .ok t)
    (segments : List String) :
    ((∃ hit, t.hit? segments = some hit ∧ hit.handler = handler) ↔ r.Agrees segments) ∧
      ∀ hit, t.hit? segments = some hit →
        hit.handler = handler ∧ hit.segments = segments ∧
        hit.captures.wildcard = r.rest segments ∧
        (∀ name, hit.captures.int? name =
          (Captures.partsOf Value.int? name (r.values segments)).getLast?) ∧
        ∀ name, hit.captures.text? name =
          (Captures.partsOf Value.text? name (r.values segments)).getLast? := by
  have sound := sound_of_build built
  obtain rfl : spine handler Tree.rootLabel r = t :=
    Except.ok.inj ((result_build handler sound).symm.trans built)
  have answer (h : H) (found : Captures) :=
    answer?_spine_eq_some_iff sound handler h Tree.rootLabel segments .empty found
  have hit_iff (hit : Hit H) : (spine handler Tree.rootLabel r).hit? segments = some hit ↔
      ∃ h found, (h = handler ∧ r.Agrees segments ∧
        found = (Captures.empty.addAll (r.values segments)).addWildcard (r.rest segments)) ∧
        Hit.mk h segments found = hit := by
    rw [Tree.hit?_eq_answer?, Option.map_eq_some_iff, Prod.exists]
    simp only [answer]
  refine ⟨⟨?_, fun agrees => ?_⟩, fun hit h => ?_⟩
  · rintro ⟨hit, h, -⟩
    obtain ⟨-, -, ⟨-, agrees, -⟩, -⟩ := (hit_iff hit).mp h
    exact agrees
  · exact ⟨_, (hit_iff _).mpr ⟨handler, _, ⟨rfl, agrees, rfl⟩, rfl⟩, rfl⟩
  · obtain ⟨h, found, ⟨rfl, -, rfl⟩, rfl⟩ := (hit_iff hit).mp h
    refine ⟨rfl, rfl, ?_, fun name => ?_, fun name => ?_⟩
    · rw [Captures.addWildcard, Captures.wildcard_addAll]
      rfl
    · exact (Captures.int?_addAll ..).trans (Option.or_none ..)
    · exact (Captures.text?_addAll ..).trans (Option.or_none ..)

theorem hit?_of_build_repeated :
    let number : Piece := .param (.number "id")
    let text : Piece := .param (.text "id")
    let r : Route := [.literal "u", number, text, number, text, .wildcard]
    let segments := ["u", "7", "w", "8", "x", "a", "b"]
    ∃ t, (r.build "user").result = .ok t ∧ r.Agrees segments ∧
      ∃ hit, t.hit? segments = some hit ∧ hit.handler = "user" ∧
        hit.captures.wildcard = ["a", "b"] ∧ hit.captures.int? "id" = some 8 ∧
        hit.captures.text? "id" = some "x" := by
  intro number text r segments
  obtain ⟨t, built⟩ : ∃ t, (r.build "user").result = .ok t := ⟨_, rfl⟩
  obtain ⟨language, captured⟩ := hit?_of_build built segments
  have agrees : r.Agrees segments := by
    simp only [r, segments, agrees_cons_iff, ne_eq, reduceCtorEq, not_false_eq_true]
    exact ⟨rfl, rfl, rfl, rfl, rfl, agrees_wildcard⟩
  obtain ⟨hit, h, handler⟩ := language.mpr agrees
  obtain ⟨-, -, wildcard, ints, texts⟩ := captured hit h
  exact ⟨t, built, agrees, hit, h, handler, wildcard, (ints "id").trans (by decide +kernel),
    (texts "id").trans (by decide +kernel)⟩

end Route

end Routing
