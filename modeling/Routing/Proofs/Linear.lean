import Mathlib.Data.List.Infix
import Routing.Proofs.FirstFault
import Routing.Proofs.Listed

/-!
# Routes made call by call

A route is made by calls that append one piece each. The chain of its positions is built from the
end, where the only fault of a piece is a literal that is no key, so that the last such literal is
reported (`fault?_chain`); a wildcard that is not the last piece is reported before any of them.
Nothing else goes wrong, as every position gets one child only. What is built is `Linear`: one
position at every prefix of the address and one child behind each but the last.

Main statement: `build_ofCalls`.
-/

universe u

namespace Routing

namespace Piece

variable {H : Type u} (child : Tree H) (label : String) (piece : Piece)

@[simp] theorem label_wrap : (piece.wrap child label).label = label := by
  cases piece <;> rfl

@[simp] theorem children_wrap : (piece.wrap child label).children = [(piece.edge, child)] := by
  cases piece <;> rfl

/-- What is wrong with a piece as it stands. -/
def fault? : Piece → Option Fault
  | .literal text => if isKey text then none else some (.invalidSegment text)
  | .param _ | .wildcard => none

/-- A position with one child has no fault but that of the piece in front of the child. -/
theorem fault?_attach : Routing.fault? (piece.attach child) = piece.fault? := by
  cases piece with
  | literal text =>
    rw [attach, Draft.accepted_addLiteral, fault?]
    split_ifs <;> rfl
  | param p => rfl
  | wildcard => rfl

end Piece

namespace Route

variable {H : Type u} (handler : H)

/-! ### Faults -/

/-- A chain has the fault of the last piece that has one. -/
theorem fault?_chain (label : String) (r : Route) :
    fault? (chain handler label r).result = r.reverse.findSome? Piece.fault? := by
  induction r generalizing label with
  | nil => rfl
  | cons piece rest ih =>
    rw [chain, Logged.result_bind, List.reverse_cons, List.findSome?_append, ← ih]
    refine fault?_bind fun child _ => ?_
    rw [List.findSome?_singleton, ← Piece.fault?_attach child piece, Logged.result_bind,
      Logged.result_ofExcept]
    exact fault?_bind_of_none fun d _ => rfl

theorem fault?_build (r : Route) : fault? (build handler r).result =
    if r.hasInnerWildcard then some (.invalidPattern r.display .wildcardNotLast)
    else r.reverse.findSome? Piece.fault? := by
  unfold build
  split_ifs
  · rfl
  · exact fault?_chain handler Tree.rootLabel r
  · rw [Logged.result_bind, ← fault?_chain handler Tree.rootLabel r]
    exact fault?_bind_of_none fun t _ => rfl

/-! ### Chains -/

/-- The positions of a spine are those at the prefixes of the route's address. -/
theorem map_fst_nodes_spine (label : String) (r : Route) :
    (spine handler label r).nodes.map Prod.fst = r.address.inits := by
  induction r generalizing label with
  | nil => rfl
  | cons piece rest ih =>
    rw [spine, Tree.nodes_eq, Piece.children_wrap, List.flatMap_singleton, List.map_cons,
      List.map_map, address_cons, List.inits_cons, ← ih (Route.label rest), List.map_map]
    rfl

/-- Along the front of a route its spine leads to the spine of the rest. -/
theorem at?_spine (label : String) (front rest : Route) :
    (spine handler label (front ++ rest)).at? front.address =
      some (spine handler (if front = [] then label else Route.label rest) rest) := by
  induction front generalizing label with
  | nil => rfl
  | cons piece front ih =>
    rw [List.cons_append, spine, address_cons, Tree.at?_cons, Piece.child?_wrap, if_pos rfl,
      Option.bind_some, ih, if_neg (List.cons_ne_nil piece front)]
    cases front <;> rfl

/-- A tree is a single chain along a route: there is one position at every prefix of the address,
each but the last has one child and no handler and is labelled after the piece in front of its
child, and the last has the handler and no child; the first is labelled as a root instead. -/
structure Linear (r : Route) (t : Tree H) : Prop where
  positions : t.nodes.map Prod.fst = r.address.inits
  inner : ∀ (front : Route) (piece : Piece) (rest : Route), r = front ++ piece :: rest →
    ∃ n child, t.at? front.address = some n ∧ n.handler = none ∧
      n.children = [(piece.edge, child)] ∧ n.descriptor? = piece.param? ∧
      n.label = if front = [] then "::ROOT::" else match piece with
        | .literal text => "::PATH:" ++ text ++ "::"
        | .param p => "::PARAM:" ++ p.name ++ "::"
        | .wildcard => "::WILDCARD::"
  last : ∃ n, t.at? r.address = some n ∧ n.handler = some handler ∧ n.children = [] ∧
    n.label = if r = [] then "::ROOT::" else "::BOTTOM::"

theorem linear_spine (r : Route) : Linear handler r (spine handler Tree.rootLabel r) where
  positions := map_fst_nodes_spine handler Tree.rootLabel r
  inner := by
    rintro front piece rest rfl
    refine ⟨_, spine handler (Route.label rest) rest,
      at?_spine handler Tree.rootLabel front (piece :: rest), ?_⟩
    rw [spine, Piece.handler_wrap, Piece.children_wrap, Piece.descriptor?_wrap, Piece.label_wrap]
    refine ⟨rfl, rfl, rfl, ?_⟩
    split_ifs with first
    · rfl
    · cases piece <;> rfl
  last := by
    have whole := at?_spine handler Tree.rootLabel r []
    rw [List.append_nil] at whole
    exact ⟨_, whole, rfl, rfl, rfl⟩

variable {handler}

theorem Linear.length_nodes {r : Route} {t : Tree H} (h : Linear handler r t) :
    t.nodes.length = r.length + 1 := by
  rw [← List.length_map Prod.fst, h.positions, List.length_inits, length_address]

theorem linear_of_build {r : Route} {t : Tree H} (h : (build handler r).result = .ok t) :
    Linear handler r t := by
  obtain rfl := Except.ok.inj ((result_build handler (sound_of_build h)).symm.trans h)
  exact linear_spine handler r

/-! ### Calls -/

/-- The ways to append a piece to a route. -/
inductive Call where
  | path (text : String)
  | param (name : String)
  | number (name : String)
  | segment (p : Param)
  | wildcard

/-- The piece that a call appends. -/
def Call.piece : Call → Piece
  | .path text => .path text
  | .param name => .param (.text name)
  | .number name => .param (.number name)
  | .segment p => .param p
  | .wildcard => .wildcard

/-- The route that calls make in their order. -/
def ofCalls (calls : List Call) : Route := calls.map Call.piece

/-- A wildcard is asked for before something else. -/
def WildcardNotLast (calls : List Call) : Prop :=
  ∃ front rest, calls = front ++ .wildcard :: rest ∧ rest ≠ []

/-- The last text that is no key, less one slash in front. -/
def LastNoKey (calls : List Call) (text : String) : Prop :=
  ∃ front rest, calls = front ++ .path text :: rest ∧ isKey (Path.withoutSlash text) = false ∧
    ∀ later, .path later ∈ rest → isKey (Path.withoutSlash later) = true

theorem hasInnerWildcard_ofCalls {calls : List Call} :
    (ofCalls calls).hasInnerWildcard = true ↔ WildcardNotLast calls := by
  have piece_eq_wildcard_iff (call : Call) : call.piece = .wildcard ↔ call = .wildcard := by
    cases call <;> simp [Call.piece, Piece.path]
  rw [hasInnerWildcard_iff, ofCalls, ← List.map_dropLast, List.mem_map, WildcardNotLast,
    ← mem_dropLast_iff]
  simp only [piece_eq_wildcard_iff, exists_eq_right]

theorem Call.fault?_path (text : String) : (Call.path text).piece.fault? =
    if isKey (Path.withoutSlash text) then none
    else some (.invalidSegment (Path.withoutSlash text)) := rfl

theorem Call.fault?_eq_none_iff {call : Call} : call.piece.fault? = none ↔
    ∀ text, call = .path text → isKey (Path.withoutSlash text) = true := by
  cases call with
  | path text => simp [fault?_path]
  | param _ | number _ | segment _ | wildcard => exact iff_of_true rfl nofun

theorem Call.fault?_eq_some_iff {call : Call} {fault : Fault} : call.piece.fault? = some fault ↔
    ∃ text, call = .path text ∧ isKey (Path.withoutSlash text) = false ∧
      fault = .invalidSegment (Path.withoutSlash text) := by
  cases call with
  | path text =>
    rw [fault?_path]
    constructor
    · intro h
      split_ifs at h with key
      exact ⟨text, rfl, Bool.eq_false_iff.mpr key, (Option.some.inj h).symm⟩
    · rintro ⟨_, heq, noKey, rfl⟩
      obtain rfl := path.inj heq
      rw [if_neg (Bool.eq_false_iff.mp noKey)]
  | param _ | number _ | segment _ | wildcard => exact iff_of_false nofun nofun

theorem findSome?_fault?_ofCalls (calls : List Call) :
    (ofCalls calls).reverse.findSome? Piece.fault? =
      calls.reverse.findSome? fun call => call.piece.fault? := by
  rw [ofCalls, ← List.map_reverse, List.findSome?_map]
  rfl

/-- From the end, the first faulty piece is the last text that is no key. -/
theorem findSome?_fault?_eq_some_iff {calls : List Call} {fault : Fault} :
    (calls.reverse.findSome? fun call => call.piece.fault?) = some fault ↔
      ∃ text, LastNoKey calls text ∧ fault = .invalidSegment (Path.withoutSlash text) := by
  rw [List.findSome?_eq_some_iff]
  simp only [Call.fault?_eq_some_iff, Call.fault?_eq_none_iff]
  constructor
  · rintro ⟨later, _, front, hsplit, ⟨text, rfl, noKey, rfl⟩, keys⟩
    refine ⟨text, ⟨front.reverse, later.reverse, ?_, noKey, fun other mem => ?_⟩, rfl⟩
    · rw [← List.reverse_reverse calls, hsplit]
      simp
    · exact keys _ (List.mem_reverse.mp mem) other rfl
  · rintro ⟨text, ⟨front, rest, rfl, noKey, keys⟩, rfl⟩
    refine ⟨rest.reverse, .path text, front.reverse, by simp, ⟨text, rfl, noKey, rfl⟩, ?_⟩
    rintro _ mem other rfl
    exact keys other (List.mem_reverse.mp mem)

section Build

variable {calls : List Call}

theorem build_ofCalls_eq_error_iff {fault : Fault} :
    (build handler (ofCalls calls)).result = .error fault ↔
      WildcardNotLast calls ∧ fault = .invalidPattern (ofCalls calls).display .wildcardNotLast ∨
      ¬ WildcardNotLast calls ∧
        ∃ text, LastNoKey calls text ∧ fault = .invalidSegment (Path.withoutSlash text) := by
  rw [← fault?_eq_some_iff, fault?_build, findSome?_fault?_ofCalls]
  by_cases inner : WildcardNotLast calls
  · simp [hasInnerWildcard_ofCalls.mpr inner, inner, eq_comm]
  · rw [if_neg (hasInnerWildcard_ofCalls.not.mpr inner), findSome?_fault?_eq_some_iff]
    simp [inner]

theorem exists_build_ofCalls_iff :
    (∃ t, (build handler (ofCalls calls)).result = .ok t) ↔ ¬ WildcardNotLast calls ∧
      ∀ text, .path text ∈ calls → isKey (Path.withoutSlash text) = true := by
  rw [← fault?_eq_none_iff, fault?_build, findSome?_fault?_ofCalls]
  by_cases inner : WildcardNotLast calls
  · simp [hasInnerWildcard_ofCalls.mpr inner, inner]
  · rw [if_neg (hasInnerWildcard_ofCalls.not.mpr inner), List.findSome?_eq_none_iff]
    simp only [List.mem_reverse, Call.fault?_eq_none_iff, inner, not_false_eq_true, true_and]
    exact ⟨fun keys text mem => keys _ mem text rfl,
      fun keys call mem text heq => keys text (heq ▸ mem)⟩

end Build

/-- **What building a route comes to.** It fails with the printed route if a wildcard is asked for
before something else, whatever else is wrong. Otherwise it fails with the last text that is no key,
less one slash in front. It fails with nothing else, in particular no second child is ever set, and
what is built is linear, with one position more than there are calls. -/
theorem build_ofCalls (calls : List Call) (handler : H) :
    (∀ fault, (build handler (ofCalls calls)).result = .error fault ↔
      WildcardNotLast calls ∧ fault = .invalidPattern (ofCalls calls).display .wildcardNotLast ∨
      ¬ WildcardNotLast calls ∧
        ∃ text, LastNoKey calls text ∧ fault = .invalidSegment (Path.withoutSlash text)) ∧
    ((∃ t, (build handler (ofCalls calls)).result = .ok t) ↔ ¬ WildcardNotLast calls ∧
      ∀ text, .path text ∈ calls → isKey (Path.withoutSlash text) = true) ∧
    (∀ t, (build handler (ofCalls calls)).result = .ok t →
      t.nodes.length = calls.length + 1 ∧ Linear handler (ofCalls calls) t) ∧
    (build handler (ofCalls calls)).result ≠ .error .duplicateParam ∧
    (build handler (ofCalls calls)).result ≠ .error .duplicateWildcard := by
  refine ⟨fun fault => build_ofCalls_eq_error_iff, exists_build_ofCalls_iff, fun t built => ?_,
    ?_, ?_⟩
  · have linear := linear_of_build built
    exact ⟨by rw [linear.length_nodes, ofCalls, List.length_map], linear⟩
  · rw [Ne, build_ofCalls_eq_error_iff]
    simp
  · rw [Ne, build_ofCalls_eq_error_iff]
    simp

theorem build_ofCalls_projects :
    let late : List Call := [.path "a b", .wildcard, .path "c"]
    let twice : List Call := [.path "/a b", .path "//x", .param "n"]
    let right : List Call := [.path "/projects", .number "id", .path "files"]
    (build "h" (ofCalls late)).result = .error (.invalidPattern "/a b/*/c" .wildcardNotLast) ∧
      (build "h" (ofCalls twice)).result = .error (.invalidSegment "/x") ∧
      ∃ t, (build "h" (ofCalls right)).result = .ok t ∧ t.nodes.length = 4 ∧
        Linear "h" (ofCalls right) t ∧
        ∃ n m, t.at? [.literal "projects"] = some n ∧ n.label = "::PARAM:id::" ∧
          t.at? [.literal "projects", .param] = some m ∧ m.label = "::PATH:files::" := by
  intro late twice right
  have inner : WildcardNotLast late := ⟨[.path "a b"], [.path "c"], rfl, by simp⟩
  have twiceLast : ¬ WildcardNotLast twice := hasInnerWildcard_ofCalls.not.mp (by decide)
  have noKey : LastNoKey twice "//x" := ⟨[.path "/a b"], [.param "n"], rfl, rfl, by simp⟩
  have rightLast : ¬ WildcardNotLast right := hasInnerWildcard_ofCalls.not.mp (by decide)
  have keys : ∀ text, .path text ∈ right → isKey (Path.withoutSlash text) = true := by
    intro text mem
    obtain rfl | rfl : text = "/projects" ∨ text = "files" := by simpa [right] using mem
    · rfl
    · rfl
  obtain ⟨t, built⟩ := (build_ofCalls right "h").2.1.mpr ⟨rightLast, keys⟩
  refine ⟨((build_ofCalls late "h").1 _).mpr (.inl ⟨inner, rfl⟩),
    ((build_ofCalls twice "h").1 _).mpr (.inr ⟨twiceLast, "//x", noKey, rfl⟩), t, built, ?_⟩
  obtain ⟨count, linear⟩ := (build_ofCalls right "h").2.2.1 t built
  obtain ⟨n, -, hn, -, -, -, number⟩ := linear.inner [.literal "projects"] _ _ rfl
  obtain ⟨m, -, hm, -, -, -, files⟩ :=
    linear.inner [.literal "projects", .param (.number "id")] _ _ rfl
  exact ⟨count, linear, n, m, hn, number, hm, files⟩

end Route

end Routing
