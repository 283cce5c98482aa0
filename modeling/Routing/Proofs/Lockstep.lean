import Routing.Proofs.Captures
import Routing.Proofs.Walk
import Routing.Table.Names

/-!
# Walking two trees in lockstep

A `Pair` is a position in each of two trees, where a tree may have none. A lockstep walk takes one
edge in both trees at once: whichever edge one of the sides has, tried in the order literal,
parameter, wildcard, where the parameter of the second tree goes before that of the first; what it
reads and collects is kept in findings. The position of the merged tree is at every step the overlay
of the pair (`arrival?_walk_overlay`).

Main statement: `resolve_merge_lockstep`.
-/

universe u

namespace Routing

/-- Positions of two trees, side by side. -/
structure Pair (H : Type u) where
  mine : Option (Tree H)
  theirs : Option (Tree H)

namespace Pair

variable {H : Type u}

/-- Whether one of the sides has a child behind an edge. -/
def has (e : Edge) (p : Pair H) : Bool :=
  (p.mine.bind fun t => t.child? e).isSome || (p.theirs.bind fun t => t.child? e).isSome

/-- Both sides go along an edge; one that has no child there falls away. -/
def step (e : Edge) (p : Pair H) : Pair H where
  mine := p.mine.bind fun t => t.child? e
  theirs := p.theirs.bind fun t => t.child? e

/-- The parameter of the second side, or else of the first. -/
def descriptor? (p : Pair H) : Option Param :=
  match p.theirs.bind Tree.descriptor? with
  | some d => some d
  | none => p.mine.bind Tree.descriptor?

/-- The walk of a list of segments in both trees, with what was found so far. -/
def walk : List String → Pair H → Findings → Option (Pair H × Findings)
  | [], p, seen => some (p, seen)
  | segment :: rest, p, seen =>
    if p.has (.literal segment) then walk rest (p.step (.literal segment)) seen
    else match p.descriptor? with
      | some d =>
        match d.read segment with
        | some v => walk rest (p.step .param) (seen.store d.name v)
        | none => none
      | none =>
        if p.has .wildcard then some (p.step .wildcard, seen.collect (segment :: rest))
        else none

/-- The label of the second side, or else of the first. -/
def label? (p : Pair H) : Option String :=
  match p.theirs with
  | some t => some t.label
  | none => p.mine.map Tree.label

/-- The handler of the side that has one; two are combined, the first with the second. -/
def handler? [Combine H] (p : Pair H) : Option H :=
  match p.mine.bind Tree.handler, p.theirs.bind Tree.handler with
  | some h, some k => some (Combine.combine h k)
  | some h, none => some h
  | none, k => k

/-! ### The overlay of a pair -/

variable [Combine H]

/-- The position of the merged tree. -/
def overlay (p : Pair H) : Option (Tree H) := p.mine.merge Tree.merge p.theirs

theorem overlay_step (p : Pair H) (e : Edge) :
    (p.step e).overlay = p.overlay.bind fun t => t.child? e := by
  obtain ⟨_ | m, _ | s⟩ := p
  · rfl
  · simp [overlay, step]
  · simp [overlay, step]
  · exact (Tree.child?_merge m s e).symm

theorem isSome_overlay_step (p : Pair H) (e : Edge) : (p.step e).overlay.isSome = p.has e := by
  unfold overlay step has
  cases p.mine.bind fun t => t.child? e <;> cases p.theirs.bind fun t => t.child? e <;> rfl

theorem descriptor?_eq_overlay (p : Pair H) :
    p.descriptor? = p.overlay.bind Tree.descriptor? := by
  obtain ⟨_ | m, _ | s⟩ := p
  · rfl
  · cases h : s.descriptor? <;> simp [descriptor?, overlay, h]
  · simp [descriptor?, overlay]
  · simp only [overlay, Option.merge_some_some, Option.bind_some, Tree.descriptor?_merge]
    cases hm : m.descriptor? <;> cases hs : s.descriptor? <;> simp [descriptor?, hm, hs]

theorem label?_eq_overlay (p : Pair H) : p.label? = p.overlay.map Tree.label := by
  obtain ⟨_ | m, _ | s⟩ := p
  · rfl
  · rfl
  · rfl
  · simp [label?, overlay]

theorem handler?_eq_overlay (p : Pair H) : p.handler? = p.overlay.bind Tree.handler := by
  obtain ⟨_ | m, _ | s⟩ := p
  · rfl
  · simp [handler?, overlay]
  · cases h : m.handler <;> simp [handler?, overlay, h]
  · cases hm : m.handler <;> cases hs : s.handler <;> simp [handler?, overlay, hm, hs]

/-! ### Simulation -/

/-- **Simulation**: from the overlay of a pair, the walk of the merged tree keeps to the overlays
of the lockstep walk, and finds the same. -/
theorem arrival?_walk_overlay (segments : List String) {p : Pair H} {t : Tree H}
    (h : p.overlay = some t) (seen : Captures) :
    (Tree.walk segments t seen).arrival?.map (fun (n, found) => (some n, found.findings)) =
      (p.walk segments seen.findings).map fun (q, found) => (q.overlay, found) := by
  induction segments generalizing p t seen with
  | nil => simp [walk, h]
  | cons segment rest ih =>
    have child (e : Edge) : (p.step e).overlay = t.child? e := by
      rw [overlay_step, h, Option.bind_some]
    have has (e : Edge) : p.has e = (t.child? e).isSome := by
      rw [← isSome_overlay_step, child]
    rw [Tree.arrival?_walk_cons, walk, has, has, descriptor?_eq_overlay, h, Option.bind_some]
    cases hl : t.child? (.literal segment) with
    | some next => exact ih ((child _).trans hl) seen
    | none =>
      cases hd : t.descriptor? with
      | some d =>
        obtain ⟨next, hc⟩ := Tree.child?_param_of_descriptor? hd
        cases hv : d.read segment with
        | none => simp [Captures.read?_of_none hv, hv]
        | some v =>
          simp only [Captures.read?_of_some hv, hv, hc, Option.bind_some, ← Captures.findings_add]
          exact ih ((child _).trans hc) _
      | none => cases hw : t.child? .wildcard <;> simp [child, hw, Captures.findings_addWildcard]

end Pair

namespace Tree

variable {H : Type u} [Combine H]

/-- **A merged tree is walked in lockstep.** A request leads somewhere in the merged tree exactly if
the lockstep walk from both roots gets through, with the same integers and texts under every name
and the same segments in the wildcard; the position has the label and the handler of the pair that
the lockstep walk ends at. -/
theorem resolve_merge_lockstep (mine theirs : Tree H) (segments : List String) :
    ((mine.merge theirs).resolve segments).map
        (fun (n, found) => (some n.label, n.handler, found.findings)) =
      (Pair.walk segments ⟨some mine, some theirs⟩ .nothing).map
        fun (p, found) => (p.label?, p.handler?, found) := by
  have start : (Pair.mk (some mine) (some theirs)).overlay = some (mine.merge theirs) := rfl
  have sim := Pair.arrival?_walk_overlay segments start .empty
  -- both sides read the label and the handler off the overlay
  have read := congrArg (Option.map fun (position, found) =>
    (position.map label, position.bind handler, found)) sim
  simp only [Option.map_map] at read
  simp only [Pair.label?_eq_overlay, Pair.handler?_eq_overlay]
  exact read

theorem resolve_merge_lockstep_captures :
    let leaf (label name : String) : Tree Names := .node label (some ⟨[name]⟩) [] none none
    let mine : Tree Names := .node "L" none [("a", leaf "LA" "a")]
      (some (.text "x", .node "LX" (some ⟨["left"]⟩) [] none (some (leaf "LW" "rest")))) none
    let theirs : Tree Names := .node "R" none []
      (some (.number "y", .node "RY" (some ⟨["right"]⟩) [("z", leaf "RZ" "z")] none none)) none
    let told (arrival : Tree Names × Captures) := (some arrival.1.label,
      arrival.1.handler.map Names.list, arrival.2.int? "y", arrival.2.text? "x", arrival.2.wildcard)
    ((mine.merge theirs).resolve ["a"]).map told = some (some "LA", some ["a"], none, none, []) ∧
      ((mine.merge theirs).resolve ["7"]).map told =
        some (some "RY", some ["left", "right"], some 7, none, []) ∧
      -- behind the wildcard of one side the other has fallen away
      ((mine.merge theirs).resolve ["7", "b", "c"]).map told =
        some (some "LW", some ["rest"], some 7, none, ["b", "c"]) ∧
      ((mine.merge theirs).resolve ["x"]).map told = none := by
  intro leaf mine theirs told
  -- the same is told of the pair and of what the lockstep walk finds
  have look (segments : List String) : ((mine.merge theirs).resolve segments).map told =
      (Pair.walk segments ⟨some mine, some theirs⟩ .nothing).map fun (p, found) =>
        (p.label?, p.handler?.map Names.list, found.integers "y", found.texts "x", found.rest) := by
    have read := congrArg (Option.map fun (arrival : Option String × Option Names × Findings) =>
      (arrival.1, arrival.2.1.map Names.list, arrival.2.2.integers "y", arrival.2.2.texts "x",
        arrival.2.2.rest)) (resolve_merge_lockstep mine theirs segments)
    rwa [Option.map_map, Option.map_map] at read
  exact ⟨(look _).trans rfl, (look _).trans rfl, (look _).trans rfl, (look _).trans rfl⟩

end Tree

end Routing
