import Routing.Proofs.Agree
import Routing.Proofs.Walk

/-!
# Trees that walks do not tell apart

Of a position a walk sees the handler, how the parameter reads, and behind which edges there are
children; behind a wildcard it looks at nothing but the handler. A relation between positions that
leaves all of this alike is a `Bisimulation`, and related trees answer every request alike
(`Bisimulation.hit?_eq`). Agreement on the `sight` of every position is one, so labels and the
written forms of parameters never matter (`hit?_eq_of_sight`).
-/

universe u

namespace Routing

/-- What a parameter does with a segment: the name it stores a value under, and how it reads. -/
def Param.reading (p : Param) : String × (String → Option Value) := (p.name, p.read)

theorem Captures.read?_congr {p q : Param} (h : p.reading = q.reading) (segment : String)
    (seen : Captures) : seen.read? p segment = seen.read? q segment := by
  obtain ⟨hname, hread⟩ := Prod.mk.inj h
  rw [read?, read?, hname, hread]

namespace Tree

variable {H : Type u}

/-- Related positions look alike to a walk, and so do the positions that it goes on to. -/
structure Bisimulation (R : Tree H → Tree H → Prop) : Prop where
  handler {s t : Tree H} (h : R s t) : s.handler = t.handler
  reading {s t : Tree H} (h : R s t) :
    s.descriptor?.map Param.reading = t.descriptor?.map Param.reading
  child {s t : Tree H} (h : R s t) {e : Edge} (he : e ≠ .wildcard) :
    Option.Rel R (s.child? e) (t.child? e)
  rest {s t : Tree H} (h : R s t) :
    (s.child? .wildcard).map Tree.handler = (t.child? .wildcard).map Tree.handler

namespace Bisimulation

variable {R : Tree H → Tree H → Prop} {s t : Tree H}

/-- A parameter of a position reads like that of a related position, with related children. -/
theorem param (sim : Bisimulation R) (h : R s t) {p : Param} (hp : s.descriptor? = some p) :
    ∃ q c d, t.descriptor? = some q ∧ p.reading = q.reading ∧ s.child? .param = some c ∧
      t.child? .param = some d ∧ R c d := by
  have readings := sim.reading h
  rw [hp, Option.map_some, eq_comm, Option.map_eq_some_iff] at readings
  obtain ⟨q, hq, hpq⟩ := readings
  obtain ⟨c, hc⟩ := child?_param_of_descriptor? hp
  obtain ⟨d, hd⟩ := child?_param_of_descriptor? hq
  have children := sim.child h (e := .param) (by simp)
  rw [hc, hd, Option.rel_some_some] at children
  exact ⟨q, c, d, hq, hpq.symm, hc, hd, children⟩

/-- **Walks from related positions** make the same captures and end at the same handler. -/
theorem arrival?_walk (sim : Bisimulation R) (h : R s t) (segments : List String)
    (seen : Captures) :
    (walk segments s seen).arrival?.map (fun (n, found) => (n.handler, found)) =
      (walk segments t seen).arrival?.map fun (n, found) => (n.handler, found) := by
  induction segments generalizing s t seen with
  | nil => simp [sim.handler h]
  | cons segment rest ih =>
    have literals := sim.child h (e := .literal segment) (by simp)
    rw [arrival?_walk_cons, arrival?_walk_cons]
    generalize s.child? (.literal segment) = c at literals ⊢
    generalize t.child? (.literal segment) = d at literals ⊢
    cases literals with
    | some hcd => exact ih hcd seen
    | none =>
      cases hp : s.descriptor? with
      | some p =>
        obtain ⟨q, c, d, hq, hpq, hc, hd, hcd⟩ := sim.param h hp
        simp only [hq, hc, hd, Option.bind_some, Captures.read?_congr hpq]
        cases seen.read? q segment with
        | none => rfl
        | some seen' => exact ih hcd seen'
      | none =>
        have hq : t.descriptor? = none := by
          have readings := sim.reading h
          rwa [hp, Option.map_none, eq_comm, Option.map_eq_none_iff] at readings
        have wild := sim.rest h
        rw [hq]
        have both := congrArg (Option.map fun handler =>
          (handler, seen.addWildcard (segment :: rest))) wild
        simpa only [Option.map_map, Function.comp_def] using both

theorem hit?_eq (sim : Bisimulation R) (h : R s t) (segments : List String) :
    s.hit? segments = t.hit? segments := by
  have hit (n : Tree H) : n.hit? segments =
      ((walk segments n .empty).arrival?.map fun (m, found) => (m.handler, found)).bind
        fun (handler, found) => handler.map fun handler => ⟨handler, segments, found⟩ := by
    rw [Tree.hit?, resolve, Option.bind_map]
    rfl
  rw [hit, hit, sim.arrival?_walk h]

end Bisimulation

/-! ### Agreement on what walks see -/

/-- What a walk sees of a position besides its children. -/
def sight (t : Tree H) : Option H × Option (String × (String → Option Value)) :=
  (t.handler, t.descriptor?.map Param.reading)

theorem bisimulation_sight : Bisimulation (AgreeOn (sight (H := H))) where
  handler h := congrArg Prod.fst h.root
  reading h := congrArg Prod.snd h.root
  child h _ _ := h.child _
  rest {s t} h := by
    have children := h.child .wildcard
    generalize s.child? .wildcard = c at children ⊢
    generalize t.child? .wildcard = d at children ⊢
    cases children with
    | none => rfl
    | some hcd => exact congrArg (fun seen => some seen.1) hcd.root

/-- **Labels and written forms never matter**: trees that agree on the handlers and on how the
parameters read answer every request alike. -/
theorem hit?_eq_of_sight {s t : Tree H} (h : AgreeOn sight s t) (segments : List String) :
    s.hit? segments = t.hit? segments :=
  bisimulation_sight.hit?_eq h segments

end Tree

end Routing
