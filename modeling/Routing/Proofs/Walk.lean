import Routing.Proofs.Address
import Routing.Tree.Walk

/-!
# Walks, one step at a time

A step of a walk looks at a position only through the children behind its edges and through its
parameter (`arrival?_walk_cons`). `Trail t segments a n` says that the segments lead from `t` along
the edges `a` to `n`; every walk that arrives has a trail (`trail_of_arrival`), and a trail leads to
the position at its address (`Trail.at?_eq`). `taken` lists the edges of every walk, of those that
fail too, and the walk ends where they lead (`isEndOf_walk`).
-/

universe u

namespace Routing

namespace Captures

variable {p : Param} {segment : String}

theorem read?_of_some {v : Value} (h : p.read segment = some v) (seen : Captures) :
    seen.read? p segment = some (seen.add p.name v) := by
  rw [read?, h]
  rfl

theorem read?_of_none (h : p.read segment = none) (seen : Captures) :
    seen.read? p segment = none := by
  rw [read?, h]
  rfl

end Captures

namespace Tree

variable {H : Type u}

/-! ### Steps -/

@[simp] theorem arrival?_walk_nil (t : Tree H) (seen : Captures) :
    (walk [] t seen).arrival? = some (t, seen) := rfl

/-- One step, by edges. -/
theorem arrival?_walk_cons (segment : String) (rest : List String) (t : Tree H)
    (seen : Captures) :
    (walk (segment :: rest) t seen).arrival? =
      match t.child? (.literal segment), t.descriptor? with
      | some child, _ => (walk rest child seen).arrival?
      | none, some p => (seen.read? p segment).bind fun seen =>
        (t.child? .param).bind fun child => (walk rest child seen).arrival?
      | none, none => (t.child? .wildcard).map fun child =>
        (child, seen.addWildcard (segment :: rest)) := by
  rw [walk]
  cases hl : t.literal? segment with
  | some child => simp [child?, hl]
  | none =>
    rcases hp : t.param with _ | ⟨p, child⟩
    · cases hw : t.wildcard <;> simp [child?, descriptor?, hl, hp, hw, Outcome.arrival?]
    · cases hr : seen.read? p segment <;>
        simp [child?, descriptor?, hl, hp, hr, Outcome.arrival?]

/-! ### Answers -/

/-- The handler where a walk arrives, and the captures. -/
def answer? (segments : List String) (t : Tree H) (seen : Captures) : Option (H × Captures) :=
  (walk segments t seen).arrival?.bind fun (n, found) => n.handler.map fun h => (h, found)

theorem hit?_eq_answer? (t : Tree H) (segments : List String) :
    t.hit? segments =
      (answer? segments t .empty).map fun (h, found) => ⟨h, segments, found⟩ := by
  rw [hit?, resolve, answer?, Option.map_bind]
  congr 1
  funext ⟨n, found⟩
  cases h : n.handler <;> simp [h]

/-! ### Trails -/

/-- The segments lead from a position along a list of edges. -/
inductive Trail : Tree H → List String → List Edge → Tree H → Prop where
  | nil (t : Tree H) : Trail t [] [] t
  | literal {t child n : Tree H} {segment : String} {rest : List String} {a : List Edge}
      (here : t.child? (.literal segment) = some child) (next : Trail child rest a n) :
      Trail t (segment :: rest) (.literal segment :: a) n
  | param {t child n : Tree H} {segment : String} {rest : List String} {a : List Edge}
      (noLiteral : t.child? (.literal segment) = none) (here : t.child? .param = some child)
      (next : Trail child rest a n) : Trail t (segment :: rest) (.param :: a) n
  | wildcard {t child : Tree H} {segment : String} {rest : List String}
      (noLiteral : t.child? (.literal segment) = none) (noParam : t.child? .param = none)
      (here : t.child? .wildcard = some child) : Trail t (segment :: rest) [.wildcard] child

theorem trail_of_arrival {segments : List String} {t n : Tree H} {seen found : Captures}
    (h : (walk segments t seen).arrival? = some (n, found)) : ∃ a, Trail t segments a n := by
  induction segments generalizing t seen with
  | nil =>
    obtain ⟨rfl, -⟩ : t = n ∧ seen = found := by simpa using h
    exact ⟨[], .nil t⟩
  | cons segment rest ih =>
    rw [arrival?_walk_cons] at h
    cases hl : t.child? (.literal segment) with
    | some child =>
      rw [hl] at h
      obtain ⟨a, next⟩ := ih h
      exact ⟨_, .literal hl next⟩
    | none =>
      rw [hl] at h
      cases hd : t.descriptor? with
      | some p =>
        simp only [hd, Option.bind_eq_some_iff] at h
        obtain ⟨_, -, child, hc, h⟩ := h
        obtain ⟨a, next⟩ := ih h
        exact ⟨_, .param hl hc next⟩
      | none =>
        simp only [hd, Option.map_eq_some_iff, Prod.mk.injEq] at h
        obtain ⟨child, hc, rfl, -⟩ := h
        exact ⟨_, .wildcard hl (descriptor?_eq_none_iff.mp hd) hc⟩

/-- A trail leads to the position at its address. -/
theorem Trail.at?_eq {t n : Tree H} {segments : List String} {a : List Edge}
    (h : Trail t segments a n) : t.at? a = some n := by
  induction h with
  | nil t => rfl
  | literal here _ ih => rw [at?_cons_of_child here, ih]
  | param _ here _ ih => rw [at?_cons_of_child here, ih]
  | wildcard _ _ here => rw [at?_cons_of_child here, at?_nil]

/-! ### Edges taken -/

/-- The edges that a walk goes along, each with the segment that takes it, until it arrives or
fails. -/
def taken : List String → Tree H → List (String × Edge)
  | [], _ => []
  | segment :: rest, t =>
    match t.literal? segment, t.param, t.wildcard with
    | some child, _, _ => (segment, .literal segment) :: taken rest child
    | none, some (p, child), _ =>
      if (p.read segment).isSome then (segment, .param) :: taken rest child else []
    | none, none, some _ => [(segment, .wildcard)]
    | none, none, none => []

/-- A walk ends at the position: it arrives there, or the next segment is turned away there. -/
def IsEndOf (n : Tree H) : Outcome H → Prop
  | .arrived m _ => m = n
  | .rejected segment param label => n.label = label ∧ n.literal? segment = none ∧
    ∃ p, n.descriptor? = some p ∧ p.name = param ∧ p.read segment = none
  | .unmatched label segment => n.label = label ∧ n.literal? segment = none ∧
    n.descriptor? = none ∧ n.wildcard = none

/-- A walk ends where its edges lead, and takes them in the order of the request. -/
theorem isEndOf_walk (request : List String) (t : Tree H) (seen : Captures) :
    (taken request t).map Prod.fst <+: request ∧
      ∃ n, t.at? ((taken request t).map Prod.snd) = some n ∧ n.IsEndOf (walk request t seen) := by
  induction request generalizing t seen with
  | nil => exact ⟨List.nil_prefix, t, rfl, rfl⟩
  | cons segment rest ih =>
    rw [walk, taken]
    cases hl : t.literal? segment with
    | some child =>
      have behind : t.child? (.literal segment) = some child := hl
      obtain ⟨front, n, hn, ends⟩ := ih child seen
      have leads := (at?_cons_of_child behind _).trans hn
      exact ⟨List.cons_prefix_cons.mpr ⟨rfl, front⟩, n, leads, ends⟩
    | none =>
      rcases hp : t.param with _ | ⟨p, child⟩
      · have nowhere : t.descriptor? = none := by rw [descriptor?, hp]; rfl
        cases hw : t.wildcard with
        | some child =>
          have behind : t.child? .wildcard = some child := hw
          have leads := at?_cons_of_child behind []
          exact ⟨List.cons_prefix_cons.mpr ⟨rfl, List.nil_prefix⟩, child, leads, rfl⟩
        | none => exact ⟨List.nil_prefix, t, rfl, rfl, hl, nowhere, hw⟩
      · have here : t.descriptor? = some p := by rw [descriptor?, hp]; rfl
        have behind : t.child? .param = some child := by rw [child?, hp]; rfl
        dsimp only
        cases hr : p.read segment with
        | none =>
          rw [Captures.read?_of_none hr]
          exact ⟨List.nil_prefix, t, rfl, rfl, hl, p, here, rfl, hr⟩
        | some v =>
          rw [Captures.read?_of_some hr]
          obtain ⟨front, n, hn, ends⟩ := ih child (seen.add p.name v)
          have leads := (at?_cons_of_child behind _).trans hn
          exact ⟨List.cons_prefix_cons.mpr ⟨rfl, front⟩, n, leads, ends⟩

/-- An edge is taken by the next segment or, behind the edge of that, by a later one. -/
theorem mem_taken_cons {segment : String} {rest : List String} {t : Tree H} {x : String × Edge}
    (h : x ∈ taken (segment :: rest) t) :
    (∃ child, t.literal? segment = some child ∧
      (x = (segment, .literal segment) ∨ x ∈ taken rest child)) ∨
    (∃ p child, t.literal? segment = none ∧ t.param = some (p, child) ∧
      (p.read segment).isSome ∧ (x = (segment, .param) ∨ x ∈ taken rest child)) ∨
    (∃ child, t.literal? segment = none ∧ t.param = none ∧ t.wildcard = some child ∧
      x = (segment, .wildcard)) := by
  rw [taken] at h
  cases hl : t.literal? segment with
  | some child =>
    rw [hl] at h
    exact .inl ⟨child, rfl, List.mem_cons.mp h⟩
  | none =>
    rcases hp : t.param with _ | ⟨p, child⟩
    · cases hw : t.wildcard with
      | none => simp [hl, hp, hw] at h
      | some child => exact .inr (.inr ⟨child, rfl, rfl, rfl, by simpa [hl, hp, hw] using h⟩)
    · rw [hl, hp] at h
      dsimp only at h
      split_ifs at h with accepted
      · exact .inr (.inl ⟨p, child, rfl, rfl, accepted, List.mem_cons.mp h⟩)
      · cases h

/-- A literal edge is taken by the segment that is its key, at a position that has a child there. -/
theorem exists_literal_of_taken {request : List String} {t : Tree H} {segment key : String}
    (h : (segment, Edge.literal key) ∈ taken request t) :
    segment = key ∧ ∃ a n, t.at? a = some n ∧ (n.literal? segment).isSome := by
  induction request generalizing t with
  | nil => cases h
  | cons next rest ih =>
    have below : ∀ e child, t.child? e = some child →
        (segment, Edge.literal key) ∈ taken rest child →
        segment = key ∧ ∃ a n, t.at? a = some n ∧ (n.literal? segment).isSome := by
      intro e child hc h
      obtain ⟨same, a, n, hn, found⟩ := ih h
      exact ⟨same, e :: a, n, (at?_cons_of_child hc a).trans hn, found⟩
    rcases mem_taken_cons h with ⟨child, hl, heq | h⟩ | ⟨p, child, -, hp, -, heq | h⟩ |
      ⟨child, -, -, -, heq⟩
    · obtain ⟨rfl, rfl⟩ : segment = next ∧ key = next := by simpa using heq
      exact ⟨rfl, [], t, rfl, by rw [hl]; rfl⟩
    · exact below (.literal next) child hl h
    · cases heq
    · exact below .param child (by rw [child?, hp]; rfl) h
    · cases heq

end Tree

end Routing
