import Routing.Proofs.Walk

/-!
# Shadowed addresses

A parameter shadows a wildcard beside it: no walk goes from there along the wildcard. An address is
`Unshadowed` in a tree if none of its edges is shadowed and no wildcard stands in front of another
edge. Only unshadowed addresses are walked to (`Trail.unshadowed`). A `Filler` of a tree is a
segment that is no key anywhere and that every parameter reads; with a filler for every edge that is
no literal, every unshadowed position is walked to (`Filler.arrival`).
-/

universe u

namespace Routing

namespace Tree

variable {H : Type u}

/-- Every wildcard edge on the way is the last edge and has no parameter beside it. -/
def Unshadowed (t : Tree H) (a : List Edge) : Prop :=
  ∀ before after, a = before ++ .wildcard :: after →
    after = [] ∧ t.at? (before ++ [.param]) = none

theorem unshadowed_nil (t : Tree H) : t.Unshadowed [] := by
  intro before after h
  simp at h

theorem unshadowed_cons_iff {t child : Tree H} {e : Edge} {a : List Edge}
    (here : t.child? e = some child) :
    t.Unshadowed (e :: a) ↔
      (e = .wildcard → a = [] ∧ t.child? .param = none) ∧ child.Unshadowed a := by
  have beside : t.at? [.param] = t.child? .param := at?_concat (at?_nil t) .param
  have below := at?_cons_of_child here
  constructor
  · intro h
    refine ⟨?_, fun before after ha => ?_⟩
    · rintro rfl
      rw [← beside]
      exact h [] a rfl
    · rw [← below]
      exact h (e :: before) after (by rw [ha]; rfl)
  · rintro ⟨last, h⟩ before after ha
    cases before with
    | nil =>
      obtain ⟨rfl, rfl⟩ := List.cons_eq_cons.mp ha
      rw [List.nil_append, beside]
      exact last rfl
    | cons e' before =>
      obtain ⟨rfl, tail⟩ := List.cons_eq_cons.mp ha
      rw [List.cons_append, below]
      exact h before after tail

/-- **No trail comes past a parameter to a wildcard.** -/
theorem Trail.unshadowed {t n : Tree H} {segments : List String} {a : List Edge}
    (h : Trail t segments a n) : t.Unshadowed a := by
  induction h with
  | nil t => exact unshadowed_nil t
  | literal here _ ih => exact (unshadowed_cons_iff here).mpr ⟨by simp, ih⟩
  | param _ here _ ih => exact (unshadowed_cons_iff here).mpr ⟨by simp, ih⟩
  | wildcard _ noParam here =>
    exact (unshadowed_cons_iff here).mpr ⟨fun _ => ⟨rfl, noParam⟩, unshadowed_nil _⟩

/-- A segment that is no key anywhere in a tree and that every parameter reads. -/
structure Filler (t : Tree H) (s : String) : Prop where
  fresh : ∀ a, t.at? (a ++ [.literal s]) = none
  accepted : ∀ a p, t.descriptorAt? a = some p → (p.read s).isSome

end Tree

/-- The segment that goes along an edge, the filler where the edge is no literal. -/
def Edge.segment (filler : String) : Edge → String
  | .literal key => key
  | .param | .wildcard => filler

namespace Tree.Filler

variable {H : Type u} {t : Tree H} {s : String}

theorem child (h : t.Filler s) {e : Edge} {c : Tree H} (here : t.child? e = some c) :
    c.Filler s := by
  constructor
  · intro a
    have below := h.fresh (e :: a)
    rwa [List.cons_append, at?_cons_of_child here] at below
  · intro a p hp
    refine h.accepted (e :: a) p ?_
    rw [descriptorAt?_cons, here, Option.bind_some, hp]

theorem noLiteral (h : t.Filler s) : t.child? (.literal s) = none := by
  rw [← at?_concat (at?_nil t)]
  exact h.fresh []

theorem read? (h : t.Filler s) {p : Param} (hp : t.descriptor? = some p) (seen : Captures) :
    ∃ seen', seen.read? p s = some seen' := by
  have accepted := h.accepted [] p ((descriptorAt?_eq (at?_nil t)).trans hp)
  obtain ⟨v, hv⟩ := Option.isSome_iff_exists.mp accepted
  exact ⟨_, by rw [Captures.read?, hv, Option.map_some]⟩

/-- **Every unshadowed position is walked to**, with a filler wherever the edge is no literal. -/
theorem arrival (h : t.Filler s) {a : List Edge} {n : Tree H} (hn : t.at? a = some n)
    (clear : t.Unshadowed a) (seen : Captures) :
    ∃ found, (walk (a.map (Edge.segment s)) t seen).arrival? = some (n, found) := by
  induction a generalizing t seen with
  | nil =>
    obtain rfl : t = n := Option.some.inj hn
    exact ⟨seen, rfl⟩
  | cons e a ih =>
    obtain ⟨c, here, hc⟩ := exists_child_of_at? hn
    obtain ⟨last, below⟩ := (unshadowed_cons_iff here).mp clear
    rw [List.map_cons, arrival?_walk_cons]
    cases e with
    | literal key =>
      rw [Edge.segment, here]
      exact ih (h.child here) hc below seen
    | param =>
      -- the parameter that reads the filler need not be the one of the route walked along
      have hd : t.descriptor? ≠ none := by simp [descriptor?_eq_none_iff, here]
      obtain ⟨p, hp⟩ := Option.ne_none_iff_exists'.mp hd
      obtain ⟨seen', hr⟩ := h.read? hp seen
      rw [Edge.segment, h.noLiteral, hp]
      simp only [hr, here, Option.bind_some]
      exact ih (h.child here) hc below seen'
    | wildcard =>
      obtain ⟨rfl, noParam⟩ := last rfl
      obtain rfl : c = n := Option.some.inj hc
      rw [Edge.segment, h.noLiteral, descriptor?_eq_none_iff.mpr noParam, here]
      exact ⟨_, rfl⟩

end Tree.Filler

end Routing
