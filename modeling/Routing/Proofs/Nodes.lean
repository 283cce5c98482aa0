import Mathlib.Data.List.Nodup
import Routing.Proofs.Survivors

/-!
# The nodes of a plan

`Plan.nodes` lists the plans that survive in a plan, itself and everything along surviving children,
each with the route that leads to it. Different nodes have different addresses (`nodup_nodes`), the
nodes of a node are nodes (`mem_nodes_append`), and the positions of the tree that a plan describes
are those of its nodes (`Describes.at?`, `Describes.mem_nodes`).
-/

universe u

namespace Routing

namespace Plan

open Clause

variable {H : Type u}

mutual

/-- The plans that survive in a plan, itself in front, each with the route that leads to it. -/
def nodes : Plan H → List (Route × Plan H)
  | .mk clauses => ([], .mk clauses) :: nodesBelow clauses
termination_by structural plan => plan

/-- The nodes behind the clauses, with the routes that lead to them. -/
def nodesBelow : List (Clause H (Plan H)) → List (Route × Plan H)
  | [] => []
  | clause :: rest =>
    if clause.child?.any fun child => (last? child.1.edge rest).isSome then nodesBelow rest
    else nodesBehind clause ++ nodesBelow rest
termination_by structural clauses => clauses

/-- The nodes behind one clause, with the routes that lead to them. -/
def nodesBehind : Clause H (Plan H) → List (Route × Plan H)
  | .handler _ => []
  | .literal text child => child.nodes.map fun (r, n) => (.literal text :: r, n)
  | .param p child => child.nodes.map fun (r, n) => (.param p :: r, n)
  | .wildcard child => child.nodes.map fun (r, n) => (.wildcard :: r, n)
termination_by structural clause => clause

end

/-- The routes to the nodes that have a handler. -/
def routes (plan : Plan H) : List (Route × H) :=
  plan.nodes.filterMap fun x => x.2.handler?.map fun handler => (x.1, handler)

theorem mem_nodesBehind {clause : Clause H (Plan H)} {x : Route × Plan H} :
    x ∈ nodesBehind clause ↔ ∃ child q, clause.child? = some child ∧ (q, x.2) ∈ child.2.nodes ∧
      x.1 = child.1 :: q := by
  obtain ⟨r, n⟩ := x
  cases clause <;> simp [nodesBehind, Clause.child?, eq_comm, and_comm]

theorem mem_nodesBelow {clauses : List (Clause H (Plan H))} {x : Route × Plan H} :
    x ∈ nodesBelow clauses ↔ ∃ child q, last? child.1.edge clauses = some child ∧
      (q, x.2) ∈ child.2.nodes ∧ x.1 = child.1 :: q := by
  induction clauses with
  | nil => simp [nodesBelow, last?]
  | cons clause rest ih =>
    simp only [last?_cons_eq_some_iff, and_true]
    rw [nodesBelow]
    split_ifs with replaced
    · rw [ih]
      -- the child of this clause does not count
      obtain ⟨child, hchild, hlast⟩ := (Option.any_eq_true _ _).mp replaced
      constructor
      · rintro ⟨child, q, hc, hq⟩
        exact ⟨child, q, .inl hc, hq⟩
      · rintro ⟨child', q, hc | ⟨hnone, hc⟩, hq⟩
        · exact ⟨child', q, hc, hq⟩
        · rw [hc] at hchild
          obtain rfl := Option.some.inj hchild
          simp [hnone] at hlast
    · rw [List.mem_append, mem_nodesBehind, ih]
      constructor
      · rintro (⟨child, q, hc, hq⟩ | ⟨child, q, hc, hq⟩)
        · refine ⟨child, q, .inr ⟨?_, hc⟩, hq⟩
          simpa [hc] using replaced
        · exact ⟨child, q, .inl hc, hq⟩
      · rintro ⟨child, q, hc | ⟨-, hc⟩, hq⟩
        · exact .inr ⟨child, q, hc, hq⟩
        · exact .inl ⟨child, q, hc, hq⟩

theorem mem_nodes {plan : Plan H} {x : Route × Plan H} :
    x ∈ plan.nodes ↔ x = ([], plan) ∨ ∃ child q, plan.child? child.1.edge = some child ∧
      (q, x.2) ∈ child.2.nodes ∧ x.1 = child.1 :: q := by
  obtain ⟨clauses⟩ := plan
  rw [nodes, List.mem_cons, mem_nodesBelow]
  rfl

theorem mem_nodes_nil {plan n : Plan H} : ([], n) ∈ plan.nodes ↔ n = plan := by
  rw [mem_nodes]
  simp

theorem mem_nodes_cons {plan n : Plan H} {piece : Piece} {q : Route} :
    (piece :: q, n) ∈ plan.nodes ↔
      ∃ child, plan.child? piece.edge = some (piece, child) ∧ (q, n) ∈ child.nodes := by
  rw [mem_nodes]
  constructor
  · rintro (h | ⟨⟨piece', child⟩, q', hc, hq, h⟩)
    · cases h
    · obtain ⟨rfl, rfl⟩ := List.cons_eq_cons.mp h
      exact ⟨child, hc, hq⟩
  · rintro ⟨child, hc, hq⟩
    exact .inr ⟨(piece, child), q, hc, hq, rfl⟩

/-- The nodes of a node are nodes. -/
theorem mem_nodes_append {plan n : Plan H} {front back : Route} :
    (front ++ back, n) ∈ plan.nodes ↔ ∃ m, (front, m) ∈ plan.nodes ∧ (back, n) ∈ m.nodes := by
  induction front generalizing plan with
  | nil => simp [mem_nodes_nil]
  | cons piece front ih =>
    simp only [List.cons_append, mem_nodes_cons, ih]
    constructor
    · rintro ⟨child, hc, m, hm, hn⟩
      exact ⟨m, ⟨child, hc, hm⟩, hn⟩
    · rintro ⟨m, ⟨child, hc, hm⟩, hn⟩
      exact ⟨child, hc, m, hm, hn⟩

/-! ### Nodes at different addresses -/

/-- What passes from the children of all clauses to a plan holds of all plans. -/
@[elab_as_elim]
theorem induct {motive : Plan H → Prop}
    (mk : ∀ clauses, (∀ clause ∈ clauses, ∀ child, clause.child? = some child →
      motive child.2) → motive (.mk clauses)) : ∀ plan, motive plan
  | .mk clauses => mk clauses fun _ _ child _ => induct mk child.2
termination_by plan => sizeOf plan
decreasing_by
  next clause mem hchild =>
    have below := List.sizeOf_lt_of_mem mem
    cases clause <;> cases hchild <;> simp at below ⊢ <;> omega

theorem nodesBehind_eq (clause : Clause H (Plan H)) :
    nodesBehind clause = match clause.child? with
      | none => []
      | some child => child.2.nodes.map fun x => (child.1 :: x.1, x.2) := by
  cases clause <;> rfl

theorem nodup_nodesBelow {clauses : List (Clause H (Plan H))}
    (h : ∀ clause ∈ clauses, ∀ child, clause.child? = some child →
      (child.2.nodes.map fun x => x.1.address).Nodup) :
    ((nodesBelow clauses).map fun x => x.1.address).Nodup := by
  induction clauses with
  | nil => exact List.nodup_nil
  | cons clause rest ih =>
    have later := ih fun clause hclause => h clause (List.mem_cons_of_mem _ hclause)
    rw [nodesBelow]
    split_ifs with replaced
    · exact later
    · rw [List.map_append]
      refine List.Nodup.append ?_ later ?_
      · rw [nodesBehind_eq]
        cases hc : clause.child? with
        | none => exact List.nodup_nil
        | some child =>
          have below := h clause (List.mem_cons_self ..) child hc
          have behind := below.map (f := fun a => child.1.edge :: a) (List.cons_injective)
          simpa [List.map_map, Function.comp_def] using behind
      · intro a ha hb
        obtain ⟨x, hx, rfl⟩ := List.mem_map.mp ha
        obtain ⟨y, hy, heq⟩ := List.mem_map.mp hb
        obtain ⟨child, q, hc, -, hxr⟩ := mem_nodesBehind.mp hx
        obtain ⟨child', q', hc', -, hyr⟩ := mem_nodesBelow.mp hy
        rw [hxr, hyr, Route.address_cons, Route.address_cons] at heq
        refine replaced ((Option.any_eq_true ..).mpr ⟨child, hc, ?_⟩)
        rw [← (List.cons_eq_cons.mp heq).1, hc']
        rfl

/-- Different nodes have different addresses. -/
theorem nodup_nodes (plan : Plan H) : (plan.nodes.map fun x => x.1.address).Nodup := by
  induction plan using Plan.induct with
  | mk clauses ih =>
    rw [nodes, List.map_cons, List.nodup_cons]
    refine ⟨fun h => ?_, nodup_nodesBelow ih⟩
    obtain ⟨x, hx, hnil⟩ := List.mem_map.mp h
    obtain ⟨child, q, -, -, hr⟩ := mem_nodesBelow.mp hx
    rw [hr] at hnil
    cases hnil

/-! ### Nodes and positions -/

section Describes

variable {plan : Plan H} {t : Tree H}

/-- A node is found in the tree at the address of its route. -/
theorem Describes.at? (h : plan.Describes t) {r : Route} {n : Plan H} (hn : (r, n) ∈ plan.nodes) :
    ∃ m, t.at? r.address = some m ∧ n.Describes m := by
  induction r generalizing plan t with
  | nil =>
    obtain rfl := mem_nodes_nil.mp hn
    exact ⟨t, rfl, h⟩
  | cons piece r ih =>
    obtain ⟨child, hc, hn⟩ := mem_nodes_cons.mp hn
    obtain ⟨d, hd, describes⟩ := h.exists_child hc
    obtain ⟨m, hm, hnm⟩ := ih describes hn
    exact ⟨m, (Tree.at?_cons_of_child hd _).trans hm, hnm⟩

/-- Every position of the tree is that of a node. -/
theorem Describes.mem_nodes (h : plan.Describes t) {a : List Edge} {m : Tree H}
    (hm : t.at? a = some m) : ∃ r n, (r, n) ∈ plan.nodes ∧ r.address = a ∧ n.Describes m := by
  induction a generalizing plan t with
  | nil =>
    obtain rfl : t = m := Option.some.inj hm
    exact ⟨[], plan, mem_nodes_nil.mpr rfl, rfl, h⟩
  | cons e a ih =>
    obtain ⟨c, hc, hm⟩ := Tree.exists_child_of_at? hm
    obtain ⟨child, hd, describes⟩ := h.exists_survivor hc
    obtain ⟨r, n, hn, rfl, hnm⟩ := ih describes hm
    obtain rfl := edge_of_last? hd
    exact ⟨child.1 :: r, n, mem_nodes_cons.mpr ⟨child.2, hd, hn⟩, rfl, hnm⟩

end Describes

end Plan

end Routing
