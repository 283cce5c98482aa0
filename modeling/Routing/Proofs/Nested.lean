import Routing.Proofs.Bisim
import Routing.Proofs.Composed
import Routing.Proofs.Nodes
import Routing.Table.Names

/-!
# Plans and lists of single routes

A plan that is built describes the same tree as the list of its routes: one single route for every
node that has a handler, the trees of all of them merged in any order. This holds of plans without
dead ends, where every node has a handler at or below it, and with nothing but handlers behind
wildcards, where no single route can go on. Only labels differ.

Main statement: `Plan.build_agrees_routes`.
-/

universe u v

namespace Routing

/-- What a position holds besides its label and its children. -/
def Tree.unlabelled {H : Type u} (t : Tree H) : Option H × Option Param :=
  (t.handler, t.descriptor?)

/-- A fold of at most one member. -/
theorem leftFold?_eq_of_mem_iff {β : Type v} {op : β → β → β} {bs : List β} {o : Option β}
    (single : bs.length ≤ 1) (mem : ∀ b, b ∈ bs ↔ o = some b) : leftFold? op bs = o := by
  match bs with
  | [] =>
    cases o with
    | none => rfl
    | some b => exact absurd ((mem b).mpr rfl) List.not_mem_nil
  | [b] => exact ((mem b).mp (List.mem_singleton_self b)).symm
  | _ :: _ :: _ => simp at single

namespace Plan

variable {H : Type u}

/-- Every node has a handler at or below it. -/
def Handled (plan : Plan H) : Prop := ∀ x ∈ plan.nodes, ∃ y ∈ x.2.nodes, y.2.handler?.isSome

/-- A node behind a wildcard consists of handlers only. -/
def BareWildcards (plan : Plan H) : Prop :=
  ∀ x ∈ plan.nodes, x.1.getLast?.any Piece.isWildcard → ∀ clause ∈ x.2.clauses, clause.child?.isNone

instance (plan : Plan H) : Decidable plan.Handled :=
  inferInstanceAs (Decidable (∀ x ∈ plan.nodes, ∃ y ∈ x.2.nodes, y.2.handler?.isSome))

instance (plan : Plan H) : Decidable plan.BareWildcards :=
  inferInstanceAs (Decidable (∀ x ∈ plan.nodes, x.1.getLast?.any Piece.isWildcard →
    ∀ clause ∈ x.2.clauses, clause.child?.isNone))

theorem mem_routes {plan : Plan H} {r : Route × H} :
    r ∈ plan.routes ↔ ∃ n, (r.1, n) ∈ plan.nodes ∧ n.handler? = some r.2 := by
  rw [routes, List.mem_filterMap]
  constructor
  · rintro ⟨⟨q, n⟩, hn, h⟩
    obtain ⟨handler, hh, rfl⟩ := Option.map_eq_some_iff.mp h
    exact ⟨n, hn, hh⟩
  · rintro ⟨n, hn, hh⟩
    exact ⟨(r.1, n), hn, by rw [hh]; rfl⟩

/-- Different routes of a plan lead to different addresses. -/
theorem nodup_routes (plan : Plan H) : (plan.routes.map fun r => r.1.address).Nodup := by
  rw [routes, List.Nodup, List.pairwise_map, List.pairwise_filterMap]
  refine (List.pairwise_map.mp plan.nodup_nodes).imp fun {x y} different r hr q hq => ?_
  obtain ⟨_, -, rfl⟩ := Option.map_eq_some_iff.mp hr
  obtain ⟨_, -, rfl⟩ := Option.map_eq_some_iff.mp hq
  exact different

theorem Handled.routes_ne_nil {plan : Plan H} (h : plan.Handled) : plan.routes ≠ [] := by
  obtain ⟨⟨r, n⟩, hn, hh⟩ := h ([], plan) (mem_nodes_nil.mpr rfl)
  obtain ⟨handler, hh⟩ := Option.isSome_iff_exists.mp hh
  exact List.ne_nil_of_mem (mem_routes.mpr ⟨n, hn, hh⟩ : (r, handler) ∈ plan.routes)

/-! ### Sound routes -/

theorem BareWildcards.child {plan child : Plan H} (bare : plan.BareWildcards) {piece : Piece}
    (hc : plan.child? piece.edge = some (piece, child)) : child.BareWildcards := by
  rintro ⟨q, n⟩ hn hlast
  refine bare (piece :: q, n) (mem_nodes_cons.mpr ⟨child, hc, hn⟩) ?_
  cases hq : q.getLast? with
  | none => simp [hq] at hlast
  | some last => simpa [List.getLast?_cons, hq] using hlast

theorem nil_of_bare {n m : Plan H} (bare : ∀ clause ∈ n.clauses, clause.child?.isNone) {q : Route}
    (hq : (q, m) ∈ n.nodes) : q = [] := by
  cases q with
  | nil => rfl
  | cons piece q =>
    obtain ⟨child, hc, -⟩ := mem_nodes_cons.mp hq
    obtain ⟨clause, hmem, hclause⟩ := Clause.mem_of_last? hc
    simpa [hclause] using bare clause hmem

/-- The routes to the nodes of a plan that is built, with bare wildcards, are built as well. -/
theorem Describes.sound {plan : Plan H} {t : Tree H} (h : plan.Describes t)
    (bare : plan.BareWildcards) {r : Route} {n : Plan H} (hn : (r, n) ∈ plan.nodes) : r.Sound := by
  induction r generalizing plan t with
  | nil => exact Route.sound_nil
  | cons piece q ih =>
    obtain ⟨child, hc, hq⟩ := mem_nodes_cons.mp hn
    refine Route.sound_cons_iff.mpr ⟨?_, ?_, ?_⟩
    · rintro text rfl
      exact h.isKey (Option.isSome_iff_exists.mpr ⟨_, hc⟩)
    · rintro rfl
      have here : ([.wildcard], child) ∈ plan.nodes :=
        mem_nodes_cons.mpr ⟨child, hc, mem_nodes_nil.mpr rfl⟩
      exact nil_of_bare (bare _ here rfl) hq
    · obtain ⟨d, -, describes⟩ := h.exists_child hc
      exact ih describes (bare.child hc) hq

/-! ### The tree by routes -/

section Tree

variable {plan : Plan H} {t : Tree H}

/-- A handler stands at an address exactly if a route leads there with it. -/
theorem Describes.handlerAt?_iff (h : plan.Describes t) {a : List Edge} {handler : H} :
    (∃ r ∈ plan.routes, r.1.address = a ∧ r.2 = handler) ↔ t.handlerAt? a = some handler := by
  constructor
  · rintro ⟨r, hr, rfl, rfl⟩
    obtain ⟨n, hn, hh⟩ := mem_routes.mp hr
    obtain ⟨m, hm, describes⟩ := h.at? hn
    rw [Tree.handlerAt?_eq hm, describes.handler, hh]
  · intro ha
    obtain ⟨m, hm, hh⟩ := Option.bind_eq_some_iff.mp ha
    obtain ⟨r, n, hn, rfl, describes⟩ := h.mem_nodes hm
    rw [describes.handler] at hh
    exact ⟨(r, handler), mem_routes.mpr ⟨n, hn, hh⟩, rfl, rfl⟩

/-- In a plan without dead ends every position lies on a route. -/
theorem Describes.position_iff (h : plan.Describes t) (handled : plan.Handled) (a : List Edge) :
    (t.at? a).isSome ↔ ∃ r ∈ plan.routes, a <+: r.1.address := by
  constructor
  · intro ha
    obtain ⟨m, hm⟩ := Option.isSome_iff_exists.mp ha
    obtain ⟨r, n, hn, rfl, -⟩ := h.mem_nodes hm
    obtain ⟨⟨q, k⟩, hk, hh⟩ := handled _ hn
    obtain ⟨handler, hh⟩ := Option.isSome_iff_exists.mp hh
    refine ⟨(r ++ q, handler), mem_routes.mpr ⟨k, mem_nodes_append.mpr ⟨n, hn, hk⟩, hh⟩, ?_⟩
    rw [Route.address_append]
    exact List.prefix_append ..
  · rintro ⟨r, hr, rest, hrest⟩
    obtain ⟨n, hn, -⟩ := mem_routes.mp hr
    obtain ⟨m, hm, -⟩ := h.at? hn
    rw [← hrest, Tree.at?_append] at hm
    obtain ⟨k, hk, -⟩ := Option.bind_eq_some_iff.mp hm
    rw [hk]
    rfl

/-- A parameter that a route has behind an address stands there. -/
theorem Describes.descriptorAt?_of_mem (h : plan.Describes t) {a : List Edge} {p : Param}
    (hp : p ∈ Route.paramsAt a.length (Route.through a plan.routes)) :
    t.descriptorAt? a = some p := by
  obtain ⟨r, hr, hparam⟩ := List.mem_filterMap.mp hp
  obtain ⟨hr, hpre⟩ := List.mem_filter.mp hr
  obtain ⟨piece, hpiece, hparam⟩ := Option.bind_eq_some_iff.mp hparam
  obtain rfl : piece = .param p := Piece.param?_eq_some_iff.mp hparam
  obtain ⟨n, hn, -⟩ := mem_routes.mp hr
  -- the node where the parameter stands is the one at the address
  obtain ⟨hlt, hget⟩ := List.getElem?_eq_some_iff.mp hpiece
  have split : r.1 = r.1.take a.length ++ .param p :: r.1.drop (a.length + 1) := by
    rw [← hget, List.getElem_cons_drop, List.take_append_drop]
  have front : Route.address (r.1.take a.length) = a := by
    rw [Route.address, List.map_take]
    exact (List.prefix_iff_eq_take.mp (of_decide_eq_true hpre)).symm
  rw [split] at hn
  obtain ⟨k, hk, below⟩ := mem_nodes_append.mp hn
  obtain ⟨child, hc, -⟩ := mem_nodes_cons.mp below
  obtain ⟨m, hm, describes⟩ := h.at? hk
  rw [front] at hm
  have hc : k.child? .param = some (.param p, child) := hc
  rw [Tree.descriptorAt?_eq hm, describes.descriptor, hc]
  rfl

end Tree

/-! ### Merged routes -/

theorem length_endingAt_le {routes : List (Route × H)}
    (different : (routes.map fun r => r.1.address).Nodup) (a : List Edge) :
    (Route.endingAt a routes).length ≤ 1 := by
  have count := List.nodup_iff_count_le_one.mp different a
  rw [List.count, List.countP_map] at count
  rw [Route.endingAt, List.length_map, ← List.countP_eq_length_filter]
  refine le_of_eq_of_le (List.countP_congr fun r _ => ?_) count
  simp

variable [Combine H] {plan : Plan H} {t u : Tree H} {routes : List (Route × H)}

/-- **The merged routes of a plan** hold what the tree of the plan holds, labels apart. -/
theorem Describes.agreeOn_unlabelled (h : plan.Describes t) (handled : plan.Handled)
    (perm : routes.Perm plan.routes) (law : Composed routes u) :
    Tree.AgreeOn Tree.unlabelled t u := by
  have positions (a : List Edge) : (t.at? a).isSome ↔ (u.at? a).isSome := by
    rw [h.position_iff handled, law.position]
    simp only [perm.mem_iff]
  refine Tree.agreeOn_of_views id positions (fun a => ?_) fun a => ?_
  · have different := (perm.map fun r => r.1.address).nodup_iff.mpr plan.nodup_routes
    rw [law.handler]
    refine (leftFold?_eq_of_mem_iff (length_endingAt_le different a) fun handler => ?_).symm
    rw [Route.mem_endingAt, ← h.handlerAt?_iff]
    simp only [perm.mem_iff]
  · change t.descriptorAt? a = u.descriptorAt? a
    cases hu : u.descriptorAt? a with
    | none =>
      rw [Tree.descriptorAt?_eq_none_iff, ← Option.not_isSome_iff_eq_none] at hu ⊢
      rwa [positions]
    | some p =>
      rw [law.descriptor] at hu
      have inOrder : (Route.paramsAt a.length (Route.through a routes)).Perm
          (Route.paramsAt a.length (Route.through a plan.routes)) := (perm.filter _).filterMap _
      exact h.descriptorAt?_of_mem (inOrder.mem_iff.mp (List.mem_of_getLast? hu))

/-- **A plan and its single routes agree.** Take a plan that is built, without dead ends and with
nothing but handlers behind wildcards. Its routes, in any order, are all built and have different
addresses, so that no two of their handlers are combined; merged they give the tree of the plan but
for labels, and the same answers to all requests. -/
theorem build_agrees_routes (built : plan.build.result = .ok t) (handled : plan.Handled)
    (bare : plan.BareWildcards) (perm : routes.Perm plan.routes) :
    (∀ r ∈ routes, (Route.build r.2 r.1).result = .ok (Route.tree r)) ∧
      (routes.map fun r => r.1.address).Nodup ∧
      ∃ u, (Tree.mergeAll (routes.map Route.tree)).result = .ok u ∧
        Tree.AgreeOn Tree.unlabelled t u ∧ ∀ segments, t.hit? segments = u.hit? segments := by
  obtain ⟨t', ht, same⟩ := Logged.bind_eq_ok_iff.mp built
  obtain rfl : t' = t := Except.ok.inj same
  have describes : plan.Describes t' := ⟨_, ht⟩
  have nonempty : routes ≠ [] := by
    rintro rfl
    exact handled.routes_ne_nil (List.nil_perm.mp perm)
  obtain ⟨u, hu, law⟩ := composed_mergeAll nonempty
  have agree := describes.agreeOn_unlabelled handled perm law
  refine ⟨fun r hr => ?_, ?_, u, hu, agree, ?_⟩
  · obtain ⟨n, hn, -⟩ := mem_routes.mp (perm.mem_iff.mp hr)
    exact Route.result_build r.2 (describes.sound bare hn)
  · exact (perm.map fun r => r.1.address).nodup_iff.mpr plan.nodup_routes
  · exact Tree.hit?_eq_of_sight (agree.comp fun seen => (seen.1, seen.2.map Param.reading))

theorem build_agrees_routes_replaced :
    ∃ (plan : Plan Names) (t u : Tree Names),
      plan = .mk [.handler ⟨["home"]⟩, .literal "a" (.mk [.handler ⟨["replaced"]⟩]),
        .param (.text "x") (.mk [.literal "b" (.mk [.handler ⟨["below"]⟩])]),
        .literal "a" (.mk [.wildcard (.mk [.handler ⟨["rest"]⟩]),
          .param (.number "id") (.mk [.handler ⟨["item"]⟩])])] ∧
      plan.build.result = .ok t ∧ plan.Handled ∧ plan.BareWildcards ∧
      plan.routes = [([], ⟨["home"]⟩), ([.param (.text "x"), .literal "b"], ⟨["below"]⟩),
        ([.literal "a", .wildcard], ⟨["rest"]⟩),
        ([.literal "a", .param (.number "id")], ⟨["item"]⟩)] ∧
      (Tree.mergeAll (plan.routes.reverse.map Route.tree)).result = .ok u ∧
      Tree.AgreeOn Tree.unlabelled t u := by
  let plan : Plan Names := .mk [.handler ⟨["home"]⟩, .literal "a" (.mk [.handler ⟨["replaced"]⟩]),
    .param (.text "x") (.mk [.literal "b" (.mk [.handler ⟨["below"]⟩])]),
    .literal "a" (.mk [.wildcard (.mk [.handler ⟨["rest"]⟩]),
      .param (.number "id") (.mk [.handler ⟨["item"]⟩])])]
  obtain ⟨t, built⟩ : ∃ t, plan.build.result = .ok t := ⟨_, rfl⟩
  have handled : plan.Handled := by decide
  have bare : plan.BareWildcards := by decide
  obtain ⟨-, -, u, hu, agree, -⟩ :=
    build_agrees_routes built handled bare plan.routes.reverse_perm
  exact ⟨plan, t, u, rfl, built, handled, bare, rfl, hu, agree⟩

end Plan

end Routing
