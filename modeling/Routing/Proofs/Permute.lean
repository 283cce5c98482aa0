import Mathlib.Data.List.Perm.Basic
import Routing.Proofs.Bisim
import Routing.Proofs.Spine

/-!
# Merging in another order

Two things in a merged tree depend on the order of the list besides labels: the combination of
handlers and the choice among parameters at one address. If the combination is associative and
commutative and no two of the trees have parameters at one address that read differently, every
order of the list answers all requests alike.

Main statement: `hit?_mergeAll_perm`.
-/

universe u v

namespace Routing

/-! ### Lists in another order -/

section Perm

variable {β : Type v} {op : β → β → β}

/-- A left fold of options starts from nothing. -/
theorem leftFold?_eq_foldl (bs : List β) :
    leftFold? op bs = (bs.map some).foldl (Option.merge op) none := by
  induction bs using List.reverseRecOn with
  | nil => rfl
  | append_singleton bs b ih => rw [leftFold?_concat, ih, List.map_append, List.foldl_append]; rfl

theorem leftFold?_perm [Std.Associative op] [Std.Commutative op] {bs cs : List β}
    (h : bs.Perm cs) : leftFold? op bs = leftFold? op cs := by
  rw [leftFold?_eq_foldl, leftFold?_eq_foldl]
  exact (h.map some).foldl_eq none

/-- Where all members look alike, the last one of every order does. -/
theorem map_getLast?_perm {γ : Type v} {look : β → γ} {bs cs : List β} (h : bs.Perm cs)
    (alike : ∀ b ∈ bs, ∀ c ∈ bs, look b = look c) :
    bs.getLast?.map look = cs.getLast?.map look := by
  cases hb : bs.getLast? with
  | none =>
    obtain rfl : bs = [] := List.getLast?_eq_none_iff.mp hb
    obtain rfl : cs = [] := List.nil_perm.mp h
    rfl
  | some b =>
    have nonempty : cs ≠ [] := by
      rintro rfl
      rw [List.perm_nil.mp h] at hb
      cases hb
    have hmem : cs.getLast nonempty ∈ bs := h.mem_iff.mpr (List.getLast_mem nonempty)
    rw [List.getLast?_eq_some_getLast nonempty, Option.map_some, Option.map_some,
      alike b (List.mem_of_getLast? hb) _ hmem]

end Perm

namespace Tree

variable {H : Type u} [Combine H] [Std.Associative (Combine.combine (H := H))]
  [Std.Commutative (Combine.combine (H := H))]

/-- The merged trees of two orders look alike to every walk. -/
theorem agreeOn_sight_perm {s t : Tree H} {ss ts : List (Tree H)} (h : (s :: ss).Perm (t :: ts))
    (alike : ∀ a, ∀ p ∈ (s :: ss).filterMap fun n => n.descriptorAt? a,
      ∀ q ∈ (s :: ss).filterMap fun n => n.descriptorAt? a, p.reading = q.reading) :
    AgreeOn sight (ss.foldl merge s) (ts.foldl merge t) := by
  refine agreeOn_of_views (Option.map Param.reading) (fun a => ?_) (fun a => ?_) fun a => ?_
  · rw [isSome_at?_foldl_merge, isSome_at?_foldl_merge]
    simp only [h.mem_iff]
  · rw [handlerAt?_foldl_merge, handlerAt?_foldl_merge]
    exact leftFold?_perm (h.filterMap _)
  · rw [descriptorAt?_foldl_merge, descriptorAt?_foldl_merge]
    exact map_getLast?_perm (h.filterMap _) (alike a)

/-- **Order does not matter where nothing conflicts.** If handlers are combined associatively and
commutatively and no two trees of a list have parameters at one address with different names or
readings, then every order of the list merges into a tree that answers every request alike. -/
theorem hit?_mergeAll_perm {ts us : List (Tree H)} (nonempty : ts ≠ []) (perm : ts.Perm us)
    (alike : ∀ s ∈ ts, ∀ t ∈ ts, ∀ a p q, s.descriptorAt? a = some p →
      t.descriptorAt? a = some q → p.name = q.name ∧ p.read = q.read) :
    ∃ t u, (mergeAll ts).result = .ok t ∧ (mergeAll us).result = .ok u ∧
      ∀ segments, t.hit? segments = u.hit? segments := by
  obtain ⟨t, ts, rfl⟩ := List.exists_cons_of_ne_nil nonempty
  have nonempty' : us ≠ [] := by
    rintro rfl
    cases List.perm_nil.mp perm
  obtain ⟨u, us, rfl⟩ := List.exists_cons_of_ne_nil nonempty'
  refine ⟨_, _, result_mergeAll_cons t ts, result_mergeAll_cons u us, fun segments => ?_⟩
  refine hit?_eq_of_sight (agreeOn_sight_perm perm fun a p hp q hq => ?_) segments
  obtain ⟨m, hm, hp⟩ := List.mem_filterMap.mp hp
  obtain ⟨n, hn, hq⟩ := List.mem_filterMap.mp hq
  exact Prod.ext_iff.mpr (alike m hm n hn a p q hp hq)

end Tree

theorem hit?_mergeAll_perm_number :
    let _ : Combine Nat := ⟨max⟩
    let id : Param := .number "id"
    let one := Route.spine 1 "one" [.param id, .literal "edit"]
    let two := Route.spine 2 "two" [.param { id with form := .quoted "id" }]
    [one, two] ≠ [] ∧ [one, two].Perm [two, one] ∧
      (∀ s ∈ [one, two], ∀ t ∈ [one, two], ∀ a p q, s.descriptorAt? a = some p →
        t.descriptorAt? a = some q → p.name = q.name ∧ p.read = q.read) ∧
      ∃ t u, (Tree.mergeAll [one, two]).result = .ok t ∧
        (Tree.mergeAll [two, one]).result = .ok u ∧
        ∀ segments, t.hit? segments = u.hit? segments := by
  intro _ id one two
  have assoc : Std.Associative (Combine.combine (H := Nat)) := ⟨Nat.max_assoc⟩
  have comm : Std.Commutative (Combine.combine (H := Nat)) := ⟨Nat.max_comm⟩
  have reading {n : Nat} {label : String} {r : Route} {a : List Edge} {p : Param}
      (hr : ∀ q, .param q ∈ r → q.name = id.name ∧ q.read = id.read)
      (hp : (Route.spine n label r).descriptorAt? a = some p) :
      p.name = id.name ∧ p.read = id.read := by
    rw [Route.descriptorAt?_spine] at hp
    split_ifs at hp
    obtain ⟨piece, hpiece, hparam⟩ := Option.bind_eq_some_iff.mp hp
    obtain rfl : piece = .param p := Piece.param?_eq_some_iff.mp hparam
    exact hr p (List.mem_of_getElem? hpiece)
  have alike : ∀ s ∈ [one, two], ∀ a p, s.descriptorAt? a = some p →
      p.name = id.name ∧ p.read = id.read := by
    intro s hs a p hp
    rcases List.mem_pair.mp hs with rfl | rfl
    · exact reading (by simp) hp
    · exact reading (by simp) hp
  have pairwise : ∀ s ∈ [one, two], ∀ t ∈ [one, two], ∀ a p q, s.descriptorAt? a = some p →
      t.descriptorAt? a = some q → p.name = q.name ∧ p.read = q.read := by
    intro s hs t ht a p q hp hq
    obtain ⟨hpn, hpr⟩ := alike s hs a p hp
    obtain ⟨hqn, hqr⟩ := alike t ht a q hq
    exact ⟨hpn.trans hqn.symm, hpr.trans hqr.symm⟩
  have perm : [one, two].Perm [two, one] := .swap ..
  exact ⟨by simp, perm, pairwise, Tree.hit?_mergeAll_perm (by simp) perm pairwise⟩

end Routing
