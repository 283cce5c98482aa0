import Routing.Proofs.Ordered
import Routing.Table.Entry

/-!
# Regrouping merges

Where the combination of handlers is associative, so is `Content.merge`, which tells the content of
a position that two trees have, and with it the merging of trees. A merged list can then be cut
anywhere: merging both parts and then the two results is merging the whole list
(`same_foldl_merge_append`). Empty trees are neutral but for the label of the root.

Main statement: `merge_regroup`.
-/

universe u

namespace Routing

/-! ### Content of merged trees -/

namespace Content

variable {H : Type u} [Combine H]

/-- The content of a position that two trees have. -/
def merge (mine theirs : Content H) : Content H where
  label := theirs.label
  handler := mine.handler.merge Combine.combine theirs.handler
  descriptor := mine.descriptor.merge (fun _ p => p) theirs.descriptor

instance [Std.Associative (Combine.combine (H := H))] : Std.Associative (merge (H := H)) where
  assoc a b c := by
    have right : Std.Associative fun _ p : Param => p := ⟨fun _ _ _ => rfl⟩
    have handlers := (Option.associative_merge Combine.combine).assoc
      a.handler b.handler c.handler
    have descriptors := (Option.associative_merge fun _ p : Param => p).assoc
      a.descriptor b.descriptor c.descriptor
    simp only [merge, handlers, descriptors]

end Content

namespace Tree

variable {H : Type u}

/-- The same tree with another label at its root. -/
def relabel (label : String) (t : Tree H) : Tree H :=
  .node label t.handler t.literals t.param t.wildcard

variable [Combine H]

theorem content_merge (mine theirs : Tree H) :
    (mine.merge theirs).content = mine.content.merge theirs.content := by
  simp only [content, Content.merge, label_merge, handler_merge, descriptor?_merge]

theorem map_content_at?_merge (mine theirs : Tree H) (a : List Edge) :
    ((mine.merge theirs).at? a).map content =
      ((mine.at? a).map content).merge Content.merge ((theirs.at? a).map content) := by
  rw [at?_merge]
  cases mine.at? a <;> cases theirs.at? a <;> simp [content_merge]

/-! ### Empty trees -/

theorem same_empty_merge (t : Tree H) : (empty.merge t).Same t := by
  intro a
  rw [map_content_at?_merge]
  cases a with
  | nil =>
    obtain ⟨label, handler, literals, param, wildcard⟩ := t
    cases handler <;> cases param <;> rfl
  | cons e a =>
    rw [at?_cons, child?_empty, Option.bind_none, Option.map_none, Option.merge_none_left]

theorem merge_empty (t : Tree H) : t.merge empty = t.relabel (empty : Tree H).label := by
  cases h : t.handler <;> simp [empty, merge, mergeLiterals, mergeParam, mergeWildcard, relabel, h]

/-! ### Three trees and lists of trees -/

section Associative

variable [Std.Associative (Combine.combine (H := H))]

theorem same_merge_assoc (a b c : Tree H) : ((a.merge b).merge c).Same (a.merge (b.merge c)) := by
  intro x
  simp only [map_content_at?_merge]
  exact (Option.associative_merge Content.merge).assoc ..

/-- A merged list cut in two. -/
theorem same_foldl_merge_append (x y : Tree H) (xs ys : List (Tree H)) :
    ((xs ++ y :: ys).foldl merge x).Same ((xs.foldl merge x).merge (ys.foldl merge y)) := by
  intro a
  have fold := view_foldl_merge (fun t : Tree H => (t.at? a).map content)
    (fun mine theirs => map_content_at?_merge mine theirs a)
  rw [map_content_at?_merge, fold, fold, fold, ← List.cons_append, List.filterMap_append,
    leftFold?_append]

theorem same_mergeAll_append {xs ys : List (Tree H)} (hx : xs ≠ []) (hy : ys ≠ []) :
    ∃ x y z, (mergeAll xs).result = .ok x ∧ (mergeAll ys).result = .ok y ∧
      (mergeAll (xs ++ ys)).result = .ok z ∧ z.Same (x.merge y) ∧
      ((∀ t ∈ xs ++ ys, t.Ordered) → z = x.merge y) := by
  obtain ⟨x, xs, rfl⟩ := List.exists_cons_of_ne_nil hx
  obtain ⟨y, ys, rfl⟩ := List.exists_cons_of_ne_nil hy
  have same := same_foldl_merge_append x y xs ys
  refine ⟨_, _, _, result_mergeAll_cons x xs, result_mergeAll_cons y ys,
    result_mergeAll_cons x (xs ++ y :: ys), same, fun ordered => ?_⟩
  have hxs : (xs.foldl merge x).Ordered :=
    .foldl_merge (ordered x (by simp)) fun t ht => ordered t (by simp [ht])
  have hys : (ys.foldl merge y).Ordered :=
    .foldl_merge (ordered y (by simp)) fun t ht => ordered t (by simp [ht])
  have hall : ((xs ++ y :: ys).foldl merge x).Ordered :=
    .foldl_merge (ordered x (by simp)) fun t ht => ordered t (List.mem_cons_of_mem _ ht)
  exact same.eq hall (hxs.merge hys)

end Associative

end Tree

/-! ### Tables -/

namespace Route

variable {H : Type u}

theorem parseAll_append {xs ys : List (String × H)} {rs qs : List (Route × H)}
    (hx : parseAll xs = .ok rs) (hy : parseAll ys = .ok qs) :
    parseAll (xs ++ ys) = .ok (rs ++ qs) := by
  induction xs generalizing rs with
  | nil =>
    obtain rfl : [] = rs := Except.ok.inj hx
    exact hy
  | cons entry rest ih =>
    obtain ⟨pattern, handler⟩ := entry
    obtain ⟨r, others, hp, hr, rfl⟩ := parseAll_cons_eq_ok hx
    rw [List.cons_append, parseAll, hp]
    simp only [ih hr]
    rfl

/-- Lists of patterns that compose do so together, into the merge of their trees. -/
theorem compose_append [Combine H] [Std.Associative (Combine.combine (H := H))]
    {xs ys : List (String × H)} {tx ty : Tree H} (hx : (compose xs).result = .ok tx)
    (hy : (compose ys).result = .ok ty) :
    (compose (xs ++ ys)).result = .ok (tx.merge ty) := by
  obtain ⟨rs, hrs, hmx⟩ := compose_eq_ok_iff.mp hx
  obtain ⟨qs, hqs, hmy⟩ := compose_eq_ok_iff.mp hy
  refine compose_eq_ok_iff.mpr ⟨rs ++ qs, parseAll_append hrs hqs, ?_⟩
  obtain ⟨x, y, z, hx', hy', hz, -, equal⟩ :=
    Tree.same_mergeAll_append (Tree.ne_nil_of_mergeAll hmx) (Tree.ne_nil_of_mergeAll hmy)
  obtain rfl : x = tx := Except.ok.inj (hx'.symm.trans hmx)
  obtain rfl : y = ty := Except.ok.inj (hy'.symm.trans hmy)
  rw [List.map_append, hz, equal]
  intro t ht
  rw [← List.map_append] at ht
  obtain ⟨r, -, rfl⟩ := List.mem_map.mp ht
  exact ordered_spine r.2 Tree.rootLabel r.1

end Route

instance : Std.Associative (Combine.combine (H := Names)) where
  assoc a b c := congrArg Names.mk (List.append_assoc a.list b.list c.list)

namespace Table

theorem build_append {xs ys : List Entry} {tx ty : Tree Names}
    (hx : (build xs).result = .ok tx) (hy : (build ys).result = .ok ty) :
    (build (xs ++ ys)).result = .ok (tx.merge ty) := by
  rw [build_eq_ok_iff] at hx hy ⊢
  rw [List.map_append]
  exact Route.compose_append hx hy

end Table

/-- **Merging can be regrouped.** Where the combination of handlers is associative, so is the
merging of trees; an empty tree changes nothing from the left and only the label of the root from
the right. A list of trees may be merged in two parts, and a table may be built in two parts. Trees
that are said to be the same are equal wherever literal keys are in order. -/
theorem merge_regroup {H : Type u} [Combine H] [Std.Associative (Combine.combine (H := H))] :
    (∀ a b c : Tree H, ((a.merge b).merge c).Same (a.merge (b.merge c)) ∧
      (a.Ordered → b.Ordered → c.Ordered → (a.merge b).merge c = a.merge (b.merge c))) ∧
    (∀ t : Tree H, (Tree.empty.merge t).Same t ∧ (t.Ordered → Tree.empty.merge t = t) ∧
      t.merge .empty = t.relabel (Tree.empty : Tree H).label) ∧
    (∀ xs ys : List (Tree H), xs ≠ [] → ys ≠ [] →
      ∃ x y z, (Tree.mergeAll xs).result = .ok x ∧ (Tree.mergeAll ys).result = .ok y ∧
        (Tree.mergeAll (xs ++ ys)).result = .ok z ∧ z.Same (x.merge y) ∧
        ((∀ t ∈ xs ++ ys, t.Ordered) → z = x.merge y)) ∧
    ∀ (xs ys : List Entry) (tx ty : Tree Names), (Table.build xs).result = .ok tx →
      (Table.build ys).result = .ok ty → (Table.build (xs ++ ys)).result = .ok (tx.merge ty) := by
  refine ⟨fun a b c => ?_, fun t => ?_, fun xs ys hx hy => ?_, fun xs ys tx ty hx hy => ?_⟩
  · have same := Tree.same_merge_assoc a b c
    refine ⟨same, fun ha hb hc => ?_⟩
    exact same.eq ((ha.merge hb).merge hc) (ha.merge (hb.merge hc))
  · have same := Tree.same_empty_merge t
    exact ⟨same, fun ht => same.eq (Tree.ordered_empty.merge ht) ht, Tree.merge_empty t⟩
  · exact Tree.same_mergeAll_append hx hy
  · exact Table.build_append hx hy

theorem merge_regroup_shared_positions :
    ∃ tx ty, (Table.build [⟨"a/:x", "text"⟩, ⟨"a/b", "b"⟩]).result = .ok tx ∧
      (Table.build [⟨"a/:y:int", "number"⟩, ⟨"a/*", "rest"⟩]).result = .ok ty ∧
      (Table.build [⟨"a/:x", "text"⟩, ⟨"a/b", "b"⟩, ⟨"a/:y:int", "number"⟩,
        ⟨"a/*", "rest"⟩]).result = .ok (tx.merge ty) ∧
      tx.Ordered ∧ ty.Ordered ∧ (tx.merge ty).merge tx = tx.merge (ty.merge tx) ∧
      Tree.empty.merge tx = tx ∧ [tx] ≠ [] ∧ [ty, tx] ≠ [] ∧
      ∃ y, (Tree.mergeAll [ty, tx]).result = .ok y ∧
        (Tree.mergeAll [tx, ty, tx]).result = .ok (tx.merge y) := by
  obtain ⟨tx, hx⟩ : ∃ t, (Table.build [⟨"a/:x", "text"⟩, ⟨"a/b", "b"⟩]).result = .ok t := ⟨_, rfl⟩
  obtain ⟨ty, hy⟩ : ∃ t, (Table.build [⟨"a/:y:int", "number"⟩, ⟨"a/*", "rest"⟩]).result = .ok t :=
    ⟨_, rfl⟩
  have ox : tx.Ordered := Route.ordered_of_compose (Table.build_eq_ok_iff.mp hx)
  have oy : ty.Ordered := Route.ordered_of_compose (Table.build_eq_ok_iff.mp hy)
  obtain ⟨assoc, neutral, lists, tables⟩ := merge_regroup (H := Names)
  obtain ⟨x, y, z, hx', hy', hz, -, equal⟩ := lists [tx] [ty, tx] (by simp) (by simp)
  obtain rfl : tx = x := Except.ok.inj hx'
  refine ⟨tx, ty, hx, hy, tables _ _ tx ty hx hy, ox, oy, (assoc tx ty tx).2 ox oy ox,
    (neutral tx).2.1 ox, by simp, by simp, y, hy', ?_⟩
  have allOrdered : ∀ t ∈ [tx] ++ [ty, tx], t.Ordered := by simp [ox, oy]
  rw [← equal allOrdered]
  exact hz

end Routing
