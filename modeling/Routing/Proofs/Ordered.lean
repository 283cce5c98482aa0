import Routing.Proofs.Agree
import Routing.Proofs.Composed
import Routing.Proofs.Everywhere

/-!
# Ordered trees

Look-ups do not tell a list of literal children from one with the same keys in another order. In an
`Ordered` tree every such list is ascending. Merging keeps trees ordered, composed trees are ordered
(`ordered_of_compose`), and ordered trees that hold the same at every address are equal (`Same.eq`).
-/

universe u

namespace Routing

namespace Tree

variable {H : Type u}

/-- The literal children of every position are ascending by key. -/
def Ordered (t : Tree H) : Prop := ∀ a n, t.at? a = some n → Dict.Ascending n.literals

theorem ordered_iff {t : Tree H} :
    t.Ordered ↔ Dict.Ascending t.literals ∧ ∀ e c, t.child? e = some c → c.Ordered :=
  everywhere_iff

theorem Ordered.ascending {t : Tree H} (h : t.Ordered) : Dict.Ascending t.literals :=
  (ordered_iff.mp h).1

theorem Ordered.child {t c : Tree H} (h : t.Ordered) {e : Edge} (hc : t.child? e = some c) :
    c.Ordered := (ordered_iff.mp h).2 e c hc

theorem ordered_empty : (empty : Tree H).Ordered := everywhere_empty Dict.ascending_nil

section Merge

variable [Combine H] {mine theirs : Tree H}

theorem literals_merge (mine theirs : Tree H) :
    (mine.merge theirs).literals = mergeLiterals mine.literals theirs.literals := by
  cases theirs; rfl

/-- Merging two positions keeps their keys ascending, whatever lies below. -/
theorem ascending_merge (hm : Dict.Ascending mine.literals) :
    Dict.Ascending (mine.merge theirs).literals := by
  rw [literals_merge]
  exact ascending_mergeLiterals hm theirs.literals

theorem Ordered.merge (hm : mine.Ordered) (hs : theirs.Ordered) :
    (mine.merge theirs).Ordered :=
  Everywhere.merge (fun _ _ here _ => ascending_merge here) hm hs

theorem Ordered.foldl_merge {first : Tree H} {rest : List (Tree H)} (hf : first.Ordered)
    (hr : ∀ t ∈ rest, t.Ordered) : (rest.foldl Tree.merge first).Ordered :=
  Everywhere.foldl_merge (fun _ _ here _ => ascending_merge here) hf hr

theorem ordered_of_mergeAll {ts : List (Tree H)} {t : Tree H} (h : (mergeAll ts).result = .ok t)
    (hts : ∀ s ∈ ts, s.Ordered) : t.Ordered :=
  everywhere_of_mergeAll (fun _ _ here _ => ascending_merge here) h hts

end Merge

/-! ### Equality -/

theorem mem_of_find? {d : Dict (Tree H)} {key : String} {c : Tree H}
    (h : Dict.find? key d = some c) : (key, c) ∈ d := by
  induction d with
  | nil => cases h
  | cons entry rest ih =>
    obtain ⟨k, v⟩ := entry
    rw [Dict.find?_cons] at h
    split_ifs at h with hk
    · obtain rfl : v = c := Option.some.inj h
      simp [hk]
    · exact List.mem_cons_of_mem _ (ih h)

/-- What passes to a position from the children behind its edges holds of all trees. -/
theorem induct_child? {motive : Tree H → Prop}
    (step : ∀ t, (∀ e c, t.child? e = some c → motive c) → motive t) : ∀ t, motive t := by
  intro t
  induction t using Tree.induct with
  | node label handler literals param wildcard ihLiterals ihParam ihWildcard =>
    refine step _ fun e c hc => ?_
    cases e with
    | literal key => exact ihLiterals (key, c) (mem_of_find? hc)
    | param =>
      obtain ⟨child, hchild, rfl⟩ := Option.map_eq_some_iff.mp hc
      exact ihParam child hchild
    | wildcard => exact ihWildcard c hc

theorem eq_of_child? {s t : Tree H} (hs : Dict.Ascending s.literals)
    (ht : Dict.Ascending t.literals) (here : s.content = t.content)
    (children : ∀ e, s.child? e = t.child? e) : s = t := by
  obtain ⟨label, handler, literals, param, wildcard⟩ := s
  obtain ⟨label', handler', literals', param', wildcard'⟩ := t
  obtain ⟨rfl, rfl, hdescriptor⟩ := Content.mk.inj here
  obtain rfl : literals = literals' :=
    Dict.ext_of_find? hs ht fun key => children (.literal key)
  obtain rfl : wildcard = wildcard' := children .wildcard
  have hchild : param.map Prod.snd = param'.map Prod.snd := children .param
  obtain rfl : param = param' := by
    change param.map Prod.fst = param'.map Prod.fst at hdescriptor
    cases param <;> cases param' <;> simp_all [Prod.ext_iff]
  rfl

/-- **Ordered trees with the same content are equal.** -/
theorem Same.eq {s t : Tree H} (h : s.Same t) (hs : s.Ordered) (ht : t.Ordered) : s = t := by
  induction s using induct_child? generalizing t with
  | step s ih =>
    refine eq_of_child? hs.ascending ht.ascending h.root fun e => ?_
    have below := h.child e
    generalize hc : s.child? e = child at below ⊢
    generalize hd : t.child? e = child' at below ⊢
    cases below with
    | none => rfl
    | some agree => rw [ih e _ hc agree (hs.child hc) (ht.child hd)]

end Tree

/-! ### Composed trees -/

namespace Route

variable {H : Type u}

theorem ordered_spine (handler : H) (label : String) (r : Route) :
    (spine handler label r).Ordered := by
  induction r generalizing label with
  | nil => exact everywhere_spine_nil_iff.mpr Dict.ascending_nil
  | cons piece rest ih =>
    refine everywhere_spine_cons_iff.mpr ⟨?_, ih _⟩
    cases piece with
    | literal text => exact List.pairwise_singleton ..
    | param p => exact Dict.ascending_nil
    | wildcard => exact Dict.ascending_nil

theorem ordered_of_compose [Combine H] {entries : List (String × H)} {t : Tree H}
    (h : (compose entries).result = .ok t) : t.Ordered := by
  obtain ⟨routes, -, hmerge⟩ := compose_eq_ok_iff.mp h
  refine Tree.ordered_of_mergeAll hmerge fun s hs => ?_
  obtain ⟨r, -, rfl⟩ := List.mem_map.mp hs
  exact ordered_spine r.2 Tree.rootLabel r.1

end Route

end Routing
