import Mathlib.Data.Set.Card
import Routing.Proofs.Key
import Routing.Proofs.Nodes
import Routing.Proofs.Ordered

/-!
# Keyed trees

In a `Keyed` tree the literal children of every position stand behind keys, in ascending order. A
draft is keyed if the position that it describes is. Every way to make a tree is followed here:
drafts step by step, plans, single routes, composed patterns and merging. Each asks for keyed trees
alone and gives one, although merging inserts keys without looking at them.

Main statements: `keyed_of_buildAt`, `keyed_of_build`, `keyed_of_compose`, `keyed_of_mergeAll`.
-/

universe u

namespace Routing

/-! ### Entries behind keys -/

namespace Dict

variable {α : Type u} {d : Dict α}

/-- In ascending order, and only behind keys. -/
structure Keyed (d : Dict α) : Prop where
  ascending : Ascending d
  isKey : ∀ entry ∈ d, isKey entry.1 = true

theorem keyed_nil : Keyed ([] : Dict α) := ⟨ascending_nil, by simp⟩

theorem Keyed.insert (h : d.Keyed) {key : String} (hkey : Routing.isKey key = true) (value : α) :
    (Dict.insert key value d).Keyed := by
  refine ⟨h.ascending.insert key value, fun entry mem => ?_⟩
  rcases mem_insert mem with rfl | mem
  · exact hkey
  · exact h.isKey entry mem

theorem isSome_find?_iff {key : String} : (find? key d).isSome ↔ key ∈ d.keys := by
  induction d with
  | nil => simp [keys]
  | cons entry rest ih =>
    obtain ⟨k, v⟩ := entry
    rw [find?_cons, keys, List.map_cons, List.mem_cons]
    by_cases hk : key = k
    · simp [hk]
    · rw [if_neg hk, ih]
      exact (or_iff_right hk).symm

theorem Ascending.nodup_keys (h : Ascending d) : d.keys.Nodup := by
  refine List.pairwise_map.mpr (List.Pairwise.imp (fun {x y} hlt heq => ?_) h)
  exact String.lt_irrefl y.1 (heq ▸ hlt)

/-- There is one entry for each key that is found. -/
theorem Ascending.length_eq (h : Ascending d) :
    d.length = {key | (find? key d).isSome}.ncard := by
  have found : {key | (find? key d).isSome} = ↑d.keys.toFinset := by
    ext key
    rw [Finset.mem_coe, List.mem_toFinset]
    exact isSome_find?_iff
  rw [found, Set.ncard_coe_finset, List.toFinset_card_of_nodup h.nodup_keys]
  exact (List.length_map ..).symm

end Dict

variable {H : Type u}

namespace Tree

/-- At every position the literal children stand behind keys, in ascending order. -/
def Keyed (t : Tree H) : Prop := t.Everywhere fun n => Dict.Keyed n.literals

variable {t : Tree H}

theorem keyed_iff : t.Keyed ↔ Dict.Keyed t.literals ∧ ∀ e c, t.child? e = some c → c.Keyed :=
  everywhere_iff

theorem keyed_empty : (empty : Tree H).Keyed := everywhere_empty Dict.keyed_nil

theorem Keyed.at? (h : t.Keyed) {a : List Edge} {n : Tree H} (hn : t.at? a = some n) : n.Keyed :=
  Everywhere.at? h hn

theorem Keyed.ordered (h : t.Keyed) : t.Ordered := fun a n hn => (h a n hn).ascending

/-- The literal children of a position are listed once each, by keys in the order of their bytes,
which is the order that they are kept in. -/
structure ListsLiterals (n : Tree H) : Prop where
  key : ∀ key ∈ n.literalChildren.keys, key ≠ "" ∧ ∀ c ∈ key.toList, KeyChar c
  ascending : (n.literalChildren.keys.map bytes).Pairwise (· < ·)
  count : n.literalCount = {key | (n.literal? key).isSome}.ncard
  child : ∀ key child, (key, child) ∈ n.literalChildren ↔ n.literal? key = some child
  kept : n.literals = n.literalChildren

theorem listsLiterals_of_keyed {n : Tree H} (h : Dict.Keyed n.literals) :
    n.ListsLiterals where
  key := fun key mem => by
    rw [literalChildren_eq h.ascending] at mem
    obtain ⟨entry, hentry, rfl⟩ := List.mem_map.mp mem
    exact isKey_iff.mp (h.isKey entry hentry)
  ascending := by
    rw [literalChildren_eq h.ascending, Dict.keys, List.map_map, List.pairwise_map]
    refine List.Pairwise.imp_of_mem (fun {x y} hx hy lt => ?_) h.ascending
    exact bytes_lt_bytes (h.isKey x hx) (h.isKey y hy) lt
  count := h.ascending.length_eq
  child := fun _ _ => by
    rw [literalChildren_eq h.ascending]
    exact (Dict.find?_eq_some_iff h.ascending).symm
  kept := (literalChildren_eq h.ascending).symm

section Merge

variable [Combine H]

/-- Merging only inserts keys that one of both sides has. -/
theorem keyed_mergeLiterals {mine theirs : Dict (Tree H)} (hm : mine.Keyed)
    (hs : ∀ entry ∈ theirs, isKey entry.1 = true) : Dict.Keyed (mergeLiterals mine theirs) := by
  induction theirs with
  | nil => exact hm
  | cons entry rest ih =>
    have here : isKey entry.1 = true := hs entry (List.mem_cons_self ..)
    have others := ih fun entry mem => hs entry (List.mem_cons_of_mem _ mem)
    exact others.insert here _

theorem keyed_literals_merge (mine theirs : Tree H) (hm : Dict.Keyed mine.literals)
    (hs : Dict.Keyed theirs.literals) : Dict.Keyed (mine.merge theirs).literals := by
  rw [literals_merge]
  exact keyed_mergeLiterals hm hs.isKey

theorem Keyed.merge {mine theirs : Tree H} (hm : mine.Keyed) (hs : theirs.Keyed) :
    (mine.merge theirs).Keyed :=
  Everywhere.merge keyed_literals_merge hm hs

theorem keyed_of_mergeAll {ts : List (Tree H)} (h : (mergeAll ts).result = .ok t)
    (hts : ∀ s ∈ ts, s.Keyed) : t.Keyed :=
  everywhere_of_mergeAll keyed_literals_merge h hts

end Merge

end Tree

/-! ### Drafts -/

namespace Draft

/-- The position that a draft describes is keyed, under whatever label. -/
def Keyed (d : Draft H) : Prop := ∀ label, (d.freeze label).Keyed

variable {d d' : Draft H} {child : Tree H}

/-- A draft without children is keyed. -/
theorem keyed_bare (handler : Option H) : ({ handler } : Draft H).Keyed := by
  intro label
  refine Tree.keyed_iff.mpr ⟨Dict.keyed_nil, fun e c hc => ?_⟩
  cases e <;> cases hc

theorem Keyed.literals (h : d.Keyed) : Dict.Keyed d.literals :=
  (Tree.keyed_iff.mp (h Tree.rootLabel)).1

/-- A keyed draft stays keyed if every child it gets is keyed and stands behind a key. -/
theorem Keyed.extend (h : d.Keyed) (literals : Dict.Keyed d'.literals)
    (children : ∀ label e c, (d'.freeze label).child? e = some c →
      c.Keyed ∨ (d.freeze label).child? e = some c) : d'.Keyed := by
  intro label
  refine Tree.keyed_iff.mpr ⟨literals, fun e c hc => ?_⟩
  rcases children label e c hc with added | old
  · exact added
  · exact (Tree.keyed_iff.mp (h label)).2 e c old

theorem Keyed.setHandler (h : d.Keyed) (handler : H) : (d.setHandler handler).Keyed :=
  h.extend h.literals fun _ e _ hc => .inr (by cases e <;> exact hc)

/-- Whether the literal child is added or refused, the draft left behind is keyed. -/
theorem Keyed.addLiteral (h : d.Keyed) (hchild : child.Keyed) (key : String) :
    (d.addLiteral key child).draft.Keyed := by
  rw [Draft.addLiteral]
  split_ifs with hkey
  · refine h.extend (h.literals.insert hkey child) fun label e c hc => ?_
    cases e with
    | literal k =>
      have found : Dict.find? k (Dict.insert key child d.literals) = some c := hc
      rw [Dict.find?_insert] at found
      split_ifs at found
      · obtain rfl := Option.some.inj found
        exact .inl hchild
      · exact .inr found
    | param | wildcard => exact .inr hc
  · exact h

theorem Keyed.setParam (h : d.Keyed) (hchild : child.Keyed) (p : Param) :
    (d.setParam p child).draft.Keyed := by
  unfold Draft.setParam
  split
  · exact h
  · refine h.extend h.literals fun label e c hc => ?_
    cases e with
    | param =>
      obtain rfl : child = c := Option.some.inj hc
      exact .inl hchild
    | literal _ | wildcard => exact .inr hc

theorem Keyed.setWildcard (h : d.Keyed) (hchild : child.Keyed) :
    (d.setWildcard child).draft.Keyed := by
  unfold Draft.setWildcard
  split
  · exact h
  · refine h.extend h.literals fun label e c hc => ?_
    cases e with
    | wildcard =>
      obtain rfl : child = c := Option.some.inj hc
      exact .inl hchild
    | literal _ | param => exact .inr hc

/-! ### Clauses -/

section Clauses

open Clause

variable {clauses : List (Clause H (Logged Fault (Tree H)))}

/-- Every child of clauses that is built is keyed. -/
def KeyedChildren (clauses : List (Clause H (Logged Fault (Tree H)))) : Prop :=
  ∀ clause ∈ clauses, ∀ child, clause.child? = some child → ∀ t, IsBuilt child t → t.Keyed

theorem KeyedChildren.tail {clause : Clause H (Logged Fault (Tree H))}
    (h : KeyedChildren (clause :: clauses)) : KeyedChildren clauses :=
  fun c mem => h c (List.mem_cons_of_mem _ mem)

theorem KeyedChildren.head {clause : Clause H (Logged Fault (Tree H))}
    (h : KeyedChildren (clause :: clauses)) {child : Piece × Logged Fault (Tree H)}
    (hc : clause.child? = some child) {t : Tree H} (ht : child.2.result = .ok t) : t.Keyed :=
  h clause (List.mem_cons_self ..) child hc t ht

theorem Keyed.addLiterals (hd : d.Keyed) (built : KeyedChildren clauses)
    (h : (addLiterals d (allLiterals clauses)).result = .ok d') : d'.Keyed := by
  induction clauses generalizing d with
  | nil =>
    obtain rfl : d = d' := Except.ok.inj h
    exact hd
  | cons clause rest ih =>
    cases clause with
    | literal text x =>
      obtain ⟨t, ht, h⟩ := Logged.bind_eq_ok_iff.mp h
      obtain ⟨e, he, h⟩ := Logged.bind_eq_ok_iff.mp h
      have child : t.Keyed := built.head rfl ht
      obtain ⟨-, rfl⟩ := Edited.accepted_eq_ok_iff.mp he
      exact ih (hd.addLiteral child text) built.tail h
    | handler _ | param _ _ | wildcard _ => exact ih hd built.tail h

theorem Keyed.addParam (hd : d.Keyed) (built : KeyedChildren clauses)
    (h : (addParam d (firstParam? clauses)).result = .ok d') : d'.Keyed := by
  induction clauses with
  | nil =>
    obtain rfl : d = d' := Except.ok.inj h
    exact hd
  | cons clause rest ih =>
    cases clause with
    | param p x =>
      obtain ⟨t, ht, h⟩ := Logged.bind_eq_ok_iff.mp h
      have child : t.Keyed := built.head rfl ht
      obtain ⟨-, rfl⟩ := Edited.accepted_eq_ok_iff.mp h
      exact hd.setParam child p
    | handler _ | literal _ _ | wildcard _ => exact ih built.tail h

theorem Keyed.addWildcard (hd : d.Keyed) (built : KeyedChildren clauses)
    (h : (addWildcard d (firstWildcard? clauses)).result = .ok d') : d'.Keyed := by
  induction clauses with
  | nil =>
    obtain rfl : d = d' := Except.ok.inj h
    exact hd
  | cons clause rest ih =>
    cases clause with
    | wildcard x =>
      obtain ⟨t, ht, h⟩ := Logged.bind_eq_ok_iff.mp h
      have child : t.Keyed := built.head rfl ht
      obtain ⟨-, rfl⟩ := Edited.accepted_eq_ok_iff.mp h
      exact hd.setWildcard child
    | handler _ | literal _ _ | param _ _ => exact ih built.tail h

theorem keyed_of_assemble (built : KeyedChildren clauses) {label : String} {t : Tree H}
    (h : (assemble label (.ofClauses clauses)).result = .ok t) : t.Keyed := by
  obtain ⟨-, d₁, d₂, d₃, h₁, h₂, h₃, rfl⟩ := assemble_eq_ok h
  have literals : d₁.Keyed := (keyed_bare _).addLiterals built h₁
  have param : d₂.Keyed := literals.addParam built h₂
  have wildcard : d₃.Keyed := param.addWildcard built h₃
  exact wildcard label

end Clauses

end Draft

/-! ### Plans -/

namespace Plan

theorem mem_buildClauses {clauses : List (Clause H (Plan H))}
    {clause : Clause H (Logged Fault (Tree H))} (h : clause ∈ buildClauses clauses) :
    ∃ source ∈ clauses, clause = buildClause source := by
  induction clauses with
  | nil => cases h
  | cons first rest ih =>
    rcases List.mem_cons.mp h with rfl | h
    · exact ⟨first, List.mem_cons_self .., rfl⟩
    · obtain ⟨source, mem, hs⟩ := ih h
      exact ⟨source, List.mem_cons_of_mem _ mem, hs⟩

/-- **The tree of a plan is keyed**, at every depth. -/
theorem keyed_of_buildAt {plan : Plan H} {label : String} {t : Tree H}
    (h : (plan.buildAt label).result = .ok t) : t.Keyed := by
  induction plan using Plan.induct generalizing label t with
  | mk clauses ih =>
    refine Draft.keyed_of_assemble (fun clause mem child hc s hs => ?_) h
    obtain ⟨source, hsource, rfl⟩ := mem_buildClauses mem
    rw [child?_buildClause] at hc
    obtain ⟨below, hbelow, rfl⟩ := Option.map_eq_some_iff.mp hc
    exact ih source hsource below hbelow hs

theorem keyed_of_build {plan : Plan H} {t : Tree H} (h : plan.build.result = .ok t) : t.Keyed := by
  obtain ⟨t', ht', h⟩ := Logged.bind_eq_ok_iff.mp h
  obtain rfl : t' = t := Except.ok.inj h
  exact keyed_of_buildAt ht'

end Plan

/-! ### Routes -/

theorem Piece.keyed_of_attach {child : Tree H} (hchild : child.Keyed) {piece : Piece}
    {d : Draft H} (h : piece.attach child = .ok d) : d.Keyed := by
  have start : (Draft.empty : Draft H).Keyed := Draft.keyed_bare none
  cases piece with
  | literal text =>
    rw [Piece.attach, Draft.Edited.accepted_eq_ok_iff] at h
    obtain ⟨-, rfl⟩ := h
    exact start.addLiteral hchild text
  | param p =>
    rw [Piece.attach, Draft.Edited.accepted_eq_ok_iff] at h
    obtain ⟨-, rfl⟩ := h
    exact start.setParam hchild p
  | wildcard =>
    rw [Piece.attach, Draft.Edited.accepted_eq_ok_iff] at h
    obtain ⟨-, rfl⟩ := h
    exact start.setWildcard hchild

namespace Route

theorem keyed_of_chain {handler : H} {label : String} {r : Route} {t : Tree H}
    (h : (chain handler label r).result = .ok t) : t.Keyed := by
  induction r generalizing label t with
  | nil =>
    obtain rfl := Except.ok.inj h
    exact (Draft.keyed_bare none).setHandler handler label
  | cons piece r ih =>
    obtain ⟨child, d, hchild, hd, rfl⟩ := chain_cons_eq_ok h
    exact Piece.keyed_of_attach (ih hchild) hd label

/-- **The tree of a single route is keyed**, whatever its pieces are. -/
theorem keyed_of_build {handler : H} {r : Route} {t : Tree H}
    (h : (build handler r).result = .ok t) : t.Keyed :=
  keyed_of_chain (chain_of_build h).2

theorem keyed_of_compose [Combine H] {entries : List (String × H)} {t : Tree H}
    (h : (compose entries).result = .ok t) : t.Keyed := by
  obtain ⟨routes, parsed, hmerge⟩ := compose_eq_ok_iff.mp h
  refine Tree.keyed_of_mergeAll hmerge fun s hs => ?_
  obtain ⟨r, mem, rfl⟩ := List.mem_map.mp hs
  obtain ⟨pattern, -, hparse⟩ := (mem_parseAll parsed r).mp mem
  have sound : r.1.Sound := (plain_of_parse hparse).sound
  exact keyed_of_build (result_build r.2 sound)

end Route

end Routing
