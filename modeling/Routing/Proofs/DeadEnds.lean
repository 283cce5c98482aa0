import Routing.Proofs.Listed
import Routing.Proofs.Resume
import Routing.Proofs.Walk
import Routing.Table.Names

/-!
# No dead ends

`FromRoutes` are the trees that single routes are merged into, in any grouping. Every leaf of such a
tree has a handler, and what lies behind a wildcard is a leaf (`NoDeadEnd`): a single route is a
chain with its handler at the end, and merging two positions keeps both, whatever lies below. As a
wildcard takes everything left, a walk that takes a wildcard edge arrives right behind it
(`arrives_of_taken_wildcard`), so that such a request is answered.

Main statement: `FromRoutes.no_dead_end`.
-/

universe u

namespace Routing

variable {H : Type u}

namespace Tree

/-! ### Leaves -/

theorem children_eq_nil_iff {t : Tree H} : t.children = [] ↔ ∀ e, t.child? e = none := by
  obtain ⟨label, handler, literals, param, wildcard⟩ := t
  constructor
  · intro h e
    obtain ⟨rfl, rfl, rfl⟩ : literals = [] ∧ param = none ∧ wildcard = none := by
      simpa [children] using h
    cases e <;> rfl
  · intro h
    obtain rfl : literals = [] := by
      cases literals with
      | nil => rfl
      | cons entry rest =>
        have found := h (.literal entry.1)
        rw [child?, literal?, literals_node, Dict.find?_cons, if_pos rfl] at found
        cases found
    obtain rfl : param = none := Option.map_eq_none_iff.mp (h .param)
    obtain rfl : wildcard = none := h .wildcard
    rfl

section Merge

variable [Combine H] {mine theirs : Tree H}

theorem children_merge_eq_nil_iff :
    (mine.merge theirs).children = [] ↔ mine.children = [] ∧ theirs.children = [] := by
  simp only [children_eq_nil_iff, child?_merge, Option.merge_eq_none_iff, forall_and]

theorem wildcard_merge (mine theirs : Tree H) :
    (mine.merge theirs).wildcard = mine.wildcard.merge merge theirs.wildcard :=
  child?_merge mine theirs .wildcard

theorem isSome_handler_merge :
    (mine.merge theirs).handler.isSome ↔ mine.handler.isSome ∨ theirs.handler.isSome := by
  rw [handler_merge, Option.isSome_merge, Bool.or_eq_true]

end Merge

/-! ### The invariant -/

/-- A leaf has a handler, and so has what lies behind a wildcard, which is a leaf. -/
structure NoDeadEnd (n : Tree H) : Prop where
  leaf : n.children = [] → n.handler.isSome
  wildcard : ∀ w, n.wildcard = some w → w.handler.isSome ∧ w.children = []

theorem NoDeadEnd.merge [Combine H] {mine theirs : Tree H} (hm : mine.NoDeadEnd)
    (hs : theirs.NoDeadEnd) : (mine.merge theirs).NoDeadEnd where
  leaf := by
    intro bare
    exact isSome_handler_merge.mpr (.inl (hm.leaf (children_merge_eq_nil_iff.mp bare).1))
  wildcard := by
    intro w hw
    rw [wildcard_merge] at hw
    refine forall_merge (fun m s hm hs => ?_) hm.wildcard hs.wildcard w hw
    exact ⟨isSome_handler_merge.mpr (.inl hm.1), children_merge_eq_nil_iff.mpr ⟨hm.2, hs.2⟩⟩

end Tree

theorem Route.everywhere_noDeadEnd_spine (handler : H) (label : String) {r : Route}
    (h : r.Sound) : (spine handler label r).Everywhere Tree.NoDeadEnd := by
  induction r generalizing label with
  | nil =>
    exact everywhere_spine_nil_iff.mpr ⟨fun _ => rfl, nofun⟩
  | cons piece rest ih =>
    obtain ⟨-, last, hrest⟩ := sound_cons_iff.mp h
    refine everywhere_spine_cons_iff.mpr ⟨⟨fun bare => ?_, fun w hw => ?_⟩, ih _ hrest⟩
    · have none := Tree.children_eq_nil_iff.mp bare piece.edge
      rw [spine, Piece.child?_wrap, if_pos rfl] at none
      cases none
    · change (spine handler label (piece :: rest)).child? .wildcard = some w at hw
      rw [spine, Piece.child?_wrap] at hw
      split_ifs at hw with isWildcard
      -- nothing but the end of the route lies behind its wildcard
      obtain rfl := last (Piece.edge_eq_wildcard_iff.mp isWildcard.symm)
      obtain rfl := Option.some.inj hw
      exact ⟨rfl, rfl⟩

/-- The trees of single routes, merged in any grouping. -/
inductive FromRoutes [Combine H] : Tree H → Prop where
  | route {handler : H} {r : Route} {t : Tree H} (built : (Route.build handler r).result = .ok t) :
    FromRoutes t
  | merge {mine theirs : Tree H} (left : FromRoutes mine) (right : FromRoutes theirs) :
    FromRoutes (mine.merge theirs)
  | mergeAll {ts : List (Tree H)} {t : Tree H} (parts : ∀ s ∈ ts, FromRoutes s)
    (merged : (Tree.mergeAll ts).result = .ok t) : FromRoutes t
  | compose {entries : List (String × H)} {t : Tree H}
    (composed : (Route.compose entries).result = .ok t) : FromRoutes t

theorem FromRoutes.everywhere [Combine H] {t : Tree H} (h : FromRoutes t) :
    t.Everywhere Tree.NoDeadEnd := by
  have step (mine theirs : Tree H) (hm : mine.NoDeadEnd) (hs : theirs.NoDeadEnd) :
      (mine.merge theirs).NoDeadEnd := hm.merge hs
  induction h with
  | @route handler r t built =>
    have sound := Route.sound_of_build built
    obtain rfl := Except.ok.inj ((Route.result_build handler sound).symm.trans built)
    exact Route.everywhere_noDeadEnd_spine handler Tree.rootLabel sound
  | merge _ _ left right => exact left.merge step right
  | mergeAll _ merged parts => exact Tree.everywhere_of_mergeAll step merged parts
  | @compose entries t composed =>
    obtain ⟨routes, parsed, merged⟩ := Route.compose_eq_ok_iff.mp composed
    refine Tree.everywhere_of_mergeAll step merged fun s hs => ?_
    obtain ⟨r, hr, rfl⟩ := List.mem_map.mp hs
    obtain ⟨pattern, -, hp⟩ := (Route.mem_parseAll parsed r).mp hr
    exact Route.everywhere_noDeadEnd_spine r.2 Tree.rootLabel (Route.plain_of_parse hp).sound

/-! ### Walks behind a wildcard -/

/-- A walk that takes a wildcard edge arrives right behind it, and has captured the segments from
the one that took it. -/
theorem Tree.arrives_of_taken_wildcard {request : List String} {t : Tree H} {segment : String}
    (h : (segment, Edge.wildcard) ∈ taken request t) (seen : Captures) :
    ∃ a n w found rest, t.at? a = some n ∧ n.wildcard = some w ∧ segment :: rest <:+ request ∧
      walk request t seen = .arrived w found ∧
      found.wildcard = seen.wildcard ++ segment :: rest := by
  induction request generalizing t seen with
  | nil => cases h
  | cons next later ih =>
    have below : ∀ e child, t.child? e = some child → (segment, Edge.wildcard) ∈ taken later child →
        ∀ seen' : Captures, seen'.wildcard = seen.wildcard →
        ∃ a n w found rest, t.at? a = some n ∧ n.wildcard = some w ∧
          segment :: rest <:+ next :: later ∧ walk later child seen' = .arrived w found ∧
          found.wildcard = seen.wildcard ++ segment :: rest := by
      intro e child hc h seen' same
      obtain ⟨a, n, w, found, rest, hn, hw, suffix, arrives, captured⟩ := ih h seen'
      exact ⟨e :: a, n, w, found, rest, (at?_cons_of_child hc a).trans hn, hw,
        suffix.trans (List.suffix_cons ..), arrives, same ▸ captured⟩
    rw [walk]
    rcases mem_taken_cons h with ⟨child, hl, heq | h⟩ | ⟨p, child, hl, hp, accepted, heq | h⟩ |
      ⟨child, hl, hp, hw, heq⟩
    · cases heq
    · rw [hl]
      exact below (.literal next) child hl h seen rfl
    · cases heq
    · obtain ⟨v, hv⟩ := Option.isSome_iff_exists.mp accepted
      have read := Captures.read?_of_some hv seen
      have behind : t.child? .param = some child := by rw [child?, hp]; rfl
      rw [hl, hp]
      dsimp only
      rw [read]
      exact below .param child behind h _ (Captures.wildcard_read? read)
    · obtain rfl := (Prod.mk.inj heq).1
      rw [hl, hp, hw]
      exact ⟨[], t, child, _, later, rfl, hw, List.suffix_refl _, rfl, rfl⟩

/-- **No dead ends.** In a tree that single routes are merged into, in any grouping, every position
has a handler or a child, every leaf has a handler, and behind a wildcard there is a leaf. A request
whose walk takes a wildcard edge is answered; what it captures there are its segments from the one
that took the edge to the last. -/
theorem FromRoutes.no_dead_end [Combine H] {t : Tree H} (h : FromRoutes t) :
    (∀ a n, t.at? a = some n → (n.handler.isSome ∨ n.children ≠ []) ∧
      (n.children = [] → n.handler.isSome) ∧
      ∀ w, n.wildcard = some w → w.handler.isSome ∧ w.children = []) ∧
    ∀ request segment, (segment, Edge.wildcard) ∈ t.taken request →
      ∃ hit rest, t.hit? request = some hit ∧ hit.segments = request ∧
        hit.captures.wildcard = segment :: rest ∧ segment :: rest <:+ request := by
  have everywhere := h.everywhere
  refine ⟨fun a n hn => ?_, fun request segment hs => ?_⟩
  · obtain ⟨leaf, wildcard⟩ := everywhere a n hn
    exact ⟨Classical.or_iff_not_imp_right.mpr fun bare => leaf (not_not.mp bare), leaf, wildcard⟩
  · obtain ⟨a, n, w, found, rest, hn, hw, suffix, arrives, captured⟩ :=
      Tree.arrives_of_taken_wildcard hs .empty
    obtain ⟨handler, hh⟩ := Option.isSome_iff_exists.mp ((everywhere a n hn).wildcard w hw).1
    refine ⟨⟨handler, request, found⟩, rest, ?_, rfl, captured, suffix⟩
    rw [Tree.hit?, Tree.resolve, arrives, Outcome.arrival?, Option.bind_some]
    exact congrArg (Option.map _) hh

theorem FromRoutes.no_dead_end_grouped :
    let files : Tree Names := Route.spine ⟨["files"]⟩ Tree.rootLabel [.literal "a", .wildcard]
    let root : Tree Names := Route.spine ⟨["root"]⟩ Tree.rootLabel []
    let x : Tree Names := Route.spine ⟨["x"]⟩ Tree.rootLabel [.literal "a", .literal "x"]
    let t := x.merge (files.merge root)
    FromRoutes t ∧ ("b", Edge.wildcard) ∈ t.taken ["a", "b", "c"] ∧
      ∃ hit rest, t.hit? ["a", "b", "c"] = some hit ∧ hit.captures.wildcard = "b" :: rest ∧
        "b" :: rest <:+ ["a", "b", "c"] := by
  intro files root x t
  have builtFiles : (Route.build ⟨["files"]⟩ [.literal "a", .wildcard]).result = .ok files := rfl
  have builtRoot : (Route.build ⟨["root"]⟩ []).result = .ok root := rfl
  have builtX : (Route.build ⟨["x"]⟩ [.literal "a", .literal "x"]).result = .ok x := rfl
  have built : FromRoutes t :=
    .merge (.route builtX) (.merge (.route builtFiles) (.route builtRoot))
  have steps : t.taken ["a", "b", "c"] = [("a", .literal "a"), ("b", .wildcard)] := rfl
  have takes : ("b", Edge.wildcard) ∈ t.taken ["a", "b", "c"] := by simp [steps]
  obtain ⟨hit, rest, answered, -, captured, suffix⟩ := built.no_dead_end.2 _ _ takes
  exact ⟨built, takes, hit, rest, answered, captured, suffix⟩

end Routing
