import Routing.Proofs.Keyed
import Routing.Proofs.Walk
import Routing.Table.Names

/-!
# Sessions

A session is what the callers of the library have at hand while they make trees: drafts, routes and
trees, each under a name. A `Call` takes what it needs from there. Its product is kept under a name
too, and can go into any later call. A call on a draft leaves a draft also when it is refused; any
other call that fails changes nothing. Nothing is used up, so that a session can do more than
callers who may use a thing once.

Whatever calls are made in whatever order, the drafts and trees at hand are keyed (`keyed_run`).

Main statement: `literals_of_run`.
-/

universe u

namespace Routing

/-- Calls of the library, with the names of what they take. -/
inductive Call (H : Type u) where
  | newDraft
  | setHandler (draft : String) (handler : H)
  | addLiteral (draft key child : String)
  | setParam (draft : String) (p : Param) (child : String)
  | setWildcard (draft child : String)
  | freeze (draft label : String)
  | emptyTree
  | buildPlan (plan : Plan H)
  | newRoute
  | extendRoute (route : String) (piece : Piece)
  | parseRoute (pattern : String)
  | buildRoute (route : String) (handler : H)
  | compose (entries : List (String × H))
  | merge (mine theirs : String)
  | mergeAll (trees : List String)
  /-- The position at an address, as a tree of its own. -/
  | position (tree : String) (a : List Edge)

/-- What a call gives. -/
inductive Product (H : Type u) where
  | draft (d : Draft H)
  | route (r : Route)
  | tree (t : Tree H)

/-- The product is keyed, if it is a draft or a tree. -/
def Product.Keyed {H : Type u} : Product H → Prop
  | .draft d => d.Keyed
  | .route _ => True
  | .tree t => t.Keyed

/-- What is at hand, by name. -/
structure Session (H : Type u) where
  drafts : Dict (Draft H) := []
  routes : Dict Route := []
  trees : Dict (Tree H) := []

namespace Session

variable {H : Type u}

def draft? (s : Session H) (name : String) : Option (Draft H) := Dict.find? name s.drafts

def route? (s : Session H) (name : String) : Option Route := Dict.find? name s.routes

def tree? (s : Session H) (name : String) : Option (Tree H) := Dict.find? name s.trees

/-- The product of a call, if everything that it takes is there and it gives one. Of the trees to be
merged, those that are there are taken. -/
def product? [Combine H] (s : Session H) : Call H → Option (Product H)
  | .newDraft => some (.draft .empty)
  | .setHandler draft handler => do
    let d ← s.draft? draft
    return .draft (d.setHandler handler)
  | .addLiteral draft key child => do
    let d ← s.draft? draft
    let t ← s.tree? child
    return .draft (d.addLiteral key t).draft
  | .setParam draft p child => do
    let d ← s.draft? draft
    let t ← s.tree? child
    return .draft (d.setParam p t).draft
  | .setWildcard draft child => do
    let d ← s.draft? draft
    let t ← s.tree? child
    return .draft (d.setWildcard t).draft
  | .freeze draft label => do
    let d ← s.draft? draft
    return .tree (d.freeze label)
  | .emptyTree => some (.tree .empty)
  | .buildPlan plan => do
    let t ← plan.build.result.toOption
    return .tree t
  | .newRoute => some (.route [])
  | .extendRoute route piece => (s.route? route).map fun r => .route (r ++ [piece])
  | .parseRoute pattern => (Route.parse pattern).toOption.map .route
  | .buildRoute route handler => (s.route? route).bind fun r =>
    (Route.build handler r).result.toOption.map .tree
  | .compose entries => do
    let t ← (Route.compose entries).result.toOption
    return .tree t
  | .merge mine theirs => do
    let m ← s.tree? mine
    let t ← s.tree? theirs
    return .tree (m.merge t)
  | .mergeAll trees => do
    let t ← (Tree.mergeAll (trees.filterMap s.tree?)).result.toOption
    return .tree t
  | .position tree a => do
    let t ← s.tree? tree
    let n ← t.at? a
    return .tree n

/-- Keeps a product under a name of its kind, in place of what was there. -/
def keep (s : Session H) (name : String) : Product H → Session H
  | .draft d => { s with drafts := Dict.insert name d s.drafts }
  | .route r => { s with routes := Dict.insert name r s.routes }
  | .tree t => { s with trees := Dict.insert name t s.trees }

/-- Makes a call and keeps its product, if there is one, under the name. -/
def step [Combine H] (s : Session H) (call : String × Call H) : Session H :=
  match s.product? call.2 with
  | some product => s.keep call.1 product
  | none => s

/-- Makes calls one after the other, with nothing at hand at first. -/
def run [Combine H] (calls : List (String × Call H)) : Session H := calls.foldl step {}

/-! ### Keyed sessions -/

/-- All drafts and trees at hand are keyed. -/
structure Keyed (s : Session H) : Prop where
  draft : ∀ name d, s.draft? name = some d → d.Keyed
  tree : ∀ name t, s.tree? name = some t → t.Keyed

theorem keyed_start : ({} : Session H).Keyed :=
  ⟨fun _ _ h => (by cases h), fun _ _ h => (by cases h)⟩

theorem eq_ok_of_toOption {ε : Type} {α : Type u} {x : Except ε α} {a : α}
    (h : x.toOption = some a) : x = .ok a := by
  cases x with
  | error e => cases h
  | ok b => rw [Option.some.inj h]

variable {s : Session H}

/-- A call on keyed things has a keyed product. -/
theorem Keyed.product [Combine H] (h : s.Keyed) {call : Call H} {x : Product H}
    (hx : s.product? call = some x) : x.Keyed := by
  cases call with
  | newDraft =>
    obtain rfl := Option.some.inj hx
    exact Draft.keyed_bare none
  | setHandler draft handler =>
    obtain ⟨d, hd, hx⟩ := Option.bind_eq_some_iff.mp hx
    obtain rfl := Option.some.inj hx
    exact (h.draft draft d hd).setHandler handler
  | addLiteral draft key child =>
    obtain ⟨d, hd, hx⟩ := Option.bind_eq_some_iff.mp hx
    obtain ⟨t, ht, hx⟩ := Option.bind_eq_some_iff.mp hx
    obtain rfl := Option.some.inj hx
    exact (h.draft draft d hd).addLiteral (h.tree child t ht) key
  | setParam draft p child =>
    obtain ⟨d, hd, hx⟩ := Option.bind_eq_some_iff.mp hx
    obtain ⟨t, ht, hx⟩ := Option.bind_eq_some_iff.mp hx
    obtain rfl := Option.some.inj hx
    exact (h.draft draft d hd).setParam (h.tree child t ht) p
  | setWildcard draft child =>
    obtain ⟨d, hd, hx⟩ := Option.bind_eq_some_iff.mp hx
    obtain ⟨t, ht, hx⟩ := Option.bind_eq_some_iff.mp hx
    obtain rfl := Option.some.inj hx
    exact (h.draft draft d hd).setWildcard (h.tree child t ht)
  | freeze draft label =>
    obtain ⟨d, hd, hx⟩ := Option.bind_eq_some_iff.mp hx
    obtain rfl := Option.some.inj hx
    exact h.draft draft d hd label
  | emptyTree =>
    obtain rfl := Option.some.inj hx
    exact Tree.keyed_empty
  | buildPlan plan =>
    obtain ⟨t, ht, hx⟩ := Option.bind_eq_some_iff.mp hx
    obtain rfl := Option.some.inj hx
    exact Plan.keyed_of_build (eq_ok_of_toOption ht)
  | newRoute =>
    obtain rfl := Option.some.inj hx
    trivial
  | extendRoute route piece =>
    obtain ⟨r, -, rfl⟩ := Option.map_eq_some_iff.mp hx
    trivial
  | parseRoute pattern =>
    obtain ⟨r, -, rfl⟩ := Option.map_eq_some_iff.mp hx
    trivial
  | buildRoute route handler =>
    obtain ⟨r, -, hx⟩ := Option.bind_eq_some_iff.mp hx
    obtain ⟨t, ht, rfl⟩ := Option.map_eq_some_iff.mp hx
    exact Route.keyed_of_build (eq_ok_of_toOption ht)
  | compose entries =>
    obtain ⟨t, ht, hx⟩ := Option.bind_eq_some_iff.mp hx
    obtain rfl := Option.some.inj hx
    exact Route.keyed_of_compose (eq_ok_of_toOption ht)
  | merge mine theirs =>
    obtain ⟨m, hm, hx⟩ := Option.bind_eq_some_iff.mp hx
    obtain ⟨t, ht, hx⟩ := Option.bind_eq_some_iff.mp hx
    obtain rfl := Option.some.inj hx
    exact (h.tree mine m hm).merge (h.tree theirs t ht)
  | mergeAll trees =>
    obtain ⟨t, ht, hx⟩ := Option.bind_eq_some_iff.mp hx
    obtain rfl := Option.some.inj hx
    refine Tree.keyed_of_mergeAll (eq_ok_of_toOption ht) fun n hn => ?_
    obtain ⟨name, -, hname⟩ := List.mem_filterMap.mp hn
    exact h.tree name n hname
  | position tree a =>
    obtain ⟨t, ht, hx⟩ := Option.bind_eq_some_iff.mp hx
    obtain ⟨n, hn, hx⟩ := Option.bind_eq_some_iff.mp hx
    obtain rfl := Option.some.inj hx
    exact (h.tree tree t ht).at? hn

theorem Keyed.keep (h : s.Keyed) (name : String) {x : Product H} (hx : x.Keyed) :
    (s.keep name x).Keyed := by
  cases x with
  | draft d =>
    refine ⟨fun other d' hd' => ?_, h.tree⟩
    rw [draft?, Session.keep, Dict.find?_insert] at hd'
    split_ifs at hd'
    · obtain rfl := Option.some.inj hd'
      exact hx
    · exact h.draft other d' hd'
  | route r => exact ⟨h.draft, h.tree⟩
  | tree t =>
    refine ⟨h.draft, fun other t' ht' => ?_⟩
    rw [tree?, Session.keep, Dict.find?_insert] at ht'
    split_ifs at ht'
    · obtain rfl := Option.some.inj ht'
      exact hx
    · exact h.tree other t' ht'

theorem Keyed.step [Combine H] (h : s.Keyed) (call : String × Call H) : (s.step call).Keyed := by
  unfold Session.step
  split
  · next x hx => exact h.keep call.1 (h.product hx)
  · exact h

theorem keyed_run [Combine H] (calls : List (String × Call H)) : (run calls).Keyed := by
  induction calls using List.reverseRecOn with
  | nil => exact keyed_start
  | append_singleton calls call ih =>
    have last : run (calls ++ [call]) = (run calls).step call := by
      rw [run, List.foldl_append]
      rfl
    rw [last]
    exact ih.step call

/-- **What literal edges stand for.** Take any tree that calls have given, whatever the calls were,
some of which may have failed. At every position its literal children are listed once each, by keys
in the order of their bytes, and a walk takes a literal edge only for a segment that is a key. The
edges taken belong to the first segments of the request, and the walk ends where they lead. -/
theorem literals_of_run [Combine H] (calls : List (String × Call H))
    {name : String} {t : Tree H} (ht : (run calls).tree? name = some t) :
    (∀ a n, t.at? a = some n → n.ListsLiterals) ∧
    ∀ request : List String,
      (∀ segment key, (segment, Edge.literal key) ∈ t.taken request →
        segment = key ∧ segment ≠ "" ∧ ∀ c ∈ segment.toList, KeyChar c) ∧
      (t.taken request).map Prod.fst <+: request ∧
      ∃ n, t.at? ((t.taken request).map Prod.snd) = some n ∧
        n.IsEndOf (Tree.walk request t .empty) := by
  have keyed : t.Keyed := (keyed_run calls).tree name t ht
  have lists : ∀ a n, t.at? a = some n → n.ListsLiterals := fun a n hn =>
    Tree.listsLiterals_of_keyed (keyed a n hn)
  refine ⟨lists, fun request => ⟨fun segment key h => ?_, Tree.isEndOf_walk request t .empty⟩⟩
  obtain ⟨same, a, n, hn, found⟩ := Tree.exists_literal_of_taken h
  have listed := lists a n hn
  have mem : segment ∈ n.literalChildren.keys := by
    rw [← listed.kept]
    exact Dict.isSome_find?_iff.mp found
  exact ⟨same, listed.key segment mem⟩

theorem literals_of_run_failing :
    let calls : List (String × Call Names) := [
      ("d", .newDraft), ("d", .setHandler "d" ⟨["files"]⟩), ("leaf", .freeze "d" "LEAF"),
      ("d", .newDraft), ("d", .addLiteral "d" "b" "leaf"), ("d", .setWildcard "d" "leaf"),
      -- no key, and a second wildcard
      ("d", .addLiteral "d" "a/b" "leaf"), ("d", .setWildcard "d" "leaf"),
      ("t", .freeze "d" Tree.rootLabel),
      ("r", .parseRoute "/b/:id:int"), ("r", .extendRoute "r" (.literal "x.y")),
      ("u", .buildRoute "r" ⟨["user"]⟩), ("v", .compose [("/~", ⟨["home"]⟩), ("/Z", ⟨["last"]⟩)]),
      ("p", .buildPlan (.mk [.literal "" (.mk []), .handler ⟨["plan"]⟩])),
      ("t", .mergeAll ["t", "u", "v", "p"]), ("n", .position "t" [.literal "b"]),
      ("t", .merge "n" "t")]
    (run calls).tree? "p" = none ∧ ∃ t, (run calls).tree? "t" = some t ∧
      t.literalChildren.keys = ["Z", "b", "~"] ∧ t.ListsLiterals ∧
      t.taken ["b", "7", "x.y"] =
        [("b", .literal "b"), ("7", .param), ("x.y", .literal "x.y")] ∧
      (∀ c ∈ "x.y".toList, KeyChar c) ∧ t.taken ["b", "x", "b"] = [("b", .literal "b")] ∧
      ∃ n, t.at? [.literal "b"] = some n ∧ n.IsEndOf (Tree.walk ["b", "x", "b"] t .empty) := by
  intro calls
  have failed : ((run calls).tree? "p").isNone := by decide +kernel
  have made : ((run calls).tree? "t").map (fun t =>
      (t.literals.keys, t.taken ["b", "7", "x.y"], t.taken ["b", "x", "b"])) =
    some (["Z", "b", "~"], [("b", .literal "b"), ("7", .param), ("x.y", .literal "x.y")],
      [("b", .literal "b")]) := by decide +kernel
  obtain ⟨t, ht, parts⟩ := Option.map_eq_some_iff.mp made
  simp only [Prod.mk.injEq] at parts
  obtain ⟨keys, whole, part⟩ := parts
  obtain ⟨lists, requests⟩ := literals_of_run calls ht
  obtain ⟨n, hn, ends⟩ := (requests ["b", "x", "b"]).2.2
  rw [part] at hn
  have literal : ("x.y", Edge.literal "x.y") ∈ t.taken ["b", "7", "x.y"] := by rw [whole]; simp
  have key := ((requests ["b", "7", "x.y"]).1 "x.y" "x.y" literal).2.2
  have root := lists [] t rfl
  rw [root.kept] at keys
  exact ⟨Option.isNone_iff_eq_none.mp failed, t, ht, keys, root, whole, key, part, n, hn, ends⟩

end Session

end Routing
