import Routing.Proofs.Spine
import Routing.Route.Compose

/-!
# Composed trees by address

Composing patterns is parsing all of them and merging the spines of the routes (`result_compose`).
The tree then holds, at every address, what the list of routes has there: a position if a route goes
through the address, the handlers of the routes that end there, combined from the left, and the
parameter of the last route that has one next. `Composed` collects the three laws; everything about
composed trees is proved from them.
-/

universe u

namespace Routing

namespace Route

variable {H : Type u}

/-- The parsed routes of a list of patterns, or the fault of the first that is wrong. -/
def parseAll : List (String × H) → Except Fault (List (Route × H))
  | [] => .ok []
  | (pattern, handler) :: rest =>
    match parse pattern with
    | .error fault => .error fault
    | .ok r => (parseAll rest).map ((r, handler) :: ·)

/-- The tree of a single route. -/
def tree (r : Route × H) : Tree H := spine r.2 Tree.rootLabel r.1

theorem parseAll_cons_eq_ok {pattern : String} {handler : H} {rest : List (String × H)}
    {routes : List (Route × H)} (h : parseAll ((pattern, handler) :: rest) = .ok routes) :
    ∃ r others, parse pattern = .ok r ∧ parseAll rest = .ok others ∧
      routes = (r, handler) :: others := by
  rw [parseAll] at h
  cases hp : parse pattern with
  | error fault => rw [hp] at h; cases h
  | ok r =>
    rw [hp] at h
    cases hr : parseAll rest with
    | error fault => rw [hr] at h; cases h
    | ok others =>
      rw [hr] at h
      exact ⟨r, others, rfl, rfl, (Except.ok.inj h).symm⟩

theorem mem_parseAll {entries : List (String × H)} {routes : List (Route × H)}
    (h : parseAll entries = .ok routes) (r : Route × H) :
    r ∈ routes ↔ ∃ pattern, (pattern, r.2) ∈ entries ∧ parse pattern = .ok r.1 := by
  induction entries generalizing routes with
  | nil => obtain rfl : [] = routes := Except.ok.inj h; simp
  | cons entry rest ih =>
    obtain ⟨pattern, handler⟩ := entry
    obtain ⟨r', others, hp, hr, rfl⟩ := parseAll_cons_eq_ok h
    rw [List.mem_cons, ih hr]
    constructor
    · rintro (rfl | ⟨p, hmem, hparse⟩)
      · exact ⟨pattern, List.mem_cons_self .., hp⟩
      · exact ⟨p, List.mem_cons_of_mem _ hmem, hparse⟩
    · rintro ⟨p, hmem, hparse⟩
      rcases List.mem_cons.mp hmem with heq | hmem
      · obtain ⟨rfl, rfl⟩ := Prod.mk.inj heq
        obtain rfl : r.1 = r' := Except.ok.inj (hparse.symm.trans hp)
        exact .inl rfl
      · exact .inr ⟨p, hmem, hparse⟩

/-- Where all patterns parse, each does. -/
theorem parse_of_parseAll {entries : List (String × H)} {routes : List (Route × H)}
    (h : parseAll entries = .ok routes) {pattern : String} {handler : H}
    (he : (pattern, handler) ∈ entries) : ∃ r, parse pattern = .ok r := by
  induction entries generalizing routes with
  | nil => simp at he
  | cons first rest ih =>
    obtain ⟨r, others, hp, hr, -⟩ := parseAll_cons_eq_ok h
    rcases List.mem_cons.mp he with rfl | he
    · exact ⟨r, hp⟩
    · exact ih hr he

theorem ne_nil_of_parseAll {entries : List (String × H)} {routes : List (Route × H)}
    (h : parseAll entries = .ok routes) : routes ≠ [] ↔ entries ≠ [] := by
  cases entries with
  | nil => obtain rfl : [] = routes := Except.ok.inj h; simp
  | cons entry rest => obtain ⟨_, _, -, -, rfl⟩ := parseAll_cons_eq_ok h; simp

/-- A pattern that parses is built. -/
theorem result_buildPattern (pattern : String) (handler : H) :
    (buildPattern pattern handler).result =
      (parse pattern).map fun r => tree (r, handler) := by
  unfold buildPattern
  cases h : parse pattern with
  | error fault => rfl
  | ok r => exact result_build handler (plain_of_parse h).sound

theorem result_buildPatterns (entries : List (String × H)) :
    (buildPatterns entries).result = (parseAll entries).map (List.map tree) := by
  induction entries with
  | nil => rfl
  | cons entry rest ih =>
    obtain ⟨pattern, handler⟩ := entry
    rw [buildPatterns, Logged.result_bind, result_buildPattern, parseAll]
    cases parse pattern with
    | error fault => rfl
    | ok r =>
      simp only [Except.map, Except.bind, Logged.result_bind, ih]
      cases parseAll rest <;> rfl

/-- **Composing is parsing and merging**; nothing can go wrong in between. -/
theorem result_compose [Combine H] (entries : List (String × H)) :
    (compose entries).result =
      (parseAll entries).bind fun routes => (Tree.mergeAll (routes.map tree)).result := by
  rw [compose, Logged.result_bind, result_buildPatterns]
  cases parseAll entries <;> rfl

theorem compose_eq_ok_iff [Combine H] {entries : List (String × H)} {t : Tree H} :
    (compose entries).result = .ok t ↔
      ∃ routes, parseAll entries = .ok routes ∧
        (Tree.mergeAll (routes.map tree)).result = .ok t := by
  rw [result_compose]
  cases parseAll entries with
  | error fault => simp [Except.bind]
  | ok routes => simp [Except.bind]

/-! ### Routes by address -/

/-- The routes that go through an address. -/
def through (a : List Edge) (routes : List (Route × H)) : List (Route × H) :=
  routes.filter fun r => a <+: r.1.address

/-- The handlers of the routes that end at an address. -/
def endingAt (a : List Edge) (routes : List (Route × H)) : List H :=
  (routes.filter fun r => r.1.address = a).map Prod.snd

theorem mem_endingAt {a : List Edge} {routes : List (Route × H)} {h : H} :
    h ∈ endingAt a routes ↔ ∃ r ∈ routes, r.1.address = a ∧ r.2 = h := by
  simp only [endingAt, List.mem_map, List.mem_filter, decide_eq_true_eq, and_assoc]

/-- The parameters that routes have at a position, in their order. -/
def paramsAt (i : Nat) (routes : List (Route × H)) : List Param :=
  routes.filterMap fun r => r.1[i]?.bind Piece.param?

/-- The trees of routes hold at an address the handlers of the routes that end there. -/
theorem filterMap_handlerAt? (a : List Edge) (routes : List (Route × H)) :
    (routes.map tree).filterMap (fun t => t.handlerAt? a) = endingAt a routes := by
  have one : ((fun t : Tree H => t.handlerAt? a) ∘ tree) =
      fun r : Route × H => if r.1.address = a then some r.2 else none := by
    funext r
    exact handlerAt?_spine r.2 Tree.rootLabel r.1 a
  rw [List.filterMap_map, one, endingAt, ← List.filterMap_eq_map, List.filterMap_filter]
  simp

/-- They hold the parameters of the routes that go through it. -/
theorem filterMap_descriptorAt? (a : List Edge) (routes : List (Route × H)) :
    (routes.map tree).filterMap (fun t => t.descriptorAt? a) =
      paramsAt a.length (through a routes) := by
  have one : ((fun t : Tree H => t.descriptorAt? a) ∘ tree) =
      fun r : Route × H =>
        if a <+: r.1.address then r.1[a.length]?.bind Piece.param? else none := by
    funext r
    exact descriptorAt?_spine r.2 Tree.rootLabel r.1 a
  rw [List.filterMap_map, one, paramsAt, through, List.filterMap_filter]
  simp

end Route

variable {H : Type u} [Combine H]

/-- At every address a tree holds what the routes have there. -/
structure Composed (routes : List (Route × H)) (t : Tree H) : Prop where
  position : ∀ a, (t.at? a).isSome ↔ ∃ r ∈ routes, a <+: r.1.address
  handler : ∀ a, t.handlerAt? a = leftFold? Combine.combine (Route.endingAt a routes)
  descriptor : ∀ a,
    t.descriptorAt? a = (Route.paramsAt a.length (Route.through a routes)).getLast?

/-- The spines of routes merge into a tree that holds what the routes have. -/
theorem composed_mergeAll {routes : List (Route × H)} (h : routes ≠ []) :
    ∃ t, (Tree.mergeAll (routes.map Route.tree)).result = .ok t ∧ Composed routes t := by
  obtain ⟨first, rest, rfl⟩ := List.exists_cons_of_ne_nil h
  refine ⟨_, Tree.result_mergeAll_cons .., ?_, ?_, ?_⟩
  · intro a
    rw [Tree.isSome_at?_foldl_merge, ← List.map_cons]
    simp only [List.mem_map, exists_exists_and_eq_and, Route.tree, Route.isSome_at?_spine]
  · intro a
    rw [Tree.handlerAt?_foldl_merge, ← List.map_cons, Route.filterMap_handlerAt?]
  · intro a
    rw [Tree.descriptorAt?_foldl_merge, ← List.map_cons, Route.filterMap_descriptorAt?]

/-- A list of patterns that is composed has been parsed, and its tree holds what the routes have. -/
theorem composed_of_compose {entries : List (String × H)} {t : Tree H}
    (h : (Route.compose entries).result = .ok t) :
    ∃ routes, Route.parseAll entries = .ok routes ∧ Composed routes t := by
  obtain ⟨routes, parsed, hmerge⟩ := Route.compose_eq_ok_iff.mp h
  have nonempty : routes ≠ [] := List.map_eq_nil_iff.not.mp (Tree.ne_nil_of_mergeAll hmerge)
  obtain ⟨t', ht', composed⟩ := composed_mergeAll nonempty
  obtain rfl : t' = t := Except.ok.inj (ht'.symm.trans hmerge)
  exact ⟨routes, parsed, composed⟩

end Routing
