import Mathlib.Data.List.Perm.Basic
import Routing.Proofs.Composed
import Routing.Proofs.Preorder
import Routing.Table.Entry

/-!
# Entries listed by a tree

The rows of an ordered tree show its positions, each once. The routes of a composed tree end at
positions of it, so that the routes sorted by where they end are the routes again
(`Composed.endingAt_perm`): a table's entries are all listed, and listed once.

Main statement: `Table.build_lists_entries`.
-/

universe u v

namespace Routing

/-- Members collected by different keys, where the keys of all members are among these, are the
members again. -/
theorem flatMap_filter_perm {α : Type u} {κ : Type v} [DecidableEq κ] (key : α → κ) {keys : List κ}
    (different : keys.Nodup) {xs : List α} (complete : ∀ x ∈ xs, key x ∈ keys) :
    (keys.flatMap fun k => xs.filter fun x => key x = k).Perm xs := by
  induction keys generalizing xs with
  | nil =>
    cases xs with
    | nil => exact .nil
    | cons x xs => exact absurd (complete x (List.mem_cons_self ..)) List.not_mem_nil
  | cons k keys ih =>
    obtain ⟨fresh, different⟩ := List.nodup_cons.mp different
    -- the other keys collect the same members after those with the first key are taken out
    have others : (keys.flatMap fun k' => xs.filter fun x => key x = k') =
        keys.flatMap fun k' => (xs.filter fun x => !(key x = k)).filter fun x => key x = k' := by
      refine List.flatMap_congr fun k' hk' => ?_
      rw [List.filter_filter]
      refine List.filter_congr fun x _ => ?_
      have hne : k' ≠ k := fun h => fresh (h ▸ hk')
      by_cases hx : key x = k' <;> simp [hx, hne]
    rw [List.flatMap_cons, others]
    refine .trans (.append_left _ (ih different fun x hx => ?_)) (List.filter_append_perm ..)
    obtain ⟨hx, hk⟩ := List.mem_filter.mp hx
    exact (List.mem_cons.mp (complete x hx)).resolve_left (by simpa using hk)

/-! ### Routes by where they end -/

namespace Route

variable {H : Type u}

/-- The address that a pattern leads to. -/
def addressOf? (pattern : String) : Option (List Edge) := (parse pattern).toOption.map address

theorem addressOf?_eq {pattern : String} {r : Route} (h : parse pattern = .ok r) :
    addressOf? pattern = some r.address := by
  rw [addressOf?, h]
  rfl

theorem map_snd_parseAll {entries : List (String × H)} {routes : List (Route × H)}
    (h : parseAll entries = .ok routes) : routes.map Prod.snd = entries.map Prod.snd := by
  induction entries generalizing routes with
  | nil =>
    obtain rfl : [] = routes := Except.ok.inj h
    rfl
  | cons entry rest ih =>
    obtain ⟨r, others, -, hr, rfl⟩ := parseAll_cons_eq_ok h
    rw [List.map_cons, List.map_cons, ih hr]

/-- The routes that end at an address are those of the patterns that lead there, in their order. -/
theorem endingAt_parseAll {entries : List (String × H)} {routes : List (Route × H)}
    (h : parseAll entries = .ok routes) (a : List Edge) :
    endingAt a routes = (entries.filter fun entry => addressOf? entry.1 = some a).map Prod.snd := by
  induction entries generalizing routes with
  | nil =>
    obtain rfl : [] = routes := Except.ok.inj h
    rfl
  | cons entry rest ih =>
    obtain ⟨pattern, handler⟩ := entry
    obtain ⟨r, others, hp, hr, rfl⟩ := parseAll_cons_eq_ok h
    have later := ih hr
    rw [endingAt] at later ⊢
    by_cases here : r.address = a <;> simp [addressOf?_eq hp, here, later]

end Route

namespace Composed

variable {H : Type u} [Combine H] {routes : List (Route × H)} {t : Tree H}

/-- Sorted by the positions where they end, the routes of a tree are all there, each once. -/
theorem endingAt_perm (law : Composed routes t) (ordered : t.Ordered) :
    (t.nodes.flatMap fun x => Route.endingAt x.1 routes).Perm (routes.map Prod.snd) := by
  have complete : ∀ r ∈ routes, r.1.address ∈ t.nodes.map Prod.fst := by
    intro r hr
    exact ordered.mem_map_nodes.mpr ((law.position _).mpr ⟨r, hr, List.prefix_refl _⟩)
  have sorted := (flatMap_filter_perm (fun r : Route × H => r.1.address) ordered.nodup_nodes
    complete).map Prod.snd
  rwa [List.map_flatMap, List.flatMap_map] at sorted

end Composed

/-! ### Tables -/

/-- The names that a handler lists. -/
def Names.listed : Option Names → List String
  | none => []
  | some names => names.list

theorem Names.listed_leftFold? (bs : List Names) :
    listed (leftFold? Combine.combine bs) = bs.flatMap list := by
  induction bs using List.reverseRecOn with
  | nil => rfl
  | append_singleton bs b ih =>
    rw [leftFold?_concat, List.flatMap_append, List.flatMap_singleton, ← ih]
    cases leftFold? Combine.combine bs <;> rfl

namespace Table

/-- The names of the entries whose patterns lead to an address, in the order of the table. -/
def namesAt (a : List Edge) (entries : List Entry) : List String :=
  (entries.filter fun e => Route.addressOf? e.pattern = some a).map Entry.name

section Composed

variable {entries : List Entry} {routes : List (Route × Names)} {t : Tree Names}
  (law : Composed routes t)
  (parsed : Route.parseAll (entries.map fun e => (e.pattern, (⟨[e.name]⟩ : Names))) = .ok routes)
include law parsed

theorem listed_handlerAt? (a : List Edge) : Names.listed (t.handlerAt? a) = namesAt a entries := by
  rw [law.handler, Names.listed_leftFold?, Route.endingAt_parseAll parsed, namesAt,
    List.filter_map, List.map_map, List.flatMap_map, ← List.flatMap_pure_eq_map]
  rfl

theorem isSome_handlerAt?_iff {a : List Edge} :
    (t.handlerAt? a).isSome ↔ ∃ e ∈ entries, Route.addressOf? e.pattern = some a := by
  rw [law.handler, Option.isSome_iff_ne_none, Ne, leftFold?_eq_none_iff,
    Route.endingAt_parseAll parsed]
  simp

/-- The names that the rows list are the names of the table in some order. -/
theorem rows_perm (ordered : t.Ordered) :
    (t.rows.flatMap fun row => Names.listed row.handler).Perm (entries.map Entry.name) := by
  have byRoute : (t.rows.flatMap fun row => Names.listed row.handler) =
      (t.nodes.flatMap fun x => Route.endingAt x.1 routes).flatMap Names.list := by
    rw [← List.flatMap_map Row.handler, ordered.map_handler_rows, List.flatMap_map,
      List.flatMap_map, List.flatMap_assoc]
    refine List.flatMap_congr fun x _ => ?_
    rw [law.handler, Names.listed_leftFold?]
  have byEntry : (routes.map Prod.snd).flatMap Names.list = entries.map Entry.name := by
    rw [Route.map_snd_parseAll parsed, List.map_map, List.flatMap_map,
      ← List.flatMap_pure_eq_map]
    rfl
  rw [byRoute, ← byEntry]
  exact (law.endingAt_perm ordered).flatMap_right Names.list

end Composed

/-- **Every entry is listed once.** In a table that is built every entry leads to an address. A
position of the tree has a handler exactly if an entry leads there; it lists the names of all these
entries in the order of the table. The rows of the tree show every position once, so that the names
they list, all together, are the names of the table in some order. -/
theorem build_lists_entries {entries : List Entry} {t : Tree Names}
    (built : (build entries).result = .ok t) :
    (∀ e ∈ entries, ∃ a, Route.addressOf? e.pattern = some a) ∧
      (∀ a, ((t.handlerAt? a).isSome ↔ ∃ e ∈ entries, Route.addressOf? e.pattern = some a) ∧
        ∀ names, t.handlerAt? a = some names → names.list = namesAt a entries) ∧
      (∃ addresses : List (List Edge), addresses.Nodup ∧
        (∀ a, a ∈ addresses ↔ (t.at? a).isSome) ∧
        t.rows.map Row.handler = addresses.map t.handlerAt?) ∧
      (t.rows.flatMap fun row => Names.listed row.handler).Perm (entries.map Entry.name) := by
  obtain ⟨routes, parsed, law⟩ := composed_of_compose (build_eq_ok_iff.mp built)
  have ordered := Route.ordered_of_compose (build_eq_ok_iff.mp built)
  refine ⟨fun e he => ?_, fun a => ⟨isSome_handlerAt?_iff law parsed, fun names ha => ?_⟩, ?_, ?_⟩
  · obtain ⟨r, hr⟩ := Route.parse_of_parseAll parsed (List.mem_map_of_mem he)
    exact ⟨_, Route.addressOf?_eq hr⟩
  · rw [← listed_handlerAt? law parsed, ha, Names.listed]
  · exact ⟨_, ordered.nodup_nodes, fun a => ordered.mem_map_nodes, ordered.map_handler_rows⟩
  · exact rows_perm law parsed ordered

theorem build_lists_entries_shared :
    ∃ t, (build [⟨"/users/:id:int", "user"⟩, ⟨"a/*", "rest"⟩, ⟨"users/:name/", "named"⟩,
        ⟨"a/b", "b"⟩, ⟨"/users/:id:int", "user"⟩]).result = .ok t ∧
      t.handlerAt? [.literal "users", .param] = some ⟨["user", "named", "user"]⟩ ∧
      (t.rows.flatMap fun row => Names.listed row.handler).Perm
        ["user", "rest", "named", "b", "user"] := by
  obtain ⟨t, built⟩ : ∃ t, (build [⟨"/users/:id:int", "user"⟩, ⟨"a/*", "rest"⟩,
    ⟨"users/:name/", "named"⟩, ⟨"a/b", "b"⟩, ⟨"/users/:id:int", "user"⟩]).result = .ok t := ⟨_, rfl⟩
  obtain ⟨-, handlers, -, perm⟩ := build_lists_entries built
  obtain ⟨present, names⟩ := handlers [.literal "users", .param]
  obtain ⟨⟨list⟩, ha⟩ := Option.isSome_iff_exists.mp
    (present.mpr ⟨⟨"/users/:id:int", "user"⟩, by simp, rfl⟩)
  obtain rfl : list = ["user", "named", "user"] := names _ ha
  exact ⟨t, built, ha, perm⟩

end Table

end Routing
