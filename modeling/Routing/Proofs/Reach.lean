import Mathlib.Data.List.Nodup
import Routing.Proofs.Composed
import Routing.Proofs.Decimal
import Routing.Proofs.Path
import Routing.Proofs.Shadow
import Routing.Table.Entry
import Routing.Table.Report

/-!
# Reachable routes

A composed tree has a filler: zeros, more of them than any key of the routes is long. So the routes
that are ever answered are the unshadowed ones, and a sound route is shadowed by nothing but a
parameter in the place of its final wildcard (`Sound.unshadowed_iff`).

Main statement: `Table.reported_iff_unshadowed`.
-/

universe u

namespace Routing

/-! ### Zeros -/

theorem Text.all_zeros {p : Char → Bool} (h : p '0' = true) (n : Nat) :
    (List.replicate n '0').all p = true := by
  refine List.all_eq_true.mpr fun c hc => ?_
  rwa [List.eq_of_mem_replicate hc]

theorem Text.readInt64?_zeros (n : Nat) :
    readInt64? (String.ofList (List.replicate (n + 1) '0')) = some 0 := by
  have numeral : IsNumeral (String.ofList (List.replicate (n + 1) '0')) := by
    rw [isNumeral_iff, String.toList_ofList]
    exact ⟨by simp, all_zeros rfl (n + 1)⟩
  have value : placeValue (List.replicate (n + 1) '0') = 0 := by
    rw [← List.append_nil (List.replicate ..), placeValue_zeros_append]
    rfl
  have writes := Writes.unsigned numeral
  rw [String.toList_ofList, value] at writes
  exact readInt64?_eq_some_iff.mpr ⟨0, writes, inRange_toInt 0, rfl⟩

/-- Zeros, more of them than all keys together have characters. -/
def zeros (keys : List String) : String :=
  String.ofList (List.replicate ((keys.map String.toList).flatten.length + 1) '0')

theorem zeros_notMem (keys : List String) : zeros keys ∉ keys := by
  intro h
  have part : (zeros keys).toList.Sublist (keys.map String.toList).flatten :=
    List.sublist_flatten_of_mem (List.mem_map_of_mem h)
  have hle := part.length_le
  rw [zeros, String.toList_ofList, List.length_replicate] at hle
  omega

theorem isKey_zeros (keys : List String) : isKey (zeros keys) = true := by
  rw [isKey, zeros, String.toList_ofList, Text.all_zeros rfl, List.replicate_succ]
  rfl

/-! ### Addresses of routes -/

/-- The key of an edge, if it is a literal one. -/
def Edge.key? : Edge → Option String
  | .literal key => some key
  | .param | .wildcard => none

namespace Route

/-- The literal keys of all routes of a list. -/
def keys {H : Type u} (routes : List (Route × H)) : List String :=
  routes.flatMap fun r => r.1.address.filterMap Edge.key?

theorem mem_keys {H : Type u} {routes : List (Route × H)} {r : Route × H} (hr : r ∈ routes)
    {key : String} (h : Edge.literal key ∈ r.1.address) : key ∈ keys routes :=
  List.mem_flatMap.mpr ⟨r, hr, List.mem_filterMap.mpr ⟨_, h, rfl⟩⟩

/-- A sound route is shadowed by nothing but a parameter in the place of its final wildcard. -/
theorem Sound.unshadowed_iff {H : Type u} {r : Route} (h : r.Sound) (t : Tree H) :
    t.Unshadowed r.address ↔
      (r.getLast? = some .wildcard → t.at? (address r.dropLast ++ [.param]) = none) := by
  constructor
  · intro clear hlast
    refine (clear _ [] ?_).2
    have hr := List.dropLast_append_getLast? _ hlast
    calc r.address = address (r.dropLast ++ [.wildcard]) := by rw [hr]
      _ = address r.dropLast ++ [.wildcard] := address_append ..
  · intro beside before after ha
    obtain ⟨front, back, rfl, rfl, hback⟩ := List.map_eq_append_iff.mp ha
    obtain ⟨piece, rest, rfl, hpiece, rfl⟩ := List.map_eq_cons_iff.mp hback
    obtain rfl : piece = .wildcard := Piece.edge_eq_wildcard_iff.mp hpiece
    obtain rfl : rest = [] := h.nil_of_wildcard
    refine ⟨rfl, ?_⟩
    have none_beside := beside List.getLast?_concat
    rwa [List.dropLast_concat] at none_beside

end Route

/-! ### Composed trees -/

namespace Composed

variable {H : Type u} [Combine H] {routes : List (Route × H)} {t : Tree H}

/-- Some key fills every tree composed of parsed routes. -/
theorem exists_filler (law : Composed routes t) (plain : ∀ r ∈ routes, r.1.Plain) :
    ∃ s, isKey s = true ∧ t.Filler s := by
  refine ⟨zeros (Route.keys routes), isKey_zeros _, ?_, ?_⟩
  · intro a
    rw [← Option.not_isSome_iff_eq_none, law.position]
    rintro ⟨r, hr, hpre⟩
    have onRoute := hpre.subset (List.mem_append_right a (List.mem_cons_self ..))
    exact zeros_notMem _ (Route.mem_keys hr onRoute)
  · intro a p hp
    rw [law.descriptor] at hp
    obtain ⟨r, hr, hparam⟩ := List.mem_filterMap.mp (List.mem_of_getLast? hp)
    -- whichever route's parameter stands here, patterns only have texts and numbers
    obtain ⟨piece, hpiece, hparam⟩ := Option.bind_eq_some_iff.mp hparam
    obtain rfl : piece = .param p := Piece.param?_eq_some_iff.mp hparam
    have hmem := List.mem_of_getElem? hpiece
    obtain ⟨name, rfl | rfl⟩ := (plain r (List.mem_of_mem_filter hr)).param hmem
    · rfl
    · simp [Param.number, zeros, Text.readInt64?_zeros]

/-- Every edge of a position goes along a segment that is a key. -/
theorem isKey_segment (law : Composed routes t) (plain : ∀ r ∈ routes, r.1.Plain)
    {a : List Edge} (ha : (t.at? a).isSome) {filler : String} (hf : isKey filler = true) :
    ∀ s ∈ a.map (Edge.segment filler), isKey s = true := by
  intro s hs
  obtain ⟨e, he, rfl⟩ := List.mem_map.mp hs
  cases e with
  | literal key =>
    obtain ⟨r, hr, hpre⟩ := (law.position a).mp ha
    exact (plain r hr).sound.keys key (Route.literal_mem_address.mp (hpre.subset he))
  | param | wildcard => exact hf

/-- **What is ever answered stands at an unshadowed address.** -/
theorem answered_iff (law : Composed routes t) (plain : ∀ r ∈ routes, r.1.Plain) (h : H) :
    (∃ path hit, t.hit? (Path.segments path) = some hit ∧ hit.handler = h) ↔
      ∃ a, t.Unshadowed a ∧ t.handlerAt? a = some h := by
  constructor
  · rintro ⟨path, hit, hhit, rfl⟩
    obtain ⟨⟨n, found⟩, arrival, hhit⟩ := Option.bind_eq_some_iff.mp hhit
    obtain ⟨handler, hhandler, rfl⟩ := Option.map_eq_some_iff.mp hhit
    obtain ⟨a, trail⟩ := Tree.trail_of_arrival arrival
    exact ⟨a, trail.unshadowed, (Tree.handlerAt?_eq trail.at?_eq).trans hhandler⟩
  · rintro ⟨a, clear, ha⟩
    obtain ⟨n, hn, hhandler⟩ := Option.bind_eq_some_iff.mp ha
    obtain ⟨s, key, filler⟩ := law.exists_filler plain
    obtain ⟨found, arrival⟩ := filler.arrival hn clear .empty
    have keys := law.isKey_segment plain (by rw [hn]; rfl) key
    refine ⟨Path.join (a.map (Edge.segment s)), ⟨h, a.map (Edge.segment s), found⟩, ?_, rfl⟩
    rw [Path.segments_join_of_isKey keys, Tree.hit?, Tree.resolve, arrival, Option.bind_some]
    simp only [hhandler, Option.map_some]

/-- A route's own address has a handler. -/
theorem exists_handlerAt? (law : Composed routes t) {r : Route × H} (hr : r ∈ routes) :
    ∃ h, t.handlerAt? r.1.address = some h := by
  rw [← Option.ne_none_iff_exists', law.handler, Ne, leftFold?_eq_none_iff]
  exact List.ne_nil_of_mem (Route.mem_endingAt.mpr ⟨r, hr, rfl, rfl⟩)

end Composed

/-! ### Tables -/

namespace Table

variable {entries : List Entry}

/-- The parsed routes of a table, each answered by the name of its entry. -/
structure Routes (entries : List Entry) (routes : List (Route × Names)) : Prop where
  parsed : ∀ e ∈ entries, ∃ r, Route.parse e.pattern = .ok r
  mem_iff : ∀ r, r ∈ routes ↔ ∃ e ∈ entries, Route.parse e.pattern = .ok r.1 ∧ r.2 = ⟨[e.name]⟩

theorem routes_of_parseAll {routes : List (Route × Names)}
    (h : Route.parseAll (entries.map fun e => (e.pattern, ⟨[e.name]⟩)) = .ok routes) :
    Routes entries routes := by
  constructor
  · intro e he
    have hmem : (e.pattern, (⟨[e.name]⟩ : Names)) ∈
        entries.map fun e => (e.pattern, (⟨[e.name]⟩ : Names)) := List.mem_map_of_mem he
    exact Route.parse_of_parseAll h hmem
  · intro r
    rw [Route.mem_parseAll h]
    constructor
    · rintro ⟨pattern, hmem, hparse⟩
      obtain ⟨e, he, heq⟩ := List.mem_map.mp hmem
      obtain ⟨rfl, hnames⟩ := Prod.mk.inj heq
      exact ⟨e, he, hparse, hnames.symm⟩
    · rintro ⟨e, he, hparse, hnames⟩
      exact ⟨e.pattern, List.mem_map.mpr ⟨e, he, by rw [hnames]⟩, hparse⟩

/-- A table that is built has parsed, and its tree is composed of the routes. -/
theorem composed_of_build {t : Tree Names} (h : (build entries).result = .ok t) :
    ∃ routes, Routes entries routes ∧ Composed routes t := by
  obtain ⟨routes, parsed, law⟩ := composed_of_compose (build_eq_ok_iff.mp h)
  exact ⟨routes, routes_of_parseAll parsed, law⟩

namespace Routes

variable {routes : List (Route × Names)} {t : Tree Names}

theorem plain (table : Routes entries routes) : ∀ r ∈ routes, r.1.Plain := by
  intro r hr
  obtain ⟨e, -, hparse, -⟩ := (table.mem_iff r).mp hr
  exact Route.plain_of_parse hparse

theorem at?_eq_none_iff (table : Routes entries routes) (law : Composed routes t)
    (a : List Edge) :
    t.at? a = none ↔
      ∀ f ∈ entries, ∀ q, Route.parse f.pattern = .ok q → ¬ a <+: q.address := by
  rw [← Option.not_isSome_iff_eq_none, law.position]
  constructor
  · intro h f hf q hq hpre
    exact h ⟨(q, ⟨[f.name]⟩), (table.mem_iff _).mpr ⟨f, hf, hq, rfl⟩, hpre⟩
  · rintro h ⟨r, hr, hpre⟩
    obtain ⟨f, hf, hparse, -⟩ := (table.mem_iff r).mp hr
    exact h f hf r.1 hparse hpre

/-- A name stands at the address of its entry's route and nowhere else. -/
theorem name_mem_iff (table : Routes entries routes) (law : Composed routes t)
    (distinct : (entries.map Entry.name).Nodup) {e : Entry} (he : e ∈ entries) {r : Route}
    (hr : Route.parse e.pattern = .ok r) {a : List Edge} {names : Names}
    (ha : t.handlerAt? a = some names) : e.name ∈ names.list ↔ a = r.address := by
  have both (b c : Names) :
      e.name ∈ (Combine.combine b c).list ↔ e.name ∈ b.list ∨ e.name ∈ c.list := List.mem_append
  rw [law.handler] at ha
  rw [leftFold?_holds (fun b => e.name ∈ b.list) both ha]
  constructor
  · rintro ⟨_, hmem, hname⟩
    obtain ⟨r', hr', rfl, rfl⟩ := Route.mem_endingAt.mp hmem
    obtain ⟨f, hf, hparse, hnames⟩ := (table.mem_iff r').mp hr'
    rw [hnames, List.mem_singleton] at hname
    obtain rfl : e = f := List.inj_on_of_nodup_map distinct he hf hname
    rw [Except.ok.inj (hr.symm.trans hparse)]
  · rintro rfl
    have own := (table.mem_iff (r, ⟨[e.name]⟩)).mpr ⟨e, he, hr, rfl⟩
    exact ⟨_, Route.mem_endingAt.mpr ⟨_, own, rfl, rfl⟩, List.mem_singleton_self _⟩

/-- The name of an entry is reported for some path exactly if its route is unshadowed. -/
theorem reported_iff (table : Routes entries routes) (law : Composed routes t)
    (distinct : (entries.map Entry.name).Nodup) {e : Entry} (he : e ∈ entries) {r : Route}
    (hr : Route.parse e.pattern = .ok r) :
    (∃ path report, match? t path = some report ∧ e.name ∈ report.routes) ↔
      t.Unshadowed r.address := by
  constructor
  · rintro ⟨path, report, hreport, hname⟩
    obtain ⟨hit, hhit, rfl⟩ := Option.map_eq_some_iff.mp hreport
    obtain ⟨a, clear, ha⟩ := (law.answered_iff table.plain hit.handler).mp ⟨path, hit, hhit, rfl⟩
    rwa [← (table.name_mem_iff law distinct he hr ha).mp hname]
  · intro clear
    have own := (table.mem_iff (r, ⟨[e.name]⟩)).mpr ⟨e, he, hr, rfl⟩
    obtain ⟨names, ha⟩ := law.exists_handlerAt? own
    obtain ⟨path, hit, hhit, rfl⟩ := (law.answered_iff table.plain names).mpr ⟨_, clear, ha⟩
    have reported : match? t path = some (.ofHit hit) := by rw [match?, hit?, hhit, Option.map_some]
    exact ⟨path, _, reported, (table.name_mem_iff law distinct he hr ha).mpr rfl⟩

end Routes

/-- **An entry is reported for some path exactly if no parameter shadows its wildcard.** In a built
table with different names, a path whose report lists the name of an entry exists exactly if the
entry's route does not end in a wildcard or no route has a parameter where that wildcard stands. -/
theorem reported_iff_unshadowed {t : Tree Names} (built : (build entries).result = .ok t)
    (distinct : (entries.map Entry.name).Nodup) {e : Entry} (he : e ∈ entries) :
    ∃ r, Route.parse e.pattern = .ok r ∧
      ((∃ path report, match? t path = some report ∧ e.name ∈ report.routes) ↔
        r.getLast? ≠ some .wildcard ∨
          ∀ f ∈ entries, ∀ q, Route.parse f.pattern = .ok q →
            ¬ Route.address r.dropLast ++ [.param] <+: q.address) := by
  obtain ⟨routes, table, law⟩ := composed_of_build built
  obtain ⟨r, hr⟩ := table.parsed e he
  refine ⟨r, hr, ?_⟩
  rw [table.reported_iff law distinct he hr, (Route.plain_of_parse hr).sound.unshadowed_iff,
    table.at?_eq_none_iff law, imp_iff_not_or]

theorem reported_iff_unshadowed_files :
    ∃ t, (build [⟨"/files/*", "files"⟩, ⟨"files/:id:int/raw", "raw"⟩, ⟨":x/*", "rest"⟩]).result =
        .ok t ∧
      ["files", "raw", "rest"].Nodup ∧
      (¬ ∃ path report, match? t path = some report ∧ "files" ∈ report.routes) ∧
      ∃ path report, match? t path = some report ∧ "rest" ∈ report.routes := by
  obtain ⟨t, built⟩ : ∃ t, (build [⟨"/files/*", "files"⟩, ⟨"files/:id:int/raw", "raw"⟩,
      ⟨":x/*", "rest"⟩]).result = .ok t := ⟨_, rfl⟩
  refine ⟨t, built, by decide, ?_, ?_⟩
  · obtain ⟨r, hr, files⟩ := reported_iff_unshadowed (e := ⟨"/files/*", "files"⟩) built (by decide)
      (by simp)
    obtain rfl : [.literal "files", .wildcard] = r := Except.ok.inj hr
    rw [files]
    rintro (h | h)
    · exact h rfl
    · exact h ⟨"files/:id:int/raw", "raw"⟩ (by simp)
        [.literal "files", .param (.number "id"), .literal "raw"] rfl (by decide)
  · obtain ⟨r, hr, rest⟩ := reported_iff_unshadowed (e := ⟨":x/*", "rest"⟩) built (by decide)
      (by simp)
    obtain rfl : [.param (.text "x"), .wildcard] = r := Except.ok.inj hr
    rw [rest]
    refine .inr fun f hf q hq => ?_
    simp only [List.mem_cons, List.not_mem_nil, or_false] at hf
    rcases hf with rfl | rfl | rfl
    · obtain rfl : [.literal "files", .wildcard] = q := Except.ok.inj hq
      decide
    · obtain rfl : [.literal "files", .param (.number "id"), .literal "raw"] = q :=
        Except.ok.inj hq
      decide
    · obtain rfl : [.param (.text "x"), .wildcard] = q := Except.ok.inj hq
      decide

end Table

end Routing
