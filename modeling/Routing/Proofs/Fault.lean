import Routing.Proofs.Composed
import Routing.Table.Names

/-!
# Where composing fails

`fault?` is the fault of a result. The fault of a sequence is the first fault of its parts, as long
as no part's fault depends on the values before it (`fault?_bind`). Composing is such a sequence:
its fault is that of the first pattern that is not parsed, and otherwise there is one only if there
is nothing to merge.

Main statement: `compose_eq_error_iff`.
-/

universe u

namespace Routing

/-! ### Faults of results -/

section Fault

variable {ε : Type} {α β : Type u}

/-- The fault of a result, if it is one. -/
def fault? : Except ε α → Option ε
  | .ok _ => none
  | .error e => some e

theorem fault?_eq_some_iff {x : Except ε α} {e : ε} : fault? x = some e ↔ x = .error e := by
  cases x <;> simp [fault?]

theorem fault?_eq_none_iff {x : Except ε α} : fault? x = none ↔ ∃ a, x = .ok a := by
  cases x <;> simp [fault?]

theorem fault?_map (f : α → β) (x : Except ε α) : fault? (x.map f) = fault? x := by
  cases x <;> rfl

/-- The first fault of a sequence whose second part has the same fault for all values. -/
theorem fault?_bind {x : Except ε α} {f : α → Except ε β} {later : Option ε}
    (h : ∀ a, x = .ok a → fault? (f a) = later) : fault? (x.bind f) = (fault? x).or later := by
  cases x with
  | error e => rfl
  | ok a => exact h a rfl

/-- A second part without a fault adds none. -/
theorem fault?_bind_of_none {x : Except ε α} {f : α → Except ε β}
    (h : ∀ a, x = .ok a → fault? (f a) = none) : fault? (x.bind f) = fault? x := by
  rw [fault?_bind h, Option.or_none]

end Fault

namespace Route

variable {H : Type u}

theorem fault?_parseAll (entries : List (String × H)) :
    fault? (parseAll entries) = entries.findSome? fun e => fault? (parse e.1) := by
  induction entries with
  | nil => rfl
  | cons entry rest ih =>
    obtain ⟨pattern, handler⟩ := entry
    rw [parseAll, List.findSome?_cons]
    cases h : parse pattern with
    | error fault => rfl
    | ok r =>
      dsimp only
      rw [fault?_map, ih]
      rfl

theorem fault?_mergeAll [Combine H] {entries : List (String × H)} {routes : List (Route × H)}
    (h : parseAll entries = .ok routes) :
    fault? (Tree.mergeAll (routes.map tree)).result =
      if entries = [] then some .nothingToMerge else none := by
  have nonempty := ne_nil_of_parseAll h
  cases routes with
  | nil =>
    rw [if_pos (by simpa using nonempty)]
    rfl
  | cons r routes =>
    rw [if_neg (nonempty.mp (by simp)), List.map_cons, Tree.result_mergeAll_cons]
    rfl

/-- The first fault of a pattern is that of composing; else the list must not be empty. -/
theorem fault?_compose [Combine H] (entries : List (String × H)) :
    fault? (compose entries).result = (entries.findSome? fun e => fault? (parse e.1)).or
      (if entries = [] then some .nothingToMerge else none) := by
  rw [result_compose, fault?_bind fun _ => fault?_mergeAll, fault?_parseAll]

/-- **When composing fails.** A list of patterns with handlers is composed exactly if it is not
empty and every pattern is parsed. The fault of the empty list is that there is nothing to merge,
and otherwise it is the fault of the first pattern that is not parsed. Nothing fails in between:
every parsed route is built with every handler, and trees are merged if there is one. -/
theorem compose_eq_error_iff [Combine H] :
    (∀ entries : List (String × H), (∃ t, (compose entries).result = .ok t) ↔
      entries ≠ [] ∧ ∀ e ∈ entries, ∃ r, parse e.1 = .ok r) ∧
    (∀ (entries : List (String × H)) (fault : Fault), (compose entries).result = .error fault ↔
      entries = [] ∧ fault = .nothingToMerge ∨ ∃ before pattern handler after,
        entries = before ++ (pattern, handler) :: after ∧
        (∀ e ∈ before, ∃ r, parse e.1 = .ok r) ∧ parse pattern = .error fault) ∧
    (∀ (pattern : String) (r : Route), parse pattern = .ok r → ∀ {K : Type u} (handler : K),
      ∃ t, (build handler r).result = .ok t) ∧
    ∀ trees : List (Tree H), trees ≠ [] → ∃ t, (Tree.mergeAll trees).result = .ok t := by
  refine ⟨fun entries => ?_, fun entries fault => ?_, fun pattern r h K handler => ?_,
    fun trees hne => ?_⟩
  · rw [← fault?_eq_none_iff, fault?_compose, Option.or_eq_none_iff, List.findSome?_eq_none_iff,
      and_comm]
    simp only [fault?_eq_none_iff, ite_eq_right_iff, reduceCtorEq, imp_false, ne_eq]
  · rw [← fault?_eq_some_iff, fault?_compose, Option.or_eq_some_iff]
    constructor
    · rintro (h | ⟨-, h⟩)
      · obtain ⟨before, ⟨pattern, handler⟩, after, hsplit, hp, parsed⟩ :=
          List.findSome?_eq_some_iff.mp h
        exact .inr ⟨before, pattern, handler, after, hsplit,
          fun e he => fault?_eq_none_iff.mp (parsed e he), fault?_eq_some_iff.mp hp⟩
      · split_ifs at h with empty
        exact .inl ⟨empty, (Option.some.inj h).symm⟩
    · rintro (⟨rfl, rfl⟩ | ⟨before, pattern, handler, after, hsplit, parsed, hp⟩)
      · exact .inr ⟨rfl, rfl⟩
      · exact .inl (List.findSome?_eq_some_iff.mpr ⟨before, (pattern, handler), after, hsplit,
          fault?_eq_some_iff.mpr hp, fun e he => fault?_eq_none_iff.mpr (parsed e he)⟩)
  · exact ⟨_, result_build handler (plain_of_parse h).sound⟩
  · obtain ⟨t, ts, rfl⟩ := List.exists_cons_of_ne_nil hne
    exact ⟨_, Tree.result_mergeAll_cons ..⟩

theorem compose_eq_error_iff_second :
    (compose [("/a/*", (⟨["a"]⟩ : Names)), ("b/::int", ⟨["b"]⟩), ("c d", ⟨["c"]⟩)]).result =
        .error (.invalidPattern "b/::int" .emptyName) ∧
      (∃ t, (build 0 [.literal "a", .wildcard]).result = .ok t) ∧
      ∃ t, (Tree.mergeAll [Tree.empty (H := Names)]).result = .ok t := by
  obtain ⟨-, faults, built, merged⟩ := compose_eq_error_iff (H := Names)
  have first : parse "/a/*" = .ok [.literal "a", .wildcard] := rfl
  have second : parse "b/::int" = .error (.invalidPattern "b/::int" .emptyName) := rfl
  refine ⟨(faults _ _).mpr (.inr ⟨[("/a/*", ⟨["a"]⟩)], "b/::int", ⟨["b"]⟩, [("c d", ⟨["c"]⟩)], rfl,
    fun e he => ?_, second⟩), built "/a/*" _ first 0, merged _ (List.cons_ne_nil _ _)⟩
  obtain rfl := List.mem_singleton.mp he
  exact ⟨_, first⟩

end Route

end Routing
