import Routing.Proofs.Bisim

/-!
# What an answer depends on

No walk goes on behind a wildcard, and none reads a label. Two trees are `Indistinct` if at every
address without a wildcard edge they hold the same handler, the same literal keys, parameters of the
same name and reading, and a wildcard child or none, and if such wildcard children hold the same
handler. Labels, the written forms of parameters and everything behind the wildcard children may
differ. Being indistinct can be checked one position at a time (`indistinct_iff`), which makes it a
bisimulation.

Main statement: `hit?_eq_of_indistinct`.
-/

universe u

namespace Routing

namespace Tree

variable {H : Type u}

/-- What a walk that comes to an address can see there is the same in two trees. -/
structure AlikeAt (s t : Tree H) (a : List Edge) : Prop where
  handler : s.handlerAt? a = t.handlerAt? a
  literal : ∀ key, (s.at? (a ++ [.literal key])).isSome = (t.at? (a ++ [.literal key])).isSome
  reading : (s.descriptorAt? a).map Param.reading = (t.descriptorAt? a).map Param.reading
  wildcard : (s.at? (a ++ [.wildcard])).isSome = (t.at? (a ++ [.wildcard])).isSome
  behind : s.handlerAt? (a ++ [.wildcard]) = t.handlerAt? (a ++ [.wildcard])

/-- Alike at every address without a wildcard edge. -/
def Indistinct (s t : Tree H) : Prop := ∀ a, .wildcard ∉ a → s.AlikeAt t a

section Alike

variable {s t c d : Tree H} {e : Edge} {a : List Edge}

/-- Further down, only the children matter. -/
theorem alikeAt_cons_iff (hc : s.child? e = some c) (hd : t.child? e = some d) :
    s.AlikeAt t (e :: a) ↔ c.AlikeAt d a := by
  have left := at?_cons_of_child hc
  have right := at?_cons_of_child hd
  constructor
  · rintro ⟨handler, literal, reading, wildcard, behind⟩
    simp only [handlerAt?, descriptorAt?, List.cons_append, left, right] at *
    exact ⟨handler, literal, reading, wildcard, behind⟩
  · rintro ⟨handler, literal, reading, wildcard, behind⟩
    constructor <;> simp only [handlerAt?, descriptorAt?, List.cons_append, left, right]
    · exact handler
    · exact literal
    · exact reading
    · exact wildcard
    · exact behind

theorem alikeAt_cons_of_none (hc : s.child? e = none) (hd : t.child? e = none) :
    s.AlikeAt t (e :: a) := by
  have left (b : List Edge) : s.at? (e :: b) = none := by rw [at?_cons, hc, Option.bind_none]
  have right (b : List Edge) : t.at? (e :: b) = none := by rw [at?_cons, hd, Option.bind_none]
  constructor <;> simp only [handlerAt?, descriptorAt?, List.cons_append, left, right, implies_true]

/-- At the root an address is looked at through the children. -/
theorem alikeAt_nil_iff :
    s.AlikeAt t [] ↔ s.handler = t.handler ∧
      s.descriptor?.map Param.reading = t.descriptor?.map Param.reading ∧
      (s.child? .wildcard).map Tree.handler = (t.child? .wildcard).map Tree.handler ∧
      ∀ e, (s.child? e).isSome = (t.child? e).isSome := by
  have here (n : Tree H) (e : Edge) : n.at? ([] ++ [e]) = n.child? e := at?_concat (at?_nil n) e
  have present (n : Tree H) :
      (n.descriptor?.map Param.reading).isSome = (n.child? .param).isSome := by
    rw [Option.isSome_map, descriptor?, child?, Option.isSome_map, Option.isSome_map]
  constructor
  · rintro ⟨handler, literal, reading, wildcard, behind⟩
    simp only [handlerAt?, descriptorAt?, here, at?_nil, Option.bind_some] at *
    refine ⟨handler, reading, ?_, fun e => ?_⟩
    · cases hs : s.child? .wildcard <;> cases ht : t.child? .wildcard <;> simp_all
    · cases e with
      | literal key => exact literal key
      | param => rw [← present, ← present, reading]
      | wildcard => exact wildcard
  · rintro ⟨handler, reading, behind, children⟩
    constructor <;> simp only [handlerAt?, descriptorAt?, here, at?_nil, Option.bind_some]
    · exact handler
    · exact fun key => children (.literal key)
    · exact reading
    · exact children .wildcard
    · have bound (n : Option (Tree H)) : n.bind Tree.handler = (n.map Tree.handler).bind id := by
        cases n <;> rfl
      rw [bound, bound, behind]

/-- **Indistinct one position at a time**: at the root, and behind every edge but a wildcard. -/
theorem indistinct_iff :
    s.Indistinct t ↔ s.AlikeAt t [] ∧
      ∀ e, e ≠ .wildcard → Option.Rel Indistinct (s.child? e) (t.child? e) := by
  constructor
  · intro h
    have root := h [] (by simp)
    have present := (alikeAt_nil_iff.mp root).2.2.2
    refine ⟨root, fun e he => rel_of_isSome (present e) fun c d hc hd a ha => ?_⟩
    have below : s.AlikeAt t (e :: a) := h (e :: a) (by simp [ha, he.symm])
    exact (alikeAt_cons_iff hc hd).mp below
  · rintro ⟨root, children⟩ a ha
    cases a with
    | nil => exact root
    | cons e a =>
      obtain ⟨he, ha⟩ : e ≠ .wildcard ∧ .wildcard ∉ a := by simpa [eq_comm] using ha
      have below := children e he
      generalize hc : s.child? e = c at below
      generalize hd : t.child? e = d at below
      cases below with
      | none => exact alikeAt_cons_of_none hc hd
      | some below => exact (alikeAt_cons_iff hc hd).mpr (below a ha)

end Alike

theorem bisimulation_indistinct : Bisimulation (Indistinct (H := H)) where
  handler h := (alikeAt_nil_iff.mp (indistinct_iff.mp h).1).1
  reading h := (alikeAt_nil_iff.mp (indistinct_iff.mp h).1).2.1
  child h e he := (indistinct_iff.mp h).2 e he
  rest h := (alikeAt_nil_iff.mp (indistinct_iff.mp h).1).2.2.1

/-- **What an answer depends on.** Trees that agree, at every address without a wildcard, on the
handler, the literal keys, the name and the reading of the parameter and the presence of a wildcard
child, and that agree on the handlers of these wildcard children, answer every request alike. -/
theorem hit?_eq_of_indistinct {s t : Tree H} (h : s.Indistinct t) (segments : List String) :
    s.hit? segments = t.hit? segments :=
  bisimulation_indistinct.hit?_eq h segments

end Tree

theorem hit?_eq_of_indistinct_files :
    let leaf (label : String) (n : Nat) (below : List (String × Tree Nat)) : Tree Nat :=
      .node label (some n) below none none
    let s : Tree Nat := .node "s" none
      [("files", .node "list" (some 1) [] none (some (leaf "rest" 2 [])))]
      (some (.number "id", leaf "item" 3 [])) none
    let t : Tree Nat := .node "t" none
      [("files", .node "all" (some 1) [] none (some (leaf "any" 2 [("a", leaf "more" 4 [])])))]
      (some ({ Param.number "id" with form := .quoted "id" }, leaf "one" 3 [])) none
    s.Indistinct t ∧ ∀ segments, s.hit? segments = t.hit? segments := by
  intro leaf s t
  have bare (l k : String) (h : Option Nat) {w x : Option (Tree Nat)}
      (same : w.map Tree.handler = x.map Tree.handler) :
      (Tree.node l h [] none w).Indistinct (.node k h [] none x) := by
    have present : w.isSome = x.isSome := by
      simpa using congrArg Option.isSome same
    refine Tree.indistinct_iff.mpr ⟨Tree.alikeAt_nil_iff.mpr ⟨rfl, rfl, same, ?_⟩, ?_⟩
    · rintro (_ | _ | _)
      · rfl
      · rfl
      · exact present
    · rintro (_ | _ | _) he
      · exact .none
      · exact .none
      · exact absurd rfl he
  have roots : s.Indistinct t := by
    refine Tree.indistinct_iff.mpr ⟨Tree.alikeAt_nil_iff.mpr ⟨rfl, rfl, rfl, ?_⟩, ?_⟩
    · rintro (key | _ | _)
      · by_cases hk : key = "files" <;> simp [s, t, Tree.child?, Tree.literal?, Dict.find?, hk]
      · rfl
      · rfl
    · rintro (key | _ | _) he
      · by_cases hk : key = "files"
        · subst hk
          exact .some (bare "list" "all" (some 1) rfl)
        · simp [s, t, Tree.child?, Tree.literal?, Dict.find?, hk]
      · exact .some (bare "item" "one" (some 3) rfl)
      · exact absurd rfl he
  exact ⟨roots, Tree.hit?_eq_of_indistinct roots⟩

end Routing
