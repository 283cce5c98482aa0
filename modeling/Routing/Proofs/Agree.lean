import Routing.Proofs.Address

/-!
# Trees that agree by address

Two trees `AgreeOn` a look at positions if they have the same positions and those at one address
look alike. Agreement is handed down along every edge (`AgreeOn.child`), so that it can be followed
on a walk.

The `content` of a position is all that it holds besides its children; trees with the same content
at every address are the `Same`.
-/

universe u v w

namespace Routing

/-- What a position holds besides its children. -/
structure Content (H : Type u) where
  label : String
  handler : Option H
  descriptor : Option Param

/-- Options that both hold something or nothing are related if what they hold is. -/
theorem rel_of_isSome {α : Type u} {β : Type v} {R : α → β → Prop} {x : Option α} {y : Option β}
    (present : x.isSome = y.isSome) (both : ∀ a b, x = some a → y = some b → R a b) :
    Option.Rel R x y := by
  cases x with
  | none =>
    cases y with
    | none => exact .none
    | some b => cases present
  | some a =>
    cases y with
    | none => cases present
    | some b => exact .some (both a b rfl rfl)

namespace Tree

variable {H : Type u} {β : Type v}

/-! ### Agreement -/

/-- The same positions, and both trees look alike at each. -/
def AgreeOn (look : Tree H → β) (s t : Tree H) : Prop :=
  ∀ a, (s.at? a).map look = (t.at? a).map look

namespace AgreeOn

variable {look : Tree H → β} {s t : Tree H}

/-- What is computed from a look agrees as well. -/
theorem comp {γ : Type w} (f : β → γ) (h : AgreeOn look s t) :
    AgreeOn (fun n => f (look n)) s t := by
  intro a
  have mapped := congrArg (Option.map f) (h a)
  rwa [Option.map_map, Option.map_map] at mapped

theorem root (h : AgreeOn look s t) : look s = look t := Option.some.inj (h [])

/-- Behind an edge both trees have a child or neither has, and the children agree. -/
theorem child (h : AgreeOn look s t) (e : Edge) :
    Option.Rel (AgreeOn look) (s.child? e) (t.child? e) := by
  have here (n : Tree H) : n.at? [e] = n.child? e := at?_concat (at?_nil n) e
  have present := congrArg Option.isSome (h [e])
  rw [Option.isSome_map, Option.isSome_map, here, here] at present
  refine rel_of_isSome present fun c d hc hd a => ?_
  rw [← at?_cons_of_child hc, ← at?_cons_of_child hd]
  exact h (e :: a)

end AgreeOn

/-- Agreement on handlers and on something about parameters, from the views of both. -/
theorem agreeOn_of_views {γ : Type w} (look : Option Param → γ) {s t : Tree H}
    (positions : ∀ a, (s.at? a).isSome ↔ (t.at? a).isSome)
    (handlers : ∀ a, s.handlerAt? a = t.handlerAt? a)
    (params : ∀ a, look (s.descriptorAt? a) = look (t.descriptorAt? a)) :
    AgreeOn (fun n => (n.handler, look n.descriptor?)) s t := by
  intro a
  have position := positions a
  cases hs : s.at? a with
  | none =>
    cases ht : t.at? a with
    | none => rfl
    | some n => simp [hs, ht] at position
  | some m =>
    cases ht : t.at? a with
    | none => simp [hs, ht] at position
    | some n =>
      have handler := handlers a
      have param := params a
      rw [handlerAt?_eq hs, handlerAt?_eq ht] at handler
      rw [descriptorAt?_eq hs, descriptorAt?_eq ht] at param
      rw [Option.map_some, Option.map_some, handler, param]

/-! ### The same content -/

/-- What a position holds beside its children. -/
def content (t : Tree H) : Content H := ⟨t.label, t.handler, t.descriptor?⟩

/-- The same content at every address. -/
def Same (s t : Tree H) : Prop := AgreeOn content s t

end Tree

end Routing
