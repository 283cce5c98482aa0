import Routing.Proofs.Spine

/-!
# What holds at every position

`Everywhere P t` says of every position of a tree that it has the property `P`. It splits into the
first position and the trees behind its edges (`everywhere_iff`), along a spine piece by piece
(`Route.everywhere_spine_cons_iff`). Merging keeps what merging two positions keeps
(`Everywhere.merge`), whatever lies below them.
-/

universe u v

namespace Routing

/-- What both options hold and the combination keeps, the merged option holds. -/
theorem forall_merge {β : Type v} {P : β → Prop} {op : β → β → β}
    (keeps : ∀ b c, P b → P c → P (op b c)) {x y : Option β} (hx : ∀ b, x = some b → P b)
    (hy : ∀ c, y = some c → P c) : ∀ d, x.merge op y = some d → P d := by
  intro d hd
  cases x with
  | none =>
    rw [Option.merge_none_left] at hd
    exact hy d hd
  | some b =>
    cases y with
    | none =>
      rw [Option.merge_none_right] at hd
      exact hx d hd
    | some c =>
      obtain rfl : op b c = d := Option.some.inj hd
      exact keeps b c (hx b rfl) (hy c rfl)

namespace Tree

variable {H : Type u} {P : Tree H → Prop} {t : Tree H}

/-- Every position of a tree has the property. -/
def Everywhere (P : Tree H → Prop) (t : Tree H) : Prop := ∀ a n, t.at? a = some n → P n

theorem everywhere_iff :
    t.Everywhere P ↔ P t ∧ ∀ e c, t.child? e = some c → c.Everywhere P := by
  constructor
  · intro h
    have here : P t := h [] t rfl
    exact ⟨here, fun e c hc a n hn => h (e :: a) n ((at?_cons_of_child hc a).trans hn)⟩
  · rintro ⟨here, below⟩ a n hn
    cases a with
    | nil =>
      obtain rfl : t = n := Option.some.inj hn
      exact here
    | cons e a =>
      obtain ⟨c, hc, hn⟩ := exists_child_of_at? hn
      exact below e c hc a n hn

theorem everywhere_empty (h : P empty) : (empty : Tree H).Everywhere P :=
  everywhere_iff.mpr ⟨h, fun e c hc => by rw [child?_empty] at hc; cases hc⟩

theorem Everywhere.at? (h : t.Everywhere P) {a : List Edge} {n : Tree H} (hn : t.at? a = some n) :
    n.Everywhere P := by
  intro b m hm
  refine h (a ++ b) m ?_
  rw [at?_append, hn, Option.bind_some, hm]

section Merge

variable [Combine H] (step : ∀ mine theirs, P mine → P theirs → P (mine.merge theirs))
include step

theorem Everywhere.merge {mine theirs : Tree H} (hm : mine.Everywhere P)
    (hs : theirs.Everywhere P) : (mine.merge theirs).Everywhere P := by
  intro a n hn
  rw [at?_merge] at hn
  exact forall_merge step (hm a) (hs a) n hn

theorem Everywhere.foldl_merge {first : Tree H} {rest : List (Tree H)}
    (hf : first.Everywhere P) (hr : ∀ t ∈ rest, t.Everywhere P) :
    (rest.foldl Tree.merge first).Everywhere P := by
  induction rest generalizing first with
  | nil => exact hf
  | cons next rest ih =>
    have hnext : (first.merge next).Everywhere P := hf.merge step (hr next (List.mem_cons_self ..))
    exact ih hnext fun t ht => hr t (List.mem_cons_of_mem _ ht)

/-- What all trees of a list have everywhere, the merged list has everywhere. -/
theorem everywhere_of_mergeAll {ts : List (Tree H)} (h : (mergeAll ts).result = .ok t)
    (hts : ∀ s ∈ ts, s.Everywhere P) : t.Everywhere P := by
  obtain ⟨first, rest, rfl⟩ := List.exists_cons_of_ne_nil (ne_nil_of_mergeAll h)
  obtain rfl := Except.ok.inj ((result_mergeAll_cons ..).symm.trans h)
  exact .foldl_merge step (hts first (List.mem_cons_self ..))
    fun s hs => hts s (List.mem_cons_of_mem _ hs)

end Merge

end Tree

namespace Route

variable {H : Type u} {P : Tree H → Prop} {handler : H} {label : String}

theorem everywhere_spine_nil_iff :
    (spine handler label []).Everywhere P ↔ P (spine handler label []) := by
  rw [Tree.everywhere_iff]
  refine and_iff_left fun e c hc => ?_
  rw [child?_spine_nil] at hc
  cases hc

theorem everywhere_spine_cons_iff {piece : Piece} {rest : Route} :
    (spine handler label (piece :: rest)).Everywhere P ↔
      P (spine handler label (piece :: rest)) ∧
        (spine handler (Route.label rest) rest).Everywhere P := by
  rw [Tree.everywhere_iff]
  refine and_congr_right fun _ => ⟨fun h => h piece.edge _ ?_, fun h e c hc => ?_⟩
  · rw [spine, Piece.child?_wrap, if_pos rfl]
  · rw [spine, Piece.child?_wrap] at hc
    split_ifs at hc
    obtain rfl := Option.some.inj hc
    exact h

end Route

end Routing
