import Mathlib.Data.List.Induction
import Routing.Tree.Merge

/-!
# Merged trees by address

`at?` views a tree through its addresses; `handlerAt?`, `labelAt?` and `descriptorAt?` are the three
things that a position holds besides its children. The view of `mine.merge theirs` at an address is
the `Option.merge` of both views there (`at?_merge`), whatever lies on the way, so that any part of
the view of a merged list is a left fold over the trees that have it (`view_foldl_merge`).

Main statement: `mergeAll_at_address`.
-/

universe u v

namespace Routing

/-! ### Left folds of lists that may be empty -/

/-- The members of a list combined from the left; nothing if there is none. -/
def leftFold? {β : Type v} (op : β → β → β) : List β → Option β
  | [] => none
  | b :: bs => some (bs.foldl op b)

section LeftFold

variable {β : Type v} {op : β → β → β}

@[simp] theorem leftFold?_nil : leftFold? op [] = none := rfl

@[simp] theorem leftFold?_eq_none_iff {bs : List β} : leftFold? op bs = none ↔ bs = [] := by
  cases bs <;> simp [leftFold?]

theorem leftFold?_concat (bs : List β) (b : β) :
    leftFold? op (bs ++ [b]) = (leftFold? op bs).merge op (some b) := by
  cases bs with
  | nil => rfl
  | cons c bs => simp [leftFold?, List.foldl_append]

theorem leftFold?_append [Std.Associative op] (bs cs : List β) :
    leftFold? op (bs ++ cs) = (leftFold? op bs).merge op (leftFold? op cs) := by
  induction cs using List.reverseRecOn with
  | nil => rw [List.append_nil, leftFold?_nil, Option.merge_none_right]
  | append_singleton cs c ih =>
    rw [← List.append_assoc, leftFold?_concat, leftFold?_concat, ih]
    exact (Option.associative_merge op).assoc ..

/-- The fold that prefers the right operand takes the last member. -/
theorem leftFold?_right (bs : List β) : leftFold? (fun _ b => b) bs = bs.getLast? := by
  induction bs using List.reverseRecOn with
  | nil => rfl
  | append_singleton bs b _ =>
    rw [leftFold?_concat, List.getLast?_concat]
    cases leftFold? (fun _ b => b) bs <;> rfl

/-- Where a combination holds what one of its operands holds, a fold holds what one of its members
holds. -/
theorem leftFold?_holds (holds : β → Prop) (hop : ∀ b c, holds (op b c) ↔ holds b ∨ holds c)
    {bs : List β} {b : β} (h : leftFold? op bs = some b) : holds b ↔ ∃ c ∈ bs, holds c := by
  induction bs using List.reverseRecOn generalizing b with
  | nil => simp at h
  | append_singleton bs c ih =>
    rw [leftFold?_concat] at h
    cases hbs : leftFold? op bs with
    | none =>
      rw [hbs] at h
      obtain rfl : bs = [] := leftFold?_eq_none_iff.mp hbs
      obtain rfl : c = b := by simpa using h
      simp
    | some d =>
      rw [hbs] at h
      obtain rfl : op d c = b := by simpa using h
      rw [hop, ih hbs]
      simp [or_and_right, exists_or]

end LeftFold

namespace Tree

variable {H : Type u}

/-! ### What a position holds -/

/-- The parameter behind which a position has a child. -/
def descriptor? (t : Tree H) : Option Param := t.param.map Prod.fst

def handlerAt? (t : Tree H) (a : List Edge) : Option H := (t.at? a).bind handler

def labelAt? (t : Tree H) (a : List Edge) : Option String := (t.at? a).map label

def descriptorAt? (t : Tree H) (a : List Edge) : Option Param := (t.at? a).bind descriptor?

theorem handlerAt?_eq {t n : Tree H} {a : List Edge} (h : t.at? a = some n) :
    t.handlerAt? a = n.handler := by
  simp [handlerAt?, h]

theorem descriptorAt?_eq {t n : Tree H} {a : List Edge} (h : t.at? a = some n) :
    t.descriptorAt? a = n.descriptor? := by
  simp [descriptorAt?, h]

theorem handlerAt?_cons (t : Tree H) (e : Edge) (a : List Edge) :
    t.handlerAt? (e :: a) = (t.child? e).bind fun child => child.handlerAt? a := by
  cases h : t.child? e <;> simp [handlerAt?, at?_cons, h]

theorem descriptorAt?_cons (t : Tree H) (e : Edge) (a : List Edge) :
    t.descriptorAt? (e :: a) = (t.child? e).bind fun child => child.descriptorAt? a := by
  cases h : t.child? e <;> simp [descriptorAt?, at?_cons, h]

/-- Behind an edge an address is looked up in the child. -/
theorem at?_cons_of_child {t c : Tree H} {e : Edge} (h : t.child? e = some c) (a : List Edge) :
    t.at? (e :: a) = c.at? a := by
  rw [at?_cons, h, Option.bind_some]

theorem exists_child_of_at? {t n : Tree H} {e : Edge} {a : List Edge}
    (h : t.at? (e :: a) = some n) : ∃ c, t.child? e = some c ∧ c.at? a = some n :=
  Option.bind_eq_some_iff.mp ((at?_cons t e a).symm.trans h)

/-- One edge further down. -/
theorem at?_concat {t n : Tree H} {a : List Edge} (h : t.at? a = some n) (e : Edge) :
    t.at? (a ++ [e]) = n.child? e := by
  rw [at?_append, h, Option.bind_some, at?_cons]
  cases n.child? e <;> rfl

theorem child?_param_of_descriptor? {t : Tree H} {p : Param} (h : t.descriptor? = some p) :
    ∃ child, t.child? .param = some child := by
  obtain ⟨⟨_, child⟩, hc, -⟩ := Option.map_eq_some_iff.mp h
  exact ⟨child, by rw [child?, hc, Option.map_some]⟩

theorem descriptor?_eq_none_iff {t : Tree H} : t.descriptor? = none ↔ t.child? .param = none := by
  rw [descriptor?, child?, Option.map_eq_none_iff, Option.map_eq_none_iff]

/-- No parameter stands at an address exactly if nothing lies behind one. -/
theorem descriptorAt?_eq_none_iff {t : Tree H} {a : List Edge} :
    t.descriptorAt? a = none ↔ t.at? (a ++ [.param]) = none := by
  cases h : t.at? a with
  | none => simp [descriptorAt?, at?_append, h]
  | some n => rw [descriptorAt?_eq h, at?_concat h, descriptor?_eq_none_iff]

/-! ### Two trees -/

variable [Combine H]

theorem at?_merge (mine theirs : Tree H) (a : List Edge) :
    (mine.merge theirs).at? a = (mine.at? a).merge merge (theirs.at? a) := by
  induction a generalizing mine theirs with
  | nil => rfl
  | cons e a ih =>
    rw [at?_cons, at?_cons, at?_cons, child?_merge]
    cases mine.child? e with
    | none => cases theirs.child? e <;> simp
    | some m =>
      cases theirs.child? e with
      | none => simp
      | some s => exact ih m s

theorem handlerAt?_merge (mine theirs : Tree H) (a : List Edge) :
    (mine.merge theirs).handlerAt? a =
      (mine.handlerAt? a).merge Combine.combine (theirs.handlerAt? a) := by
  unfold handlerAt?
  rw [at?_merge]
  cases mine.at? a <;> cases theirs.at? a <;> simp

theorem labelAt?_merge (mine theirs : Tree H) (a : List Edge) :
    (mine.merge theirs).labelAt? a =
      (mine.labelAt? a).merge (fun _ l => l) (theirs.labelAt? a) := by
  unfold labelAt?
  rw [at?_merge]
  cases mine.at? a <;> cases theirs.at? a <;> simp

theorem descriptor?_merge (mine theirs : Tree H) :
    (mine.merge theirs).descriptor? = mine.descriptor?.merge (fun _ p => p) theirs.descriptor? := by
  rw [descriptor?, descriptor_merge]
  change theirs.descriptor?.or mine.descriptor? = _
  cases mine.descriptor? <;> cases theirs.descriptor? <;> rfl

theorem descriptorAt?_merge (mine theirs : Tree H) (a : List Edge) :
    (mine.merge theirs).descriptorAt? a =
      (mine.descriptorAt? a).merge (fun _ p => p) (theirs.descriptorAt? a) := by
  unfold descriptorAt?
  rw [at?_merge]
  cases mine.at? a <;> cases theirs.at? a <;> simp [descriptor?_merge]

/-! ### Lists of trees -/

theorem result_foldlM_announceMerge (first : Tree H) (rest : List (Tree H)) :
    (rest.foldlM announceMerge first : Logged Fault (Tree H)).result =
      .ok (rest.foldl merge first) := by
  induction rest generalizing first with
  | nil => rfl
  | cons next rest ih =>
    rw [List.foldlM_cons, List.foldl_cons, Logged.result_bind, announceMerge,
      Logged.result_announce]
    exact ih _

theorem result_mergeAll_cons (first : Tree H) (rest : List (Tree H)) :
    (mergeAll (first :: rest)).result = .ok (rest.foldl merge first) :=
  result_foldlM_announceMerge first rest

theorem ne_nil_of_mergeAll {ts : List (Tree H)} {t : Tree H}
    (h : (mergeAll ts).result = .ok t) : ts ≠ [] := by
  rintro rfl
  cases h

/-- **One fold for every part of the view**: a part that `merge` combines by `op` is combined by
`op` over those trees of a merged list that have it. -/
theorem view_foldl_merge {β : Type v} (view : Tree H → Option β) {op : β → β → β}
    (hview : ∀ mine theirs, view (mine.merge theirs) = (view mine).merge op (view theirs))
    (first : Tree H) (rest : List (Tree H)) :
    view (rest.foldl merge first) = leftFold? op ((first :: rest).filterMap view) := by
  induction rest using List.reverseRecOn with
  | nil => cases h : view first <;> simp [h, leftFold?]
  | append_singleton rest last ih =>
    rw [List.foldl_append, List.foldl_cons, List.foldl_nil, hview, ih, ← List.cons_append,
      List.filterMap_append]
    cases h : view last with
    | none => simp [h]
    | some b =>
      rw [List.filterMap_cons_some h, List.filterMap_nil, leftFold?_concat]

section Fold

variable (first : Tree H) (rest : List (Tree H)) (a : List Edge)

theorem handlerAt?_foldl_merge : (rest.foldl merge first).handlerAt? a =
    leftFold? Combine.combine ((first :: rest).filterMap fun s => s.handlerAt? a) :=
  view_foldl_merge (fun t => t.handlerAt? a)
    (fun mine theirs => handlerAt?_merge mine theirs a) first rest

theorem labelAt?_foldl_merge : (rest.foldl merge first).labelAt? a =
    ((first :: rest).filterMap fun s => s.labelAt? a).getLast? := by
  rw [← leftFold?_right]
  exact view_foldl_merge (fun t => t.labelAt? a)
    (fun mine theirs => labelAt?_merge mine theirs a) first rest

theorem descriptorAt?_foldl_merge : (rest.foldl merge first).descriptorAt? a =
    ((first :: rest).filterMap fun s => s.descriptorAt? a).getLast? := by
  rw [← leftFold?_right]
  exact view_foldl_merge (fun t => t.descriptorAt? a)
    (fun mine theirs => descriptorAt?_merge mine theirs a) first rest

theorem isSome_at?_foldl_merge :
    ((rest.foldl merge first).at? a).isSome ↔ ∃ t ∈ first :: rest, (t.at? a).isSome := by
  rw [view_foldl_merge (fun t => t.at? a) (fun mine theirs => at?_merge mine theirs a),
    Option.isSome_iff_ne_none, Ne, leftFold?_eq_none_iff, List.filterMap_eq_nil_iff]
  push Not
  simp only [Option.isSome_iff_ne_none]

end Fold

/-- **A merged list by address.** A position is there if one of the trees has it. It holds the
handlers of the trees that have one there, combined from the left in the order of the list, the
label of the last tree that has the position, and the parameter of the last tree that has one
there. -/
theorem mergeAll_at_address (first : Tree H) (rest : List (Tree H)) :
    ∃ t, (mergeAll (first :: rest)).result = .ok t ∧ ∀ a,
      ((t.at? a).isSome ↔ ∃ s ∈ first :: rest, (s.at? a).isSome) ∧
      (t.handlerAt? a = none ↔ ∀ s ∈ first :: rest, s.handlerAt? a = none) ∧
      t.handlerAt? a =
        leftFold? Combine.combine ((first :: rest).filterMap fun s => s.handlerAt? a) ∧
      t.labelAt? a = ((first :: rest).filterMap fun s => s.labelAt? a).getLast? ∧
      t.descriptorAt? a = ((first :: rest).filterMap fun s => s.descriptorAt? a).getLast? := by
  refine ⟨_, result_mergeAll_cons first rest, fun a => ?_⟩
  have handlers := handlerAt?_foldl_merge first rest a
  refine ⟨isSome_at?_foldl_merge first rest a, ?_, handlers, labelAt?_foldl_merge first rest a,
    descriptorAt?_foldl_merge first rest a⟩
  rw [handlers, leftFold?_eq_none_iff, List.filterMap_eq_nil_iff]

end Tree

end Routing
