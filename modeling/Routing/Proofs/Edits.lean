import Mathlib.Data.List.Induction
import Routing.Table.Names
import Routing.Tree.Draft

/-!
# Drafts by their edits

A draft is what a list of edits makes of the empty one, each going on with the draft that the one
before it left behind, refused or not. A refused edit leaves the draft as it was
(`draft_edit_of_error`), so that it might as well not have been made (`ofEdits_of_refused`). What a
draft holds is read off the list: the handler and the child under a key from the end, the parameter
and the wildcard from the front. Which edits are refused is read off it too
(`edit_ofEdits_eq_error_iff`).

Main statement: `freeze_ofEdits`.
-/

universe u

namespace Routing

namespace Draft

/-- An edit of a draft. A handler is set alike whether other positions share it or not. -/
inductive Edit (H : Type u) where
  | handler (h : H)
  | literal (key : String) (child : Tree H)
  | param (p : Param) (child : Tree H)
  | wildcard (child : Tree H)

namespace Edit

variable {H : Type u}

def handler? : Edit H → Option H
  | .handler h => some h
  | .literal _ _ | .param _ _ | .wildcard _ => none

/-- The child that is given for a key. -/
def literal? (key : String) : Edit H → Option (Tree H)
  | .literal k child => if key = k then some child else none
  | .handler _ | .param _ _ | .wildcard _ => none

/-- The literal child that is added, behind its key. -/
def added? : Edit H → Option (String × Tree H)
  | .literal key child => if isKey key then some (key, child) else none
  | .handler _ | .param _ _ | .wildcard _ => none

def param? : Edit H → Option (Param × Tree H)
  | .param p child => some (p, child)
  | .handler _ | .literal _ _ | .wildcard _ => none

def wildcard? : Edit H → Option (Tree H)
  | .wildcard child => some child
  | .handler _ | .literal _ _ | .param _ _ => none

/-- What is wrong with an edit behind others: a key that is none, a second parameter, a second
wildcard. -/
inductive RefusedAfter (before : List (Edit H)) : Edit H → Fault → Prop where
  | literal (key : String) (child : Tree H) (noKey : isKey key = false) :
    RefusedAfter before (.literal key child) (.invalidSegment key)
  | param (p : Param) (child : Tree H) (second : ∃ q other, .param q other ∈ before) :
    RefusedAfter before (.param p child) .duplicateParam
  | wildcard (child : Tree H) (second : ∃ other, .wildcard other ∈ before) :
    RefusedAfter before (.wildcard child) .duplicateWildcard

end Edit

open Edit

variable {H : Type u}

/-- Makes an edit; setting the handler is never refused. -/
def edit (d : Draft H) : Edit H → Edited H
  | .handler h => ⟨.ok (), d.setHandler h⟩
  | .literal key child => d.addLiteral key child
  | .param p child => d.setParam p child
  | .wildcard child => d.setWildcard child

/-- The draft that edits make of the empty one. -/
def ofEdits (edits : List (Edit H)) : Draft H :=
  edits.foldl (fun d e => (d.edit e).draft) empty

theorem ofEdits_concat (edits : List (Edit H)) (e : Edit H) :
    ofEdits (edits ++ [e]) = ((ofEdits edits).edit e).draft := by
  rw [ofEdits, List.foldl_append]
  rfl

/-! ### One edit -/

section Edit

variable (d : Draft H) (e : Edit H)

/-- A refused edit leaves the draft as it was. -/
theorem draft_edit_of_error {fault : Fault} (h : (d.edit e).result = .error fault) :
    (d.edit e).draft = d := by
  cases e with
  | handler handler => cases h
  | literal key child =>
    rw [edit, addLiteral] at h ⊢
    split at h
    · cases h
    · next noKey => rw [if_neg noKey]
  | param p child =>
    rw [edit] at h ⊢
    unfold setParam at h ⊢
    split at h
    · rfl
    · cases h
  | wildcard child =>
    rw [edit] at h ⊢
    unfold setWildcard at h ⊢
    split at h
    · rfl
    · cases h

/-- What an edit can change, refused or not. -/
theorem draft_edit_eq : (d.edit e).draft = {
    handler := e.handler?.or d.handler
    literals := match e.added? with
      | some (key, child) => Dict.insert key child d.literals
      | none => d.literals
    param := d.param.or e.param?
    wildcard := d.wildcard.or e.wildcard? } := by
  obtain ⟨handler, literals, param, wildcard⟩ := d
  cases e with
  | handler h => cases param <;> cases wildcard <;> rfl
  | literal key child =>
    rw [edit, addLiteral, added?]
    by_cases hkey : isKey key = true <;> cases param <;> cases wildcard <;>
      simp [hkey, handler?, param?, wildcard?]
  | param p child => cases param <;> cases wildcard <;> rfl
  | wildcard child => cases param <;> cases wildcard <;> rfl

theorem find?_literals_edit (key : String) : Dict.find? key (d.edit e).draft.literals =
    (if isKey key then e.literal? key else none).or (Dict.find? key d.literals) := by
  rw [draft_edit_eq]
  cases e with
  | literal k child =>
    rw [added?, literal?]
    by_cases same : key = k
    · subst same
      by_cases hkey : isKey key = true <;> simp [hkey]
    · by_cases hk : isKey k = true <;> simp [hk, same, Dict.find?_insert_of_ne]
  | handler _ | param _ _ | wildcard _ => simp [added?, literal?]

theorem ascending_edit (h : Dict.Ascending d.literals) :
    Dict.Ascending (d.edit e).draft.literals := by
  rw [draft_edit_eq]
  cases e.added? with
  | none => exact h
  | some entry => exact h.insert entry.1 entry.2

end Edit

/-! ### Lists of edits -/

section Edits

variable {β : Type u} (view : Draft H → Option β) {given? : Edit H → Option β}

/-- What every edit replaces that gives something else is what the last one gave. -/
theorem view_ofEdits_last (start : view empty = none)
    (step : ∀ d e, view (d.edit e).draft = (given? e).or (view d)) (edits : List (Edit H)) :
    view (ofEdits edits) = (edits.filterMap given?).getLast? := by
  induction edits using List.reverseRecOn with
  | nil => exact start
  | append_singleton edits e ih =>
    rw [ofEdits_concat, step, ih, List.filterMap_append, List.getLast?_append]
    cases h : given? e <;> simp [h]

/-- What is only set where nothing was before is what the first one gave. -/
theorem view_ofEdits_first (start : view empty = none)
    (step : ∀ d e, view (d.edit e).draft = (view d).or (given? e)) (edits : List (Edit H)) :
    view (ofEdits edits) = (edits.filterMap given?).head? := by
  induction edits using List.reverseRecOn with
  | nil => exact start
  | append_singleton edits e ih =>
    rw [ofEdits_concat, step, ih, List.filterMap_append, List.head?_append]
    cases h : given? e <;> simp [h]

variable (edits : List (Edit H))

theorem handler_ofEdits : (ofEdits edits).handler = (edits.filterMap handler?).getLast? :=
  view_ofEdits_last Draft.handler rfl (fun d e => by rw [draft_edit_eq]) edits

theorem find?_literals_ofEdits (key : String) : Dict.find? key (ofEdits edits).literals =
    if isKey key then (edits.filterMap (literal? key)).getLast? else none := by
  refine (view_ofEdits_last (fun d => Dict.find? key d.literals) rfl
    (fun d e => find?_literals_edit d e key) edits).trans ?_
  split_ifs
  · rfl
  · simp

theorem param_ofEdits : (ofEdits edits).param = (edits.filterMap param?).head? :=
  view_ofEdits_first Draft.param rfl (fun d e => by rw [draft_edit_eq]) edits

theorem wildcard_ofEdits : (ofEdits edits).wildcard = (edits.filterMap wildcard?).head? :=
  view_ofEdits_first Draft.wildcard rfl (fun d e => by rw [draft_edit_eq]) edits

theorem ascending_ofEdits : Dict.Ascending (ofEdits edits).literals := by
  induction edits using List.reverseRecOn with
  | nil => exact Dict.ascending_nil
  | append_singleton edits e ih =>
    rw [ofEdits_concat]
    exact ascending_edit _ e ih

end Edits

/-! ### Refused edits -/

section Refused

variable {before : List (Edit H)} {e : Edit H} {fault : Fault}

theorem isSome_param_ofEdits_iff :
    (ofEdits before).param.isSome ↔ ∃ q other, .param q other ∈ before := by
  rw [param_ofEdits, List.head?_filterMap, List.findSome?_isSome_iff]
  constructor
  · rintro ⟨e, mem, h⟩
    cases e with
    | param q other => exact ⟨q, other, mem⟩
    | handler _ | literal _ _ | wildcard _ => cases h
  · rintro ⟨q, other, mem⟩
    exact ⟨_, mem, rfl⟩

theorem isSome_wildcard_ofEdits_iff :
    (ofEdits before).wildcard.isSome ↔ ∃ other, .wildcard other ∈ before := by
  rw [wildcard_ofEdits, List.head?_filterMap, List.findSome?_isSome_iff]
  constructor
  · rintro ⟨e, mem, h⟩
    cases e with
    | wildcard other => exact ⟨other, mem⟩
    | handler _ | literal _ _ | param _ _ => cases h
  · rintro ⟨other, mem⟩
    exact ⟨_, mem, rfl⟩

/-- Which edits are refused, and why. -/
theorem edit_ofEdits_eq_error_iff :
    ((ofEdits before).edit e).result = .error fault ↔ RefusedAfter before e fault := by
  constructor
  · intro h
    cases e with
    | handler handler => cases h
    | literal key child =>
      rw [edit, addLiteral] at h
      split at h
      · cases h
      · next noKey =>
        obtain rfl := Except.error.inj h
        exact .literal key child (Bool.eq_false_iff.mpr noKey)
    | param p child =>
      rw [edit] at h
      unfold setParam at h
      split at h
      · next taken hd =>
        obtain rfl := Except.error.inj h
        exact .param p child (isSome_param_ofEdits_iff.mp (by rw [hd]; rfl))
      · cases h
    | wildcard child =>
      rw [edit] at h
      unfold setWildcard at h
      split at h
      · next taken hd =>
        obtain rfl := Except.error.inj h
        exact .wildcard child (isSome_wildcard_ofEdits_iff.mp (by rw [hd]; rfl))
      · cases h
  · intro h
    cases h with
    | literal key child noKey => rw [edit, addLiteral, noKey]; rfl
    | param p child second =>
      obtain ⟨taken, hd⟩ := Option.isSome_iff_exists.mp (isSome_param_ofEdits_iff.mpr second)
      rw [edit, setParam, hd]
    | wildcard child second =>
      obtain ⟨taken, hd⟩ := Option.isSome_iff_exists.mp (isSome_wildcard_ofEdits_iff.mpr second)
      rw [edit, setWildcard, hd]

/-- A refused edit might as well not have been made. -/
theorem ofEdits_of_refused (h : RefusedAfter before e fault) (more : List (Edit H)) :
    ofEdits (before ++ e :: more) = ofEdits (before ++ more) := by
  have kept : ((ofEdits before).edit e).draft = ofEdits before :=
    draft_edit_of_error _ e (edit_ofEdits_eq_error_iff.mpr h)
  rw [ofEdits, List.foldl_append, List.foldl_cons, ofEdits, List.foldl_append]
  exact congrArg (more.foldl fun d e => (d.edit e).draft) kept

end Refused

/-- **What edits make of a draft.** An edit is refused if its key is none, or if it sets a parameter
or a wildcard and an earlier edit has set one. A refused edit leaves the draft, whatever it is, as
it was, so that later edits and freezing tell of it as if the edit had not been made. The frozen
position has the handler that was given last, for each key the child that was given last for it, and
no other literal children, the first parameter with its child and the first wildcard child. -/
theorem freeze_ofEdits :
    (∀ (before : List (Edit H)) (e : Edit H) (fault : Fault),
      ((ofEdits before).edit e).result = .error fault ↔ RefusedAfter before e fault) ∧
    (∀ (d : Draft H) (e : Edit H) (fault : Fault), (d.edit e).result = .error fault →
      (d.edit e).draft = d) ∧
    (∀ (before : List (Edit H)) (e : Edit H) (fault : Fault), RefusedAfter before e fault →
      ∀ more, ofEdits (before ++ e :: more) = ofEdits (before ++ more)) ∧
    ∀ (edits : List (Edit H)) (label : String),
      let t := (ofEdits edits).freeze label
      t.label = label ∧ t.handler = (edits.filterMap handler?).getLast? ∧
      (∀ key, t.literal? key =
        if isKey key then (edits.filterMap (literal? key)).getLast? else none) ∧
      Dict.Ascending t.literals ∧
      (∀ key child, (key, child) ∈ t.literals ↔ t.literal? key = some child) ∧
      t.param = (edits.filterMap param?).head? ∧
      t.wildcard = (edits.filterMap wildcard?).head? := by
  refine ⟨fun before e fault => edit_ofEdits_eq_error_iff,
    fun d e fault h => draft_edit_of_error d e h,
    fun before e fault h more => ofEdits_of_refused h more, fun edits label => ?_⟩
  have ascending := ascending_ofEdits edits
  exact ⟨rfl, handler_ofEdits edits, find?_literals_ofEdits edits, ascending,
    fun key child => (Dict.find?_eq_some_iff ascending).symm, param_ofEdits edits,
    wildcard_ofEdits edits⟩

theorem freeze_ofEdits_refused :
    let leaf : Tree Names := .node "LEAF" (some ⟨["leaf"]⟩) [] none none
    let before : List (Edit Names) := [.literal "a" .empty, .param (.text "x") leaf]
    let more : List (Edit Names) := [.handler ⟨["h"]⟩, .literal "a" leaf, .wildcard .empty]
    RefusedAfter before (.literal "a/b" leaf) (.invalidSegment "a/b") ∧
      RefusedAfter before (.param (.number "y") leaf) .duplicateParam ∧
      ((ofEdits before).edit (.param (.number "y") leaf)).result = .error .duplicateParam ∧
      ((ofEdits before).edit (.param (.number "y") leaf)).draft = ofEdits before ∧
      (ofEdits before).param = some (.text "x", leaf) ∧
      ofEdits (before ++ .param (.number "y") leaf :: more) = ofEdits (before ++ more) ∧
      ((ofEdits (before ++ more)).freeze "N").literal? "a" = some leaf := by
  intro leaf before more
  obtain ⟨refused, unchanged, kept, frozen⟩ := freeze_ofEdits (H := Names)
  have second : RefusedAfter before (.param (.number "y") leaf) .duplicateParam :=
    .param _ _ ⟨.text "x", leaf, by simp [before]⟩
  have answer := (refused _ _ _).mpr second
  obtain ⟨-, -, literal, -⟩ := frozen (before ++ more) "N"
  exact ⟨.literal _ _ (by decide), second, answer, unchanged _ _ _ answer, rfl,
    kept _ _ _ second more, (literal "a").trans rfl⟩

end Draft

end Routing
