import Mathlib.Data.List.Induction
import Routing.Captures

/-!
# What captures hold

A value is looked up under its name and type, and the last one stored there is found
(`int?_addAll`, `text?_addAll`). Captures may override others: every name keeps the value of the
later ones if they have it. Storing a value in the later captures is storing it in the result
(`override_add`); as the captures of a walk keep their names in order, this is an equation.

`Findings` are what a walk finds, kept without captures: two maps and a list. Walks that are given
as a reference keep findings, and `Captures.findings` is the view of captures that is compared with
them; storing and collecting agree with it (`findings_add`, `findings_addWildcard`).
-/

universe u

namespace Routing

namespace Dict

variable {α : Type u}

/-- The entries of both, where those of the second go before those of the first. -/
def override (base later : Dict α) : Dict α :=
  later.foldr (fun entry d => Dict.insert entry.1 entry.2 d) base

theorem find?_override (key : String) (base later : Dict α) :
    find? key (base.override later) = (find? key later).or (find? key base) := by
  induction later with
  | nil => rfl
  | cons entry rest ih =>
    obtain ⟨k, v⟩ := entry
    change find? key (Dict.insert k v (base.override rest)) = _
    rw [find?_insert, find?_cons, ih]
    by_cases hk : key = k
    · rw [if_pos hk, if_pos hk, Option.some_or]
    · rw [if_neg hk, if_neg hk]

theorem Ascending.override {base : Dict α} (h : Ascending base) (later : Dict α) :
    Ascending (base.override later) := by
  induction later with
  | nil => exact h
  | cons entry rest ih => exact ih.insert ..

end Dict

/-! ### Values by type -/

namespace Value

def int? : Value → Option Int64
  | .int n => some n
  | .text _ => none

def text? : Value → Option String
  | .int _ => none
  | .text s => some s

end Value

namespace Captures

theorem int?_add (k name : String) (v : Value) (c : Captures) :
    (c.add name v).int? k = if k = name then v.int?.or (c.int? k) else c.int? k := by
  cases v with
  | int n => exact Dict.find?_insert ..
  | text s => exact (ite_self _).symm

theorem text?_add (k name : String) (v : Value) (c : Captures) :
    (c.add name v).text? k = if k = name then v.text?.or (c.text? k) else c.text? k := by
  cases v with
  | int n => exact (ite_self _).symm
  | text s => exact Dict.find?_insert ..

@[simp] theorem wildcard_add (name : String) (v : Value) (c : Captures) :
    (c.add name v).wildcard = c.wildcard := by
  cases v <;> rfl

@[simp] theorem addWildcard_nil (c : Captures) : c.addWildcard [] = c := by
  cases c
  simp [addWildcard]

end Captures

/-! ### Findings -/

/-- A map of integers by name, a map of texts by name, and the segments collected at the end. -/
@[ext]
structure Findings where
  integers : String → Option Int64
  texts : String → Option String
  rest : List String

namespace Findings

def nothing : Findings := ⟨fun _ => none, fun _ => none, []⟩

/-- Puts a value under a name into the map of the value's type, in place of an earlier one. -/
def store (name : String) (v : Value) (f : Findings) : Findings :=
  match v with
  | .int n => { f with integers := fun k => if k = name then some n else f.integers k }
  | .text s => { f with texts := fun k => if k = name then some s else f.texts k }

/-- Takes segments, behind those taken before. -/
def collect (segments : List String) (f : Findings) : Findings :=
  { f with rest := f.rest ++ segments }

end Findings

namespace Captures

/-- What is found in captures under each name, by type, and the segments that the wildcard took. -/
def findings (c : Captures) : Findings := ⟨fun k => c.int? k, fun k => c.text? k, c.wildcard⟩

theorem findings_empty : empty.findings = .nothing := rfl

theorem findings_add (name : String) (v : Value) (c : Captures) :
    (c.add name v).findings = c.findings.store name v := by
  cases v with
  | int n => exact Findings.ext (funext fun k => Dict.find?_insert ..) rfl rfl
  | text s => exact Findings.ext rfl (funext fun k => Dict.find?_insert ..) rfl

theorem findings_addWildcard (segments : List String) (c : Captures) :
    (c.addWildcard segments).findings = c.findings.collect segments := rfl

/-! ### Values stored one after the other -/

/-- Stores values one after the other. -/
def addAll (values : List (String × Value)) (c : Captures) : Captures :=
  values.foldl (fun c value => c.add value.1 value.2) c

@[simp] theorem addAll_nil (c : Captures) : c.addAll [] = c := rfl

theorem addAll_cons (name : String) (v : Value) (values : List (String × Value)) (c : Captures) :
    c.addAll ((name, v) :: values) = (c.add name v).addAll values := rfl

/-- The parts that values of one name have, in their order. -/
def partsOf {β : Type u} (part : Value → Option β) (name : String)
    (values : List (String × Value)) : List β :=
  values.filterMap fun value => if name = value.1 then part value.2 else none

/-- Where storing one value replaces what is found under its name, the last one is found. -/
theorem look_addAll {β : Type u} {part : Value → Option β} {look : String → Captures → Option β}
    (law : ∀ k name v c,
      look k (c.add name v) = if k = name then (part v).or (look k c) else look k c)
    (k : String) (values : List (String × Value)) (c : Captures) :
    look k (c.addAll values) = (partsOf part k values).getLast?.or (look k c) := by
  induction values using List.reverseRecOn with
  | nil => rfl
  | append_singleton values value ih =>
    rw [addAll, List.foldl_append, List.foldl_cons, List.foldl_nil, law, ← addAll, ih, partsOf,
      partsOf, List.filterMap_append, List.getLast?_append]
    by_cases hk : k = value.1
    · cases hv : part value.2 <;> simp [hk, hv]
    · simp [hk]

theorem int?_addAll (k : String) (values : List (String × Value)) (c : Captures) :
    (c.addAll values).int? k = (partsOf Value.int? k values).getLast?.or (c.int? k) :=
  look_addAll int?_add k values c

theorem text?_addAll (k : String) (values : List (String × Value)) (c : Captures) :
    (c.addAll values).text? k = (partsOf Value.text? k values).getLast?.or (c.text? k) :=
  look_addAll text?_add k values c

@[simp] theorem wildcard_addAll (values : List (String × Value)) (c : Captures) :
    (c.addAll values).wildcard = c.wildcard := by
  induction values generalizing c with
  | nil => rfl
  | cons value values ih => rw [addAll_cons, ih, wildcard_add]

/-! ### Names in order -/

/-- Integers and texts are kept in the order of their names, each name once. -/
structure Ordered (c : Captures) : Prop where
  integers : Dict.Ascending c.integers
  strings : Dict.Ascending c.strings

theorem ordered_empty : empty.Ordered := ⟨Dict.ascending_nil, Dict.ascending_nil⟩

theorem Ordered.add {c : Captures} (h : c.Ordered) (name : String) (v : Value) :
    (c.add name v).Ordered := by
  cases v with
  | int n => exact ⟨h.integers.insert .., h.strings⟩
  | text s => exact ⟨h.integers, h.strings.insert ..⟩

theorem Ordered.addWildcard {c : Captures} (h : c.Ordered) (segments : List String) :
    (c.addWildcard segments).Ordered := ⟨h.integers, h.strings⟩

/-- Ordered captures in which the same is found are equal. -/
theorem Ordered.ext {c d : Captures} (hc : c.Ordered) (hd : d.Ordered)
    (ints : ∀ k, c.int? k = d.int? k) (texts : ∀ k, c.text? k = d.text? k)
    (rest : c.wildcard = d.wildcard) : c = d := by
  have integers : c.integers = d.integers := Dict.ext_of_find? hc.integers hd.integers ints
  have strings : c.strings = d.strings := Dict.ext_of_find? hc.strings hd.strings texts
  cases c
  cases d
  congr

/-! ### Overriding -/

/-- The names of both with the values of the later captures, and the wildcard of these. -/
def override (c later : Captures) : Captures where
  integers := c.integers.override later.integers
  strings := c.strings.override later.strings
  wildcard := later.wildcard

theorem int?_override (k : String) (c later : Captures) :
    (c.override later).int? k = (later.int? k).or (c.int? k) := Dict.find?_override ..

theorem text?_override (k : String) (c later : Captures) :
    (c.override later).text? k = (later.text? k).or (c.text? k) := Dict.find?_override ..

theorem Ordered.override {c : Captures} (h : c.Ordered) (later : Captures) :
    (c.override later).Ordered := ⟨h.integers.override _, h.strings.override _⟩

theorem override_empty {c : Captures} (h : c.wildcard = []) : c.override empty = c := by
  cases c
  cases h
  rfl

theorem override_add {c : Captures} (h : c.Ordered) (later : Captures) (name : String)
    (v : Value) : c.override (later.add name v) = (c.override later).add name v := by
  refine (h.override _).ext ((h.override later).add name v) (fun k => ?_) (fun k => ?_) ?_
  · rw [int?_override, int?_add, int?_add, int?_override]
    by_cases hk : k = name
    · rw [if_pos hk, if_pos hk, Option.or_assoc]
    · rw [if_neg hk, if_neg hk]
  · rw [text?_override, text?_add, text?_add, text?_override]
    by_cases hk : k = name
    · rw [if_pos hk, if_pos hk, Option.or_assoc]
    · rw [if_neg hk, if_neg hk]
  · rw [wildcard_add]
    exact wildcard_add ..

/-- A parameter reads into the later captures as it does into the result. -/
theorem read?_override {c : Captures} (h : c.Ordered) (later : Captures) (p : Param)
    (segment : String) :
    (c.override later).read? p segment = (later.read? p segment).map c.override := by
  rw [read?, read?, Option.map_map]
  congr 1
  funext v
  exact (override_add h later p.name v).symm

end Captures

end Routing
