/-!
# Dictionaries with text keys

`Dict α` is a list of entries. `Dict.insert` walks past the smaller keys and replaces an entry with
the same key; `Dict.find?` takes the first entry with the key. The two look-up laws
`find?_insert_self` and `find?_insert_of_ne` hold of every list of entries; on the `Ascending` ones,
which `insert` keeps, `find?` also decides membership and determines the list.

Whoever lists entries sorts them (`Dict.sorted`); what is ascending is listed as it is.
-/

universe u v

namespace Routing

/-- Entries, each a key and a value. -/
abbrev Dict (α : Type u) := List (String × α)

namespace Dict

variable {α : Type u}

/-- Puts a value under a key, in place of one that was there. -/
def insert (key : String) (value : α) : Dict α → Dict α
  | [] => [(key, value)]
  | (k, v) :: rest =>
    if key < k then (key, value) :: (k, v) :: rest
    else if key = k then (key, value) :: rest
    else (k, v) :: insert key value rest

/-- The value under a key. -/
def find? (key : String) : Dict α → Option α
  | [] => none
  | (k, v) :: rest => if key = k then some v else find? key rest

/-- The keys in the order of the entries. -/
def keys (d : Dict α) : List String := d.map Prod.fst

/-- The entries in the order of their keys. -/
def sorted (d : Dict α) : Dict α := d.mergeSort fun a b => a.1 ≤ b.1

/-- Keys are strictly ascending by code points. -/
def Ascending (d : Dict α) : Prop := d.Pairwise fun a b => a.1 < b.1

/-! ### Look-up -/

@[simp] theorem find?_nil (key : String) : find? key ([] : Dict α) = none := rfl

theorem find?_cons (key k : String) (v : α) (rest : Dict α) :
    find? key ((k, v) :: rest) = if key = k then some v else find? key rest := rfl

@[simp] theorem find?_insert_self (key : String) (value : α) (d : Dict α) :
    find? key (insert key value d) = some value := by
  induction d with
  | nil => simp [insert, find?]
  | cons entry rest ih =>
    obtain ⟨k, v⟩ := entry
    rw [insert]
    split
    · simp [find?]
    · split
      · simp [find?]
      · next hne => simp [find?, hne, ih]

theorem find?_insert_of_ne {key other : String} (h : other ≠ key) (value : α) (d : Dict α) :
    find? other (insert key value d) = find? other d := by
  induction d with
  | nil => simp [insert, find?, h]
  | cons entry rest ih =>
    obtain ⟨k, v⟩ := entry
    rw [insert]
    split
    · simp [find?, h]
    · split
      · next heq => subst heq; simp [find?, h]
      · by_cases hk : other = k <;> simp [find?, hk, ih]

theorem find?_insert (key other : String) (value : α) (d : Dict α) :
    find? other (insert key value d) = if other = key then some value else find? other d := by
  by_cases h : other = key
  · subst h; simp
  · simp [h, find?_insert_of_ne h]

/-! ### Order -/

@[simp] theorem ascending_nil : Ascending ([] : Dict α) := List.Pairwise.nil

theorem mem_insert {key : String} {value : α} {entry : String × α} {d : Dict α}
    (h : entry ∈ insert key value d) : entry = (key, value) ∨ entry ∈ d := by
  induction d with
  | nil => simpa [insert] using h
  | cons head rest ih =>
    obtain ⟨k, v⟩ := head
    rw [insert] at h
    split at h
    · simpa using h
    · split at h <;> grind

theorem Ascending.insert (key : String) (value : α) {d : Dict α} (h : Ascending d) :
    Ascending (insert key value d) := by
  induction d with
  | nil => exact List.pairwise_singleton ..
  | cons head rest ih =>
    obtain ⟨k, v⟩ := head
    obtain ⟨below, restAscending⟩ := List.pairwise_cons.1 h
    rw [Dict.insert]
    split
    · next hlt =>
      refine List.pairwise_cons.2 ⟨fun entry mem => ?_, h⟩
      rcases List.mem_cons.1 mem with rfl | mem
      · exact hlt
      · exact String.lt_trans hlt (below entry mem)
    · next hlt =>
      split
      · next heq => subst heq; exact List.pairwise_cons.2 ⟨below, restAscending⟩
      · next hne =>
        refine List.pairwise_cons.2 ⟨fun entry mem => ?_, ih restAscending⟩
        rcases mem_insert mem with rfl | mem
        · exact (Std.lt_trichotomy key k).resolve_left hlt |>.resolve_left hne
        · exact below entry mem

/-- What is in order is listed as it is. -/
theorem Ascending.sorted_eq {d : Dict α} (h : Ascending d) : d.sorted = d :=
  List.mergeSort_of_pairwise <| List.Pairwise.imp (fun {a _} lt =>
    decide_eq_true (String.not_lt.mp fun gt => String.lt_irrefl a.1 (String.lt_trans lt gt))) h

/-- Entries are sorted by their keys, whatever is found under these. -/
theorem sorted_map {β : Type v} (f : String × α → β) (d : Dict α) :
    sorted (d.map fun entry => (entry.1, f entry)) =
      d.sorted.map fun entry => (entry.1, f entry) := by
  symm
  exact List.map_mergeSort fun _ _ _ _ => rfl

theorem find?_eq_some_iff {d : Dict α} (h : Ascending d) {key : String} {value : α} :
    find? key d = some value ↔ (key, value) ∈ d := by
  induction d with
  | nil => simp
  | cons head rest ih =>
    obtain ⟨k, v⟩ := head
    obtain ⟨below, restAscending⟩ := List.pairwise_cons.1 h
    by_cases hk : key = k
    · subst hk
      have absent : (key, value) ∉ rest := fun mem => String.lt_irrefl key (below (key, value) mem)
      simp [find?_cons, absent, eq_comm]
    · simp [find?_cons, hk, ih restAscending]

theorem find?_eq_none_of_lt {d : Dict α} {key : String} (h : ∀ entry ∈ d, key < entry.1) :
    find? key d = none := by
  induction d with
  | nil => rfl
  | cons head rest ih =>
    obtain ⟨k, v⟩ := head
    have hne : key ≠ k := fun heq => String.lt_irrefl k (heq ▸ h (k, v) (by simp))
    rw [find?_cons, if_neg hne]
    exact ih fun entry mem => h entry (List.mem_cons_of_mem _ mem)

/-- Ascending dictionaries with the same look-ups are equal. -/
theorem ext_of_find? {d e : Dict α} (hd : Ascending d) (he : Ascending e)
    (h : ∀ key, find? key d = find? key e) : d = e := by
  induction d generalizing e with
  | nil =>
    cases e with
    | nil => rfl
    | cons head rest =>
      obtain ⟨k, v⟩ := head
      simpa [find?_cons] using h k
  | cons head rest ih =>
    obtain ⟨k, v⟩ := head
    obtain ⟨below, restAscending⟩ := List.pairwise_cons.1 hd
    cases e with
    | nil => simpa [find?_cons] using h k
    | cons head' rest' =>
      obtain ⟨k', v'⟩ := head'
      obtain ⟨below', restAscending'⟩ := List.pairwise_cons.1 he
      have noneBelow : ∀ {key : String} {entries : Dict α} {k : String} {v : α}, key < k →
          (∀ entry ∈ entries, k < entry.1) → find? key ((k, v) :: entries) = none :=
        fun hlt hbelow => find?_eq_none_of_lt fun entry mem => by
          rcases List.mem_cons.1 mem with rfl | mem
          · exact hlt
          · exact String.lt_trans hlt (hbelow entry mem)
      rcases Std.lt_trichotomy k k' with hlt | heq | hgt
      · have hk := h k
        rw [noneBelow hlt below', find?_cons, if_pos rfl] at hk
        simp at hk
      · subst heq
        have hv : v = v' := by simpa [find?_cons] using h k
        subst hv
        rw [ih restAscending restAscending' fun key => ?_]
        by_cases hk : key = k
        · subst hk
          rw [find?_eq_none_of_lt below, find?_eq_none_of_lt below']
        · simpa [find?_cons, hk] using h key
      · have hk := h k'
        rw [noneBelow hgt below, find?_cons, if_pos rfl] at hk
        simp at hk

end Dict

end Routing
