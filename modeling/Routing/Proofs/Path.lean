import Mathlib.Data.List.DropRight
import Routing.Path

/-!
# Reading and writing paths

A path has a front, which no slash is in, its segments with a slash in front of each, any number of
slashes, and a query, which may be missing. Whatever `Parts` a path has, their segments are those
that are read from it (`Parts.segments_eq`). `Path.join` writes segments with a slash in front of
the first and between any two, and these are read back (`segments_join`).
-/

namespace Routing.Path

/-- What the segments of a path are like: no slash and no question mark is in them, and the last one
is not empty. -/
structure AreSegments (segments : List String) : Prop where
  noSlash : ∀ s ∈ segments, '/' ∉ s.toList
  noQuery : ∀ s ∈ segments, '?' ∉ s.toList
  last : segments.getLast? ≠ some ""

/-- The segments with a slash in front of each. -/
def slashed (segments : List String) : List Char := segments.flatMap fun s => '/' :: s.toList

/-- A path in its parts. -/
structure Parts (path front : List Char) (segments : List String) (n : Nat) (query : List Char) :
    Prop where
  path : path = front ++ slashed segments ++ List.replicate n '/' ++ query
  noSlash : '/' ∉ front
  noQuery : '?' ∉ front
  segments : AreSegments segments
  query : query = [] ∨ query.head? = some '?'

/-! ### Reading the parts of a path -/

theorem beforeQuery_append {body query : List Char} (hbody : '?' ∉ body)
    (hquery : query = [] ∨ query.head? = some '?') : beforeQuery (body ++ query) = body := by
  have stop : beforeQuery query = [] := by
    rcases hquery with rfl | h
    · rfl
    · obtain ⟨rest, rfl⟩ := List.head?_eq_some_iff.mp h
      rfl
  rw [beforeQuery, List.takeWhile_append_of_pos, ← beforeQuery, stop, List.append_nil]
  intro c hc
  have other : c ≠ '?' := fun heq => hbody (heq ▸ hc)
  simpa using other

theorem trimEnd_append_slashes (body : List Char) (n : Nat) :
    trimEnd (body ++ List.replicate n '/') = trimEnd body := by
  rw [trimEnd, List.reverse_append, List.reverse_replicate, List.dropWhile_append_of_pos, trimEnd]
  intro c hc
  simpa using List.eq_of_mem_replicate hc

theorem trimEnd_eq_self {cs : List Char} (h : cs.getLast? ≠ some '/') : trimEnd cs = cs := by
  refine List.rdropWhile_eq_self_iff.mpr fun hne => ?_
  rw [List.getLast?_eq_some_getLast hne] at h
  simpa using h

theorem not_mem_of_mem_splitOn {c : Char} {cs part : List Char} (h : part ∈ cs.splitOn c) :
    c ∉ part := by
  induction cs generalizing part with
  | nil =>
    rw [List.splitOn_nil, List.mem_singleton] at h
    simp [h]
  | cons first cs ih =>
    rw [List.splitOn_cons_eq_if_modifyHead] at h
    obtain ⟨head, tail, hsplit⟩ := List.exists_cons_of_ne_nil (List.splitOn_ne_nil c cs)
    rw [hsplit] at h ih
    split_ifs at h with sep
    · rcases List.mem_cons.mp h with rfl | h
      · exact List.not_mem_nil
      · exact ih h
    · rw [List.modifyHead_cons] at h
      rcases List.mem_cons.mp h with rfl | h
      · have here : c ∉ head := ih (List.mem_cons_self ..)
        simp only [List.mem_cons, not_or]
        exact ⟨fun heq => sep (by simp [heq]), here⟩
      · exact ih (List.mem_cons_of_mem _ h)

section Parts

variable {front query : List Char} {ss : List String} {n : Nat}

theorem not_mem_slashed (h : ∀ s ∈ ss, '?' ∉ s.toList) : '?' ∉ slashed ss := by
  intro mem
  obtain ⟨s, hs, mem⟩ := List.mem_flatMap.mp mem
  rcases List.mem_cons.mp mem with slash | mem
  · simp at slash
  · exact h s hs mem

/-- Neither the front nor a segment leaves a slash at the end. -/
theorem getLast?_front_slashed (hfront : '/' ∉ front) (h : AreSegments ss) :
    (front ++ slashed ss).getLast? ≠ some '/' := by
  intro last
  rcases ss.eq_nil_or_concat' with rfl | ⟨others, s, rfl⟩
  · rw [slashed, List.flatMap_nil, List.append_nil] at last
    exact hfront (List.mem_of_getLast? last)
  · have nonempty : s.toList ≠ [] := by
      have hs := h.last
      rw [List.getLast?_concat] at hs
      simpa using hs
    have ending : s.toList.getLast? = some '/' := by
      rw [slashed, List.flatMap_append, List.flatMap_singleton, List.getLast?_append,
        List.getLast?_append, List.getLast?_cons] at last
      simpa [List.getLast?_eq_some_getLast nonempty] using last
    exact h.noSlash s (by simp) (List.mem_of_getLast? ending)

theorem front_append_slashed (front : List Char) (ss : List String) :
    front ++ slashed ss = ['/'].intercalate (front :: ss.map String.toList) := by
  induction ss generalizing front with
  | nil => simp [slashed]
  | cons s ss ih =>
    rw [List.map_cons, List.intercalate_cons_of_ne_nil (by simp), ← ih]
    simp [slashed]

/-- Behind the front, each slash begins a segment. -/
theorem splitOn_front_slashed (hfront : '/' ∉ front) (h : ∀ s ∈ ss, '/' ∉ s.toList) :
    (front ++ slashed ss).splitOn '/' = front :: ss.map String.toList := by
  rw [front_append_slashed]
  refine List.splitOn_intercalate '/' ?_ (by simp)
  intro part hpart
  rcases List.mem_cons.mp hpart with rfl | hpart
  · exact hfront
  · obtain ⟨s, hs, rfl⟩ := List.mem_map.mp hpart
    exact h s hs

theorem Parts.beforeQuery_eq {path : List Char} (h : Parts path front ss n query) :
    beforeQuery path = front ++ slashed ss ++ List.replicate n '/' := by
  rw [h.path]
  refine beforeQuery_append ?_ h.query
  simp only [List.mem_append, not_or]
  refine ⟨⟨h.noQuery, not_mem_slashed h.segments.noQuery⟩, fun mem => ?_⟩
  exact absurd (List.eq_of_mem_replicate mem) (by decide)

/-- **The segments of a path's parts are those that are read.** -/
theorem Parts.segments_eq {path : String} (h : Parts path.toList front ss n query) :
    Path.segments path = ss := by
  have body : trimEnd (beforeQuery path.toList) = front ++ slashed ss := by
    rw [h.beforeQuery_eq, trimEnd_append_slashes]
    exact trimEnd_eq_self (getLast?_front_slashed h.noSlash h.segments)
  rw [Path.segments, body, splitOn_front_slashed h.noSlash h.segments.noSlash, List.tail_cons,
    List.map_map]
  simp

end Parts

/-! ### Written paths -/

/-- The path of segments. -/
def join (segments : List String) : String :=
  String.ofList ('/' :: ['/'].intercalate (segments.map String.toList))

/-- Every segment of a path that has any follows a slash. -/
theorem toList_join {segments : List String} (h : segments ≠ []) :
    (join segments).toList = slashed segments := by
  rw [join, String.toList_ofList]
  obtain ⟨s, rest, rfl⟩ := List.exists_cons_of_ne_nil h
  rw [List.map_cons, ← front_append_slashed]
  simp [slashed]

/-- What is written is read back. -/
theorem segments_join {segments : List String} (h : AreSegments segments) :
    Path.segments (join segments) = segments := by
  by_cases hne : segments = []
  · subst hne
    rfl
  · have parts : Parts (join segments).toList [] segments 0 [] :=
      ⟨by simp [toList_join hne], by simp, by simp, h, .inl rfl⟩
    exact parts.segments_eq

theorem not_mem_of_isKey {s : String} (h : isKey s = true) {c : Char} (hc : isKeyChar c = false) :
    c ∉ s.toList := by
  intro hmem
  obtain ⟨-, hall⟩ := Bool.and_eq_true_iff.mp h
  rw [List.all_eq_true.mp hall c hmem] at hc
  cases hc

theorem ne_empty_of_isKey {s : String} (h : isKey s = true) : s ≠ "" := by
  rintro rfl
  cases h

/-- Keys are read back. -/
theorem segments_join_of_isKey {segments : List String} (h : ∀ s ∈ segments, isKey s = true) :
    Path.segments (join segments) = segments := by
  refine segments_join ⟨fun s hs => ?_, fun s hs => ?_, fun hlast => ?_⟩
  · exact not_mem_of_isKey (h s hs) rfl
  · exact not_mem_of_isKey (h s hs) rfl
  · exact ne_empty_of_isKey (h "" (List.mem_of_getLast? hlast)) rfl

end Routing.Path
