import Routing.Proofs.Path

/-!
# Every path has parts

What is left of a path without its query and the slashes at its end is cut into a front and segments
(`exists_front`), so that every path has parts (`exists_parts`). Reading is thus the inverse of
writing, and no change to the front, to the slashes or to the query changes a segment.

Main statement: `segments_inverse_join`.
-/

namespace Routing.Path

/-! ### Parts of a path -/

theorem exists_query (path : List Char) :
    ∃ query, path = beforeQuery path ++ query ∧ (query = [] ∨ query.head? = some '?') := by
  refine ⟨path.dropWhile (· ≠ '?'), List.takeWhile_append_dropWhile.symm, ?_⟩
  cases h : path.dropWhile (· ≠ '?') with
  | nil => exact .inl rfl
  | cons c rest =>
    have stop := List.head?_dropWhile_not (· ≠ '?') path
    rw [h] at stop
    exact .inr (by simpa using stop)

theorem not_mem_beforeQuery (path : List Char) : '?' ∉ beforeQuery path :=
  fun h => by simpa using List.mem_takeWhile_imp h

theorem exists_slashes (cs : List Char) : ∃ n, cs = trimEnd cs ++ List.replicate n '/' := by
  have slashes : cs.rtakeWhile (· = '/') = List.replicate (cs.rtakeWhile (· = '/')).length '/' :=
    List.eq_replicate_iff.mpr ⟨rfl, fun c hc => by simpa using List.mem_rtakeWhile_imp hc⟩
  refine ⟨(cs.rtakeWhile (· = '/')).length, ?_⟩
  rw [← slashes]
  exact List.rdropWhile_append_rtakeWhile.symm

theorem getLast?_trimEnd (cs : List Char) : (trimEnd cs).getLast? ≠ some '/' := by
  intro last
  have nonempty : trimEnd cs ≠ [] := fun h => by simp [h] at last
  rw [List.getLast?_eq_some_getLast nonempty, Option.some.injEq] at last
  exact List.rdropWhile_last_not _ cs nonempty (decide_eq_true last)

/-- A text without a query and without a slash at its end is a front with segments. -/
theorem exists_front {cs : List Char} (noQuery : '?' ∉ cs) (last : cs.getLast? ≠ some '/') :
    ∃ front ss, cs = front ++ slashed ss ∧ '/' ∉ front ∧ AreSegments ss := by
  obtain ⟨front, parts, hsplit⟩ := List.exists_cons_of_ne_nil (List.splitOn_ne_nil '/' cs)
  have noSlash : ∀ part ∈ front :: parts, '/' ∉ part := fun part hpart =>
    not_mem_of_mem_splitOn (hsplit ▸ hpart)
  have toList : (parts.map String.ofList).map String.toList = parts := by
    rw [List.map_map]
    exact List.map_id'' (fun _ => String.toList_ofList) parts
  have joined : cs = front ++ slashed (parts.map String.ofList) := by
    rw [front_append_slashed, toList, ← hsplit, List.intercalate_splitOn]
  refine ⟨front, parts.map String.ofList, joined, noSlash front (by simp), ?_, ?_, ?_⟩
  · intro s hs
    obtain ⟨part, hpart, rfl⟩ := List.mem_map.mp hs
    rw [String.toList_ofList]
    exact noSlash part (List.mem_cons_of_mem _ hpart)
  · intro s hs h
    rw [joined] at noQuery
    refine noQuery (List.mem_append_right _ (List.mem_flatMap.mpr ⟨s, hs, ?_⟩))
    exact List.mem_cons_of_mem _ h
  · intro empty
    -- an empty segment at the end would leave its slash there
    obtain ⟨others, hothers⟩ := List.getLast?_eq_some_iff.mp empty
    refine last ?_
    rw [joined, hothers, slashed, List.flatMap_append]
    simp

theorem exists_parts (path : List Char) : ∃ front ss n query, Parts path front ss n query := by
  obtain ⟨query, hpath, hquery⟩ := exists_query path
  obtain ⟨n, hn⟩ := exists_slashes (beforeQuery path)
  have noQuery : '?' ∉ trimEnd (beforeQuery path) := fun h =>
    not_mem_beforeQuery path ((List.rdropWhile_prefix _ _).subset h)
  obtain ⟨front, ss, hfront, noSlash, hss⟩ := exists_front noQuery (getLast?_trimEnd _)
  rw [hfront] at hn noQuery
  refine ⟨front, ss, n, query, ?_, noSlash, fun h => ?_, hss, hquery⟩
  · rw [← hn]
    exact hpath
  · exact noQuery (List.mem_append_left _ h)

/-! ### Changes that keep the segments -/

section Parts

variable {path front query : List Char} {ss : List String} {n : Nat}

theorem Parts.append_slashes (h : Parts path front ss n query) (k : Nat) :
    ∃ m query', Parts (path ++ List.replicate k '/') front ss m query' := by
  obtain ⟨hpath, noSlash, noQuery, hss, hquery⟩ := h
  rcases hquery with rfl | hquery
  · refine ⟨n + k, [], ?_, noSlash, noQuery, hss, .inl rfl⟩
    rw [hpath, List.replicate_add]
    simp
  · -- a query takes everything behind it
    refine ⟨n, query ++ List.replicate k '/', ?_, noSlash, noQuery, hss, .inr ?_⟩
    · rw [hpath, List.append_assoc]
    · rw [List.head?_append, hquery]
      rfl

theorem Parts.replace_query (h : Parts path front ss n query) (k : Nat) (text : List Char) :
    Parts (beforeQuery path ++ List.replicate k '/' ++ '?' :: text) front ss (n + k)
      ('?' :: text) := by
  refine ⟨?_, h.noSlash, h.noQuery, h.segments, .inr rfl⟩
  rw [h.beforeQuery_eq, List.replicate_add]
  simp

theorem Parts.append_front (h : Parts path front ss n query) {text : List Char}
    (noSlash : '/' ∉ text) (noQuery : '?' ∉ text) :
    Parts (text ++ path) (text ++ front) ss n query := by
  refine ⟨by simp [h.path], ?_, ?_, h.segments, h.query⟩
  · simp [noSlash, h.noSlash]
  · simp [noQuery, h.noQuery]

end Parts

/-- A number of slashes. -/
def slashes (n : Nat) : String := String.ofList (List.replicate n '/')

theorem join_eq (ss : List String) : join ss = "/" ++ "/".intercalate ss := by
  rw [← String.toList_inj, join, String.toList_append, String.toList_intercalate,
    String.toList_ofList]
  rfl

/-- **Reading segments is the inverse of writing them.** What is read from a path are segments, and
lists of segments are what is read back when they are written. Nothing changes what is read when
slashes are put behind a path, when its query is replaced, with slashes in front of the new one, or
when a text is put in front of it that has neither a slash nor a question mark. -/
theorem segments_inverse_join :
    (∀ path, AreSegments (segments path) ∧
      segments ("/" ++ "/".intercalate (segments path)) = segments path) ∧
    (∀ ss, AreSegments ss → segments ("/" ++ "/".intercalate ss) = ss) ∧
    ∀ path text n,
      segments (path ++ slashes n) = segments path ∧
      segments (withoutQuery path ++ slashes n ++ "?" ++ text) = segments path ∧
      ('/' ∉ text.toList → '?' ∉ text.toList → segments (text ++ path) = segments path) := by
  have back : ∀ ss, AreSegments ss → segments ("/" ++ "/".intercalate ss) = ss := by
    intro ss hss
    rw [← join_eq]
    exact segments_join hss
  refine ⟨fun path => ?_, back, fun path text n => ?_⟩
  · obtain ⟨front, ss, m, query, parts⟩ := exists_parts path.toList
    rw [parts.segments_eq]
    exact ⟨parts.segments, back ss parts.segments⟩
  · obtain ⟨front, ss, m, query, parts⟩ := exists_parts path.toList
    rw [parts.segments_eq]
    refine ⟨?_, ?_, fun noSlash noQuery => ?_⟩
    · obtain ⟨m', query', longer⟩ := parts.append_slashes n
      have toList : (path ++ slashes n).toList = path.toList ++ List.replicate n '/' := by
        simp [slashes]
      rw [← toList] at longer
      exact longer.segments_eq
    · have replaced := parts.replace_query n text.toList
      have toList : (withoutQuery path ++ slashes n ++ "?" ++ text).toList =
          beforeQuery path.toList ++ List.replicate n '/' ++ '?' :: text.toList := by
        simp [slashes, withoutQuery]
      rw [← toList] at replaced
      exact replaced.segments_eq
    · have behind := parts.append_front noSlash noQuery
      rw [← String.toList_append] at behind
      exact behind.segments_eq

theorem segments_inverse_join_empty_segments :
    AreSegments ["", "a b", "", "c"] ∧ segments "/" = [] ∧
      segments ("/" ++ "/".intercalate ["", "a b", "", "c"]) = ["", "a b", "", "c"] ∧
      '/' ∉ "front".toList ∧ '?' ∉ "front".toList ∧
      segments ("front" ++ "//a b//c//?q/x") = ["", "a b", "", "c"] := by
  obtain ⟨-, back, changes⟩ := segments_inverse_join
  have hss : AreSegments ["", "a b", "", "c"] := ⟨by decide, by decide, by decide⟩
  have noSlash : '/' ∉ "front".toList := by decide
  have noQuery : '?' ∉ "front".toList := by decide
  have behind := (changes "//a b//c//?q/x" "front" 0).2.2 noSlash noQuery
  exact ⟨hss, rfl, back _ hss, noSlash, noQuery, behind.trans rfl⟩

end Routing.Path
