import Routing.Proofs.Composed
import Routing.Proofs.Grammar
import Routing.Proofs.Path

/-!
# Printed routes

A `Printable` route is sound, and its parameters are texts and integers with names that can stand
between slashes and colons. Its printed form is a pattern that is cut into the texts of its pieces,
and each of them spells its piece again, but for the kind of a parameter, which is not printed.
Every parsed route is printable, so that printing and parsing it once more changes nothing that is
printed.

Main statement: `parse_display`.
-/

universe u

namespace Routing

/-- A text or an integer under a name that can stand between slashes and colons. -/
def Param.Printable (p : Param) : Prop :=
  ∃ name, (p = .text name ∨ p = .number name) ∧ Piece.IsName name ∧ '/' ∉ name.toList

namespace Piece

/-- The text of a piece, without the slash in front of it. -/
def written : Piece → String
  | .literal text => text
  | .param p => ":" ++ p.name
  | .wildcard => "*"

/-- The piece with every parameter replaced by a text parameter of its name. -/
def asText : Piece → Piece
  | .literal text => .literal text
  | .param p => .param (.text p.name)
  | .wildcard => .wildcard

theorem display_eq (piece : Piece) : piece.display = "/" ++ piece.written := by
  cases piece with
  | literal text => rfl
  | param p =>
    have marker : "/:" = "/" ++ ":" := by decide
    rw [display, written, marker, String.append_assoc]
  | wildcard => rfl

@[simp] theorem display_asText (piece : Piece) : piece.asText.display = piece.display := by
  cases piece <;> rfl

/-- A piece that can stand in a pattern, in the last place or in front of others. -/
structure Printable (isLast : Bool) (piece : Piece) : Prop where
  key : ∀ text, piece = .literal text → isKey text = true
  name : ∀ p, piece = .param p → p.Printable
  last : piece = .wildcard → isLast = true

section Printable

variable {isLast : Bool} {piece : Piece} (h : piece.Printable isLast)
include h

theorem Printable.spells : Spells isLast piece.written piece.asText := by
  cases piece with
  | literal text =>
    obtain ⟨nonempty, chars⟩ := isKey_iff.mp (h.key text rfl)
    exact .literal nonempty chars
  | param p =>
    obtain ⟨name, rfl | rfl, hname, -⟩ := h.name p rfl
    · exact .name hname
    · exact .name hname
  | wildcard => exact .wildcard (h.last rfl)

theorem Printable.noSlash : '/' ∉ piece.written.toList := by
  cases piece with
  | literal text => exact Path.not_mem_of_isKey (h.key text rfl) rfl
  | param p =>
    obtain ⟨name, rfl | rfl, -, noSlash⟩ := h.name p rfl
    · simpa [written, Param.text] using noSlash
    · simpa [written, Param.number] using noSlash
  | wildcard => simp [written]

theorem Printable.written_ne_empty : piece.written ≠ "" := by
  cases piece with
  | literal text => exact Path.ne_empty_of_isKey (h.key text rfl)
  | param p =>
    intro empty
    have chars := congrArg String.toList empty
    simp [written] at chars
  | wildcard => simp [written]

end Printable

end Piece

namespace Route

variable {r : Route}

/-- Every piece can stand in its place in a pattern. -/
structure Printable (r : Route) : Prop extends Sound r where
  name : ∀ p, .param p ∈ r → p.Printable

theorem Printable.head {piece : Piece} (h : Printable (piece :: r)) :
    piece.Printable r.isEmpty := by
  obtain ⟨key, last, -⟩ := sound_cons_iff.mp h.toSound
  refine ⟨key, fun p hp => h.name p (by simp [hp]), fun hw => ?_⟩
  rw [last hw]
  rfl

theorem Printable.tail {piece : Piece} (h : Printable (piece :: r)) : Printable r :=
  ⟨(sound_cons_iff.mp h.toSound).2.2, fun p hp => h.name p (List.mem_cons_of_mem _ hp)⟩

/-! ### The texts of a printed route -/

theorem Printable.spelled (h : r.Printable) :
    Spelled (r.map Piece.written) (r.map Piece.asText) := by
  induction r with
  | nil => exact .nil
  | cons piece r ih =>
    refine .cons ?_ (ih h.tail)
    rw [List.isEmpty_map]
    exact h.head.spells

/-- Every piece of a printable route can stand somewhere in a pattern. -/
theorem Printable.of_mem (h : r.Printable) {piece : Piece} (mem : piece ∈ r) :
    ∃ isLast, piece.Printable isLast := by
  induction r with
  | nil => cases mem
  | cons first r ih =>
    rcases List.mem_cons.mp mem with rfl | mem
    · exact ⟨_, h.head⟩
    · exact ih h.tail mem

/-- A route is printed as its texts with a slash in front of the first and between any two. -/
theorem display_eq_intercalate (hne : r ≠ []) :
    r.display = "/" ++ "/".intercalate (r.map Piece.written) := by
  have nonempty : r.isEmpty = false := by simpa using hne
  rw [display, nonempty, if_neg Bool.false_ne_true]
  clear nonempty
  induction r with
  | nil => exact absurd rfl hne
  | cons piece r ih =>
    rw [List.map_cons, List.map_cons, String.join_cons, Piece.display_eq]
    cases r with
    | nil => simp
    | cons next r =>
      rw [ih (by simp), String.intercalate_cons_of_ne_nil (by simp)]
      simp only [String.append_assoc]

theorem cut_intercalate (h : r.Printable) :
    Cut ("/".intercalate (r.map Piece.written)) (r.map Piece.written) := by
  refine ⟨rfl, fun text htext => ?_, fun single => ?_⟩
  · obtain ⟨piece, mem, rfl⟩ := List.mem_map.mp htext
    obtain ⟨_, printable⟩ := h.of_mem mem
    exact printable.noSlash
  · obtain ⟨piece, rfl, empty⟩ := List.map_eq_singleton_iff.mp single
    exact h.head.written_ne_empty empty

/-- Texts without slashes, the last one not empty, are written without a slash at the end. -/
theorem getLast?_intercalate {texts : List String} (noSlash : ∀ text ∈ texts, '/' ∉ text.toList)
    (last : texts.getLast? ≠ some "") : ("/".intercalate texts).toList.getLast? ≠ some '/' := by
  rcases texts.eq_nil_or_concat' with rfl | ⟨front, text, rfl⟩
  · simp
  have nonempty : text.toList ≠ [] := by
    rw [List.getLast?_concat] at last
    simpa using last
  have final : ("/".intercalate (front ++ [text])).toList.getLast? = text.toList.getLast? := by
    by_cases hfront : front = []
    · simp [hfront]
    · rw [String.intercalate_append_of_ne_nil hfront (by simp), String.intercalate_singleton,
        String.toList_append, List.getLast?_append_of_ne_nil _ nonempty]
  -- a slash at the end would belong to the last text
  rw [final]
  intro h
  exact noSlash text (by simp) (List.mem_of_getLast? h)

theorem body_display (h : r.Printable) :
    Body r.display ("/".intercalate (r.map Piece.written)) := by
  by_cases hne : r = []
  · subst hne
    exact ⟨"", .inl rfl, .inr ⟨rfl, by simp⟩⟩
  refine ⟨_, .inl (display_eq_intercalate hne), .inr ⟨rfl, ?_⟩⟩
  refine getLast?_intercalate (cut_intercalate h).noSlash fun last => ?_
  obtain ⟨piece, mem, empty⟩ := List.mem_map.mp (List.mem_of_getLast? last)
  obtain ⟨_, printable⟩ := h.of_mem mem
  exact printable.written_ne_empty empty

/-- **A printed route is parsed again**, as it was but for the kinds of its parameters. -/
theorem parse_display_of_printable (h : r.Printable) :
    parse r.display = .ok (r.map Piece.asText) :=
  (parse_eq_ok_iff (body_display h) (cut_intercalate h)).mpr h.spelled

/-! ### Parsed routes -/

theorem Spelled.name {texts : List String} (h : Spelled texts r)
    (noSlash : ∀ text ∈ texts, '/' ∉ text.toList) {p : Param} (hp : .param p ∈ r) :
    p.Printable := by
  induction h with
  | nil => cases hp
  | @cons text texts piece r head _ ih =>
    rcases List.mem_cons.mp hp with rfl | hp
    · have here : '/' ∉ text.toList := noSlash text (List.mem_cons_self ..)
      cases head with
      | @name name hname => exact ⟨name, .inl rfl, hname, by simpa using here⟩
      | @text name kind hname =>
        have split : '/' ∉ name.toList := fun mem => here (by simp [mem])
        exact ⟨name, .inl rfl, hname, split⟩
      | @number name kind hname =>
        have split : '/' ∉ name.toList := fun mem => here (by simp [mem])
        exact ⟨name, .inr rfl, hname, split⟩
    · exact ih (fun t ht => noSlash t (List.mem_cons_of_mem _ ht)) hp

theorem printable_of_parse {pattern : String} (h : parse pattern = .ok r) : r.Printable := by
  obtain ⟨body, hbody⟩ := exists_body pattern
  obtain ⟨texts, hcut⟩ := exists_cut body
  have spelled : Spelled texts r := (parse_eq_ok_iff hbody hcut).mp h
  exact ⟨(plain_of_parse h).sound, fun p hp => spelled.name hcut.noSlash hp⟩

theorem display_map_asText (r : Route) : display (r.map Piece.asText) = r.display := by
  rw [display, display, List.isEmpty_map, List.map_map]
  have same : Piece.display ∘ Piece.asText = Piece.display := by
    funext piece
    exact piece.display_asText
  rw [same]

/-- Without integer parameters nothing is lost in print. -/
theorem map_asText_eq (h : r.Printable) (noNumber : ∀ name, .param (.number name) ∉ r) :
    r.map Piece.asText = r := by
  have same : ∀ piece ∈ r, piece.asText = piece := by
    intro piece mem
    cases piece with
    | literal text => rfl
    | wildcard => rfl
    | param p =>
      obtain ⟨name, rfl | rfl, -⟩ := h.name p mem
      · rfl
      · exact absurd mem (noNumber name)
  calc r.map Piece.asText = r.map id := List.map_congr_left same
    _ = r := List.map_id r

/-- **A printed route is a pattern of the route.** Take a route of keys and of text and integer
parameters whose names are not empty and have no slashes and colons, with a wildcard at most at its
end. What is printed of it is parsed, and gives the same pieces, but every integer parameter has
become a text parameter. Every parsed route is such a route, so that its print, parsed and printed
once more, stays the same; and if it has no integer parameter, the pattern and the print of its
route are built into the same tree. -/
theorem parse_display {H : Type u} :
    (∀ r : Route, r.Printable → parse r.display = .ok (r.map Piece.asText)) ∧
    ∀ (pattern : String) (r : Route), parse pattern = .ok r → r.Printable ∧
      (∃ again, parse r.display = .ok again ∧ again.display = r.display) ∧
      ((∀ name, .param (.number name) ∉ r) → ∀ handler : H, ∃ t,
        (buildPattern pattern handler).result = .ok t ∧
        (buildPattern r.display handler).result = .ok t) := by
  refine ⟨fun r => parse_display_of_printable, fun pattern r h => ?_⟩
  have printable : r.Printable := printable_of_parse h
  have reread := parse_display_of_printable printable
  refine ⟨printable, ⟨_, reread, display_map_asText r⟩, fun noNumber handler => ?_⟩
  rw [map_asText_eq printable noNumber] at reread
  refine ⟨tree (r, handler), ?_, ?_⟩
  · rw [result_buildPattern, h]
    rfl
  · rw [result_buildPattern, reread]
    rfl

theorem parse_display_odd_names :
    let r : Route := [.literal "a", .param (.number "*"), .param (.text " \"?"), .wildcard]
    r.Printable ∧ r.display = "/a/:*/: \"?/*" ∧
      parse "/a/:*/: \"?/*" =
        .ok [.literal "a", .param (.text "*"), .param (.text " \"?"), .wildcard] ∧
      parse "x/:y:str/" = .ok [.literal "x", .param (.text "y")] ∧
      ∃ t, (buildPattern "x/:y:str/" "found").result = .ok t ∧
        (buildPattern "/x/:y" "found").result = .ok t := by
  intro r
  have printable : r.Printable := by
    refine ⟨⟨fun text mem => ?_, rfl⟩, fun p mem => ?_⟩
    · obtain rfl : text = "a" := by simpa [r] using mem
      rfl
    · obtain rfl | rfl : p = .number "*" ∨ p = .text " \"?" := by simpa [r] using mem
      · exact ⟨"*", .inr rfl, ⟨by decide, by decide⟩, by decide⟩
      · exact ⟨" \"?", .inl rfl, ⟨by decide, by decide⟩, by decide⟩
  have accepted : parse "x/:y:str/" = .ok [.literal "x", .param (.text "y")] := rfl
  obtain ⟨printed, parsed⟩ := parse_display (H := String)
  obtain ⟨-, -, sameTree⟩ := parsed "x/:y:str/" _ accepted
  refine ⟨printable, rfl, printed r printable, accepted, sameTree ?_ "found"⟩
  intro name mem
  simp [Param.number, Param.text, Param.formOf] at mem

end Route

end Routing
