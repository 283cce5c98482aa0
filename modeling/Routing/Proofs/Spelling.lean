import Mathlib.Data.List.TakeWhile
import Routing.Proofs.Key
import Routing.Route.Pattern

/-!
# Texts of pieces

A text either `Spells` a piece or is `Wrong` for one reason. Both depend on nothing but the text and
whether it is the last one of its pattern, and are said by how the text is put together. Reading a
text gives the piece that it spells, or what is wrong with it (`Piece.parse_eq_ok_iff`,
`Piece.parse_eq_error_iff`).
-/

namespace Routing

namespace Piece

/-- A name between the colons of a parameter. -/
structure IsName (name : String) : Prop where
  nonempty : name ≠ ""
  noColon : ':' ∉ name.toList

/-- The text of a piece; a star stands for a wildcard in the last place only. -/
inductive Spells (isLast : Bool) : String → Piece → Prop where
  | wildcard (last : isLast = true) : Spells isLast "*" .wildcard
  | name {name : String} (h : IsName name) : Spells isLast (":" ++ name) (.param (.text name))
  | text {name kind : String} (h : IsName name) (hkind : kind ∈ ["str", "string"]) :
    Spells isLast (":" ++ name ++ ":" ++ kind) (.param (.text name))
  | number {name kind : String} (h : IsName name) (hkind : kind ∈ ["int", "number"]) :
    Spells isLast (":" ++ name ++ ":" ++ kind) (.param (.number name))
  | literal {text : String} (nonempty : text ≠ "") (chars : ∀ c ∈ text.toList, KeyChar c) :
    Spells isLast text (.literal text)

/-- What is wrong with a text. A missing name is reported whatever the kind is, and the kind is all
that follows the colon behind the name. -/
inductive Wrong (isLast : Bool) : String → RouteFault → Prop where
  | wildcard (inner : isLast = false) : Wrong isLast "*" .wildcardNotLast
  | colon : Wrong isLast ":" .emptyName
  | colons (kind : String) : Wrong isLast ("::" ++ kind) .emptyName
  | kind {name kind : String} (h : IsName name)
    (hkind : kind ∉ ["str", "string", "int", "number"]) :
    Wrong isLast (":" ++ name ++ ":" ++ kind) (.unknownKind kind)
  | characters {text : String} (noStar : text ≠ "*") (noColon : text.toList.head? ≠ some ':')
    (noKey : ¬ (text ≠ "" ∧ ∀ c ∈ text.toList, KeyChar c)) :
    Wrong isLast text (.invalidCharacters text)

/-- Every text is a star, begins with a colon, with or without a second one, or does neither. -/
theorem exists_shape (text : String) :
    text = "*" ∨ (∃ name, ':' ∉ name.toList ∧ text = ":" ++ name) ∨
      (∃ name kind, ':' ∉ name.toList ∧ text = ":" ++ name ++ ":" ++ kind) ∨
      text ≠ "*" ∧ text.toList.head? ≠ some ':' := by
  by_cases star : text = "*"
  · exact .inl star
  by_cases colon : text.toList.head? = some ':'
  · obtain ⟨cs, hcs⟩ := List.head?_eq_some_iff.mp colon
    by_cases second : ':' ∈ cs
    · obtain ⟨name, kind, hsplit, noColon⟩ := List.eq_append_cons_of_mem second
      refine .inr (.inr (.inl ⟨String.ofList name, String.ofList kind, ?_, ?_⟩))
      · rwa [String.toList_ofList]
      · rw [← String.toList_inj, hcs, hsplit]
        simp
    · refine .inr (.inl ⟨String.ofList cs, ?_, ?_⟩)
      · rwa [String.toList_ofList]
      · rw [← String.toList_inj, hcs]
        simp
  · exact .inr (.inr (.inr ⟨star, colon⟩))

/-- A text spells a piece or something is wrong with it. -/
theorem spells_or_wrong (isLast : Bool) (text : String) :
    (∃ piece, Spells isLast text piece) ∨ ∃ reason, Wrong isLast text reason := by
  rcases exists_shape text with
    rfl | ⟨name, noColon, rfl⟩ | ⟨name, kind, noColon, rfl⟩ | ⟨noStar, noColon⟩
  · cases isLast with
    | true => exact .inl ⟨_, .wildcard rfl⟩
    | false => exact .inr ⟨_, .wildcard rfl⟩
  · by_cases empty : name = ""
    · subst empty
      exact .inr ⟨_, .colon⟩
    · exact .inl ⟨_, .name ⟨empty, noColon⟩⟩
  · by_cases empty : name = ""
    · subst empty
      exact .inr ⟨_, .colons kind⟩
    · have hname : IsName name := ⟨empty, noColon⟩
      by_cases text : kind ∈ ["str", "string"]
      · exact .inl ⟨_, .text hname text⟩
      by_cases number : kind ∈ ["int", "number"]
      · exact .inl ⟨_, .number hname number⟩
      refine .inr ⟨_, .kind hname fun h => ?_⟩
      have known : kind ∈ ["str", "string"] ∨ kind ∈ ["int", "number"] := List.mem_append.mp h
      exact known.elim text number
  · by_cases key : text ≠ "" ∧ ∀ c ∈ text.toList, KeyChar c
    · exact .inl ⟨_, .literal key.1 key.2⟩
    · exact .inr ⟨_, .characters noStar noColon key⟩

/-! ### Reading a piece -/

theorem parse_colon (isLast : Bool) (cs : List Char) :
    parse isLast (':' :: cs) = parseParam cs := rfl

theorem parse_other (isLast : Bool) {cs : List Char} (noStar : cs ≠ ['*'])
    (noColon : cs.head? ≠ some ':') :
    parse isLast cs = if isKey (String.ofList cs) then .ok (.literal (String.ofList cs))
      else .error (.invalidCharacters (String.ofList cs)) := by
  unfold parse
  split
  · exact absurd rfl noStar
  · exact absurd rfl noColon
  · rfl

section Kind

variable {name kind : String}

theorem ofKind_text (hkind : kind ∈ ["str", "string"]) :
    ofKind name kind = .ok (.param (.text name)) := by
  rw [ofKind, if_pos (by simpa using hkind)]

theorem ofKind_number (hkind : kind ∈ ["int", "number"]) :
    ofKind name kind = .ok (.param (.number name)) := by
  have noText : ¬ (kind = "str" ∨ kind = "string") := by
    rintro (rfl | rfl) <;> simp at hkind
  rw [ofKind, if_neg noText, if_pos (by simpa using hkind)]

theorem ofKind_unknown (hkind : kind ∉ ["str", "string", "int", "number"]) :
    ofKind name kind = .error (.unknownKind kind) := by
  simp only [List.mem_cons, List.not_mem_nil, or_false, not_or] at hkind
  obtain ⟨str, string, int, number⟩ := hkind
  rw [ofKind, if_neg (not_or.mpr ⟨str, string⟩), if_neg (not_or.mpr ⟨int, number⟩)]

end Kind

theorem parseParam_name {name : List Char} (noColon : ':' ∉ name) :
    parseParam name = if name = [] then .error .emptyName
      else .ok (.param (.text (String.ofList name))) := by
  have all : ∀ c ∈ name, decide (c ≠ ':') = true := fun c hc =>
    decide_eq_true fun heq => noColon (heq ▸ hc)
  have front : name.takeWhile (· ≠ ':') = name := List.takeWhile_eq_self_iff.mpr all
  have back : name.dropWhile (· ≠ ':') = [] := List.dropWhile_eq_nil_iff.mpr all
  unfold parseParam
  rw [front, back]
  rfl

theorem parseParam_kind {name : List Char} (noColon : ':' ∉ name) (kind : List Char) :
    parseParam (name ++ ':' :: kind) = if name = [] then .error .emptyName
      else ofKind (String.ofList name) (String.ofList kind) := by
  have all : ∀ c ∈ name, decide (c ≠ ':') = true := fun c hc =>
    decide_eq_true fun heq => noColon (heq ▸ hc)
  have front : (name ++ ':' :: kind).takeWhile (· ≠ ':') = name := by
    rw [List.takeWhile_append_of_pos all, List.takeWhile_cons_of_neg (by simp), List.append_nil]
  have back : (name ++ ':' :: kind).dropWhile (· ≠ ':') = ':' :: kind := by
    rw [List.dropWhile_append_of_pos all, List.dropWhile_cons_of_neg (by simp)]
  unfold parseParam
  rw [front, back]

theorem IsName.toList_ne_nil {name : String} (h : IsName name) : name.toList ≠ [] := by
  simpa using h.nonempty

/-- A name and a kind behind a colon are read as they are written. -/
theorem parse_name_kind (isLast : Bool) {name kind : String} (h : IsName name) :
    parse isLast (":" ++ name ++ ":" ++ kind).toList = ofKind name kind := by
  have chars : (":" ++ name ++ ":" ++ kind).toList =
      ':' :: (name.toList ++ ':' :: kind.toList) := by simp
  rw [chars, parse_colon, parseParam_kind h.noColon, if_neg h.toList_ne_nil, String.ofList_toList,
    String.ofList_toList]

theorem parse_of_spells {isLast : Bool} {text : String} {piece : Piece}
    (h : Spells isLast text piece) : parse isLast text.toList = .ok piece := by
  cases h with
  | wildcard last =>
    subst last
    rfl
  | @name name h =>
    have chars : (":" ++ name).toList = ':' :: name.toList := by simp
    rw [chars, parse_colon, parseParam_name h.noColon, if_neg h.toList_ne_nil, String.ofList_toList]
  | text h hkind =>
    rw [parse_name_kind isLast h, ofKind_text hkind]
  | number h hkind =>
    rw [parse_name_kind isLast h, ofKind_number hkind]
  | literal nonempty chars =>
    have noStar : text.toList ≠ ['*'] := by
      intro heq
      have star : KeyChar '*' := chars '*' (by rw [heq]; exact List.mem_singleton_self _)
      exact absurd (isKeyChar_iff.mpr star) (by decide)
    have noColon : text.toList.head? ≠ some ':' := by
      intro heq
      have colon : KeyChar ':' := chars ':' (List.mem_of_mem_head? heq)
      exact absurd (isKeyChar_iff.mpr colon) (by decide)
    rw [parse_other isLast noStar noColon, String.ofList_toList,
      if_pos (isKey_iff.mpr ⟨nonempty, chars⟩)]

theorem parse_of_wrong {isLast : Bool} {text : String} {reason : RouteFault}
    (h : Wrong isLast text reason) : parse isLast text.toList = .error reason := by
  cases h with
  | wildcard inner =>
    subst inner
    rfl
  | colon => rfl
  | colons kind =>
    have chars : ("::" ++ kind).toList = ':' :: ([] ++ ':' :: kind.toList) := by simp
    rw [chars, parse_colon, parseParam_kind List.not_mem_nil, if_pos rfl]
  | kind h hkind =>
    rw [parse_name_kind isLast h, ofKind_unknown hkind]
  | characters noStar noColon noKey =>
    have star : text.toList ≠ ['*'] := fun heq => noStar (String.toList_inj.mp heq)
    rw [parse_other isLast star noColon, String.ofList_toList, if_neg (isKey_iff.not.mpr noKey)]

theorem parse_eq_ok_iff {isLast : Bool} {text : String} {piece : Piece} :
    parse isLast text.toList = .ok piece ↔ Spells isLast text piece := by
  refine ⟨fun h => ?_, parse_of_spells⟩
  rcases spells_or_wrong isLast text with ⟨other, spells⟩ | ⟨reason, wrong⟩
  · obtain rfl : other = piece := Except.ok.inj ((parse_of_spells spells).symm.trans h)
    exact spells
  · cases (parse_of_wrong wrong).symm.trans h

theorem parse_eq_error_iff {isLast : Bool} {text : String} {reason : RouteFault} :
    parse isLast text.toList = .error reason ↔ Wrong isLast text reason := by
  refine ⟨fun h => ?_, parse_of_wrong⟩
  rcases spells_or_wrong isLast text with ⟨piece, spells⟩ | ⟨other, wrong⟩
  · cases (parse_of_spells spells).symm.trans h
  · obtain rfl : other = reason := Except.error.inj ((parse_of_wrong wrong).symm.trans h)
    exact wrong

/-- Nothing is wrong with a text that spells a piece. -/
theorem Wrong.not_spells {isLast : Bool} {text : String} {reason : RouteFault}
    (h : Wrong isLast text reason) (piece : Piece) : ¬ Spells isLast text piece := by
  intro spells
  cases (parse_of_spells spells).symm.trans (parse_of_wrong h)

end Piece

end Routing
