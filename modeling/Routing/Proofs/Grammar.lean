import Routing.Proofs.Path
import Routing.Proofs.Spelling
import Routing.Proofs.Spine

/-!
# The grammar of patterns

One slash in front of a pattern and then one at its end are left out; what remains is its `Body`.
The texts between the slashes of the body are its `Cut`. A pattern is parsed exactly if every text
of its cut spells a piece, and otherwise the first text that does not is blamed.

Main statement: `parse_iff_spelled`.
-/

namespace Routing

namespace Route

/-! ### Cutting a pattern -/

/-- What is left of a pattern without one slash in front and then without one at the end, where
there is one. -/
def Body (pattern body : String) : Prop :=
  ∃ rest : String, (pattern = "/" ++ rest ∨ pattern = rest ∧ rest.toList.head? ≠ some '/') ∧
    (rest = body ++ "/" ∨ rest = body ∧ body.toList.getLast? ≠ some '/')

/-- The texts between the slashes of a body; the empty body has none. -/
structure Cut (body : String) (texts : List String) : Prop where
  join : "/".intercalate texts = body
  noSlash : ∀ text ∈ texts, '/' ∉ text.toList
  nonempty : texts ≠ [""]

theorem dropSlash_eq_iff {cs rest : List Char} :
    Path.dropSlash cs = rest ↔ cs = '/' :: rest ∨ cs = rest ∧ rest.head? ≠ some '/' := by
  unfold Path.dropSlash
  split
  · constructor
    · rintro rfl
      exact .inl rfl
    · rintro (h | ⟨rfl, h⟩)
      · exact List.tail_eq_of_cons_eq h
      · exact absurd rfl h
  · next noSlash =>
    constructor
    · rintro rfl
      refine .inr ⟨rfl, fun h => ?_⟩
      obtain ⟨tail, htail⟩ := List.head?_eq_some_iff.mp h
      exact noSlash tail htail
    · rintro (h | ⟨h, -⟩)
      · exact absurd h (noSlash rest)
      · exact h

theorem dropFinalSlash_eq_iff {cs rest : List Char} :
    dropFinalSlash cs = rest ↔ cs = rest ++ ['/'] ∨ cs = rest ∧ rest.getLast? ≠ some '/' := by
  unfold dropFinalSlash
  split_ifs with slash
  · obtain ⟨front, rfl⟩ := List.getLast?_eq_some_iff.mp slash
    rw [List.dropLast_concat]
    constructor
    · rintro rfl
      exact .inl rfl
    · rintro (h | ⟨rfl, h⟩)
      · exact (List.append_inj_left' h rfl)
      · exact absurd slash h
  · constructor
    · rintro rfl
      exact .inr ⟨rfl, slash⟩
    · rintro (rfl | ⟨h, -⟩)
      · exact absurd List.getLast?_concat slash
      · exact h

theorem body_iff {pattern body : String} :
    Body pattern body ↔ patternBody pattern = body.toList := by
  rw [patternBody, dropFinalSlash_eq_iff]
  constructor
  · rintro ⟨rest, front, back⟩
    have hrest : Path.dropSlash pattern.toList = rest.toList := by
      rw [dropSlash_eq_iff]
      rcases front with rfl | ⟨rfl, h⟩
      · exact .inl (by simp)
      · exact .inr ⟨rfl, h⟩
    rw [hrest]
    rcases back with rfl | ⟨rfl, h⟩
    · exact .inl (by simp)
    · exact .inr ⟨rfl, h⟩
  · intro back
    have front := dropSlash_eq_iff.mp (rfl : Path.dropSlash pattern.toList = _)
    refine ⟨String.ofList (Path.dropSlash pattern.toList), ?_, ?_⟩
    · simpa [← String.toList_inj] using front
    · simpa [← String.toList_inj] using back

/-- Every body is cut into texts. -/
theorem exists_cut (body : String) : ∃ texts, Cut body texts := by
  -- splitting the empty body would give one empty text
  by_cases empty : body = ""
  · exact ⟨[], by simp [empty], by simp, by simp⟩
  have join : "/".intercalate ((body.toList.splitOn '/').map String.ofList) = body := by
    have parts : String.toList ∘ String.ofList = id := by
      funext cs
      exact String.toList_ofList
    rw [← String.toList_inj, String.toList_intercalate, List.map_map, parts, List.map_id]
    exact List.intercalate_splitOn '/'
  refine ⟨(body.toList.splitOn '/').map String.ofList, join, fun text htext => ?_, fun h => ?_⟩
  · obtain ⟨part, hpart, rfl⟩ := List.mem_map.mp htext
    rw [String.toList_ofList]
    exact Path.not_mem_of_mem_splitOn hpart
  · rw [h, String.intercalate_singleton] at join
    exact empty join.symm

section Cut

variable {pattern body : String} {texts : List String}

theorem Cut.splitOn (h : Cut body texts) (hne : texts ≠ []) :
    body.toList.splitOn '/' = texts.map String.toList := by
  rw [← h.join, String.toList_intercalate]
  refine List.splitOn_intercalate '/' ?_ (by simpa using hne)
  intro part hpart
  obtain ⟨text, htext, rfl⟩ := List.mem_map.mp hpart
  exact h.noSlash text htext

theorem Cut.eq_nil_iff (h : Cut body texts) : texts = [] ↔ body = "" := by
  constructor
  · rintro rfl
    exact h.join.symm
  · rintro rfl
    by_contra hne
    have single : [[]] = texts.map String.toList := h.splitOn hne
    obtain ⟨text, rfl, htext⟩ := List.map_eq_singleton_iff.mp single.symm
    exact h.nonempty (by rw [String.toList_inj.mp (htext.trans String.toList_empty.symm)])

/-- Parsing a pattern is reading the texts it is cut into. -/
theorem parse_of_cut (hbody : Body pattern body) (hcut : Cut body texts) :
    parse pattern = (parsePieces (texts.map String.toList)).mapError (.invalidPattern pattern) := by
  unfold parse
  rw [body_iff.mp hbody]
  by_cases empty : texts = []
  · rw [hcut.eq_nil_iff.mp empty, empty]
    rfl
  · have nonempty : body.toList ≠ [] := by
      simpa using hcut.eq_nil_iff.not.mp empty
    split
    · next h => exact absurd h nonempty
    · rw [hcut.splitOn empty]

end Cut

/-! ### Reading all texts -/

/-- The texts spell the pieces of the route in their order. -/
inductive Spelled : List String → Route → Prop where
  | nil : Spelled [] []
  | cons {text : String} {texts : List String} {piece : Piece} {r : Route}
    (head : Piece.Spells texts.isEmpty text piece) (tail : Spelled texts r) :
    Spelled (text :: texts) (piece :: r)

/-- The first text that spells no piece in its place is wrong for the reason. -/
def Blamed (texts : List String) (reason : RouteFault) : Prop :=
  ∃ before text after, texts = before ++ text :: after ∧
    (∀ t ∈ before, ∃ piece, Piece.Spells false t piece) ∧ Piece.Wrong after.isEmpty text reason

section Texts

variable {text : String} {texts : List String} {piece : Piece} {r : Route} {reason : RouteFault}

theorem parsePieces_of_spells (h : Piece.Spells texts.isEmpty text piece) :
    parsePieces ((text :: texts).map String.toList) =
      (parsePieces (texts.map String.toList)).map (piece :: ·) := by
  rw [List.map_cons, parsePieces, List.isEmpty_map, Piece.parse_of_spells h]
  cases parsePieces (texts.map String.toList) <;> rfl

theorem parsePieces_of_wrong (h : Piece.Wrong texts.isEmpty text reason) :
    parsePieces ((text :: texts).map String.toList) = .error reason := by
  rw [List.map_cons, parsePieces, List.isEmpty_map, Piece.parse_of_wrong h]
  rfl

theorem parsePieces_eq_ok_iff :
    parsePieces (texts.map String.toList) = .ok r ↔ Spelled texts r := by
  constructor
  · intro h
    induction texts generalizing r with
    | nil =>
      obtain rfl : [] = r := Except.ok.inj h
      exact .nil
    | cons text texts ih =>
      obtain ⟨piece, pieces, hp, hr, rfl⟩ := parsePieces_cons_eq_ok h
      rw [List.isEmpty_map] at hp
      exact .cons (Piece.parse_eq_ok_iff.mp hp) (ih hr)
  · intro h
    induction h with
    | nil => rfl
    | cons head _ ih =>
      rw [parsePieces_of_spells head, ih]
      rfl

theorem blamed_cons_of_wrong {other : RouteFault} (h : Piece.Wrong texts.isEmpty text other) :
    Blamed (text :: texts) reason ↔ reason = other := by
  constructor
  · rintro ⟨before, t, after, hsplit, spelled, wrong⟩
    cases before with
    | nil =>
      obtain ⟨rfl, rfl⟩ := List.cons_eq_cons.mp hsplit
      have same := (Piece.parse_of_wrong wrong).symm.trans (Piece.parse_of_wrong h)
      exact Except.error.inj same
    | cons first before =>
      obtain ⟨rfl, htexts⟩ := List.cons_eq_cons.mp hsplit
      obtain ⟨piece, hp⟩ := spelled text (List.mem_cons_self ..)
      -- the blamed text is behind this one, so this one is not the last
      have inner : texts.isEmpty = false := by simp [htexts]
      rw [inner] at h
      exact absurd hp (h.not_spells piece)
  · rintro rfl
    exact ⟨[], text, texts, rfl, by simp, h⟩

theorem blamed_cons_of_spells (h : Piece.Spells texts.isEmpty text piece) :
    Blamed (text :: texts) reason ↔ Blamed texts reason := by
  constructor
  · rintro ⟨before, t, after, hsplit, spelled, wrong⟩
    cases before with
    | nil =>
      obtain ⟨rfl, rfl⟩ := List.cons_eq_cons.mp hsplit
      exact absurd h (wrong.not_spells piece)
    | cons first before =>
      obtain ⟨rfl, rfl⟩ := List.cons_eq_cons.mp hsplit
      exact ⟨before, t, after, rfl, fun t ht => spelled t (List.mem_cons_of_mem _ ht), wrong⟩
  · rintro ⟨before, t, after, rfl, spelled, wrong⟩
    have inner : (before ++ t :: after).isEmpty = false := by simp
    rw [inner] at h
    refine ⟨text :: before, t, after, rfl, fun t' ht => ?_, wrong⟩
    rcases List.mem_cons.mp ht with rfl | ht
    · exact ⟨piece, h⟩
    · exact spelled t' ht

theorem parsePieces_eq_error_iff :
    parsePieces (texts.map String.toList) = .error reason ↔ Blamed texts reason := by
  induction texts with
  | nil =>
    constructor
    · rintro ⟨⟩
    · rintro ⟨before, text, after, hsplit, -⟩
      simp at hsplit
  | cons text texts ih =>
    rcases Piece.spells_or_wrong texts.isEmpty text with ⟨piece, spells⟩ | ⟨other, wrong⟩
    · rw [parsePieces_of_spells spells, blamed_cons_of_spells spells, ← ih]
      cases parsePieces (texts.map String.toList) <;> simp [Except.map]
    · rw [parsePieces_of_wrong wrong, blamed_cons_of_wrong wrong]
      simp [eq_comm]

/-- Texts spell a route if each of them spells a piece in its place. -/
theorem exists_spelled_iff : (∃ r, Spelled texts r) ↔ ∀ before text after,
    texts = before ++ text :: after → ∃ piece, Piece.Spells after.isEmpty text piece := by
  constructor
  · rintro ⟨r, h⟩
    induction h with
    | nil => simp
    | @cons text texts piece r head _ ih =>
      intro before t after hsplit
      cases before with
      | nil =>
        obtain ⟨rfl, rfl⟩ := List.cons_eq_cons.mp hsplit
        exact ⟨piece, head⟩
      | cons first before =>
        obtain ⟨rfl, rfl⟩ := List.cons_eq_cons.mp hsplit
        exact ih before t after rfl
  · intro h
    induction texts with
    | nil => exact ⟨[], .nil⟩
    | cons text texts ih =>
      obtain ⟨piece, head⟩ := h [] text texts rfl
      obtain ⟨r, tail⟩ := ih fun before t after hsplit =>
        h (text :: before) t after (congrArg (text :: ·) hsplit)
      exact ⟨piece :: r, .cons head tail⟩

end Texts

/-! ### Parsing a pattern -/

theorem exists_body (pattern : String) : ∃ body, Body pattern body :=
  ⟨String.ofList (patternBody pattern), body_iff.mpr String.toList_ofList.symm⟩

section Pattern

variable {pattern body : String} {texts : List String} {r : Route}

theorem parse_eq_ok_iff (hbody : Body pattern body) (hcut : Cut body texts) :
    parse pattern = .ok r ↔ Spelled texts r := by
  rw [parse_of_cut hbody hcut, ← parsePieces_eq_ok_iff]
  cases parsePieces (texts.map String.toList) <;> simp [Except.mapError]

theorem parse_eq_error_iff (hbody : Body pattern body) (hcut : Cut body texts) {fault : Fault} :
    parse pattern = .error fault ↔
      ∃ reason, Blamed texts reason ∧ fault = .invalidPattern pattern reason := by
  rw [parse_of_cut hbody hcut]
  simp only [← parsePieces_eq_error_iff]
  cases parsePieces (texts.map String.toList) <;> simp [Except.mapError, eq_comm]

end Pattern

/-- **A pattern is parsed exactly if its texts spell a route.** A pattern has a body, which is cut
at its slashes; the empty body stands for the empty route. The pattern is parsed exactly if each of
its texts spells a piece in its place, and gives the route of these pieces. Otherwise the fault
names the whole pattern and what is wrong with the first text that spells no piece, and something
is wrong with every such text. -/
theorem parse_iff_spelled (pattern : String) :
    (∃ body texts, Body pattern body ∧ Cut body texts) ∧
    (∀ isLast text, (∃ reason, Piece.Wrong isLast text reason) ↔
      ¬ ∃ piece, Piece.Spells isLast text piece) ∧
    ∀ body texts, Body pattern body → Cut body texts →
      (body = "" → parse pattern = .ok []) ∧
      ((∃ r, parse pattern = .ok r) ↔ ∀ before text after, texts = before ++ text :: after →
        ∃ piece, Piece.Spells after.isEmpty text piece) ∧
      (∀ r, parse pattern = .ok r ↔ Spelled texts r) ∧
      ∀ fault, parse pattern = .error fault ↔ ∃ before text after reason,
        texts = before ++ text :: after ∧ (∀ t ∈ before, ∃ piece, Piece.Spells false t piece) ∧
        Piece.Wrong after.isEmpty text reason ∧ fault = .invalidPattern pattern reason := by
  refine ⟨?_, fun isLast text => ?_, fun body texts hbody hcut => ⟨?_, ?_, ?_, fun fault => ?_⟩⟩
  · obtain ⟨body, hbody⟩ := exists_body pattern
    obtain ⟨texts, hcut⟩ := exists_cut body
    exact ⟨body, texts, hbody, hcut⟩
  · constructor
    · rintro ⟨reason, wrong⟩ ⟨piece, spells⟩
      exact wrong.not_spells piece spells
    · exact (Piece.spells_or_wrong isLast text).resolve_left
  · intro empty
    obtain rfl := hcut.eq_nil_iff.mpr empty
    exact (parse_eq_ok_iff hbody hcut).mpr .nil
  · simp only [parse_eq_ok_iff hbody hcut]
    exact exists_spelled_iff
  · intro r
    exact parse_eq_ok_iff hbody hcut
  · rw [parse_eq_error_iff hbody hcut]
    constructor
    · rintro ⟨reason, ⟨before, text, after, hsplit, spelled, wrong⟩, hfault⟩
      exact ⟨before, text, after, reason, hsplit, spelled, wrong, hfault⟩
    · rintro ⟨before, text, after, reason, hsplit, spelled, wrong, hfault⟩
      exact ⟨reason, ⟨before, text, after, hsplit, spelled, wrong⟩, hfault⟩

theorem parse_iff_spelled_faulty :
    Body "/files/:a:int:x/*//b/" "files/:a:int:x/*//b" ∧
      Cut "files/:a:int:x/*//b" ["files", ":a:int:x", "*", "", "b"] ∧
      parse "/files/:a:int:x/*//b/" =
        .error (.invalidPattern "/files/:a:int:x/*//b/" (.unknownKind "int:x")) := by
  have hbody : Body "/files/:a:int:x/*//b/" "files/:a:int:x/*//b" := body_iff.mpr (by decide)
  have hcut : Cut "files/:a:int:x/*//b" ["files", ":a:int:x", "*", "", "b"] :=
    ⟨by decide, by decide, by decide⟩
  have first : Piece.Spells false "files" (.literal "files") :=
    Piece.parse_eq_ok_iff.mp rfl
  have wrong : Piece.Wrong false ":a:int:x" (.unknownKind "int:x") :=
    Piece.parse_eq_error_iff.mp rfl
  obtain ⟨-, -, -, faults⟩ := (parse_iff_spelled _).2.2 _ _ hbody hcut
  refine ⟨hbody, hcut, (faults _).mpr
    ⟨["files"], ":a:int:x", ["*", "", "b"], _, rfl, ?_, wrong, rfl⟩⟩
  intro t ht
  obtain rfl := List.mem_singleton.mp ht
  exact ⟨_, first⟩

end Route

end Routing
