import Routing.Cli.Command
import Routing.Proofs.Decimal
import Routing.Proofs.Outline
import Routing.Proofs.Resume

/-!
# Reports of matches

A report tells where the walk of its path has led: the names of the position and what is found in
the captures, every name of a parameter once and in order (`tells_of_match`). It is one line,
whatever the path and the names are, so that the output for a list of paths is cut into the reports
again (`linesOf_perform_report`).
-/

namespace Routing

/-! ### JSON on one line -/

namespace Json

theorem hexDigit_ne (n : Nat) : hexDigit n ≠ '\n' := by
  have digits : ∀ c ∈ "0123456789abcdef".toList, c ≠ '\n' := by simp
  rw [hexDigit, List.getD_eq_getElem?_getD]
  cases h : "0123456789abcdef".toList[n]? with
  | none => decide
  | some c => exact digits c (List.mem_of_getElem? h)

theorem notMem_escape (c : Char) : '\n' ∉ escape c := by
  unfold escape
  split
  · decide
  · decide
  · decide
  · decide
  · decide
  · decide
  · decide
  · next other _ _ =>
    split_ifs
    · simp [(hexDigit_ne _).symm]
    · exact fun feed => other (List.mem_singleton.mp feed).symm

theorem oneLine_quote (s : String) : OneLine (quote s) := by
  rw [OneLine, quote, String.toList_ofList]
  simp [notMem_escape]

theorem oneLine_array {values : List String} (h : ∀ value ∈ values, OneLine value) :
    OneLine (array values) := by
  rw [array, oneLine_append, oneLine_append, oneLine_intercalate (by decide)]
  exact ⟨⟨by decide, h⟩, by decide⟩

theorem oneLine_object {fields : List (String × String)} (h : ∀ field ∈ fields, OneLine field.2) :
    OneLine (object fields) := by
  rw [object, oneLine_append, oneLine_append, oneLine_intercalate (by decide)]
  refine ⟨⟨by decide, List.forall_mem_map.mpr fun field mem => ?_⟩, by decide⟩
  rw [oneLine_append, oneLine_append]
  exact ⟨⟨oneLine_quote _, by decide⟩, h field mem⟩

end Json

theorem Text.Writes.oneLine {text : String} {n : Int} (h : Writes text n) : OneLine text := by
  have line {digits : String} (numeral : IsNumeral digits) : OneLine digits := fun feed =>
    absurd (numeral.digit _ feed).1 (by decide)
  cases h with
  | unsigned numeral => exact line numeral
  | plus numeral => exact oneLine_append.mpr ⟨by decide, line numeral⟩
  | minus numeral => exact oneLine_append.mpr ⟨by decide, line numeral⟩

namespace Table

theorem Report.oneLine_json (r : Report) : OneLine r.json := by
  have texts (values : List String) : OneLine (Json.array (values.map Json.quote)) :=
    Json.oneLine_array (List.forall_mem_map.mpr fun s _ => Json.oneLine_quote s)
  refine Json.oneLine_object fun field mem => ?_
  simp only [List.mem_cons, List.not_mem_nil, or_false] at mem
  rcases mem with rfl | rfl | rfl | rfl | rfl
  · exact texts _
  · exact texts _
  · exact Json.oneLine_object (List.forall_mem_map.mpr fun entry _ =>
      (Text.writes_writeInt64 entry.2).oneLine)
  · exact Json.oneLine_object (List.forall_mem_map.mpr fun entry _ => Json.oneLine_quote entry.2)
  · exact texts _

theorem oneLine_reportPath (t : Tree Names) (path : String) : OneLine (reportPath t path) := by
  unfold reportPath
  cases match? t path with
  | none => decide
  | some report => exact report.oneLine_json

/-- **Paths are reported one a line**, in their order, those that match nothing too. -/
theorem linesOf_perform_report (t : Tree Names) (paths : List String) :
    ∃ output, Cli.Command.perform t (.report paths) = .ok output ∧
      linesOf output = paths.map fun path => (reportPath t path).toList := by
  have oneLine : ∀ line ∈ paths.map (reportPath t), OneLine line :=
    List.forall_mem_map.mpr fun path _ => oneLine_reportPath t path
  have lines := linesOf_join oneLine
  rw [List.map_map, List.map_map] at lines
  exact ⟨_, rfl, lines⟩

/-- What a report tells of the position that the walk of its path has led to, and of the captures
made on the way. -/
structure Report.Tells (r : Report) (path : String) (n : Tree Names) (found : Captures) : Prop where
  segments : r.segments = Path.segments path
  routes : n.handler = some ⟨r.routes⟩
  integers : ∀ name k, (name, k) ∈ r.integers ↔ found.int? name = some k
  strings : ∀ name s, (name, s) ∈ r.strings ↔ found.text? name = some s
  ascending : Dict.Ascending r.integers ∧ Dict.Ascending r.strings
  wildcard : r.wildcard = found.wildcard

/-- A path is reported exactly if its walk leads to names, and the report tells of these. -/
theorem tells_of_match (t : Tree Names) (path : String) :
    ((match? t path).isSome ↔ ∃ n found, t.resolve (Path.segments path) = some (n, found) ∧
      n.handler.isSome) ∧
    ∀ report, match? t path = some report → ∃ n found,
      t.resolve (Path.segments path) = some (n, found) ∧ report.Tells path n found := by
  constructor
  · rw [match?, hit?, Tree.hit?, Option.isSome_map]
    cases t.resolve (Path.segments path) with
    | none => simp
    | some arrival =>
      obtain ⟨n, found⟩ := arrival
      simp
  · intro report h
    obtain ⟨hit, hhit, rfl⟩ := Option.map_eq_some_iff.mp h
    obtain ⟨⟨n, found⟩, hn, hhit⟩ := Option.bind_eq_some_iff.mp hhit
    obtain ⟨names, hnames, rfl⟩ := Option.map_eq_some_iff.mp hhit
    have ordered : found.Ordered := Tree.ordered_of_arrival Captures.ordered_empty hn
    have integers := ordered.integers.sorted_eq
    have strings := ordered.strings.sorted_eq
    refine ⟨n, found, hn, rfl, hnames, fun name k => ?_, fun name s => ?_, ?_, rfl⟩
    · rw [Report.ofHit, integers]
      exact (Dict.find?_eq_some_iff ordered.integers).symm
    · rw [Report.ofHit, strings]
      exact (Dict.find?_eq_some_iff ordered.strings).symm
    · rw [Report.ofHit, integers, strings]
      exact ⟨ordered.integers, ordered.strings⟩

end Table

end Routing
