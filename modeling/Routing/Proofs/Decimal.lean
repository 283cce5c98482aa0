import Mathlib.Data.List.Induction
import Mathlib.Data.Nat.Digits.Defs
import Routing.Param
import Routing.Proofs.Key

/-!
# Decimal texts

A numeral is one or more digits, and its value is that of its digits by their places. A text
`Writes` an integer if it is a numeral with at most one sign in front. Such a text is read exactly
if its integer is in the range of signed 64-bit words, and then as this integer
(`readInt64?_eq_some_iff`). Zeros behind the sign do not change what a text writes
(`Writes.leadingZeros`), and the text of a word writes the word (`writes_writeInt64`).

Main statement: `Param.number_read_decimal`.
-/

namespace Routing

namespace Text

/-- One or more digits of ASCII. -/
structure IsNumeral (digits : String) : Prop where
  nonempty : digits ≠ ""
  digit : ∀ c ∈ digits.toList, '0' ≤ c ∧ c ≤ '9'

/-- The sum of the digits, each times the power of ten for its place; the last one counts ones. -/
def placeValue (digits : List Char) : Nat :=
  Nat.ofDigits 10 (digits.map fun c => c.toNat - '0'.toNat).reverse

/-- A text writes an integer as a numeral with at most one sign in front. -/
inductive Writes : String → Int → Prop where
  | unsigned {digits : String} (h : IsNumeral digits) :
    Writes digits (placeValue digits.toList)
  | plus {digits : String} (h : IsNumeral digits) :
    Writes ("+" ++ digits) (placeValue digits.toList)
  | minus {digits : String} (h : IsNumeral digits) :
    Writes ("-" ++ digits) (-(placeValue digits.toList : Int))

/-! ### Numerals -/

theorem isNumeral_iff {digits : String} :
    IsNumeral digits ↔ digits.toList ≠ [] ∧ digits.toList.all Char.isDigit = true := by
  rw [List.all_eq_true, ne_eq, String.toList_eq_nil_iff]
  simp only [isDigit_iff]
  exact ⟨fun h => ⟨h.nonempty, h.digit⟩, fun h => ⟨h.1, h.2⟩⟩

theorem placeValue_concat (digits : List Char) (c : Char) :
    placeValue (digits ++ [c]) = 10 * placeValue digits + (c.toNat - '0'.toNat) := by
  rw [placeValue, List.map_append, List.reverse_append, List.map_singleton, List.reverse_singleton,
    List.singleton_append, Nat.ofDigits_cons, ← placeValue]
  exact Nat.add_comm ..

/-- Digits taken one after the other from the left have the value of their places. -/
theorem ofDigits_eq_placeValue (digits : List Char) : ofDigits digits = placeValue digits := by
  induction digits using List.reverseRecOn with
  | nil => rfl
  | append_singleton digits c ih =>
    rw [ofDigits, List.foldl_append, List.foldl_cons, List.foldl_nil, ← ofDigits, ih,
      placeValue_concat]

theorem placeValue_zeros_append (k : Nat) (digits : List Char) :
    placeValue (List.replicate k '0' ++ digits) = placeValue digits := by
  rw [placeValue, List.map_append, List.map_replicate, List.reverse_append, List.reverse_replicate]
  exact Nat.ofDigits_append_replicate_zero _

theorem readNat?_eq_some_iff {digits : String} {n : Nat} :
    readNat? digits.toList = some n ↔ IsNumeral digits ∧ placeValue digits.toList = n := by
  rw [readNat?, isNumeral_iff, ofDigits_eq_placeValue]
  simp

/-! ### Signs -/

/-- No sign is in front of a numeral. -/
theorem IsNumeral.head_ne {digits : String} (h : IsNumeral digits) {c : Char}
    (hc : c.isDigit = false) : digits.toList.head? ≠ some c := by
  intro head
  have digit := isDigit_iff.mpr (h.digit c (List.mem_of_mem_head? head))
  rw [hc] at digit
  cases digit

section Signs

variable {cs : List Char}

theorem readInt?_minus : readInt? ('-' :: cs) = (readNat? cs).map fun n : Nat => -(n : Int) := by
  rw [readInt?]
  cases readNat? cs <;> rfl

theorem readInt?_plus : readInt? ('+' :: cs) = (readNat? cs).map fun n : Nat => (n : Int) := by
  rw [readInt?]
  cases readNat? cs <;> rfl

theorem readInt?_unsigned (minus : cs.head? ≠ some '-') (plus : cs.head? ≠ some '+') :
    readInt? cs = (readNat? cs).map fun n : Nat => (n : Int) := by
  unfold readInt?
  split
  · exact absurd rfl minus
  · exact absurd rfl plus
  · cases readNat? cs <;> rfl

end Signs

/-- A text with a sign in front is the sign and a text. -/
theorem exists_append_of_head? {text : String} {sign : Char} (h : text.toList.head? = some sign) :
    ∃ rest : String, text = String.singleton sign ++ rest ∧ text.toList = sign :: rest.toList := by
  obtain ⟨cs, hcs⟩ := List.head?_eq_some_iff.mp h
  refine ⟨String.ofList cs, ?_, ?_⟩
  · rw [← String.toList_inj, hcs]
    simp
  · rw [hcs, String.toList_ofList]

theorem writes_of_readInt? {text : String} {n : Int} (h : readInt? text.toList = some n) :
    Writes text n := by
  by_cases minus : text.toList.head? = some '-'
  · obtain ⟨digits, rfl, chars⟩ := exists_append_of_head? minus
    rw [chars, readInt?_minus] at h
    obtain ⟨k, hk, rfl⟩ := Option.map_eq_some_iff.mp h
    obtain ⟨numeral, rfl⟩ := readNat?_eq_some_iff.mp hk
    exact .minus numeral
  by_cases plus : text.toList.head? = some '+'
  · obtain ⟨digits, rfl, chars⟩ := exists_append_of_head? plus
    rw [chars, readInt?_plus] at h
    obtain ⟨k, hk, rfl⟩ := Option.map_eq_some_iff.mp h
    obtain ⟨numeral, rfl⟩ := readNat?_eq_some_iff.mp hk
    exact .plus numeral
  rw [readInt?_unsigned minus plus] at h
  obtain ⟨k, hk, rfl⟩ := Option.map_eq_some_iff.mp h
  obtain ⟨numeral, rfl⟩ := readNat?_eq_some_iff.mp hk
  exact .unsigned numeral

/-- **The integer that is read is the one that is written.** -/
theorem readInt?_eq_some_iff {text : String} {n : Int} :
    readInt? text.toList = some n ↔ Writes text n := by
  refine ⟨writes_of_readInt?, fun h => ?_⟩
  cases h with
  | unsigned numeral =>
    rw [readInt?_unsigned (numeral.head_ne rfl) (numeral.head_ne rfl),
      readNat?_eq_some_iff.mpr ⟨numeral, rfl⟩, Option.map_some]
  | @plus digits numeral =>
    have chars : ("+" ++ digits).toList = '+' :: digits.toList := by simp
    rw [chars, readInt?_plus, readNat?_eq_some_iff.mpr ⟨numeral, rfl⟩, Option.map_some]
  | @minus digits numeral =>
    have chars : ("-" ++ digits).toList = '-' :: digits.toList := by simp
    rw [chars, readInt?_minus, readNat?_eq_some_iff.mpr ⟨numeral, rfl⟩, Option.map_some]

/-! ### Words -/

/-- The integers in the range of signed 64-bit words. -/
def InRange (n : Int) : Prop := -2 ^ 63 ≤ n ∧ n ≤ 2 ^ 63 - 1

theorem InRange.toInt_ofInt {n : Int} (h : InRange n) : (Int64.ofInt n).toInt = n :=
  Int64.toInt_ofInt_of_le h.1 (Int.lt_of_le_sub_one h.2)

theorem inRange_toInt (w : Int64) : InRange w.toInt :=
  ⟨w.le_toInt, Int.le_sub_one_of_lt w.toInt_lt⟩

theorem toWord?_eq_some_iff {n : Int} {w : Int64} :
    toWord? n = some w ↔ InRange n ∧ w.toInt = n := by
  have range : Int64.minValue.toInt ≤ n ∧ n ≤ Int64.maxValue.toInt ↔ InRange n := Iff.rfl
  rw [toWord?]
  split_ifs with h
  · have inRange : InRange n := range.mp h
    rw [Option.some_inj]
    constructor
    · rintro rfl
      exact ⟨inRange, inRange.toInt_ofInt⟩
    · rintro ⟨-, rfl⟩
      exact w.ofInt_toInt
  · have outside : ¬ InRange n := range.not.mp h
    simp [outside]

theorem readInt64?_eq_some_iff {text : String} {w : Int64} :
    readInt64? text = some w ↔ ∃ n, Writes text n ∧ InRange n ∧ w.toInt = n := by
  rw [readInt64?, Option.bind_eq_some_iff]
  simp only [readInt?_eq_some_iff, toWord?_eq_some_iff]

theorem readInt64?_eq_none_iff {text : String} :
    readInt64? text = none ↔ ∀ n, Writes text n → ¬ InRange n := by
  constructor
  · intro none n writes range
    have word := readInt64?_eq_some_iff.mpr ⟨n, writes, range, range.toInt_ofInt⟩
    rw [none] at word
    cases word
  · intro outside
    refine Option.eq_none_iff_forall_ne_some.mpr fun w word => ?_
    obtain ⟨n, writes, range, -⟩ := readInt64?_eq_some_iff.mp word
    exact outside n writes range

/-! ### Zeros behind the sign -/

def leadingZeros (k : Nat) : String := String.ofList (List.replicate k '0')

theorem IsNumeral.leadingZeros_append {digits : String} (h : IsNumeral digits) (k : Nat) :
    IsNumeral (leadingZeros k ++ digits) ∧
      placeValue (leadingZeros k ++ digits).toList = placeValue digits.toList := by
  have chars : (leadingZeros k ++ digits).toList = List.replicate k '0' ++ digits.toList := by
    rw [String.toList_append, leadingZeros, String.toList_ofList]
  refine ⟨⟨fun empty => h.nonempty ?_, fun c hc => ?_⟩, ?_⟩
  · exact (String.append_eq_empty_iff.mp empty).2
  · rw [chars, List.mem_append] at hc
    rcases hc with hc | hc
    · obtain rfl := List.eq_of_mem_replicate hc
      decide
    · exact h.digit c hc
  · rw [chars, placeValue_zeros_append]

/-- What a text writes does not depend on zeros between its sign and its digits. -/
theorem Writes.leadingZeros {text : String} {n : Int} (h : Writes text n) :
    ∃ sign digits, text = sign ++ digits ∧ sign ∈ ["", "+", "-"] ∧ IsNumeral digits ∧
      ∀ k, Writes (sign ++ (leadingZeros k ++ digits)) n := by
  cases h with
  | unsigned numeral =>
    refine ⟨"", _, (String.empty_append ..).symm, by simp, numeral, fun k => ?_⟩
    obtain ⟨padded, value⟩ := numeral.leadingZeros_append k
    rw [String.empty_append, ← value]
    exact .unsigned padded
  | plus numeral =>
    refine ⟨"+", _, rfl, by simp, numeral, fun k => ?_⟩
    obtain ⟨padded, value⟩ := numeral.leadingZeros_append k
    rw [← value]
    exact .plus padded
  | minus numeral =>
    refine ⟨"-", _, rfl, by simp, numeral, fun k => ?_⟩
    obtain ⟨padded, value⟩ := numeral.leadingZeros_append k
    rw [← value]
    exact .minus padded

theorem isNumeral_repr (n : Nat) : IsNumeral n.repr := by
  refine ⟨Nat.repr_ne_empty, fun c hc => isDigit_iff.mp ?_⟩
  rw [Nat.toList_repr] at hc
  exact Nat.isDigit_of_mem_toDigits (by decide) (by decide) hc

theorem placeValue_repr (n : Nat) : placeValue n.repr.toList = n := by
  rw [← ofDigits_eq_placeValue, Nat.toList_repr]
  have read : Nat.ofDigitChars 10 (Nat.toDigits 10 n) 0 = n :=
    Nat.ofDigitChars_toDigits (by decide) (by decide)
  rwa [Nat.ofDigitChars_eq_foldl] at read

/-- The text of a word writes it. -/
theorem writes_writeInt64 (w : Int64) : Writes (writeInt64 w) w.toInt := by
  rw [writeInt64, Int.toString_eq_repr]
  cases w.toInt with
  | ofNat n =>
    have h := Writes.unsigned (isNumeral_repr n)
    rwa [placeValue_repr] at h
  | negSucc n =>
    have h := Writes.minus (isNumeral_repr (n + 1))
    rwa [placeValue_repr] at h

end Text

namespace Param

open Text

/-- **Integers are read exactly.** An integer parameter accepts a text exactly if it is a numeral
with at most one sign in front and the integer written by it is in the range of signed 64-bit words;
the value is this integer, and no other text has a value. The text of every word, with any number of
zeros between its sign and its digits, is read as this word. -/
theorem number_read_decimal (name raw : String) :
    (∀ v, (number name).read raw = some v ↔
      ∃ n w, Writes raw n ∧ InRange n ∧ w.toInt = n ∧ v = .int w) ∧
    ((number name).read raw = none ↔ ∀ n, Writes raw n → ¬ InRange n) ∧
    ∀ w : Int64, ∃ sign digits, writeInt64 w = sign ++ digits ∧ sign ∈ ["", "+", "-"] ∧
      IsNumeral digits ∧
        ∀ k, (number name).read (sign ++ (leadingZeros k ++ digits)) = some (.int w) := by
  have accepts (raw : String) (v : Value) : (number name).read raw = some v ↔
      ∃ w, readInt64? raw = some w ∧ .int w = v := Option.map_eq_some_iff
  refine ⟨fun v => ?_, ?_, fun w => ?_⟩
  · rw [accepts]
    simp only [readInt64?_eq_some_iff]
    constructor
    · rintro ⟨w, ⟨n, writes, range, same⟩, rfl⟩
      exact ⟨n, w, writes, range, same, rfl⟩
    · rintro ⟨n, w, writes, range, same, rfl⟩
      exact ⟨w, ⟨n, writes, range, same⟩, rfl⟩
  · rw [← readInt64?_eq_none_iff]
    exact Option.map_eq_none_iff
  · obtain ⟨sign, digits, split, hsign, numeral, padded⟩ := (writes_writeInt64 w).leadingZeros
    refine ⟨sign, digits, split, hsign, numeral, fun k => (accepts ..).mpr ⟨w, ?_, rfl⟩⟩
    exact readInt64?_eq_some_iff.mpr ⟨w.toInt, padded k, inRange_toInt w, rfl⟩

example : (number "id").read "-0009223372036854775808" = some (.int Int64.minValue) ∧
    (number "id").read "+9223372036854775808" = none := by decide

end Param

end Routing
