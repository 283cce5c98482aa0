import Mathlib.Data.List.Basic
import Routing.Path

/-!
# Literal keys

Which texts are keys, said by their characters (`isKey_iff`), and the order of keys. Texts are
compared by code points. A key has one byte in UTF-8 for each of its characters, so the bytes of
keys are in the same order (`bytes_lt_bytes`).
-/

namespace Routing

/-- Letters and digits of ASCII, the hyphen, the point, the underscore and the tilde. -/
def KeyChar (c : Char) : Prop :=
  'A' ≤ c ∧ c ≤ 'Z' ∨ 'a' ≤ c ∧ c ≤ 'z' ∨ '0' ≤ c ∧ c ≤ '9' ∨ c ∈ ['-', '.', '_', '~']

theorem isDigit_iff {c : Char} : c.isDigit = true ↔ '0' ≤ c ∧ c ≤ '9' :=
  Bool.and_eq_true_iff.trans (and_congr decide_eq_true_iff decide_eq_true_iff)

theorem isKeyChar_iff {c : Char} : isKeyChar c = true ↔ KeyChar c := by
  have upper : c.isUpper = true ↔ 'A' ≤ c ∧ c ≤ 'Z' := decide_eq_true_iff
  have lower : c.isLower = true ↔ 'a' ≤ c ∧ c ≤ 'z' :=
    Bool.and_eq_true_iff.trans (and_congr decide_eq_true_iff decide_eq_true_iff)
  have alphanum : c.isAlphanum = (c.isUpper || c.isLower || c.isDigit) := rfl
  simp only [isKeyChar, KeyChar, alphanum, Bool.or_eq_true, upper, lower, isDigit_iff,
    decide_eq_true_eq, List.mem_cons, List.not_mem_nil, or_false, or_assoc]

theorem isKey_iff {text : String} :
    isKey text = true ↔ text ≠ "" ∧ ∀ c ∈ text.toList, KeyChar c := by
  rw [isKey, Bool.and_eq_true, List.all_eq_true]
  simp [isKeyChar_iff]

theorem KeyChar.val_le {c : Char} (h : KeyChar c) : c.val ≤ 127 := by
  rcases h with ⟨-, h⟩ | ⟨-, h⟩ | ⟨-, h⟩ | h
  · exact UInt32.le_trans (Char.le_def.mp h) (by decide)
  · exact UInt32.le_trans (Char.le_def.mp h) (by decide)
  · exact UInt32.le_trans (Char.le_def.mp h) (by decide)
  · simp only [List.mem_cons, List.not_mem_nil, or_false] at h
    rcases h with rfl | rfl | rfl | rfl <;> decide

/-! ### Bytes -/

/-- The bytes of a text in UTF-8. -/
def bytes (text : String) : List UInt8 := text.toByteArray.data.toList

theorem bytes_eq_flatMap (text : String) :
    bytes text = text.toList.flatMap String.utf8EncodeChar := by
  have encoded : (String.ofList text.toList).toByteArray = text.toList.utf8Encode :=
    String.toByteArray_ofList
  rw [String.ofList_toList, List.utf8Encode] at encoded
  rw [bytes, encoded, List.data_toByteArray]

/-- A key has one byte for each character. -/
theorem bytes_of_isKey {text : String} (h : isKey text = true) :
    bytes text = text.toList.map fun c => c.val.toUInt8 := by
  have single : ∀ c ∈ text.toList, String.utf8EncodeChar c = [c.val.toUInt8] := fun c hc =>
    String.utf8EncodeChar_eq_singleton
      (Char.utf8Size_eq_one_iff.mpr ((isKey_iff.mp h).2 c hc).val_le)
  rw [bytes_eq_flatMap, List.flatMap_congr single, List.map_eq_flatMap]

theorem toUInt8_lt_toUInt8 {c d : Char} (hd : d.val ≤ 127) (h : c < d) :
    c.val.toUInt8 < d.val.toUInt8 := by
  have lt : c.val.toNat < d.val.toNat := h
  have le : d.val.toNat ≤ 127 := hd
  rw [UInt8.lt_iff_toNat_lt, UInt32.toNat_toUInt8, UInt32.toNat_toUInt8]
  omega

/-- **The bytes of keys are in the order of the keys.** -/
theorem bytes_lt_bytes {s t : String} (hs : isKey s = true) (ht : isKey t = true) (h : s < t) :
    bytes s < bytes t := by
  rw [bytes_of_isKey hs, bytes_of_isKey ht]
  have small : ∀ d ∈ t.toList, d.val ≤ 127 := fun d hd => ((isKey_iff.mp ht).2 d hd).val_le
  have lt : s.toList < t.toList := h
  generalize s.toList = l at lt
  generalize t.toList = m at lt small
  induction l generalizing m with
  | nil =>
    cases m with
    | nil => cases lt
    | cons d m => exact List.nil_lt_cons ..
  | cons c l ih =>
    cases m with
    | nil => cases lt
    | cons d m =>
      rw [List.map_cons, List.map_cons, List.cons_lt_cons_iff]
      rcases List.cons_lt_cons_iff.mp lt with hlt | ⟨rfl, hlt⟩
      · exact .inl (toUInt8_lt_toUInt8 (small d (by simp)) hlt)
      · exact .inr ⟨rfl, ih m hlt fun e he => small e (List.mem_cons_of_mem _ he)⟩

end Routing
