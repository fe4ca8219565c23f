import StaticLink.Text

/-!
# The order of texts

Texts are compared by their code points. UTF-8 keeps this order: comparing the bytes gives the same
result.

* `Text.utf8Encode_lt`: a lower code point has lower bytes, whatever follows them.
* `Text.utf8_lt_iff`: texts are in the order of their bytes.
-/

namespace StaticLink.Text

variable {rest other : Bytes} {one two : List Char} {first second : String}

/-- Bytes are in the order of the first of them, and of the others if the first are the same. -/
theorem cons_ofNat_lt {a b : Nat} (le : a ≤ b) (byte : b < 256) (behind : a = b → rest < other) :
    UInt8.ofNat a :: rest < UInt8.ofNat b :: other := by
  rw [List.cons_lt_cons_iff]
  by_cases same : a = b
  · right
    exact ⟨congrArg UInt8.ofNat same, behind same⟩
  · left
    rw [UInt8.lt_iff_toNat_lt, UInt8.toNat_ofNat', UInt8.toNat_ofNat']
    omega

/-- A lower code point has lower bytes, whatever follows them. -/
theorem utf8Encode_lt {low high : Char} (less : low < high) (rest other : Bytes) :
    String.utf8EncodeChar low ++ rest < String.utf8EncodeChar high ++ other := by
  have less : low.val.toNat < high.val.toNat := UInt32.lt_iff_toNat_lt.1 (Char.lt_def.1 less)
  have limit : high.val.toNat < 1114112 := by
    rcases high.valid with small | ⟨-, small⟩
    · exact Nat.lt_trans small (by decide)
    · exact small
  unfold String.utf8EncodeChar
  dsimp only
  -- The first byte tells how many there are, and more of them are for higher code points. Where
  -- there are as many, the digits in base 64 are compared from the highest on.
  split
  · split
    · apply cons_ofNat_lt <;> omega
    · split
      · apply cons_ofNat_lt <;> omega
      · split <;> apply cons_ofNat_lt <;> omega
  · rw [if_neg (show ¬ high.val.toNat ≤ 127 by omega)]
    split
    · split
      · apply cons_ofNat_lt (by omega) (by omega)
        intro lead
        apply cons_ofNat_lt <;> omega
      · split <;> apply cons_ofNat_lt <;> omega
    · rw [if_neg (show ¬ high.val.toNat ≤ 2047 by omega)]
      split
      · split
        · apply cons_ofNat_lt (by omega) (by omega)
          intro lead
          apply cons_ofNat_lt (by omega) (by omega)
          intro middle
          apply cons_ofNat_lt <;> omega
        · apply cons_ofNat_lt <;> omega
      · rw [if_neg (show ¬ high.val.toNat ≤ 65535 by omega)]
        apply cons_ofNat_lt (by omega) (by omega)
        intro lead
        apply cons_ofNat_lt (by omega) (by omega)
        intro second
        apply cons_ofNat_lt (by omega) (by omega)
        intro third
        apply cons_ofNat_lt <;> omega

/-- So it is with code points one after the other. -/
theorem flatMap_utf8Encode_lt (less : one < two) :
    one.flatMap String.utf8EncodeChar < two.flatMap String.utf8EncodeChar := by
  induction one generalizing two with
  | nil =>
    cases two with
    | nil => exact absurd less (List.lt_irrefl _)
    | cons code later =>
      rw [List.flatMap_nil, List.flatMap_cons]
      -- Every code point has a byte or more.
      have some : String.utf8EncodeChar code ≠ [] := String.utf8EncodeChar_ne_nil
      obtain ⟨byte, bytes, spelled⟩ := List.exists_cons_of_ne_nil some
      rw [spelled]
      exact List.nil_lt_cons _ _
  | cons low later ih =>
    cases two with
    | nil => cases less
    | cons high others =>
      rw [List.flatMap_cons, List.flatMap_cons]
      rcases List.cons_lt_cons_iff.1 less with lower | ⟨rfl, behind⟩
      · exact utf8Encode_lt lower _ _
      · exact List.append_left_lt (ih behind)

theorem utf8_eq_flatMap (text : String) :
    utf8 text = text.toList.flatMap String.utf8EncodeChar := by
  have whole : text.toByteArray = text.toList.utf8Encode := by
    rw [← String.toByteArray_ofList, String.ofList_toList]
  rw [utf8, String.toUTF8, whole]
  exact List.toList_data_toByteArray

/-- Texts are in the order of their bytes. -/
theorem utf8_lt_iff : utf8 first < utf8 second ↔ first < second := by
  have keeps {first second : String} (less : first < second) : utf8 first < utf8 second := by
    rw [utf8_eq_flatMap, utf8_eq_flatMap]
    exact flatMap_utf8Encode_lt less
  constructor
  · intro bytes
    rw [← String.not_le]
    intro above
    by_cases same : first = second
    · rw [same] at bytes
      exact List.lt_irrefl _ bytes
    · have less : second < first := by
        rw [← String.not_le]
        intro below
        exact same (String.le_antisymm below above)
      exact List.lt_asymm bytes (keeps less)
  · exact keeps

end StaticLink.Text
