import Mathlib.Algebra.Group.Nat.Defs

/-!
# The order of bytes

Texts in the order of their characters' codes are in the order of their UTF-8 bytes too: of
two characters the one with the greater code has the greater leading byte, or the same one
and greater digits to base 64 behind it.
-/

namespace StackScript

/-- The UTF-8 bytes of a text. -/
def utf8Bytes (s : String) : List UInt8 :=
  s.toUTF8.data.toList

theorem utf8Bytes_eq (s : String) : utf8Bytes s = s.toList.flatMap String.utf8EncodeChar := by
  rw [utf8Bytes, String.toUTF8_eq_toByteArray, ← String.utf8Encode_toList]
  exact List.toList_data_toByteArray

namespace Utf8

/-! ## Characters -/

/-- How many bytes follow the leading byte of the character with this code. -/
def trailing (code : Nat) : Nat :=
  if code ≤ 0x7f then 0 else if code ≤ 0x7ff then 1 else if code ≤ 0xffff then 2 else 3

/-- The leading byte that so many bytes follow: its mark and the first digit. -/
def leadingByte (code : Nat) : Nat :=
  match trailing code with
  | 0 => code
  | 1 => 0xc0 + code / 64
  | 2 => 0xe0 + code / 64 ^ 2
  | count => 0xf0 + code / 64 ^ count

/-- The last digits of a code to base 64, with their mark. -/
def digits (code : Nat) : Nat → List UInt8
  | 0 => []
  | count + 1 => UInt8.ofNat (code / 64 ^ count % 64 + 0x80) :: digits code count

theorem ofNat_cons_lt_ofNat_cons {m n : Nat} (mLess : m < 256) (nLess : n < 256)
    {x y : List UInt8} (less : m < n ∨ m = n ∧ x < y) :
    UInt8.ofNat m :: x < UInt8.ofNat n :: y := by
  have mSame : (UInt8.ofNat m).toNat = m := UInt8.toNat_ofNat_of_lt' mLess
  have nSame : (UInt8.ofNat n).toNat = n := UInt8.toNat_ofNat_of_lt' nLess
  rwa [List.cons_lt_cons_iff, UInt8.lt_iff_toNat_lt, ← UInt8.toNat_inj, mSame, nSame]

/-- The lesser digits come first. -/
theorem digits_append_lt {code other count : Nat}
    (less : code % 64 ^ count < other % 64 ^ count) (x y : List UInt8) :
    digits code count ++ x < digits other count ++ y := by
  induction count with
  | zero => simp [Nat.mod_one] at less
  | succ count ih =>
    apply ofNat_cons_lt_ofNat_cons (by omega) (by omega)
    rw [Nat.pow_succ, Nat.mod_mul, Nat.mod_mul] at less
    have codeLess := Nat.mod_lt code (Nat.pow_pos (n := count) (show 0 < 64 by decide))
    have otherLess := Nat.mod_lt other (Nat.pow_pos (n := count) (show 0 < 64 by decide))
    rcases Nat.lt_trichotomy (code / 64 ^ count % 64) (other / 64 ^ count % 64) with
      first | same | greater
    · exact .inl (by omega)
    · rw [same, Nat.add_lt_add_iff_right] at less
      exact .inr ⟨by rw [same], ih less⟩
    · have far := Nat.mul_le_mul_left (64 ^ count) greater
      rw [Nat.mul_succ] at far
      omega

theorem toNat_lt (c : Char) : c.toNat < 0x110000 := by
  rcases c.valid with low | ⟨-, high⟩
  · exact Nat.lt_trans low (by decide)
  · exact high

/-- A character is its leading byte and its last digits. -/
theorem utf8EncodeChar_eq (c : Char) :
    String.utf8EncodeChar c =
      UInt8.ofNat (leadingByte c.toNat) :: digits c.toNat (trailing c.toNat) := by
  have inRange := toNat_lt c
  simp only [String.utf8EncodeChar, leadingByte, trailing, Char.toNat_val]
  generalize c.toNat = code at inRange
  split
  · rfl
  · split
    · simp only [digits, Nat.pow_zero, Nat.div_one]
      congr 2
      omega
    · split
      · simp only [digits, Nat.pow_zero, Nat.div_one, Nat.reducePow]
        congr 2
        omega
      · simp only [digits, Nat.pow_zero, Nat.div_one, Nat.reducePow]
        congr 2
        omega

/-- Of two leading bytes the one of the lesser code is less, or both are the same and as
many digits follow. -/
theorem leadingByte_lt {code other : Nat} (less : code < other) (inRange : other < 0x110000) :
    leadingByte other < 256 ∧
      (leadingByte code < leadingByte other ∨
        leadingByte code = leadingByte other ∧ trailing code = trailing other ∧
          code % 64 ^ trailing code < other % 64 ^ trailing code) := by
  have sizes (code : Nat) : trailing code = 0 ∧ code ≤ 0x7f ∨
      trailing code = 1 ∧ 0x7f < code ∧ code ≤ 0x7ff ∨
      trailing code = 2 ∧ 0x7ff < code ∧ code ≤ 0xffff ∨ trailing code = 3 ∧ 0xffff < code := by
    grind [trailing]
  rcases sizes code with ⟨size, between⟩ | ⟨size, between⟩ | ⟨size, between⟩ | ⟨size, between⟩ <;>
    rcases sizes other with ⟨sizeToo, betweenToo⟩ | ⟨sizeToo, betweenToo⟩ |
      ⟨sizeToo, betweenToo⟩ | ⟨sizeToo, betweenToo⟩ <;>
    simp only [leadingByte, size, sizeToo, Nat.reducePow, true_and]
  all_goals omega

theorem utf8EncodeChar_append_lt {c d : Char} (less : c < d) (x y : List UInt8) :
    String.utf8EncodeChar c ++ x < String.utf8EncodeChar d ++ y := by
  have codes : c.toNat < d.toNat := less
  obtain ⟨inByte, ordered⟩ := leadingByte_lt codes (toNat_lt d)
  rw [utf8EncodeChar_eq, utf8EncodeChar_eq, List.cons_append, List.cons_append]
  apply ofNat_cons_lt_ofNat_cons (by omega) inByte
  rcases ordered with lead | ⟨lead, size, behind⟩
  · exact .inl lead
  · rw [← size]
    exact .inr ⟨lead, digits_append_lt behind x y⟩

end Utf8

/-- The lesser text has the lesser bytes. -/
theorem utf8Bytes_lt {s t : String} (less : s < t) : utf8Bytes s < utf8Bytes t := by
  rw [utf8Bytes_eq, utf8Bytes_eq]
  have characters : s.toList < t.toList := less
  generalize s.toList = first at characters
  generalize t.toList = second at characters
  induction first generalizing second with
  | nil =>
    cases second with
    | nil => cases characters
    | cons d rest =>
      have someByte : String.utf8EncodeChar d ≠ [] := String.utf8EncodeChar_ne_nil
      obtain ⟨byte, more, bytes⟩ := List.exists_cons_of_ne_nil someByte
      rw [List.flatMap_nil, List.flatMap_cons, bytes]
      exact List.nil_lt_cons byte _
  | cons c first ih =>
    cases second with
    | nil => cases characters
    | cons d second =>
      rw [List.flatMap_cons, List.flatMap_cons]
      rcases List.cons_lt_cons_iff.mp characters with less | ⟨rfl, behind⟩
      · exact Utf8.utf8EncodeChar_append_lt less _ _
      · exact List.append_left_lt (ih _ behind)

end StackScript
