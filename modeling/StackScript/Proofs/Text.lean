import Mathlib.Data.List.TakeWhile
import StackScript.Text.Blank

/-!
# Stretches of text

Facts about classes of characters, and about the longest stretch of a text whose
characters are of one class.
-/

namespace StackScript

/-- Characters differ if one passes a test that the other fails. -/
theorem ne_of_test {test : Char → Bool} {c other : Char} (passes : test c = true)
    (fails : test other = false) : c ≠ other := by
  rintro rfl
  rw [passes] at fails
  cases fails

theorem not_mem_of_test {test : Char → Bool} {cs : List Char} {other : Char}
    (pass : ∀ c ∈ cs, test c = true) (fails : test other = false) : other ∉ cs := by
  intro mem
  exact ne_of_test (pass other mem) fails rfl

theorem bne_of_not_mem {cs : List Char} {other : Char} (absent : other ∉ cs) :
    ∀ c ∈ cs, (c != other) = true := by
  intro c mem
  rw [bne_iff_ne]
  rintro rfl
  exact absent mem

/-- Letters by their codes. -/
theorem isAlpha_iff_toNat {c : Char} :
    c.isAlpha = true ↔ ('A'.toNat ≤ c.toNat ∧ c.toNat ≤ 'Z'.toNat) ∨
      ('a'.toNat ≤ c.toNat ∧ c.toNat ≤ 'z'.toNat) := by
  have upper : c.isUpper = true ↔ 'A'.toNat ≤ c.toNat ∧ c.toNat ≤ 'Z'.toNat := decide_eq_true_iff
  have lower : c.isLower = true ↔ 'a'.toNat ≤ c.toNat ∧ c.toNat ≤ 'z'.toNat :=
    Bool.and_eq_true_iff.trans (and_congr decide_eq_true_iff decide_eq_true_iff)
  exact Bool.or_eq_true_iff.trans (or_congr upper lower)

theorem isDigit_eq_false_of_isAlpha {c : Char} (letter : c.isAlpha = true) :
    c.isDigit = false := by
  rw [Bool.eq_false_iff]
  intro digit
  have inLetters := isAlpha_iff_toNat.mp letter
  have inDigits := Char.isDigit_iff_toNat.mp digit
  have upper : 'A'.toNat = 65 := rfl
  have lower : 'a'.toNat = 97 := rfl
  have nine : '9'.toNat = 57 := rfl
  omega

theorem isBlank_eq_false_of_isAlphanum {c : Char} (alphanum : c.isAlphanum = true) :
    Text.isBlank c = false := by
  simp only [Char.isAlphanum, Bool.or_eq_true, isAlpha_iff_toNat,
    Char.isDigit_iff_toNat] at alphanum
  have letters : 'A'.toNat = 65 ∧ 'Z'.toNat = 90 ∧ 'a'.toNat = 97 ∧ 'z'.toNat = 122 :=
    ⟨rfl, rfl, rfl, rfl⟩
  have digits : '0'.toNat = 48 ∧ '9'.toNat = 57 := ⟨rfl, rfl⟩
  simp only [Text.isBlank, Bool.or_eq_false_iff, Bool.and_eq_false_iff, decide_eq_false_iff_not,
    beq_eq_false_iff_ne]
  omega

/-- Characters of a stretch, ended by what follows it, are what `takeWhile` takes
and `dropWhile` drops. -/
theorem takeWhile_append_of_ends {test : Char → Bool} {cs rest : List Char}
    (inside : ∀ c ∈ cs, test c = true) (ends : ∀ c ∈ rest.head?, test c = false) :
    (cs ++ rest).takeWhile test = cs ∧ (cs ++ rest).dropWhile test = rest := by
  rw [List.takeWhile_append_of_pos inside, List.dropWhile_append_of_pos inside]
  cases rest with
  | nil => exact ⟨List.append_nil cs, rfl⟩
  | cons c rest =>
    have stops : test c = false := ends c rfl
    simp [stops]

/-- What `dropWhile` leaves begins with a character that it does not drop. -/
theorem ends_dropWhile (test : Char → Bool) (cs : List Char) :
    ∀ c ∈ (cs.dropWhile test).head?, test c = false := by
  intro c first
  have stops := List.head?_dropWhile_not test cs
  rw [Option.mem_def.mp first] at stops
  simpa using stops

end StackScript
