import StackScript.Proofs.Lexis.Reading
import StackScript.Proofs.Tree

/-!
# Tokens that can be spelled

A token that is spelled without `#` is well-formed, and a well-formed token that
is no float is spelled without `#`. Such tokens, each with a blank behind it, make
a text that splits into them.
-/

namespace StackScript

/-! ## Floats -/

namespace Binary64

/-- Magnitudes that are not above infinity are no NaN. -/
theorem isNaN_ofMagnitude {magnitude : Nat} (le : magnitude ≤ infinityMagnitude)
    (negative : Bool) : (ofMagnitude negative magnitude).isNaN = false := by
  simp only [infinityMagnitude, hiddenBit] at le
  have bits : (ofMagnitude negative magnitude).bits.toNat =
      if negative then signBit + magnitude else magnitude := by
    rw [ofMagnitude, UInt64.toNat_ofNat']
    apply Nat.mod_eq_of_lt
    simp only [signBit]
    split <;> omega
  simp only [isNaN, biasedExponent, fraction, bits, Bool.and_eq_false_iff, beq_eq_false_iff_ne,
    bne_eq_false_iff_eq, signBit, hiddenBit]
  split <;> omega

/-- A decimal is never read as a NaN. -/
theorem isNaN_ofDecimal (negative : Bool) (digits places : Nat) :
    (ofDecimal negative digits places).isNaN = false := by
  apply isNaN_ofMagnitude
  rw [nearestMagnitude]
  split
  · exact Nat.zero_le _
  · exact Nat.min_le_right _ _

end Binary64

namespace Token

variable {token : Token}

/-- A token that is spelled without `#` is well-formed. -/
theorem SpelledBy.wellFormed {spelling : List Char} (spelled : token.SpelledBy spelling)
    (noComment : '#' ∉ spelling) : token.WellFormed := by
  cases spelled with
  | lineBreak | keyword | integer => trivial
  | identifier isName => exact isName
  | float negative natural notEmpty digit => exact Binary64.isNaN_ofDecimal ..
  | text quotable =>
    constructor
    · rwa [String.toList_ofList]
    · rw [String.toList_ofList]
      intro mem
      exact noComment (by simp [mem])

/-! ## Spellings -/

theorem digitChar_ne_zero : ∀ digit < 10, 0 < digit → Nat.digitChar digit ≠ '0' := by
  decide

/-- A positive number is not written with a leading zero. -/
theorem head?_toDigits_ne_zero {n : Nat} (positive : 0 < n) :
    (Nat.toDigits 10 n).head? ≠ some '0' := by
  induction n using Nat.strong_induction_on with
  | h n ih =>
    by_cases short : n < 10
    · rw [Nat.toDigits_of_lt_base short, List.head?_singleton]
      intro leads
      exact digitChar_ne_zero n short positive (Option.some.inj leads)
    · have long := Nat.le_of_not_lt short
      have leads :=
        ih (n / 10) (Nat.div_lt_self positive (by decide)) (Nat.div_pos long (by decide))
      rw [Nat.toDigits_of_base_le (by decide) long]
      cases digits : Nat.toDigits 10 (n / 10) with
      | nil => exact absurd digits Nat.toDigits_ne_nil
      | cons first rest => rwa [digits] at leads

/-- A natural number is written as digits without a leading zero. -/
theorem isNatural_toDigits (n : Nat) : IsNatural (Nat.toDigits 10 n) where
  notEmpty := Nat.toDigits_ne_nil
  digit _ mem := Nat.isDigit_of_mem_toDigits (by decide) (by decide) mem
  noLeadingZero leads := by
    rcases Nat.eq_zero_or_pos n with rfl | positive
    · rfl
    · exact absurd leads (head?_toDigits_ne_zero positive)

/-- What is written is the number. -/
theorem natOfDigits_toDigits (n : Nat) : natOfDigits (Nat.toDigits 10 n) = n :=
  Nat.ofDigitChars_toDigits (by decide) (by decide)

/-- Every integer of sixty-four bits is spelled. -/
theorem exists_spelledBy_integer (n : Int64) :
    ∃ spelling, (Token.integer n).SpelledBy spelling ∧ '#' ∉ spelling := by
  have natural := isNatural_toDigits n.toInt.natAbs
  have value := natOfDigits_toDigits n.toInt.natAbs
  let negative := decide (n.toInt < 0)
  have same : signed negative (natOfDigits (Nat.toDigits 10 n.toInt.natAbs)) = n.toInt := by
    rw [value, signed]
    split
    · rename_i isNegative
      have below := of_decide_eq_true isNegative
      omega
    · rename_i notNegative
      have above := of_decide_eq_false (Bool.eq_false_iff.mpr notNegative)
      omega
  have spelled := SpelledBy.integer negative natural
    (by rw [same]; exact Int64.minValue_le_toInt n) (by rw [same]; exact Int64.toInt_le n)
  rw [same, Int64.ofInt_toInt] at spelled
  refine ⟨_, spelled, ?_⟩
  rw [List.mem_append, not_or]
  constructor
  · cases negative <;> decide
  · exact not_mem_of_test natural.digit rfl

/-- Keywords are words of small letters. -/
theorem isWord_keyword (word : Keyword) : IsWord word.text.toList := by
  cases word <;> decide

theorem toLower_keyword (word : Keyword) : word.text.map Char.toLower = word.text := by
  cases word <;> decide +kernel

/-- Words hold no `#`. -/
theorem not_mem_of_isWord {word : List Char} (isWord : IsWord word) : '#' ∉ word := by
  cases word with
  | nil => exact List.not_mem_nil
  | cons first rest =>
    obtain ⟨letter, inside⟩ := isWord
    rw [List.mem_cons, not_or]
    constructor
    · exact (ne_of_test letter rfl).symm
    · exact not_mem_of_test inside rfl

/-- Every well-formed token but a float is spelled without `#`. -/
theorem exists_spelledBy (wellFormed : token.WellFormed) (notFloat : ∀ x, token ≠ .float x) :
    ∃ spelling, token.SpelledBy spelling ∧ '#' ∉ spelling := by
  cases token with
  | keyword word =>
    have isWord := isWord_keyword word
    have spelled : (Token.keyword word).SpelledBy word.text.toList :=
      .keyword isWord (by rw [String.ofList_toList, toLower_keyword])
    exact ⟨_, spelled, not_mem_of_isWord isWord⟩
  | identifier name =>
    exact ⟨_, .identifier wellFormed, not_mem_of_isWord wellFormed.1⟩
  | integer n => exact exists_spelledBy_integer n
  | float x => exact absurd rfl (notFloat x)
  | text s =>
    obtain ⟨quotable, noComment⟩ := wellFormed
    have spelled := SpelledBy.text quotable
    rw [String.ofList_toList] at spelled
    exact ⟨_, spelled, by simp [noComment]⟩
  | lineBreak => exact ⟨_, .lineBreak, by decide⟩

/-- A blank ends every token. -/
theorem endsBefore_blank (token : Token) (rest : List Char) : token.EndsBefore (' ' :: rest) := by
  intro c first
  cases first
  cases token <;> rfl

end Token

/-- Tokens that are spelled without `#` are the tokens of a text without `#`, which
does not end with a line feed. -/
theorem Lexeme.exists_split {tokens : List Token}
    (spelled : ∀ token ∈ tokens, ∃ spelling, token.SpelledBy spelling ∧ '#' ∉ spelling) :
    ∃ text, '#' ∉ text ∧ text.getLast? ≠ some '\n' ∧
      ∀ line, ∃ lexemes, Split line text lexemes ∧ lexemes.map Lexeme.token = tokens := by
  induction tokens with
  | nil => exact ⟨[], by simp, by simp, fun line => ⟨[], .nil line, rfl⟩⟩
  | cons token rest ih =>
    obtain ⟨⟨spelling, isSpelling, noComment⟩, others⟩ := List.forall_mem_cons.mp spelled
    obtain ⟨text, noComments, noEnd, splits⟩ := ih others
    -- the blank ends the token, whatever stands behind it
    refine ⟨spelling ++ ' ' :: text, ?_, ?_, ?_⟩
    · simp [noComment, noComments]
    · intro atEnd
      cases text with
      | nil => simp at atEnd
      | cons c text => exact noEnd (by simpa [List.getLast?_append, List.getLast?_cons] using atEnd)
    · intro line
      obtain ⟨lexemes, split, same⟩ := splits (line + token.lineFeeds)
      have blank : Split (line + token.lineFeeds) (' ' :: text) lexemes :=
        .blank (by decide) (by decide) split
      exact ⟨_, .token isSpelling (token.endsBefore_blank text) blank, by simp [same]⟩

end StackScript
