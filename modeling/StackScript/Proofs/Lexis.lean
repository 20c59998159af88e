import StackScript.Token.Scan

/-!
# The tokens of a text

The documented spelling of each token as a relation beside the scanner, and the
way in which spellings and blanks make up a text. A spelling ends where the text
after it cannot make it longer, so a text splits in one way at most.
-/

namespace StackScript

/-- A letter, and letters, digits and underscores after it. -/
def IsWord : List Char → Prop
  | [] => False
  | first :: rest => first.isAlpha = true ∧ ∀ c ∈ rest, Token.isWordChar c = true

instance IsWord.decidable : DecidablePred IsWord
  | [] => inferInstanceAs (Decidable False)
  | first :: rest =>
    decidable_of_iff (first.isAlpha = true ∧ rest.all Token.isWordChar = true) (by simp [IsWord])

/-- A word that is no keyword in any letter case. -/
def IsName (name : String) : Prop :=
  IsWord name.toList ∧ ∀ keyword : Keyword, name.map Char.toLower ≠ keyword.text

instance IsName.decidable (name : String) : Decidable (IsName name) :=
  decidable_of_iff
    (IsWord name.toList ∧ ∀ keyword ∈ Keyword.all, name.map Char.toLower ≠ keyword.text)
    (by simp [IsName, Keyword.mem_all])

/-- Decimal digits; a zero leads only if it stands alone. -/
structure IsNatural (digits : List Char) : Prop where
  notEmpty : digits ≠ []
  digit : ∀ c ∈ digits, c.isDigit = true
  noLeadingZero : digits.head? = some '0' → digits.length = 1

/-- What may stand between quotes: characters other than a quote and a backslash,
and backslashes with the character that follows them, which is no line feed. -/
inductive Quotable : List Char → Prop where
  | nil : Quotable []
  | plain {c : Char} {items : List Char} (notQuote : c ≠ '"') (notBackslash : c ≠ '\\') :
    Quotable items → Quotable (c :: items)
  | escape {c : Char} {items : List Char} (notFeed : c ≠ '\n') :
    Quotable items → Quotable ('\\' :: c :: items)

namespace Token

/-- A minus sign, for negative numbers only. -/
def sign (negative : Bool) : List Char :=
  if negative then ['-'] else []

/-- The integer of this sign and magnitude. -/
def signed (negative : Bool) (magnitude : Nat) : Int :=
  if negative then -(magnitude : Int) else magnitude

/-- The characters spell the token. -/
inductive SpelledBy : Token → List Char → Prop where
  | lineBreak : SpelledBy .lineBreak ['\n']
  | keyword {word : Keyword} {cs : List Char} (isWord : IsWord cs)
      (anyCase : (String.ofList cs).map Char.toLower = word.text) : SpelledBy (.keyword word) cs
  | identifier {name : String} (isName : IsName name) :
    SpelledBy (.identifier name) name.toList
  | integer (negative : Bool) {digits : List Char} (natural : IsNatural digits)
      (lower : Int64.minValue.toInt ≤ signed negative (natOfDigits digits))
      (upper : signed negative (natOfDigits digits) ≤ Int64.maxValue.toInt) :
    SpelledBy (.integer (Int64.ofInt (signed negative (natOfDigits digits))))
      (sign negative ++ digits)
  | float (negative : Bool) {whole fraction : List Char} (natural : IsNatural whole)
      (notEmpty : fraction ≠ []) (digit : ∀ c ∈ fraction, c.isDigit = true) :
    SpelledBy (.float (.ofDecimal negative (natOfDigits (whole ++ fraction)) fraction.length))
      (sign negative ++ whole ++ '.' :: fraction)
  | text {items : List Char} (quotable : Quotable items) :
    SpelledBy (.text (String.ofList items)) ('"' :: items ++ ['"'])

/-- The characters that would make a token longer. -/
def extendedBy : Token → Char → Bool
  | .keyword _ | .identifier _ => isWordChar
  | .integer _ | .float _ => isNumberChar
  | .text _ | .lineBreak => fun _ => false

/-- The text after a token does not make it longer. -/
def EndsBefore (token : Token) (rest : List Char) : Prop :=
  ∀ c ∈ rest.head?, token.extendedBy c = false

end Token

/-- The text, from this line on, consists of these lexemes, each ended by what
follows it, and of blanks. -/
inductive Lexeme.Split : Nat → List Char → List Lexeme → Prop where
  | nil (line : Nat) : Split line [] []
  | blank {line : Nat} {c : Char} {rest : List Char} {lexemes : List Lexeme} (notFeed : c ≠ '\n')
      (isBlank : Text.isBlank c = true) :
    Split line rest lexemes → Split line (c :: rest) lexemes
  | token {line : Nat} {token : Token} {spelling rest : List Char} {lexemes : List Lexeme}
      (spelled : token.SpelledBy spelling) (ends : token.EndsBefore rest) :
    Split (line + token.lineFeeds) rest lexemes →
      Split line (spelling ++ rest) (⟨token, line⟩ :: lexemes)

end StackScript
