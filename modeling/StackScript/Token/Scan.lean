import StackScript.SyntaxError
import StackScript.Text.Blank

/-!
# Scanning

A text is cut into the longest tokens from left to right. Blanks other than
line feeds separate tokens and are dropped. A number takes every letter, digit,
underscore and point that follows it, so that a misspelt number is reported
whole.
-/

namespace StackScript

namespace Token

/-! ## Spellings -/

/-- The characters of a word after its first letter. -/
def isWordChar (c : Char) : Bool :=
  c.isAlphanum || c == '_'

/-- The characters that a number swallows after its first digit. -/
def isNumberChar (c : Char) : Bool :=
  isWordChar c || c == '.'

/-- At least one digit, and nothing else. -/
def isDigits (cs : List Char) : Bool :=
  !cs.isEmpty && cs.all Char.isDigit

/-- The number that decimal digits spell. -/
def natOfDigits (cs : List Char) : Nat :=
  cs.foldl (fun n c => 10 * n + (c.toNat - '0'.toNat)) 0

/-- A word is a keyword in any letter case, or else an identifier. -/
def ofWord (cs : List Char) : Token :=
  let word := String.ofList cs
  match Keyword.ofWord? word with
  | some reserved => .keyword reserved
  | none => .identifier word

/-- The integer of this sign and magnitude, if it fits sixty-four bits. -/
def ofInteger? (negative : Bool) (magnitude : Nat) : Option Token :=
  let n : Int := if negative then -(magnitude : Int) else magnitude
  if Int64.minValue.toInt ≤ n ∧ n ≤ Int64.maxValue.toInt then some (.integer (Int64.ofInt n))
  else none

/-- The token of a number without its sign. The whole part has no leading zero
unless it is a single zero, and a point needs digits on both sides. -/
def ofMagnitude? (negative : Bool) (cs : List Char) : Option Token :=
  let whole := cs.takeWhile (· != '.')
  if !isDigits whole || (whole.head? == some '0' && whole.length != 1) then none
  else
    match cs.dropWhile (· != '.') with
    | [] => ofInteger? negative (natOfDigits whole)
    | _ :: fraction =>
      if isDigits fraction then
        some (.float (.ofDecimal negative (natOfDigits (whole ++ fraction)) fraction.length))
      else none

/-- The token of a number. -/
def ofNumber? : List Char → Option Token
  | '-' :: cs => ofMagnitude? true cs
  | cs => ofMagnitude? false cs

/-- What follows an opening quote up to the closing one, and the text after it.
A backslash keeps the next character from closing the text, and must not stand
before a line feed. `taken` is what has been read, latest first. -/
def takeQuoted (taken : List Char) : List Char → Option (List Char × List Char)
  | [] => none
  | '"' :: rest => some (taken.reverse, rest)
  | '\\' :: '\n' :: _ => none
  | '\\' :: c :: rest => takeQuoted (c :: '\\' :: taken) rest
  | c :: rest => takeQuoted (c :: taken) rest

/-- The text after a closing quote is shorter than the one after the opening
quote. -/
theorem length_lt_of_takeQuoted {taken text quoted rest : List Char}
    (read : takeQuoted taken text = some (quoted, rest)) : rest.length < text.length := by
  fun_induction takeQuoted taken text with
  | case1 => simp at read
  | case2 taken rest' => simp_all
  | case3 => simp at read
  | case4 taken c rest' notFeed ih =>
    have := ih read
    simp only [List.length_cons]
    omega
  | case5 taken c rest' _ _ _ ih =>
    have := ih read
    simp only [List.length_cons]
    omega

/-! ## One token -/

/-- Reads the token that starts with `c`, which is no blank but may be a line
feed, and gives back the text after it. -/
def read (line : Nat) (c : Char) (rest : List Char) : Except SyntaxError (Token × List Char) :=
  if c == '\n' then .ok (.lineBreak, rest)
  else if c == '"' then
    match takeQuoted [] rest with
    | some (quoted, after) => .ok (.text (String.ofList quoted), after)
    | none => .error (.unterminatedString line)
  else if c.isDigit || (c == '-' && rest.head?.any Char.isDigit) then
    let spelling := c :: rest.takeWhile isNumberChar
    match ofNumber? spelling with
    | some token => .ok (token, rest.dropWhile isNumberChar)
    | none => .error (.invalidNumber line (String.ofList spelling))
  else if c.isAlpha then
    .ok (ofWord (c :: rest.takeWhile isWordChar), rest.dropWhile isWordChar)
  else .error (.invalidCharacter line c)

/-- A token takes at least its first character. -/
theorem length_le_of_read {line : Nat} {c : Char} {rest after : List Char} {token : Token}
    (success : read line c rest = .ok (token, after)) : after.length ≤ rest.length := by
  simp only [read] at success
  split at success
  · simp_all
  · split at success
    · split at success
      · rename_i quoted after' taken
        have := length_lt_of_takeQuoted taken
        simp_all
        omega
      · simp at success
    · split at success
      · split at success
        · have := (List.dropWhile_suffix (l := rest) isNumberChar).length_le
          simp_all
        · simp at success
      · split at success
        · have := (List.dropWhile_suffix (l := rest) isWordChar).length_le
          simp_all
        · simp at success

end Token

/-! ## All tokens -/

namespace Lexeme

/-- Reads the tokens of a text that starts on this line; `found` are those
before it, latest first. -/
def scan (line : Nat) (found : List Lexeme) : List Char → Except SyntaxError (List Lexeme)
  | [] => .ok found.reverse
  | c :: rest =>
    if c != '\n' && Text.isBlank c then scan line found rest
    else
      match _ : Token.read line c rest with
      | .error error => .error error
      | .ok (token, after) => scan (line + token.lineFeeds) (⟨token, line⟩ :: found) after
termination_by text => text.length
decreasing_by
  · simp
  · rename_i success
    have := Token.length_le_of_read success
    simp only [List.length_cons]
    omega

/-- The tokens of a text without comments. -/
def ofText (text : List Char) : Except SyntaxError (List Lexeme) :=
  scan 1 [] text

end Lexeme

end StackScript
