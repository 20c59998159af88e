import Mathlib.Data.List.Basic
import StackScript.Proofs.Lexis.Reading

/-!
# Lines of lexemes

The scanner only ever adds to a line number. So a text that starts further down
has the same lexemes, or the same error, further down by as many lines; and a text
that splits into lexemes is scanned in front of a line feed as it is by itself. A
carriage return at its end is a blank like any other.
-/

namespace StackScript

/-- The lexeme so many lines further down. -/
def Lexeme.movedDown (lines : Nat) (lexeme : Lexeme) : Lexeme :=
  ⟨lexeme.token, lexeme.line + lines⟩

/-- The error so many lines further down, and otherwise the same. -/
def SyntaxError.movedDown (lines : Nat) : SyntaxError → SyntaxError
  | .invalidCharacter line c => .invalidCharacter (line + lines) c
  | .invalidNumber line spelling => .invalidNumber (line + lines) spelling
  | .unterminatedString line => .unterminatedString (line + lines)
  | .unexpectedToken line found expected => .unexpectedToken (line + lines) found expected
  | .unexpectedEnd line expected => .unexpectedEnd (line + lines) expected
  | .nestingTooDeep line limit => .nestingTooDeep (line + lines) limit

/-! ## Texts that start further down -/

/-- A token is read in the same way on every line. -/
theorem Token.read_movedDown (line lines : Nat) (c : Char) (rest : List Char) :
    read (line + lines) c rest = (read line c rest).mapError (SyntaxError.movedDown lines) := by
  simp only [read]
  split
  · rfl
  · split
    · split <;> rfl
    · split
      · split <;> rfl
      · split <;> rfl

namespace Lexeme

/-- What has been found before a text stands before what is found in it. -/
theorem scan_append_found (line : Nat) (found earlier : List Lexeme) (text : List Char) :
    scan line (found ++ earlier) text = (scan line found text).map (earlier.reverse ++ ·) := by
  fun_induction scan line found text with
  | case1 line found =>
    rw [scan, List.reverse_append]
    rfl
  | case2 line found c rest isBlank ih =>
    rw [scan, if_pos isBlank]
    exact ih
  | case3 line found c rest notBlank error fails =>
    exact scan_of_read_eq_error (Bool.eq_false_iff.mpr notBlank) fails (found ++ earlier)
  | case4 line found c rest notBlank token after reads ih =>
    rw [scan_of_read (Bool.eq_false_iff.mpr notBlank) reads]
    exact ih

/-- The scan of a text that starts further down. -/
theorem scan_movedDown (line lines : Nat) (found : List Lexeme) (text : List Char) :
    scan (line + lines) (found.map (movedDown lines)) text =
      ((scan line found text).map (List.map (movedDown lines))).mapError
        (SyntaxError.movedDown lines) := by
  fun_induction scan line found text with
  | case1 line found =>
    rw [scan, ← List.map_reverse]
    rfl
  | case2 line found c rest isBlank ih =>
    rw [scan, if_pos isBlank]
    exact ih
  | case3 line found c rest notBlank error fails =>
    have failsBelow := Token.read_movedDown line lines c rest
    rw [fails] at failsBelow
    exact scan_of_read_eq_error (Bool.eq_false_iff.mpr notBlank) failsBelow _
  | case4 line found c rest notBlank token after reads ih =>
    have readsBelow := Token.read_movedDown line lines c rest
    rw [reads] at readsBelow
    rw [scan_of_read (Bool.eq_false_iff.mpr notBlank) readsBelow, Nat.add_right_comm]
    exact ih

/-- A text below lexemes that have been found: its own lexemes follow them, or its
error is the error of the whole, each as far down as the text starts. -/
theorem scan_below (lines : Nat) (earlier : List Lexeme) (text : List Char) :
    scan (1 + lines) earlier text =
      ((ofText text).map fun lexemes => earlier.reverse ++ lexemes.map (movedDown lines)).mapError
        (SyntaxError.movedDown lines) := by
  have below := scan_append_found (1 + lines) [] earlier text
  have moved := scan_movedDown 1 lines [] text
  rw [List.nil_append] at below
  rw [List.map_nil] at moved
  rw [below, moved, ofText]
  cases scan 1 [] text <;> rfl

end Lexeme

/-! ## Texts before a line feed -/

namespace Token

variable {token : Token} {spelling : List Char}

/-- The characters of a spelling: a line feed, or quoted items, or characters of
numbers and words alone. -/
theorem SpelledBy.characters (spelled : token.SpelledBy spelling) :
    (token = .lineBreak ∧ spelling = ['\n']) ∨
      (∃ items, token = .text (String.ofList items) ∧ spelling = '"' :: items ++ ['"']) ∨
      (token.lineFeeds = 0 ∧ ∀ c ∈ spelling, (isNumberChar c || c == '-') = true) := by
  have ofWord {cs : List Char} (isWord : IsWord cs) :
      ∀ c ∈ cs, (isNumberChar c || c == '-') = true := by
    cases cs with
    | nil => cases isWord
    | cons first rest =>
      obtain ⟨letter, inside⟩ := isWord
      simp only [List.forall_mem_cons, isNumberChar]
      refine ⟨by simp [isWordChar, Char.isAlphanum, letter], fun c mem => by simp [inside c mem]⟩
  have ofDigits {digits : List Char} (digit : ∀ c ∈ digits, c.isDigit = true) :
      ∀ c ∈ digits, (isNumberChar c || c == '-') = true := by
    intro c mem
    simp [isNumberChar_of_isDigit (digit c mem)]
  have ofSign (negative : Bool) : ∀ c ∈ sign negative, (isNumberChar c || c == '-') = true := by
    cases negative <;> simp [sign]
  cases spelled with
  | lineBreak => exact .inl ⟨rfl, rfl⟩
  | @text items quotable => exact .inr (.inl ⟨items, rfl, rfl⟩)
  | keyword isWord => exact .inr (.inr ⟨rfl, ofWord isWord⟩)
  | identifier isName => exact .inr (.inr ⟨rfl, ofWord isName.1⟩)
  | integer negative natural =>
    exact .inr (.inr ⟨rfl, List.forall_mem_append.mpr ⟨ofSign negative, ofDigits natural.digit⟩⟩)
  | float negative natural notEmpty digit =>
    refine .inr (.inr ⟨rfl, ?_⟩)
    simp only [List.forall_mem_append, List.forall_mem_cons]
    exact ⟨⟨ofSign negative, ofDigits natural.digit⟩, rfl, ofDigits digit⟩

/-- A token holds the line feeds of its spelling. -/
theorem SpelledBy.count_lineFeed (spelled : token.SpelledBy spelling) :
    spelling.count '\n' = token.lineFeeds := by
  rcases spelled.characters with ⟨rfl, rfl⟩ | ⟨items, rfl, rfl⟩ | ⟨none, characters⟩
  · rfl
  · simp [lineFeeds]
  · rw [none, List.count_eq_zero]
    exact not_mem_of_test characters rfl

/-- No spelling ends with a carriage return. -/
theorem SpelledBy.getLast?_ne_return (spelled : token.SpelledBy spelling) :
    spelling.getLast? ≠ some '\r' := by
  rcases spelled.characters with ⟨rfl, rfl⟩ | ⟨items, rfl, rfl⟩ | ⟨none, characters⟩
  · decide
  · rw [List.getLast?_concat]
    decide
  · intro ends
    exact not_mem_of_test characters rfl (List.mem_of_getLast? ends)

/-- So does the beginning of what ends it. -/
theorem EndsBefore.of_append {rest more : List Char} (ends : token.EndsBefore (rest ++ more)) :
    token.EndsBefore rest := by
  cases rest with
  | nil => exact nofun
  | cons c rest => exact ends

/-- A line feed ends every token. -/
theorem EndsBefore.append_feed {rest : List Char} (ends : token.EndsBefore rest)
    (after : List Char) : token.EndsBefore (rest ++ '\n' :: after) := by
  cases rest with
  | nil =>
    intro c first
    cases first
    cases token <;> rfl
  | cons c rest => exact ends

end Token

namespace Lexeme

variable {line : Nat} {text : List Char} {lexemes : List Lexeme}

/-- A text that splits is scanned in front of a line feed as it is by itself. -/
theorem Split.scan_append_feed (split : Split line text lexemes) (found : List Lexeme)
    (after : List Char) :
    scan line found (text ++ '\n' :: after) =
      scan (line + text.count '\n' + 1)
        (⟨.lineBreak, line + text.count '\n'⟩ :: (lexemes.reverse ++ found)) after := by
  induction split generalizing found with
  | nil line => exact scan_spelling .lineBreak (fun _ _ => rfl) line found
  | blank notFeed isBlank split ih =>
    rw [List.cons_append, scan_blank notFeed isBlank, ih, List.count_cons_of_ne notFeed]
  | token spelled ends split ih =>
    rw [List.append_assoc, scan_spelling spelled (ends.append_feed after), ih, List.count_append,
      spelled.count_lineFeed]
    simp [Nat.add_assoc]

/-- Behind a text that splits and a line feed stand the lexemes of what follows, or its
error, each further down by the lines above. -/
theorem Split.ofText_append_feed (split : Split 1 text lexemes) (after : List Char) :
    ofText (text ++ '\n' :: after) =
      ((ofText after).map fun found =>
        lexemes ++ ⟨.lineBreak, 1 + text.count '\n'⟩ ::
          found.map (movedDown (1 + text.count '\n'))).mapError
        (SyntaxError.movedDown (1 + text.count '\n')) := by
  rw [ofText, split.scan_append_feed, Nat.add_comm _ 1, scan_below]
  simp

/-- A carriage return at the end of a text is no part of a lexeme. -/
theorem Split.of_append_return (split : Split line (text ++ ['\r']) lexemes) :
    Split line text lexemes := by
  generalize whole : text ++ ['\r'] = returned at split
  induction split generalizing text with
  | nil line => simp at whole
  | @blank line c rest lexemes notFeed isBlank split ih =>
    cases text with
    | nil =>
      obtain ⟨rfl, rfl⟩ := List.cons.inj whole
      exact split
    | cons first more =>
      obtain ⟨rfl, rfl⟩ := List.cons.inj whole
      exact .blank notFeed isBlank (ih rfl)
  | @token line token spelling rest lexemes spelled ends split ih =>
    rcases List.eq_nil_or_concat' rest with rfl | ⟨inner, final, rfl⟩
    · rw [List.append_nil] at whole
      exact absurd (by simp [← whole]) spelled.getLast?_ne_return
    · rw [← List.append_assoc] at whole
      obtain ⟨rfl, isReturn⟩ := List.append_inj' whole rfl
      obtain rfl := List.singleton_inj.mp isReturn
      exact .token spelled ends.of_append (ih rfl)

end Lexeme

end StackScript
