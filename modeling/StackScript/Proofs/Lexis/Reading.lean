import StackScript.Proofs.Lexis
import StackScript.Proofs.Text

/-!
# Scanning reads spellings

The scanner gives lexemes exactly if the text splits into their spellings and
blanks. So a text that splits does so in one way.
-/

namespace StackScript

namespace Token

variable {negative : Bool} {token : Token}

/-! ## Texts between quotes -/

/-- The characters up to the first quote that no backslash takes. -/
theorem takeQuoted_eq_some_iff {taken text quoted rest : List Char} :
    takeQuoted taken text = some (quoted, rest) ↔
      ∃ items, Quotable items ∧ quoted = taken.reverse ++ items ∧ text = items ++ '"' :: rest := by
  constructor
  · intro found
    fun_induction takeQuoted taken text with
    | case1 => cases found
    | case2 taken rest =>
      cases found
      exact ⟨[], .nil, (List.append_nil _).symm, rfl⟩
    | case3 => cases found
    | case4 taken c rest notFeed ih =>
      obtain ⟨items, quotable, rfl, rfl⟩ := ih found
      exact ⟨'\\' :: c :: items, .escape notFeed quotable, by simp, rfl⟩
    | case5 taken c rest notQuote notFeed notEscape ih =>
      obtain ⟨items, quotable, rfl, rfl⟩ := ih found
      have notBackslash : c ≠ '\\' := by
        intro isBackslash
        cases items with
        | nil => exact notEscape '"' _ isBackslash rfl
        | cons next items => exact notEscape next _ isBackslash rfl
      exact ⟨c :: items, .plain notQuote notBackslash quotable, by simp, rfl⟩
  · rintro ⟨items, quotable, rfl, rfl⟩
    induction quotable generalizing taken with
    | nil => simp [takeQuoted]
    | @plain c items notQuote notBackslash quotable ih =>
      have step := @ih (c :: taken)
      simp_all [takeQuoted]
    | @escape c items notFeed quotable ih =>
      have step := @ih (c :: '\\' :: taken)
      simp_all [takeQuoted]

/-! ## Numbers -/

theorem isDigits_iff {cs : List Char} :
    isDigits cs = true ↔ cs ≠ [] ∧ ∀ c ∈ cs, c.isDigit = true := by
  simp [isDigits]

/-- The test that a number's whole part must pass. -/
theorem isNatural_iff {whole : List Char} :
    (!isDigits whole || (whole.head? == some '0' && whole.length != 1)) = false ↔
      IsNatural whole := by
  rw [Bool.or_eq_false_iff, Bool.not_eq_false', isDigits_iff]
  constructor
  · rintro ⟨⟨notEmpty, digit⟩, noLeadingZero⟩
    refine ⟨notEmpty, digit, fun leads => ?_⟩
    simpa [leads] using noLeadingZero
  · rintro ⟨notEmpty, digit, noLeadingZero⟩
    refine ⟨⟨notEmpty, digit⟩, ?_⟩
    by_cases leads : whole.head? = some '0'
    · simp [noLeadingZero leads]
    · simp [leads]

theorem ofInteger?_eq_some_iff {magnitude : Nat} :
    ofInteger? negative magnitude = some token ↔
      Int64.minValue.toInt ≤ signed negative magnitude ∧
        signed negative magnitude ≤ Int64.maxValue.toInt ∧
        token = .integer (Int64.ofInt (signed negative magnitude)) := by
  have sameValue : (if negative then -(magnitude : Int) else magnitude) =
      signed negative magnitude := rfl
  simp only [ofInteger?, sameValue]
  split
  · rename_i range
    simp only [Option.some.injEq, range, true_and]
    exact eq_comm
  · rename_i outside
    simp only [reduceCtorEq, false_iff]
    rintro ⟨lower, upper, -⟩
    exact outside ⟨lower, upper⟩

/-- Digits are no point. -/
theorem ne_point_of_isDigit {digits : List Char} (digit : ∀ c ∈ digits, c.isDigit = true) :
    ∀ c ∈ digits, (c != '.') = true := by
  exact bne_of_not_mem (not_mem_of_test digit rfl)

theorem ofMagnitude?_natural {digits : List Char} (natural : IsNatural digits) :
    ofMagnitude? negative digits = ofInteger? negative (natOfDigits digits) := by
  have ends : ∀ c ∈ ([] : List Char).head?, (c != '.') = false := nofun
  have taken := takeWhile_append_of_ends (ne_point_of_isDigit natural.digit) ends
  rw [List.append_nil] at taken
  simp only [ofMagnitude?, taken.1, taken.2, isNatural_iff.mpr natural, Bool.false_eq_true,
    if_false]

theorem ofMagnitude?_point {whole fraction : List Char} (natural : IsNatural whole)
    (notEmpty : fraction ≠ []) (digit : ∀ c ∈ fraction, c.isDigit = true) :
    ofMagnitude? negative (whole ++ '.' :: fraction) =
      some (.float (.ofDecimal negative (natOfDigits (whole ++ fraction)) fraction.length)) := by
  have ends : ∀ c ∈ ('.' :: fraction).head?, (c != '.') = false := by simp
  have taken := takeWhile_append_of_ends (ne_point_of_isDigit natural.digit) ends
  simp only [ofMagnitude?, taken.1, taken.2, isNatural_iff.mpr natural, Bool.false_eq_true,
    if_false, if_pos (isDigits_iff.mpr ⟨notEmpty, digit⟩)]

/-- The token of a number is spelled by its sign and the rest. -/
theorem spelledBy_of_ofMagnitude? {cs : List Char}
    (found : ofMagnitude? negative cs = some token) :
    token.SpelledBy (sign negative ++ cs) ∧ token.extendedBy = isNumberChar := by
  have split : cs.takeWhile (· != '.') ++ cs.dropWhile (· != '.') = cs :=
    List.takeWhile_append_dropWhile
  have ends := ends_dropWhile (· != '.') cs
  simp only [ofMagnitude?] at found
  generalize cs.takeWhile (· != '.') = whole at split found
  generalize cs.dropWhile (· != '.') = behind at split found ends
  by_cases natural : IsNatural whole
  · rw [isNatural_iff.mpr natural] at found
    cases behind with
    | nil =>
      obtain ⟨lower, upper, rfl⟩ := ofInteger?_eq_some_iff.mp found
      rw [← split, List.append_nil]
      exact ⟨.integer negative natural lower upper, rfl⟩
    | cons point fraction =>
      obtain rfl : point = '.' := by simpa using ends point rfl
      by_cases digits : isDigits fraction = true
      · obtain ⟨notEmpty, digit⟩ := isDigits_iff.mp digits
        simp only [Bool.false_eq_true, if_false, if_pos digits, Option.some.injEq] at found
        rw [← split, ← List.append_assoc, ← found]
        exact ⟨.float negative natural notEmpty digit, rfl⟩
      · simp [digits] at found
  · rw [← isNatural_iff, Bool.not_eq_false] at natural
    simp [natural] at found

theorem spelledBy_of_ofNumber? {cs : List Char} (found : ofNumber? cs = some token) :
    token.SpelledBy cs ∧ token.extendedBy = isNumberChar := by
  simp only [ofNumber?] at found
  split at found
  · exact spelledBy_of_ofMagnitude? found
  · exact spelledBy_of_ofMagnitude? found

/-! ## Words -/

theorem text_injective {first second : Keyword} (same : first.text = second.text) :
    first = second := by
  have distinct : ∀ a ∈ Keyword.all, ∀ b ∈ Keyword.all, a.text = b.text → a = b := by decide
  exact distinct first (Keyword.mem_all first) second (Keyword.mem_all second) same

theorem ofWord?_eq_some_iff {word : String} {keyword : Keyword} :
    Keyword.ofWord? word = some keyword ↔ word.map Char.toLower = keyword.text := by
  constructor
  · intro found
    have same := List.find?_some found
    exact (beq_iff_eq.mp same).symm
  · intro same
    have isSome : (Keyword.ofWord? word).isSome = true := by
      rw [Keyword.ofWord?, List.find?_isSome]
      exact ⟨keyword, Keyword.mem_all keyword, beq_iff_eq.mpr same.symm⟩
    obtain ⟨found, isFound⟩ := Option.isSome_iff_exists.mp isSome
    have foundSame := List.find?_some isFound
    rw [isFound, text_injective ((beq_iff_eq.mp foundSame).trans same)]

/-- A word spells the token that it is read as. -/
theorem spelledBy_ofWord {cs : List Char} (isWord : IsWord cs) :
    (ofWord cs).SpelledBy cs ∧ (ofWord cs).extendedBy = isWordChar := by
  simp only [ofWord]
  cases found : Keyword.ofWord? (String.ofList cs) with
  | some keyword => exact ⟨.keyword isWord (ofWord?_eq_some_iff.mp found), rfl⟩
  | none =>
    have isName : IsName (String.ofList cs) := by
      constructor
      · rwa [String.toList_ofList]
      · intro keyword same
        rw [ofWord?_eq_some_iff.mpr same] at found
        cases found
    have spelled := SpelledBy.identifier isName
    rw [String.toList_ofList] at spelled
    exact ⟨spelled, rfl⟩

theorem ofWord_of_keyword {cs : List Char} {word : Keyword}
    (anyCase : (String.ofList cs).map Char.toLower = word.text) : ofWord cs = .keyword word := by
  simp only [ofWord, ofWord?_eq_some_iff.mpr anyCase]

theorem ofWord_of_isName {name : String} (isName : IsName name) :
    ofWord name.toList = .identifier name := by
  have noKeyword : Keyword.ofWord? name = none := by
    rw [Option.eq_none_iff_forall_ne_some]
    intro keyword found
    exact isName.2 keyword (ofWord?_eq_some_iff.mp found)
  simp only [ofWord, String.ofList_toList, noKeyword]

/-! ## One token -/

section Read

variable {line : Nat} {c : Char} {rest after : List Char}

/-- What the scanner reads first is the spelling of its token, and the text after
it does not make the token longer. -/
theorem exists_spelling_of_read (success : read line c rest = .ok (token, after)) :
    ∃ spelling, c :: rest = spelling ++ after ∧ token.SpelledBy spelling ∧
      token.EndsBefore after := by
  simp only [read, beq_iff_eq] at success
  by_cases isFeed : c = '\n'
  · simp only [if_pos isFeed, Except.ok.injEq, Prod.mk.injEq] at success
    obtain ⟨rfl, rfl⟩ := success
    exact ⟨['\n'], by rw [isFeed]; rfl, .lineBreak, fun _ _ => rfl⟩
  rw [if_neg isFeed] at success
  by_cases isQuote : c = '"'
  · rw [if_pos isQuote] at success
    cases found : takeQuoted [] rest with
    | none => simp [found] at success
    | some taken =>
      obtain ⟨quoted, behind⟩ := taken
      simp only [found, Except.ok.injEq, Prod.mk.injEq] at success
      obtain ⟨rfl, rfl⟩ := success
      obtain ⟨items, quotable, rfl, rfl⟩ := takeQuoted_eq_some_iff.mp found
      exact ⟨'"' :: quoted ++ ['"'], by simp [isQuote], .text quotable, fun _ _ => rfl⟩
  rw [if_neg isQuote] at success
  split at success
  · rename_i isNumber
    cases found : ofNumber? (c :: rest.takeWhile isNumberChar) with
    | none => simp [found] at success
    | some number =>
      simp only [found, Except.ok.injEq, Prod.mk.injEq] at success
      obtain ⟨rfl, rfl⟩ := success
      obtain ⟨spelled, extended⟩ := spelledBy_of_ofNumber? found
      refine ⟨c :: rest.takeWhile isNumberChar, ?_, spelled, ?_⟩
      · rw [List.cons_append, List.takeWhile_append_dropWhile]
      · rw [EndsBefore, extended]
        exact ends_dropWhile isNumberChar rest
  · split at success
    · rename_i notNumber letter
      simp only [Except.ok.injEq, Prod.mk.injEq] at success
      obtain ⟨rfl, rfl⟩ := success
      have isWord : IsWord (c :: rest.takeWhile isWordChar) :=
        ⟨letter, fun d mem => List.mem_takeWhile_imp mem⟩
      obtain ⟨spelled, extended⟩ := spelledBy_ofWord isWord
      refine ⟨c :: rest.takeWhile isWordChar, ?_, spelled, ?_⟩
      · rw [List.cons_append, List.takeWhile_append_dropWhile]
      · rw [EndsBefore, extended]
        exact ends_dropWhile isWordChar rest
    · cases success

theorem isNumberChar_of_isDigit {d : Char} (digit : d.isDigit = true) :
    isNumberChar d = true := by
  simp [isNumberChar, isWordChar, Char.isAlphanum, digit]

/-- What begins with a digit, after a minus sign or not, is taken whole for a number up to
what cannot extend one. -/
theorem read_digits {d : Char} {digits : List Char} (digit : d.isDigit = true)
    (inside : ∀ e ∈ digits, isNumberChar e = true)
    (ends : ∀ e ∈ after.head?, isNumberChar e = false)
    (split : c :: rest = sign negative ++ d :: digits ++ after) :
    read line c rest =
      match ofMagnitude? negative (d :: digits) with
      | some token => .ok (token, after)
      | none => .error (.invalidNumber line (String.ofList (sign negative ++ d :: digits))) := by
  cases negative with
  | true =>
    obtain ⟨rfl, rfl⟩ := List.cons.inj split
    have taken := takeWhile_append_of_ends
      (List.forall_mem_cons.mpr ⟨isNumberChar_of_isDigit digit, inside⟩) ends
    rw [List.cons_append] at taken
    have number : ofNumber? ('-' :: d :: digits) = ofMagnitude? true (d :: digits) := rfl
    cases found : ofMagnitude? true (d :: digits) <;>
      simp [read, digit, taken, number, found, sign]
  | false =>
    obtain ⟨rfl, rfl⟩ := List.cons.inj split
    have taken := takeWhile_append_of_ends inside ends
    have notFeed : c ≠ '\n' := ne_of_test digit rfl
    have notQuote : c ≠ '"' := ne_of_test digit rfl
    have notMinus : c ≠ '-' := ne_of_test digit rfl
    have number : ofNumber? (c :: digits) = ofMagnitude? false (c :: digits) := by
      simp [ofNumber?, notMinus]
    cases found : ofMagnitude? false (c :: digits) <;>
      simp [read, digit, taken, number, found, notFeed, notQuote, sign]

/-- A number that nothing extends is read whole. -/
theorem read_number {d : Char} {digits : List Char} (digit : d.isDigit = true)
    (inside : ∀ e ∈ digits, isNumberChar e = true)
    (found : ofMagnitude? negative (d :: digits) = some token)
    (ends : ∀ e ∈ after.head?, isNumberChar e = false)
    (split : c :: rest = sign negative ++ d :: digits ++ after) :
    read line c rest = .ok (token, after) := by
  rw [read_digits digit inside ends split, found]

/-- A word that nothing extends is read whole. -/
theorem read_word {word : List Char} (isWord : IsWord word)
    (ends : ∀ e ∈ after.head?, isWordChar e = false) (split : c :: rest = word ++ after) :
    read line c rest = .ok (ofWord word, after) := by
  cases word with
  | nil => cases isWord
  | cons first more =>
    obtain ⟨letter, inside⟩ := isWord
    obtain ⟨rfl, rfl⟩ := List.cons.inj split
    have taken := takeWhile_append_of_ends inside ends
    have notFeed : c ≠ '\n' := ne_of_test letter rfl
    have notQuote : c ≠ '"' := ne_of_test letter rfl
    have notMinus : c ≠ '-' := ne_of_test letter rfl
    have notDigit := isDigit_eq_false_of_isAlpha letter
    simp [read, letter, taken, notFeed, notQuote, notMinus, notDigit]

/-- Every spelling that nothing extends is read as its token. -/
theorem read_spelling {spelling : List Char} (spelled : token.SpelledBy spelling)
    (ends : token.EndsBefore after) (split : c :: rest = spelling ++ after) :
    read line c rest = .ok (token, after) := by
  cases spelled with
  | lineBreak =>
    obtain ⟨rfl, rfl⟩ := List.cons.inj split
    rfl
  | keyword isWord anyCase =>
    rw [read_word isWord ends split, ofWord_of_keyword anyCase]
  | identifier isName =>
    rw [read_word isName.1 ends split, ofWord_of_isName isName]
  | @integer negative digits natural lower upper =>
    have found : ofMagnitude? negative digits = some (.integer
        (Int64.ofInt (signed negative (natOfDigits digits)))) := by
      rw [ofMagnitude?_natural natural]
      exact ofInteger?_eq_some_iff.mpr ⟨lower, upper, rfl⟩
    obtain ⟨d, ds, rfl⟩ := List.exists_cons_of_ne_nil natural.notEmpty
    obtain ⟨digit, digits⟩ := List.forall_mem_cons.mp natural.digit
    apply read_number digit _ found ends split
    intro e mem
    exact isNumberChar_of_isDigit (digits e mem)
  | @float negative whole fraction natural notEmpty fractionDigit =>
    have found : ofMagnitude? negative (whole ++ '.' :: fraction) = some (.float
        (.ofDecimal negative (natOfDigits (whole ++ fraction)) fraction.length)) :=
      ofMagnitude?_point natural notEmpty fractionDigit
    obtain ⟨d, ds, rfl⟩ := List.exists_cons_of_ne_nil natural.notEmpty
    obtain ⟨digit, digits⟩ := List.forall_mem_cons.mp natural.digit
    apply read_number digit _ found ends (by simpa using split)
    intro e mem
    rcases List.mem_append.mp mem with inWhole | inRest
    · exact isNumberChar_of_isDigit (digits e inWhole)
    · rcases List.mem_cons.mp inRest with rfl | inFraction
      · rfl
      · exact isNumberChar_of_isDigit (fractionDigit e inFraction)
  | @text items quotable =>
    obtain ⟨rfl, rfl⟩ := List.cons.inj split
    have taken : takeQuoted [] (items ++ '"' :: after) = some (items, after) :=
      takeQuoted_eq_some_iff.mpr ⟨items, quotable, rfl, rfl⟩
    simp [read, taken]

theorem SpelledBy.ne_nil {spelling : List Char} (spelled : token.SpelledBy spelling) :
    spelling ≠ [] := by
  rintro rfl
  generalize isEmpty : ([] : List Char) = spelling at spelled
  cases spelled with
  | lineBreak | text => cases isEmpty
  | keyword isWord =>
    subst isEmpty
    exact isWord
  | identifier isName =>
    have isWord := isName.1
    rwa [← isEmpty] at isWord
  | integer negative natural =>
    exact natural.notEmpty (List.append_eq_nil_iff.mp isEmpty.symm).2
  | float => simp at isEmpty

/-- A spelling begins with a line feed, a quote, a letter, a digit or a minus before a
digit. -/
theorem SpelledBy.begins {spelling : List Char} (spelled : token.SpelledBy spelling)
    (split : c :: rest = spelling ++ after) :
    c = '\n' ∨ c = '"' ∨ (c.isDigit || (c == '-' && rest.head?.any Char.isDigit)) = true ∨
      c.isAlpha = true := by
  have ofNumber {negative : Bool} {digits more : List Char} (natural : IsNatural digits)
      (split : c :: rest = sign negative ++ digits ++ more) :
      (c.isDigit || (c == '-' && rest.head?.any Char.isDigit)) = true := by
    obtain ⟨d, ds, rfl⟩ := List.exists_cons_of_ne_nil natural.notEmpty
    have digit := natural.digit d List.mem_cons_self
    cases negative with
    | true =>
      obtain ⟨rfl, rfl⟩ := List.cons.inj split
      simp [digit]
    | false =>
      obtain ⟨rfl, -⟩ := List.cons.inj split
      simp [digit]
  have ofWord {word : List Char} (isWord : IsWord word) (split : c :: rest = word ++ after) :
      c.isAlpha = true := by
    cases word with
    | nil => cases isWord
    | cons first others =>
      obtain ⟨rfl, -⟩ := List.cons.inj split
      exact isWord.1
  cases spelled with
  | lineBreak => exact .inl (List.cons.inj split).1
  | text quotable => exact .inr (.inl (List.cons.inj split).1)
  | keyword isWord anyCase => exact .inr (.inr (.inr (ofWord isWord split)))
  | identifier isName => exact .inr (.inr (.inr (ofWord isName.1 split)))
  | integer negative natural => exact .inr (.inr (.inl (ofNumber natural split)))
  | float negative natural =>
    rw [List.append_assoc] at split
    exact .inr (.inr (.inl (ofNumber natural split)))

/-- No spelling but a line feed begins with a blank. -/
theorem not_skipped_of_spelledBy {cs : List Char} (spelled : token.SpelledBy (c :: cs)) :
    (c != '\n' && Text.isBlank c) = false := by
  have ofAlphanum (alphanum : c.isAlphanum = true) : (c != '\n' && Text.isBlank c) = false := by
    rw [isBlank_eq_false_of_isAlphanum alphanum, Bool.and_false]
  rcases spelled.begins (List.append_nil (c :: cs)).symm with rfl | rfl | isNumber | letter
  · rfl
  · rfl
  · rw [Bool.or_eq_true, Bool.and_eq_true, beq_iff_eq] at isNumber
    rcases isNumber with digit | ⟨rfl, -⟩
    · exact ofAlphanum (by simp [Char.isAlphanum, digit])
    · rfl
  · exact ofAlphanum (by simp [Char.isAlphanum, letter])

/-- What a number would swallow is all that can make a token longer. -/
theorem endsBefore_of_isNumberChar (ends : ∀ d ∈ rest.head?, isNumberChar d = false) :
    token.EndsBefore rest := by
  intro d first
  have noWordChar : isWordChar d = false := (Bool.or_eq_false_iff.mp (ends d first)).1
  cases token with
  | keyword | identifier => exact noWordChar
  | integer | float => exact ends d first
  | text | lineBreak => rfl

/-- Why no token can be read. -/
theorem cases_of_read_eq_error {error : SyntaxError} (fails : read line c rest = .error error) :
    (c = '"' ∧ takeQuoted [] rest = none ∧ error = .unterminatedString line) ∨
      ((c.isDigit || (c == '-' && rest.head?.any Char.isDigit)) = true ∧
        error = .invalidNumber line (String.ofList (c :: rest.takeWhile isNumberChar))) ∨
      (c ≠ '\n' ∧ c ≠ '"' ∧ (c.isDigit || (c == '-' && rest.head?.any Char.isDigit)) = false ∧
        c.isAlpha = false ∧ error = .invalidCharacter line c) := by
  simp only [read] at fails
  by_cases isFeed : (c == '\n') = true
  · rw [if_pos isFeed] at fails
    cases fails
  rw [if_neg isFeed] at fails
  by_cases isQuote : (c == '"') = true
  · left
    rw [if_pos isQuote] at fails
    cases found : takeQuoted [] rest with
    | some taken => simp [found] at fails
    | none =>
      rw [found] at fails
      cases fails
      exact ⟨beq_iff_eq.mp isQuote, rfl, rfl⟩
  rw [if_neg isQuote] at fails
  by_cases isNumber : (c.isDigit || (c == '-' && rest.head?.any Char.isDigit)) = true
  · right; left
    rw [if_pos isNumber] at fails
    cases found : ofNumber? (c :: rest.takeWhile isNumberChar) with
    | some number => simp [found] at fails
    | none =>
      rw [found] at fails
      cases fails
      exact ⟨isNumber, rfl⟩
  rw [if_neg isNumber] at fails
  by_cases letter : c.isAlpha = true
  · rw [if_pos letter] at fails
    cases fails
  right; right
  rw [if_neg letter] at fails
  cases fails
  exact ⟨mt beq_iff_eq.mpr isFeed, mt beq_iff_eq.mpr isQuote, Bool.eq_false_iff.mpr isNumber,
    Bool.eq_false_iff.mpr letter, rfl⟩

end Read

end Token

/-! ## All tokens -/

namespace Lexeme

/-- What the scanner adds to the lexemes found before splits the text. -/
theorem exists_split_of_scan {line : Nat} {found lexemes : List Lexeme} {text : List Char}
    (success : scan line found text = .ok lexemes) :
    ∃ new, lexemes = found.reverse ++ new ∧ Split line text new := by
  fun_induction scan line found text with
  | case1 line found =>
    cases success
    exact ⟨[], (List.append_nil _).symm, .nil line⟩
  | case2 line found c rest isBlank ih =>
    obtain ⟨new, rfl, split⟩ := ih success
    rw [Bool.and_eq_true, bne_iff_ne] at isBlank
    exact ⟨new, rfl, .blank isBlank.1 isBlank.2 split⟩
  | case3 => cases success
  | case4 line found c rest notBlank token after reads ih =>
    obtain ⟨new, rfl, split⟩ := ih success
    obtain ⟨spelling, whole, spelled, ends⟩ := Token.exists_spelling_of_read reads
    rw [whole]
    exact ⟨⟨token, line⟩ :: new, by simp, .token spelled ends split⟩

/-- The scanner goes on after a token. -/
theorem scan_of_read {line : Nat} {c : Char} {rest after : List Char} {token : Token}
    (notBlank : (c != '\n' && Text.isBlank c) = false)
    (reads : Token.read line c rest = .ok (token, after)) (found : List Lexeme) :
    scan line found (c :: rest) =
      scan (line + token.lineFeeds) (⟨token, line⟩ :: found) after := by
  rw [scan, notBlank]
  simp only [Bool.false_eq_true, if_false]
  split
  · rename_i fails
    rw [reads] at fails
    cases fails
  · rename_i readsToo
    rw [reads] at readsToo
    cases readsToo
    rfl

/-- The scanner ends where no token can be read. -/
theorem scan_of_read_eq_error {line : Nat} {c : Char} {rest : List Char} {error : SyntaxError}
    (notBlank : (c != '\n' && Text.isBlank c) = false)
    (fails : Token.read line c rest = .error error) (found : List Lexeme) :
    scan line found (c :: rest) = .error error := by
  rw [scan, notBlank]
  simp only [Bool.false_eq_true, if_false]
  split
  · rename_i failsToo
    rw [fails] at failsToo
    cases failsToo
    rfl
  · rename_i reads
    rw [fails] at reads
    cases reads

/-- The scanner takes a spelling that nothing extends as one lexeme. -/
theorem scan_spelling {token : Token} {spelling rest : List Char}
    (spelled : token.SpelledBy spelling) (ends : token.EndsBefore rest) (line : Nat)
    (found : List Lexeme) :
    scan line found (spelling ++ rest) =
      scan (line + token.lineFeeds) (⟨token, line⟩ :: found) rest := by
  obtain ⟨c, cs, rfl⟩ := List.exists_cons_of_ne_nil spelled.ne_nil
  have reads : Token.read line c (cs ++ rest) = .ok (token, rest) :=
    Token.read_spelling spelled ends rfl
  exact scan_of_read (Token.not_skipped_of_spelledBy spelled) reads found

/-- The scanner drops a blank. -/
theorem scan_blank {c : Char} (notFeed : c ≠ '\n') (isBlank : Text.isBlank c = true) (line : Nat)
    (found : List Lexeme) (rest : List Char) :
    scan line found (c :: rest) = scan line found rest := by
  have skipped : (c != '\n' && Text.isBlank c) = true := by simp [notFeed, isBlank]
  rw [scan, if_pos skipped]

/-- The scanner finds the lexemes that split the text. -/
theorem scan_of_split {line : Nat} {text : List Char} {lexemes : List Lexeme}
    (split : Split line text lexemes) (found : List Lexeme) :
    scan line found text = .ok (found.reverse ++ lexemes) := by
  induction split generalizing found with
  | nil line => rw [scan, List.append_nil]
  | blank notFeed isBlank split ih => rw [scan_blank notFeed isBlank, ih]
  | token spelled ends split ih =>
    rw [scan_spelling spelled ends, ih]
    simp

/-- A text has these lexemes exactly if it splits into them. -/
theorem ofText_eq_ok_iff {text : List Char} {lexemes : List Lexeme} :
    ofText text = .ok lexemes ↔ Split 1 text lexemes := by
  constructor
  · intro success
    obtain ⟨new, rfl, split⟩ := exists_split_of_scan success
    exact split
  · intro split
    exact scan_of_split split []

end Lexeme

end StackScript
