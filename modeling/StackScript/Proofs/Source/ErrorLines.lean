import StackScript.Proofs.Grammar.ViablePrefix
import StackScript.Proofs.Source.Places

/-!
# Lines of errors

Every error of a source text is about a place in the text: the character that begins no
token, the first character of a misspelt number, the quote that nothing closes, the first
character of the token that cannot follow the ones before it or opens one block too many, or
the first character of the last token. The line that the error names is the line of that
place in the source text, counted with the comments that stand before it.
-/

namespace StackScript

open Grammar

/-- What the error is about begins with the character `c` of a text without comments, which
stands between `cut` and `behind`. -/
inductive SyntaxError.IsAbout : SyntaxError → List Char → Char → List Char → Prop where
  /-- The character after tokens and blanks is no blank and begins no token. -/
  | invalidCharacter {division : Division} {c : Char} {behind : List Char} (line : Nat)
      (fits : division.Fits (c :: behind)) (notBlank : Text.isBlank c = false)
      (noToken : ∀ (token : Token) spelling, token.SpelledBy spelling →
        ¬ spelling <+: c :: behind) :
    IsAbout (.invalidCharacter line c) division.text c behind
  /-- The characters of a number that begins there spell none. -/
  | invalidNumber {division : Division} {c : Char} {digits rest : List Char} (line : Nat)
      (fits : division.Fits (c :: (digits ++ rest)))
      (begins : c.isDigit = true ∨ c = '-' ∧ (digits ++ rest).head?.any Char.isDigit = true)
      (inside : ∀ d ∈ digits, Token.isNumberChar d = true)
      (ends : ∀ d ∈ rest.head?, Token.isNumberChar d = false)
      (misspelt : ∀ token : Token, ¬ token.SpelledBy (c :: digits)) :
    IsAbout (.invalidNumber line (String.ofList (c :: digits))) division.text c (digits ++ rest)
  /-- The quote that opens there is not closed. -/
  | unterminatedString {division : Division} {behind : List Char} (line : Nat)
      (fits : division.Fits ('"' :: behind))
      (notClosed : ∀ items rest, Quotable items → behind ≠ items ++ '"' :: rest) :
    IsAbout (.unterminatedString line) division.text '"' behind
  /-- The token is the first with which the text begins no program. -/
  | unexpectedToken {division : Division} {earlier later : List Piece} {piece : Piece} {c : Char}
      {behind : List Char} (line : Nat) (expected : Expectation) (fits : division.Fits [])
      (pieces : division.pieces = earlier ++ piece :: later)
      (begins : Piece.textOf (piece :: later) = c :: behind)
      (viable : Viable (earlier.map Piece.token))
      (notViable : ¬ Viable ((earlier ++ [piece]).map Piece.token)) :
    IsAbout (.unexpectedToken line piece.token expected)
      (division.blanks ++ Piece.textOf earlier) c behind
  /-- The word is the first that opens one block too many. -/
  | nestingTooDeep {division : Division} {earlier later : List Piece} {piece : Piece} {c : Char}
      {behind : List Char} (line : Nat) (fits : division.Fits [])
      (pieces : division.pieces = earlier ++ piece :: later)
      (begins : Piece.textOf (piece :: later) = c :: behind)
      (opens : piece.token = .keyword .beginWord ∨ piece.token = .keyword .doWord)
      (viable : Viable ((earlier ++ [piece]).map Piece.token))
      (within : NestsWithin 512 (earlier.map Piece.token))
      (crosses : openBlocks ((earlier ++ [piece]).map Piece.token) = 513) :
    IsAbout (.nestingTooDeep line 512) (division.blanks ++ Piece.textOf earlier) c behind
  /-- The token is the last one, and the text begins a program and is none. -/
  | unexpectedEnd {division : Division} {earlier : List Piece} {piece : Piece} {c : Char}
      {behind : List Char} (line : Nat) (expected : Expectation) (fits : division.Fits [])
      (pieces : division.pieces = earlier ++ [piece])
      (begins : Piece.textOf [piece] = c :: behind)
      (viable : Viable ((earlier ++ [piece]).map Piece.token))
      (unfinished : ∀ subroutines,
        ¬ Spells ((earlier ++ [piece]).map Piece.token) (.program subroutines)) :
    IsAbout (.unexpectedEnd line expected) (division.blanks ++ Piece.textOf earlier) c behind

/-! ## Errors of the scanner -/

namespace Token

variable {token : Token} {line : Nat} {c : Char} {behind : List Char} {error : SyntaxError}

/-- Where no token can be read the error is about the character there. -/
theorem isAbout_of_read_eq_error {division : Division} (fits : division.Fits (c :: behind))
    (notSkipped : (c != '\n' && Text.isBlank c) = false)
    (fails : read line c behind = .error error) :
    error.IsAbout division.text c behind ∧ error.line = line := by
  rcases cases_of_read_eq_error fails with ⟨rfl, notTaken, rfl⟩ | ⟨begins, rfl⟩ |
    ⟨notFeed, notQuote, notNumber, notLetter, rfl⟩
  · refine ⟨.unterminatedString line fits ?_, rfl⟩
    intro items rest quotable closed
    have taken : takeQuoted [] behind = some (items, rest) :=
      takeQuoted_eq_some_iff.mpr ⟨items, quotable, rfl, closed⟩
    rw [notTaken] at taken
    cases taken
  · have split : behind = behind.takeWhile isNumberChar ++ behind.dropWhile isNumberChar :=
      List.takeWhile_append_dropWhile.symm
    have ends := ends_dropWhile isNumberChar behind
    -- a token with this spelling would have been read
    have misspelt : ∀ token : Token, ¬ token.SpelledBy (c :: behind.takeWhile isNumberChar) := by
      intro token spelled
      have reads : read line c behind = .ok (token, behind.dropWhile isNumberChar) :=
        read_spelling spelled (endsBefore_of_isNumberChar ends) (congrArg (c :: ·) split)
      rw [fails] at reads
      cases reads
    have number : c.isDigit = true ∨ c = '-' ∧ behind.head?.any Char.isDigit = true := by
      simpa only [Bool.or_eq_true, Bool.and_eq_true, beq_iff_eq] using begins
    rw [split] at fits number
    have about := SyntaxError.IsAbout.invalidNumber line fits number
      (fun d mem => List.mem_takeWhile_imp mem) ends misspelt
    rw [← split] at about
    exact ⟨about, rfl⟩
  · have notBlank : Text.isBlank c = false := by simpa [notFeed] using notSkipped
    refine ⟨.invalidCharacter line fits notBlank ?_, rfl⟩
    rintro token spelling spelled ⟨rest, split⟩
    rcases spelled.begins split.symm with isFeed | isQuote | isNumber | isLetter
    · exact notFeed isFeed
    · exact notQuote isQuote
    · rw [notNumber] at isNumber
      cases isNumber
    · rw [notLetter] at isLetter
      cases isLetter

end Token

/-- An error of the scanner names the line of the place that it is about. -/
theorem Lexeme.isAbout_of_ofText_eq_error {text : List Char} {error : SyntaxError}
    (fails : ofText text = .error error) :
    ∃ cut c behind, text = cut ++ c :: behind ∧ error.IsAbout cut c behind ∧
      error.line = lineBehind cut := by
  obtain ⟨division, c, behind, whole, fits, notSkipped, stops⟩ :=
    exists_division_of_scan_eq_error fails
  obtain ⟨about, onLine⟩ := Token.isAbout_of_read_eq_error fits notSkipped stops
  exact ⟨division.text, c, behind, whole, about, onLine⟩

/-! ## Errors of the parser -/

namespace Division

variable {division : Division} {error : SyntaxError}

/-- A piece of a division begins with a character of the text. -/
theorem Fits.exists_begin (fits : division.Fits []) {earlier later : List Piece} {piece : Piece}
    (pieces : division.pieces = earlier ++ piece :: later) :
    ∃ c behind, Piece.textOf (piece :: later) = c :: behind ∧
      division.text = division.blanks ++ Piece.textOf earlier ++ c :: behind := by
  have allFit := fits.allFit
  rw [pieces] at allFit
  have notEmpty : Piece.textOf (piece :: later) ≠ [] := by simp [allFit.fits.spelled.ne_nil]
  obtain ⟨c, behind, begins⟩ := List.exists_cons_of_ne_nil notEmpty
  exact ⟨c, behind, begins, by rw [text, pieces, Piece.textOf_append, begins, List.append_assoc]⟩

/-- The line of the last lexeme is the line where the last piece begins. -/
theorem line_getLast?_lexemes {earlier : List Piece} {piece : Piece}
    (pieces : division.pieces = earlier ++ [piece]) :
    (division.lexemes.getLast?.map Lexeme.line).getD 1 =
      lineBehind (division.blanks ++ Piece.textOf earlier) := by
  rw [lexemes, pieces, Piece.lexemes_append, Piece.lexemes, Piece.lexemes, List.getLast?_concat]
  rfl

/-- An error about the tokens of a text names the line of the place that it is about. Only
of a text without tokens it names the first line. -/
theorem isAbout_of_firstFault (fits : division.Fits [])
    (fault : FirstFault division.lexemes error) :
    (∃ cut c behind, division.text = cut ++ c :: behind ∧ error.IsAbout cut c behind ∧
        error.line = lineBehind cut) ∨
      ∃ expected, error = .unexpectedEnd 1 expected ∧ division.pieces = [] := by
  cases fault with
  | @unexpectedToken front back lexeme expected split viable notViable =>
    obtain ⟨earlier, piece, later, pieces, sameFront, sameThrough, rfl⟩ :=
      Piece.exists_of_lexemes_eq split
    obtain ⟨c, behind, begins, whole⟩ := fits.exists_begin pieces
    rw [sameFront] at viable
    rw [sameThrough] at notViable
    exact .inl ⟨_, c, behind, whole,
      .unexpectedToken _ expected fits pieces begins viable notViable, rfl⟩
  | @nestingTooDeep front back lexeme split opens viable within crosses =>
    obtain ⟨earlier, piece, later, pieces, sameFront, sameThrough, rfl⟩ :=
      Piece.exists_of_lexemes_eq split
    obtain ⟨c, behind, begins, whole⟩ := fits.exists_begin pieces
    rw [sameThrough] at viable crosses
    rw [sameFront] at within
    exact .inl ⟨_, c, behind, whole,
      .nestingTooDeep _ fits pieces begins opens viable within crosses, rfl⟩
  | unexpectedEnd expected viable unfinished =>
    rcases List.eq_nil_or_concat' division.pieces with none | ⟨earlier, piece, pieces⟩
    · right
      have noLexemes : division.lexemes = [] := by rw [lexemes, none]; rfl
      exact ⟨expected, by rw [noLexemes]; rfl, none⟩
    · left
      obtain ⟨c, behind, begins, whole⟩ := fits.exists_begin pieces
      have tokens : division.lexemes.map Lexeme.token = (earlier ++ [piece]).map Piece.token := by
        rw [lexemes, Piece.map_token_lexemes, pieces]
      rw [tokens] at viable unfinished
      rw [line_getLast?_lexemes pieces]
      exact ⟨_, c, behind, whole, .unexpectedEnd _ expected fits pieces begins viable unfinished,
        rfl⟩

end Division

/-- Tokens behind which a text may not end are no program. -/
theorem Grammar.firstFault_of_finish?_eq_none {lexemes : List Lexeme} {state : ParserState}
    (reads : ParserState.initial.read? (lexemes.map Lexeme.token) = some state)
    (unfinished : state.finish? = none) :
    FirstFault lexemes (.unexpectedEnd ((lexemes.getLast?.map Lexeme.line).getD 1)
      state.position.expects) := by
  apply FirstFault.unexpectedEnd _ (viable_iff.mpr ⟨state, reads⟩)
  intro subroutines spells
  obtain ⟨last, readsToo, finishes⟩ := spells_program_iff.mp spells
  rw [reads] at readsToo
  cases readsToo
  rw [unfinished] at finishes
  cases finishes

/-- An error of the parser names the line of the place that it is about. -/
theorem Division.isAbout_of_ofLexemes_eq_error {division : Division} {error : SyntaxError}
    (fits : division.Fits []) (rejected : Subroutine.ofLexemes division.lexemes = .error error) :
    (∃ cut c behind, division.text = cut ++ c :: behind ∧ error.IsAbout cut c behind ∧
        error.line = lineBehind cut) ∨
      ∃ expected, error = .unexpectedEnd 1 expected ∧ division.pieces = [] := by
  rw [Subroutine.ofLexemes] at rejected
  cases run : division.lexemes.foldlM ParserState.advance ParserState.initial with
  | error found =>
    rw [run] at rejected
    cases rejected
    obtain ⟨front, lexeme, back, state, split, runFront, stops⟩ :=
      ParserState.exists_of_foldlM_advance_eq_error run
    obtain ⟨reads, nests⟩ := foldlM_advance_initial_eq_ok_iff.mp runFront
    apply isAbout_of_firstFault fits
    rw [split]
    exact firstFault_of_advance_eq_error reads nests stops
  | ok state =>
    rw [run] at rejected
    obtain ⟨reads, -⟩ := foldlM_advance_initial_eq_ok_iff.mp run
    cases finish : state.finish? with
    | some subroutines => simp [bind, Except.bind, finish] at rejected
    | none =>
      simp only [bind, Except.bind, finish, Except.error.injEq] at rejected
      subst rejected
      exact isAbout_of_firstFault fits (firstFault_of_finish?_eq_none reads finish)

/-! ## Lines of the source text -/

namespace Source

/-- Every error of a source text names the line, in the source text, of the place that it is
about, and the place is in no comment. Only of a text without tokens it names the first
line. -/
theorem exists_place_of_subroutines_eq_error {text : String} {error : SyntaxError}
    (rejected : subroutines text = .error error) :
    (∃ before c after cut behind, Place text.toList before c after cut behind ∧
        ¬ InComment before c ∧ error.IsAbout cut c behind ∧ error.line = lineBehind before) ∨
      ∃ expected, error = .unexpectedEnd 1 expected ∧ AreBlanks (stripComments text.toList) := by
  have inSource {cut behind : List Char} {c : Char}
      (left : stripComments text.toList = cut ++ c :: behind) (about : error.IsAbout cut c behind)
      (onLine : error.line = lineBehind cut) :
      ∃ before c after cut behind, Place text.toList before c after cut behind ∧
        ¬ InComment before c ∧ error.IsAbout cut c behind ∧ error.line = lineBehind before := by
    obtain ⟨before, after, place⟩ := exists_place left
    exact ⟨before, c, after, cut, behind, place, place.stays.notInComment, about,
      onLine.trans place.lineBehind_eq.symm⟩
  rw [subroutines, lexemes] at rejected
  cases lexed : Lexeme.ofText (stripComments text.toList) with
  | error found =>
    rw [lexed] at rejected
    cases rejected
    obtain ⟨cut, c, behind, left, about, onLine⟩ := Lexeme.isAbout_of_ofText_eq_error lexed
    exact .inl (inSource left about onLine)
  | ok found =>
    obtain ⟨division, isText, fits, rfl⟩ := Lexeme.exists_division_of_ofText_eq_ok lexed
    rw [lexed] at rejected
    rcases division.isAbout_of_ofLexemes_eq_error fits rejected with
      ⟨cut, c, behind, left, about, onLine⟩ | ⟨expected, isEnd, noPieces⟩
    · exact .inl (inSource (isText.symm.trans left) about onLine)
    · right
      refine ⟨expected, isEnd, ?_⟩
      rw [← isText, Division.text, noPieces, Piece.textOf_nil, List.append_nil]
      exact fits.areBlanks

/-- A number where a variable's name has to stand, below comments, line ends of both kinds
and a text over two lines. -/
def misplacedNumber : String :=
  "# header\r\nmain do # begin\r\nprint \"a\nb\"\r\npop 1 # here\nend"

/-- The number stands on the fifth line. -/
theorem misplacedNumber_place :
    subroutines misplacedNumber = .error (.unexpectedToken 5 (.integer 1) .variableName) ∧
      ∃ before c after cut behind, Place misplacedNumber.toList before c after cut behind ∧
        ¬ InComment before c ∧
        (SyntaxError.unexpectedToken 5 (.integer 1) .variableName).IsAbout cut c behind ∧
        5 = lineBehind before := by
  have lexed : lexemes misplacedNumber = .ok [⟨.lineBreak, 1⟩, ⟨.identifier "main", 2⟩,
      ⟨.keyword .doWord, 2⟩, ⟨.lineBreak, 2⟩, ⟨.keyword .print, 3⟩, ⟨.text "a\nb", 3⟩,
      ⟨.lineBreak, 4⟩, ⟨.keyword .pop, 5⟩, ⟨.integer 1, 5⟩, ⟨.lineBreak, 5⟩,
      ⟨.keyword .endWord, 6⟩] := by
    decide +kernel
  have rejected : subroutines misplacedNumber =
      .error (.unexpectedToken 5 (.integer 1) .variableName) := by
    rw [subroutines, lexed]
    rfl
  rcases exists_place_of_subroutines_eq_error rejected with place | ⟨expected, isEnd, -⟩
  · exact ⟨rejected, place⟩
  · cases isEnd

end Source

end StackScript
