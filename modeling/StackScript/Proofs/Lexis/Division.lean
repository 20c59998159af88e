import StackScript.Proofs.Lexis.Lines

/-!
# Texts cut into tokens

A division cuts a text into blanks, and tokens with the blanks behind them. Each token is
judged together with the text that really follows it, so a division of the beginning of a
text never ends inside a token. A text that the scanner takes has one division, and the
scanner's lexemes are the tokens of that division.
-/

namespace StackScript

/-- The line of a character that this text stands before. -/
def lineBehind (before : List Char) : Nat :=
  1 + before.count '\n'

/-- Blanks that end no line. -/
def AreBlanks (cs : List Char) : Prop :=
  ∀ c ∈ cs, c ≠ '\n' ∧ Text.isBlank c = true

/-- A token as it stands in a text: its spelling and the blanks behind it. -/
@[ext]
structure Piece where
  token : Token
  spelling : List Char
  blanks : List Char

namespace Piece

/-- The text of pieces that follow each other. -/
def textOf (pieces : List Piece) : List Char :=
  pieces.flatMap fun piece => piece.spelling ++ piece.blanks

/-- The piece is a token that ends there, and blanks, when this text follows it. -/
structure Fits (piece : Piece) (after : List Char) : Prop where
  spelled : piece.token.SpelledBy piece.spelling
  areBlanks : AreBlanks piece.blanks
  ends : piece.token.EndsBefore (piece.blanks ++ after)

/-- Every piece fits when this text follows the last one. -/
def AllFit : List Piece → List Char → Prop
  | [], _ => True
  | piece :: later, after => piece.Fits (textOf later ++ after) ∧ AllFit later after

/-- The lexemes of pieces that this text stands before. -/
def lexemes : List Char → List Piece → List Lexeme
  | _, [] => []
  | before, piece :: later =>
    ⟨piece.token, lineBehind before⟩ :: lexemes (before ++ (piece.spelling ++ piece.blanks)) later

@[simp]
theorem textOf_nil : textOf [] = [] :=
  rfl

@[simp]
theorem textOf_cons (piece : Piece) (later : List Piece) :
    textOf (piece :: later) = piece.spelling ++ piece.blanks ++ textOf later :=
  rfl

end Piece

/-- A way to cut a text: the blanks it begins with, and its tokens. -/
@[ext]
structure Division where
  blanks : List Char
  pieces : List Piece

namespace Division

/-- The text that is cut. -/
def text (division : Division) : List Char :=
  division.blanks ++ Piece.textOf division.pieces

/-- The division is right for a text that goes on like this. -/
structure Fits (division : Division) (after : List Char) : Prop where
  areBlanks : AreBlanks division.blanks
  allFit : Piece.AllFit division.pieces after

/-- The tokens, each with the line of its first character. -/
def lexemes (division : Division) : List Lexeme :=
  Piece.lexemes division.blanks division.pieces

/-- The division with one more blank before it. -/
def skip (c : Char) (division : Division) : Division :=
  ⟨c :: division.blanks, division.pieces⟩

/-- The division with one more token before it. -/
def prepend (token : Token) (spelling : List Char) (division : Division) : Division :=
  ⟨[], ⟨token, spelling, division.blanks⟩ :: division.pieces⟩

variable {division : Division} {after : List Char}

@[simp]
theorem text_skip (c : Char) (division : Division) :
    (division.skip c).text = c :: division.text :=
  rfl

@[simp]
theorem text_prepend (token : Token) (spelling : List Char) (division : Division) :
    (division.prepend token spelling).text = spelling ++ division.text := by
  simp [prepend, text]

theorem fits_nil (after : List Char) : (⟨[], []⟩ : Division).Fits after :=
  ⟨nofun, trivial⟩

theorem Fits.skip (fits : division.Fits after) {c : Char} (notFeed : c ≠ '\n')
    (isBlank : Text.isBlank c = true) : (division.skip c).Fits after :=
  ⟨List.forall_mem_cons.mpr ⟨⟨notFeed, isBlank⟩, fits.areBlanks⟩, fits.allFit⟩

theorem Fits.prepend (fits : division.Fits after) {token : Token} {spelling : List Char}
    (spelled : token.SpelledBy spelling) (ends : token.EndsBefore (division.text ++ after)) :
    (division.prepend token spelling).Fits after := by
  refine ⟨nofun, ⟨spelled, fits.areBlanks, ?_⟩, fits.allFit⟩
  rw [← List.append_assoc]
  exact ends

end Division

/-! ## Lines -/

theorem lineBehind_append (before more : List Char) :
    lineBehind (before ++ more) = lineBehind before + more.count '\n' := by
  rw [lineBehind, lineBehind, List.count_append, Nat.add_assoc]

/-- Blanks stay on their line. -/
theorem AreBlanks.count_lineFeed {blanks : List Char} (areBlanks : AreBlanks blanks) :
    blanks.count '\n' = 0 := by
  rw [List.count_eq_zero]
  intro mem
  exact (areBlanks '\n' mem).1 rfl

theorem AreBlanks.lineBehind_blanks {blanks : List Char} (areBlanks : AreBlanks blanks)
    (before : List Char) : lineBehind (before ++ blanks) = lineBehind before := by
  rw [lineBehind_append, areBlanks.count_lineFeed, Nat.add_zero]

/-- A piece reaches down by the line feeds of its token. -/
theorem Piece.Fits.lineBehind_piece {piece : Piece} {after : List Char}
    (fits : piece.Fits after) (before : List Char) :
    lineBehind (before ++ (piece.spelling ++ piece.blanks)) =
      lineBehind before + piece.token.lineFeeds := by
  rw [← List.append_assoc, fits.areBlanks.lineBehind_blanks, lineBehind_append,
    fits.spelled.count_lineFeed]

/-! ## Pieces among others -/

namespace Piece

/-- The lexemes of pieces are their tokens. -/
theorem map_token_lexemes (before : List Char) (pieces : List Piece) :
    (lexemes before pieces).map Lexeme.token = pieces.map Piece.token := by
  induction pieces generalizing before with
  | nil => rfl
  | cons piece later ih => rw [lexemes, List.map_cons, List.map_cons, ih]

theorem lexemes_append (before : List Char) (earlier later : List Piece) :
    lexemes before (earlier ++ later) =
      lexemes before earlier ++ lexemes (before ++ textOf earlier) later := by
  induction earlier generalizing before with
  | nil => rw [textOf_nil, List.append_nil]; rfl
  | cons piece earlier ih =>
    rw [List.cons_append, lexemes, lexemes, ih, List.cons_append, textOf_cons, List.append_assoc]

/-- A lexeme of pieces is one of them, on the line where it begins. -/
theorem exists_of_lexemes_eq {before : List Char} {pieces : List Piece}
    {front back : List Lexeme} {lexeme : Lexeme}
    (split : lexemes before pieces = front ++ lexeme :: back) :
    ∃ earlier piece later, pieces = earlier ++ piece :: later ∧
      front.map Lexeme.token = earlier.map Piece.token ∧
      (front ++ [lexeme]).map Lexeme.token = (earlier ++ [piece]).map Piece.token ∧
      lexeme = ⟨piece.token, lineBehind (before ++ textOf earlier)⟩ := by
  induction front generalizing before pieces with
  | nil =>
    cases pieces with
    | nil => cases split
    | cons piece later =>
      obtain ⟨rfl, -⟩ := List.cons.inj split
      exact ⟨[], piece, later, rfl, rfl, rfl, by rw [textOf_nil, List.append_nil]⟩
  | cons first front ih =>
    cases pieces with
    | nil => cases split
    | cons other pieces =>
      obtain ⟨rfl, same⟩ := List.cons.inj split
      obtain ⟨earlier, piece, later, rfl, sameFront, sameThrough, rfl⟩ := ih same
      refine ⟨other :: earlier, piece, later, rfl, ?_, ?_, ?_⟩
      · rw [List.map_cons, List.map_cons, sameFront]
      · rw [List.cons_append, List.cons_append, List.map_cons, List.map_cons, sameThrough]
      · rw [textOf_cons, List.append_assoc]

theorem textOf_append (earlier later : List Piece) :
    textOf (earlier ++ later) = textOf earlier ++ textOf later :=
  List.flatMap_append

/-- Among pieces that fit every one fits. -/
theorem AllFit.fits {earlier later : List Piece} {piece : Piece} {after : List Char}
    (allFit : AllFit (earlier ++ piece :: later) after) : piece.Fits (textOf later ++ after) := by
  induction earlier with
  | nil => exact allFit.1
  | cons other earlier ih => exact ih allFit.2

end Piece

/-! ## The scanner's divisions -/

namespace Lexeme

/-- A text that splits into lexemes has a division into their tokens. -/
theorem Split.exists_division {line : Nat} {text : List Char} {lexemes : List Lexeme}
    (split : Split line text lexemes) :
    ∃ division : Division, division.text = text ∧ division.Fits [] ∧
      ∀ before, lineBehind before = line →
        Piece.lexemes (before ++ division.blanks) division.pieces = lexemes := by
  induction split with
  | nil line => exact ⟨⟨[], []⟩, rfl, Division.fits_nil [], fun _ _ => rfl⟩
  | @blank line c rest lexemes notFeed isBlank split ih =>
    obtain ⟨division, rfl, fits, same⟩ := ih
    refine ⟨division.skip c, rfl, fits.skip notFeed isBlank, ?_⟩
    intro before onLine
    have isOne : AreBlanks [c] := List.forall_mem_singleton.mpr ⟨notFeed, isBlank⟩
    rw [← same (before ++ [c]) ((isOne.lineBehind_blanks before).trans onLine),
      List.append_assoc]
    rfl
  | @token line token spelling rest lexemes spelled ends split ih =>
    obtain ⟨division, rfl, fits, same⟩ := ih
    have endsThere : token.EndsBefore (division.text ++ []) := by rwa [List.append_nil]
    refine ⟨division.prepend token spelling, division.text_prepend ..,
      fits.prepend spelled endsThere, ?_⟩
    intro before onLine
    have below : lineBehind (before ++ spelling) = line + token.lineFeeds := by
      rw [lineBehind_append, spelled.count_lineFeed, onLine]
    rw [← same _ below, ← onLine]
    simp [Division.prepend, Piece.lexemes]

/-- Blanks may stand before a text that splits. -/
theorem Split.blanks_append {blanks : List Char} (areBlanks : AreBlanks blanks) {line : Nat}
    {rest : List Char} {lexemes : List Lexeme} (split : Split line rest lexemes) :
    Split line (blanks ++ rest) lexemes := by
  induction blanks with
  | nil => exact split
  | cons c blanks ih =>
    obtain ⟨⟨notFeed, isBlank⟩, others⟩ := List.forall_mem_cons.mp areBlanks
    exact .blank notFeed isBlank (ih others)

/-- Blanks alone have no lexemes. -/
theorem split_blanks {blanks : List Char} (areBlanks : AreBlanks blanks) (line : Nat) :
    Split line blanks [] := by
  have split := (Split.nil line).blanks_append areBlanks
  rwa [List.append_nil] at split

/-- Pieces that fit split their text. -/
theorem split_of_allFit {pieces : List Piece} (allFit : Piece.AllFit pieces [])
    (before : List Char) :
    Split (lineBehind before) (Piece.textOf pieces) (Piece.lexemes before pieces) := by
  induction pieces generalizing before with
  | nil => exact .nil _
  | cons piece later ih =>
    obtain ⟨fits, others⟩ := allFit
    have further := ih others (before ++ (piece.spelling ++ piece.blanks))
    rw [fits.lineBehind_piece] at further
    have ends := fits.ends
    rw [List.append_nil] at ends
    rw [Piece.textOf_cons, List.append_assoc]
    exact .token fits.spelled ends (further.blanks_append fits.areBlanks)

/-- A division that fits gives the lexemes of its text. -/
theorem ofText_text {division : Division} (fits : division.Fits []) :
    ofText division.text = .ok division.lexemes := by
  have split := split_of_allFit fits.allFit division.blanks
  rw [← List.nil_append division.blanks, fits.areBlanks.lineBehind_blanks,
    List.nil_append] at split
  exact ofText_eq_ok_iff.mpr (split.blanks_append fits.areBlanks)

/-- The lexemes of a text are those of a division. -/
theorem exists_division_of_ofText_eq_ok {text : List Char} {lexemes : List Lexeme}
    (success : ofText text = .ok lexemes) :
    ∃ division : Division, division.text = text ∧ division.Fits [] ∧
      division.lexemes = lexemes := by
  obtain ⟨division, isText, fits, same⟩ := (ofText_eq_ok_iff.mp success).exists_division
  exact ⟨division, isText, fits, same [] rfl⟩

/-- The scanner stops behind tokens and blanks at a character where no token can be
read. -/
theorem exists_division_of_scan_eq_error {line : Nat} {found : List Lexeme}
    {text : List Char} {error : SyntaxError} (fails : scan line found text = .error error) :
    ∃ (division : Division) (c : Char) (behind : List Char),
      text = division.text ++ c :: behind ∧ division.Fits (c :: behind) ∧
      (c != '\n' && Text.isBlank c) = false ∧
      Token.read (line + division.text.count '\n') c behind = .error error := by
  fun_induction scan line found text with
  | case1 => cases fails
  | case2 line found c rest skipped ih =>
    obtain ⟨division, d, behind, rfl, fits, notSkipped, stops⟩ := ih fails
    rw [Bool.and_eq_true, bne_iff_ne] at skipped
    refine ⟨division.skip c, d, behind, rfl, fits.skip skipped.1 skipped.2, notSkipped, ?_⟩
    rwa [Division.text_skip, List.count_cons_of_ne skipped.1]
  | case3 line found c rest notSkipped error stops =>
    cases fails
    exact ⟨⟨[], []⟩, c, rest, rfl, Division.fits_nil _, Bool.eq_false_iff.mpr notSkipped, stops⟩
  | case4 line found c rest notSkipped token after reads ih =>
    obtain ⟨division, d, behind, rfl, fits, notSkippedThere, stops⟩ := ih fails
    obtain ⟨spelling, whole, spelled, ends⟩ := Token.exists_spelling_of_read reads
    refine ⟨division.prepend token spelling, d, behind, ?_, fits.prepend spelled ends,
      notSkippedThere, ?_⟩
    · rw [whole, Division.text_prepend, List.append_assoc]
    · rwa [Division.text_prepend, List.count_append, spelled.count_lineFeed, ← Nat.add_assoc]

end Lexeme

/-! ## Only one division -/

/-- Of two tokens at the beginning of a text, each ended by what follows it, both are the one
that is read there. -/
theorem Token.SpelledBy.unique {token other : Token} {spelling same after behind : List Char}
    (spelled : token.SpelledBy spelling) (ends : token.EndsBefore after)
    (spelledToo : other.SpelledBy same) (endsToo : other.EndsBefore behind)
    (sameText : spelling ++ after = same ++ behind) :
    token = other ∧ spelling = same ∧ after = behind := by
  obtain ⟨c, cs, isSpelling⟩ := List.exists_cons_of_ne_nil spelled.ne_nil
  have reads : Token.read 1 c (cs ++ after) = .ok (token, after) :=
    Token.read_spelling spelled ends (by rw [isSpelling]; rfl)
  have readsToo : Token.read 1 c (cs ++ after) = .ok (other, behind) :=
    Token.read_spelling spelledToo endsToo (by rw [← sameText, isSpelling]; rfl)
  rw [reads] at readsToo
  obtain ⟨sameToken, sameRest⟩ := Prod.mk.inj (Except.ok.inj readsToo)
  rw [sameRest] at sameText
  exact ⟨sameToken, List.append_cancel_right sameText, sameRest⟩

namespace Piece

/-- What pieces make up is empty or does not begin with a blank. -/
theorem not_skipped_of_allFit {pieces : List Piece} {after : List Char}
    (allFit : AllFit pieces after) :
    ∀ c ∈ (textOf pieces).head?, (c != '\n' && Text.isBlank c) = false := by
  intro c first
  cases pieces with
  | nil => cases first
  | cons piece later =>
    obtain ⟨fits, -⟩ := allFit
    have spelled := fits.spelled
    obtain ⟨d, ds, spelling⟩ := List.exists_cons_of_ne_nil spelled.ne_nil
    rw [spelling] at spelled
    rw [textOf_cons, spelling] at first
    cases first
    exact Token.not_skipped_of_spelledBy spelled

/-- Where the blanks end does not depend on how the rest is cut. -/
theorem blanks_unique {blanks others : List Char} {pieces same : List Piece}
    (areBlanks : AreBlanks blanks) (areBlanksToo : AreBlanks others)
    (allFit : AllFit pieces []) (allFitToo : AllFit same [])
    (sameText : blanks ++ textOf pieces = others ++ textOf same) :
    blanks = others ∧ textOf pieces = textOf same := by
  have skipped {cs : List Char} (areBlanks : AreBlanks cs) :
      ∀ c ∈ cs, (c != '\n' && Text.isBlank c) = true := by
    intro c mem
    simp [areBlanks c mem]
  have first := takeWhile_append_of_ends (skipped areBlanks) (not_skipped_of_allFit allFit)
  have second := takeWhile_append_of_ends (skipped areBlanksToo) (not_skipped_of_allFit allFitToo)
  rw [sameText] at first
  exact ⟨first.1.symm.trans second.1, first.2.symm.trans second.2⟩

/-- Of two pieces at the beginning of a text both are the token that is read there. -/
theorem Fits.unique {piece other : Piece} {later same : List Piece}
    (fits : piece.Fits (textOf later ++ [])) (fitsToo : other.Fits (textOf same ++ []))
    (sameText : textOf (piece :: later) = textOf (other :: same)) :
    piece.token = other.token ∧ piece.spelling = other.spelling ∧
      piece.blanks ++ textOf later = other.blanks ++ textOf same := by
  have ends := fits.ends
  have endsToo := fitsToo.ends
  rw [List.append_nil] at ends endsToo
  rw [textOf_cons, textOf_cons, List.append_assoc, List.append_assoc] at sameText
  exact fits.spelled.unique ends fitsToo.spelled endsToo sameText

/-- Pieces that make up the same text are the same. -/
theorem AllFit.unique {pieces others : List Piece} (allFit : AllFit pieces [])
    (allFitToo : AllFit others []) (sameText : textOf pieces = textOf others) :
    pieces = others := by
  have notNil {piece : Piece} {later : List Piece} (allFit : AllFit (piece :: later) []) :
      textOf (piece :: later) ≠ [] := by
    simp [allFit.1.spelled.ne_nil]
  induction pieces generalizing others with
  | nil =>
    cases others with
    | nil => rfl
    | cons other same => exact absurd sameText.symm (notNil allFitToo)
  | cons piece later ih =>
    cases others with
    | nil => exact absurd sameText (notNil allFit)
    | cons other same =>
      obtain ⟨sameToken, sameSpelling, sameRest⟩ := allFit.1.unique allFitToo.1 sameText
      obtain ⟨sameBlanks, sameLater⟩ := blanks_unique allFit.1.areBlanks allFitToo.1.areBlanks
        allFit.2 allFitToo.2 sameRest
      rw [Piece.ext sameToken sameSpelling sameBlanks, ih allFit.2 allFitToo.2 sameLater]

end Piece

/-- A text has one division at most. -/
theorem Division.Fits.unique {first second : Division} (fits : first.Fits [])
    (fitsToo : second.Fits []) (sameText : first.text = second.text) : first = second := by
  obtain ⟨sameBlanks, sameRest⟩ := Piece.blanks_unique fits.areBlanks fitsToo.areBlanks
    fits.allFit fitsToo.allFit sameText
  exact Division.ext sameBlanks (fits.allFit.unique fitsToo.allFit sameRest)

/-- The scanner gives lexemes exactly if they are those of a division of the text, each
with the line of its first character, and a text has one division at most. -/
theorem Lexeme.ofText_divides (text : List Char) :
    (∀ lexemes, ofText text = .ok lexemes ↔
      ∃ division : Division, division.text = text ∧ division.Fits [] ∧
        division.lexemes = lexemes) ∧
    ∀ first second : Division, first.text = text → first.Fits [] → second.text = text →
      second.Fits [] → first = second := by
  constructor
  · intro lexemes
    constructor
    · exact exists_division_of_ofText_eq_ok
    · rintro ⟨division, rfl, fits, rfl⟩
      exact ofText_text fits
  · intro first second isText fits isTextToo fitsToo
    exact fits.unique fitsToo (isText.trans isTextToo.symm)

/-- Tokens may touch: a word ends before a sign, and a number before a quote. -/
theorem Lexeme.ofText_divides_touching :
    ∃ division : Division, division.text = "x\n y-1\"#\"".toList ∧ division.Fits [] ∧
      division.lexemes = [⟨.identifier "x", 1⟩, ⟨.lineBreak, 1⟩, ⟨.identifier "y", 2⟩,
        ⟨.integer (-1), 2⟩, ⟨.text "#", 2⟩] ∧
      ∀ other : Division, other.text = "x\n y-1\"#\"".toList → other.Fits [] →
        other = division := by
  obtain ⟨division, isText, fits, same⟩ :=
    ((ofText_divides "x\n y-1\"#\"".toList).1 [⟨.identifier "x", 1⟩, ⟨.lineBreak, 1⟩,
      ⟨.identifier "y", 2⟩, ⟨.integer (-1), 2⟩, ⟨.text "#", 2⟩]).mp (by decide +kernel)
  refine ⟨division, isText, fits, same, ?_⟩
  intro other isTextToo fitsToo
  exact (ofText_divides _).2 other division isTextToo fitsToo isText fits

end StackScript
