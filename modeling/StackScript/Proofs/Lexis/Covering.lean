import StackScript.Proofs.Lexis.Division

/-!
# Characters of tokens

A division says of every character of its text whether it belongs to the spelling of a
token, and of which one. A line feed outside of quoted texts is one that stands behind a
text of whole tokens.
-/

namespace StackScript

namespace Division

variable {division : Division} {before rest after : List Char} {c : Char}

/-- The character `c` that has this text before it belongs to the spelling of the token. -/
def Covers (division : Division) (before : List Char) (c : Char) (token : Token) : Prop :=
  ∃ earlier piece later inside behind, division.pieces = earlier ++ piece :: later ∧
    piece.token = token ∧ piece.spelling = inside ++ c :: behind ∧
    before = division.blanks ++ Piece.textOf earlier ++ inside

/-! ## One blank or token more -/

/-- Divisions are built from the end, one blank or one token at a time. -/
@[elab_as_elim]
theorem induction_on {holds : Division → Prop} (nil : holds ⟨[], []⟩)
    (skip : ∀ c division, holds division → holds (division.skip c))
    (prepend : ∀ token spelling division, holds division →
      holds (division.prepend token spelling))
    (division : Division) : holds division := by
  obtain ⟨blanks, pieces⟩ := division
  have withBlanks {pieces : List Piece} (bare : holds ⟨[], pieces⟩) (blanks : List Char) :
      holds ⟨blanks, pieces⟩ := by
    induction blanks with
    | nil => exact bare
    | cons c blanks ih => exact skip c _ ih
  induction pieces generalizing blanks with
  | nil => exact withBlanks nil blanks
  | cons piece later ih =>
    exact withBlanks (prepend piece.token piece.spelling _ (ih piece.blanks)) blanks

theorem fits_skip_iff :
    (division.skip c).Fits after ↔ (c ≠ '\n' ∧ Text.isBlank c = true) ∧ division.Fits after := by
  constructor
  · rintro ⟨areBlanks, allFit⟩
    obtain ⟨first, others⟩ := List.forall_mem_cons.mp areBlanks
    exact ⟨first, others, allFit⟩
  · rintro ⟨⟨notFeed, isBlank⟩, fits⟩
    exact fits.skip notFeed isBlank

theorem fits_prepend_iff {token : Token} {spelling : List Char} :
    (division.prepend token spelling).Fits after ↔
      token.SpelledBy spelling ∧ token.EndsBefore (division.text ++ after) ∧
        division.Fits after := by
  constructor
  · rintro ⟨-, ⟨spelled, areBlanks, ends⟩, allFit⟩
    refine ⟨spelled, ?_, areBlanks, allFit⟩
    rw [text, List.append_assoc]
    exact ends
  · rintro ⟨spelled, ends, fits⟩
    exact fits.prepend spelled ends

/-- The character stands where it is said to stand. -/
theorem Covers.exists_rest {token : Token} (covers : division.Covers before c token) :
    ∃ rest, division.text = before ++ c :: rest := by
  obtain ⟨earlier, piece, later, inside, behind, split, -, isSpelling, rfl⟩ := covers
  refine ⟨behind ++ piece.blanks ++ Piece.textOf later, ?_⟩
  rw [text, split, Piece.textOf_append, Piece.textOf_cons, isSpelling]
  simp

theorem not_covers_nil {token : Token} : ¬ (⟨[], []⟩ : Division).Covers before c token := by
  rintro ⟨earlier, piece, later, inside, behind, split, -⟩
  simp at split

/-- A blank belongs to no token. -/
theorem covers_skip_iff {d : Char} {token : Token} :
    (division.skip d).Covers before c token ↔
      ∃ others, before = d :: others ∧ division.Covers others c token := by
  constructor
  · rintro ⟨earlier, piece, later, inside, behind, split, isToken, spelling, rfl⟩
    exact ⟨_, rfl, earlier, piece, later, inside, behind, split, isToken, spelling, rfl⟩
  · rintro ⟨others, rfl, earlier, piece, later, inside, behind, split, isToken, spelling, rfl⟩
    exact ⟨earlier, piece, later, inside, behind, split, isToken, spelling, rfl⟩

/-- A character belongs to the first token or to one behind it. -/
theorem covers_prepend_iff {first token : Token} {spelling : List Char} :
    (division.prepend first spelling).Covers before c token ↔
      (first = token ∧ ∃ behind, spelling = before ++ c :: behind) ∨
        ∃ others, before = spelling ++ others ∧ division.Covers others c token := by
  constructor
  · rintro ⟨earlier, piece, later, inside, behind, split, isToken, isSpelling, rfl⟩
    cases earlier with
    | nil =>
      obtain ⟨rfl, rfl⟩ := List.cons.inj split
      exact .inl ⟨isToken, behind, isSpelling⟩
    | cons other earlier =>
      obtain ⟨rfl, splitLater⟩ := List.cons.inj split
      refine .inr ⟨division.blanks ++ Piece.textOf earlier ++ inside, ?_, earlier, piece, later,
        inside, behind, splitLater, isToken, isSpelling, rfl⟩
      simp [prepend]
  · rintro (⟨rfl, behind, rfl⟩ | ⟨others, rfl, earlier, piece, later, inside, behind, split,
      isToken, isSpelling, rfl⟩)
    · exact ⟨[], _, division.pieces, before, behind, rfl, rfl, rfl, rfl⟩
    · refine ⟨⟨first, spelling, division.blanks⟩ :: earlier, piece, later, inside, behind, ?_,
        isToken, isSpelling, ?_⟩
      · rw [prepend, split, List.cons_append]
      · simp [prepend]

end Division

/-! ## Line feeds -/

namespace Token

/-- A line feed in a spelling is a line break or belongs to a quoted text. -/
theorem SpelledBy.of_lineFeed_mem {token : Token} {spelling : List Char}
    (spelled : token.SpelledBy spelling) (hasFeed : '\n' ∈ spelling) :
    spelling = ['\n'] ∨ ∃ s, token = .text s := by
  rcases spelled.characters with ⟨-, isFeed⟩ | ⟨items, isText, -⟩ | ⟨-, characters⟩
  · exact .inl isFeed
  · exact .inr ⟨_, isText⟩
  · exact absurd hasFeed (not_mem_of_test characters rfl)

/-- A quoted text that is cut off has no end. -/
theorem takeQuoted_of_cut {items begun cut : List Char} {c : Char} (quotable : Quotable items)
    (isCut : items ++ ['"'] = begun ++ c :: cut) : takeQuoted [] begun = none := by
  rw [Option.eq_none_iff_forall_ne_some]
  rintro ⟨quoted, behind⟩ found
  obtain ⟨inner, innerQuotable, -, rfl⟩ := takeQuoted_eq_some_iff.mp found
  have whole : takeQuoted [] (items ++ ['"']) = some (items, []) :=
    takeQuoted_eq_some_iff.mpr ⟨items, quotable, rfl, rfl⟩
  have early : takeQuoted [] (items ++ ['"']) = some (inner, behind ++ c :: cut) :=
    takeQuoted_eq_some_iff.mpr ⟨inner, innerQuotable, rfl, by simpa using isCut⟩
  rw [whole] at early
  simp at early

end Token

namespace Division

variable {division : Division} {before rest after : List Char}

/-- What stands before a line feed outside of quoted texts consists of whole tokens. -/
theorem Fits.exists_split (fits : division.Fits after)
    (isText : division.text = before ++ '\n' :: rest)
    (outside : ∀ s, ¬ division.Covers before '\n' (.text s)) (line : Nat) :
    ∃ lexemes, Lexeme.Split line before lexemes := by
  induction division using induction_on generalizing before line with
  | nil => simp [text] at isText
  | skip c division ih =>
    obtain ⟨⟨notFeed, isBlank⟩, fits⟩ := fits_skip_iff.mp fits
    cases before with
    | nil => exact absurd (List.cons.inj isText).1 notFeed
    | cons d before =>
      obtain ⟨rfl, isRest⟩ := List.cons.inj isText
      have outsideRest (s : String) : ¬ division.Covers before '\n' (.text s) := fun covers =>
        outside s (covers_skip_iff.mpr ⟨before, rfl, covers⟩)
      obtain ⟨lexemes, split⟩ := ih fits isRest outsideRest line
      exact ⟨lexemes, .blank notFeed isBlank split⟩
  | prepend token spelling division ih =>
    obtain ⟨spelled, ends, fits⟩ := fits_prepend_iff.mp fits
    have further (others : List Char) (isBefore : before = spelling ++ others)
        (isRest : division.text = others ++ '\n' :: rest) :
        ∃ lexemes, Lexeme.Split line before lexemes := by
      have outsideRest (s : String) : ¬ division.Covers others '\n' (.text s) := fun covers =>
        outside s (covers_prepend_iff.mpr (.inr ⟨others, isBefore, covers⟩))
      rw [isRest, List.append_assoc] at ends
      obtain ⟨lexemes, split⟩ := ih fits isRest outsideRest (line + token.lineFeeds)
      rw [isBefore]
      exact ⟨_, .token spelled ends.of_append split⟩
    rw [text_prepend] at isText
    rcases List.append_eq_append_iff.mp isText with ⟨others, isBefore, isRest⟩ |
      ⟨covered, isSpelling, isRest⟩
    · exact further others isBefore isRest
    · cases covered with
      | nil => exact further [] (by simpa using isSpelling.symm) isRest.symm
      | cons d behind =>
        obtain ⟨rfl, -⟩ := List.cons.inj isRest
        rcases spelled.of_lineFeed_mem (by simp [isSpelling]) with isBreak | ⟨s, rfl⟩
        · -- the line feed is the whole token, so nothing of it stands before
          rw [isBreak] at isSpelling
          have noneBefore : before = [] := by
            cases before with
            | nil => rfl
            | cons e before => simp at isSpelling
          exact ⟨[], noneBefore ▸ .nil line⟩
        · exact absurd (covers_prepend_iff.mpr (.inl ⟨rfl, behind, isSpelling⟩)) (outside s)

/-- What stands before a line feed inside a quoted text cannot be read. -/
theorem Fits.scan_of_covers (fits : division.Fits after)
    (isText : division.text = before ++ '\n' :: rest) {s : String}
    (covers : division.Covers before '\n' (.text s)) (line : Nat) (found : List Lexeme) :
    ∃ lineAt, Lexeme.scan line found before = .error (.unterminatedString lineAt) := by
  induction division using induction_on generalizing before line found with
  | nil => exact absurd covers not_covers_nil
  | skip c division ih =>
    obtain ⟨⟨notFeed, isBlank⟩, fits⟩ := fits_skip_iff.mp fits
    obtain ⟨others, rfl, coversRest⟩ := covers_skip_iff.mp covers
    rw [Lexeme.scan_blank notFeed isBlank]
    exact ih fits (List.cons.inj isText).2 coversRest line found
  | prepend token spelling division ih =>
    obtain ⟨spelled, ends, fits⟩ := fits_prepend_iff.mp fits
    rw [text_prepend] at isText
    rcases covers_prepend_iff.mp covers with ⟨rfl, behind, isSpelling⟩ | ⟨others, rfl, coversRest⟩
    · cases spelled with
      | text quotable =>
        cases before with
        | nil => simp at isSpelling
        | cons d begun =>
          obtain ⟨rfl, isCut⟩ := List.cons.inj isSpelling
          refine ⟨line, Lexeme.scan_of_read_eq_error rfl ?_ found⟩
          simp [Token.read, Token.takeQuoted_of_cut quotable isCut]
    · rw [List.append_assoc] at isText
      have isRest := List.append_cancel_left isText
      rw [isRest, List.append_assoc] at ends
      rw [Lexeme.scan_spelling spelled ends.of_append]
      exact ih fits isRest coversRest _ _

/-- A line feed stands outside of quoted texts exactly if what stands before it can be
read by itself. -/
theorem Fits.outside_iff (fits : division.Fits after)
    (isText : division.text = before ++ '\n' :: rest) :
    (∀ s, ¬ division.Covers before '\n' (.text s)) ↔
      ∃ lexemes, Lexeme.ofText before = .ok lexemes := by
  constructor
  · intro outside
    obtain ⟨lexemes, split⟩ := fits.exists_split isText outside 1
    exact ⟨lexemes, Lexeme.ofText_eq_ok_iff.mpr split⟩
  · rintro ⟨lexemes, success⟩ s covers
    obtain ⟨lineAt, fails⟩ := fits.scan_of_covers isText covers 1 []
    rw [Lexeme.ofText, fails] at success
    cases success

end Division

end StackScript
