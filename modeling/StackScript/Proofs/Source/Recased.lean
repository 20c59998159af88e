import StackScript.Proofs.Lexis.Covering
import StackScript.Proofs.Source.Joined
import StackScript.Proofs.Source.Places
import StackScript.Proofs.Text.LetterCase

/-!
# Keywords in any letter case

Two texts that differ only in the case of letters inside keywords have the same tokens on the
same lines, or the same error, and so the same subroutines. Which words are keywords is told
by the divisions of what is left of the first text, also where only its beginning can be read.
-/

namespace StackScript

/-! ## Spellings in another case -/

namespace Token

variable {token : Token} {first second : List Char}

theorem isWordChar_eq_of_toLower_eq {c d : Char} (same : c.toLower = d.toLower) :
    isWordChar c = isWordChar d := by
  refine test_eq_of_toLower_eq ?_ same
  intro e letter
  simp [isWordChar, Char.isAlphanum, letter]

theorem isNumberChar_eq_of_toLower_eq {c d : Char} (same : c.toLower = d.toLower) :
    isNumberChar c = isNumberChar d := by
  refine test_eq_of_toLower_eq ?_ same
  intro e letter
  simp [isNumberChar, isWordChar, Char.isAlphanum, letter]

/-- What makes a token longer does not depend on case. -/
theorem extendedBy_eq_of_toLower_eq (token : Token) {c d : Char} (same : c.toLower = d.toLower) :
    token.extendedBy c = token.extendedBy d := by
  cases token with
  | keyword | identifier => exact isWordChar_eq_of_toLower_eq same
  | integer | float => exact isNumberChar_eq_of_toLower_eq same
  | text | lineBreak => rfl

/-- What ends a token ends it in any case. -/
theorem EndsBefore.of_map_toLower_eq (ends : token.EndsBefore first)
    (same : first.map Char.toLower = second.map Char.toLower) : token.EndsBefore second := by
  cases first with
  | nil =>
    rw [List.map_eq_nil_iff.mp same.symm]
    exact nofun
  | cons c rest =>
    cases second with
    | nil => cases same
    | cons d others =>
      intro e isFirst
      cases isFirst
      rw [← token.extendedBy_eq_of_toLower_eq (List.cons.inj same).1]
      exact ends c rfl

end Token

/-- A word is a word in any case. -/
theorem IsWord.of_map_toLower_eq {first second : List Char} (isWord : IsWord first)
    (same : first.map Char.toLower = second.map Char.toLower) : IsWord second := by
  cases first with
  | nil => cases isWord
  | cons c rest =>
    cases second with
    | nil => cases same
    | cons d others =>
      obtain ⟨sameFirst, sameRest⟩ := List.cons.inj same
      obtain ⟨letter, inside⟩ := isWord
      have sameLetter := test_eq_of_toLower_eq (fun _ letter => letter) sameFirst
      refine ⟨sameLetter.symm.trans letter, ?_⟩
      intro e mem
      have memLower : e.toLower ∈ rest.map Char.toLower := by
        rw [sameRest]
        exact List.mem_map_of_mem mem
      obtain ⟨f, memRest, sameLower⟩ := List.mem_map.mp memLower
      exact (Token.isWordChar_eq_of_toLower_eq sameLower).symm.trans (inside f memRest)

/-- A spelling may change its case if the token is a keyword. -/
theorem Token.SpelledBy.recased {token : Token} {spelling other : List Char}
    (spelled : token.SpelledBy spelling)
    (agrees : AgreesBut (fun _ _ _ => ∃ word, token = .keyword word) spelling other) :
    token.SpelledBy other := by
  by_cases isKeyword : ∃ word, token = .keyword word
  · obtain ⟨word, rfl⟩ := isKeyword
    have same := agrees.map_toLower_eq
    cases spelled with
    | keyword isWord anyCase =>
      refine .keyword (isWord.of_map_toLower_eq same) ?_
      rw [← anyCase, ← String.toList_inj, String.toList_map, String.toList_map,
        String.toList_ofList, String.toList_ofList, same]
  · rwa [← agrees.eq_of_never fun _ _ _ _ => isKeyword]

/-! ## Keywords of a text without comments -/

/-- In a text without comments the character belongs to a word that is read as a keyword;
what stands behind the word may have an error. -/
def InKeyword (before : List Char) (c : Char) (after : List Char) : Prop :=
  ∃ (division : Division) (rest : List Char) (word : Keyword),
    before ++ c :: after = division.text ++ rest ∧ division.Fits rest ∧
      division.Covers before c (.keyword word)

namespace InKeyword

variable {before after text : List Char} {b c : Char}

/-- A text with a keyword begins with a blank, or with a token that has the character or
stands before it. -/
theorem cases_first (inKeyword : InKeyword before c after) :
    (∃ b others, (b ≠ '\n' ∧ Text.isBlank b = true) ∧ before = b :: others ∧
      InKeyword others c after) ∨
    ∃ (token : Token) (spelling rest : List Char), token.SpelledBy spelling ∧
      token.EndsBefore rest ∧ before ++ c :: after = spelling ++ rest ∧
      (((∃ word, token = .keyword word) ∧ ∃ behind, spelling = before ++ c :: behind) ∨
        ∃ others, before = spelling ++ others ∧ InKeyword others c after) := by
  obtain ⟨division, rest, word, isDivided, fits, covers⟩ := inKeyword
  cases division using Division.induction_on with
  | nil => exact absurd covers Division.not_covers_nil
  | skip b division =>
    left
    obtain ⟨isBlank, fitsRest⟩ := Division.fits_skip_iff.mp fits
    obtain ⟨others, rfl, coversRest⟩ := Division.covers_skip_iff.mp covers
    exact ⟨b, others, isBlank, rfl, division, rest, word, (List.cons.inj isDivided).2, fitsRest,
      coversRest⟩
  | prepend token spelling division =>
    right
    obtain ⟨spelled, ends, fitsRest⟩ := Division.fits_prepend_iff.mp fits
    rw [Division.text_prepend, List.append_assoc] at isDivided
    refine ⟨token, spelling, _, spelled, ends, isDivided, ?_⟩
    rcases Division.covers_prepend_iff.mp covers with ⟨isWord, within⟩ | ⟨others, rfl, coversRest⟩
    · exact .inl ⟨⟨word, isWord⟩, within⟩
    · rw [List.append_assoc] at isDivided
      exact .inr ⟨others, rfl, division, rest, word, List.append_cancel_left isDivided, fitsRest,
        coversRest⟩

/-- Behind a blank the keywords are those of the rest. -/
theorem of_blank (inKeyword : InKeyword before c after) (isText : before ++ c :: after = b :: text)
    (skipped : (b != '\n' && Text.isBlank b) = true) :
    ∃ others, before = b :: others ∧ InKeyword others c after := by
  rcases inKeyword.cases_first with ⟨d, others, -, rfl, inRest⟩ |
    ⟨token, spelling, rest, spelled, -, isSpelled, -⟩
  · obtain ⟨rfl, -⟩ := List.cons.inj isText
    exact ⟨others, rfl, inRest⟩
  · obtain ⟨d, ds, rfl⟩ := List.exists_cons_of_ne_nil spelled.ne_nil
    obtain ⟨rfl, -⟩ := List.cons.inj (isText.symm.trans isSpelled)
    rw [Token.not_skipped_of_spelledBy spelled] at skipped
    cases skipped

/-- Where a token can be read, a keyword is that token or one of the rest. -/
theorem of_spelling {token : Token} {spelling : List Char} (inKeyword : InKeyword before c after)
    (isText : before ++ c :: after = spelling ++ text) (spelled : token.SpelledBy spelling)
    (ends : token.EndsBefore text) :
    ((∃ word, token = .keyword word) ∧ ∃ behind, spelling = before ++ c :: behind) ∨
      ∃ others, before = spelling ++ others ∧ InKeyword others c after := by
  rcases inKeyword.cases_first with ⟨b, others, ⟨notFeed, isBlank⟩, rfl, -⟩ |
    ⟨other, same, rest, spelledToo, endsToo, isSpelled, place⟩
  · obtain ⟨d, ds, rfl⟩ := List.exists_cons_of_ne_nil spelled.ne_nil
    obtain ⟨rfl, -⟩ := List.cons.inj isText
    have notSkipped := Token.not_skipped_of_spelledBy spelled
    simp [notFeed, isBlank] at notSkipped
  · obtain ⟨rfl, rfl, rfl⟩ := spelled.unique ends spelledToo endsToo (isText.symm.trans isSpelled)
    exact place

/-- There is no keyword where no token can be read. -/
theorem not_of_read_eq_error {line : Nat} {error : SyntaxError}
    (isText : before ++ c :: after = b :: text)
    (notSkipped : (b != '\n' && Text.isBlank b) = false)
    (fails : Token.read line b text = .error error) : ¬ InKeyword before c after := by
  intro inKeyword
  rcases inKeyword.cases_first with ⟨d, others, ⟨notFeed, isBlank⟩, rfl, -⟩ |
    ⟨token, spelling, rest, spelled, ends, isSpelled, -⟩
  · obtain ⟨rfl, -⟩ := List.cons.inj isText
    simp [notFeed, isBlank] at notSkipped
  · rw [Token.read_spelling spelled ends (isText.symm.trans isSpelled)] at fails
    cases fails

end InKeyword

/-- The scanner does not see the case of keywords. -/
theorem Lexeme.scan_recased {first second : List Char} (agrees : AgreesBut InKeyword first second)
    (line : Nat) (found : List Lexeme) : scan line found first = scan line found second := by
  fun_induction scan line found first generalizing second with
  | case1 line found => rw [agreesBut_nil_iff.mp agrees, scan]
  | case2 line found c rest skipped ih =>
    -- a blank belongs to no keyword, so both texts have it
    obtain ⟨d, others, rfl, atFirst, agreesRest⟩ := agreesBut_cons_iff.mp agrees
    have same : c = d := by
      refine atFirst.resolve_right ?_
      rintro ⟨inKeyword, -⟩
      obtain ⟨_, isCons, -⟩ := inKeyword.of_blank rfl skipped
      cases isCons
    rw [← same, scan, if_pos skipped]
    apply ih
    refine agreesRest.imp ?_
    rintro before e after rfl inKeyword
    obtain ⟨others, isCons, inRest⟩ := inKeyword.of_blank rfl skipped
    rwa [(List.cons.inj isCons).2]
  | case3 line found c rest notSkipped error fails =>
    -- no keyword comes before the error, so the texts are the same from here on
    have notSkippedThere := Bool.eq_false_iff.mpr notSkipped
    have same := agrees.eq_of_never fun before e after isText =>
      InKeyword.not_of_read_eq_error isText.symm notSkippedThere fails
    rw [← same, scan_of_read_eq_error notSkippedThere fails]
  | case4 line found c rest notSkipped token after reads ih =>
    -- both texts have the token, the second one perhaps in another case
    obtain ⟨spelling, whole, spelled, ends⟩ := Token.exists_spelling_of_read reads
    rw [whole] at agrees
    obtain ⟨begun, others, rfl, agreesSpelling, agreesAfter⟩ := agrees.exists_append
    have spelledToo : token.SpelledBy begun := by
      apply spelled.recased
      refine agreesSpelling.imp ?_
      rintro before e behind isSpelling inKeyword
      have isText : before ++ e :: (behind ++ after) = spelling ++ after := by simp [isSpelling]
      rcases inKeyword.of_spelling isText spelled ends with ⟨isWord, -⟩ | ⟨others, isBefore, -⟩
      · exact isWord
      · -- the place is inside the spelling, not behind it
        rw [isBefore] at isSpelling
        simp at isSpelling
    rw [scan_spelling spelledToo (ends.of_map_toLower_eq agreesAfter.map_toLower_eq)]
    apply ih
    refine agreesAfter.imp ?_
    rintro before e behind rfl inKeyword
    rcases inKeyword.of_spelling (List.append_assoc ..) spelled ends with
      ⟨-, farther, isSpelling⟩ | ⟨others, isBefore, inRest⟩
    · simp at isSpelling
    · rwa [List.append_cancel_left isBefore]

/-! ## Comments -/

namespace Source

theorem lineSoFar_map_toLower (before : List Char) :
    lineSoFar (before.map Char.toLower) = (lineSoFar before).map Char.toLower := by
  have sameTest : (fun c : Char => c != '\n') ∘ Char.toLower = fun c => c != '\n' := by
    funext c
    have isFeed : c.toLower = '\n' ↔ c = '\n' := toLower_eq_iff rfl
    rw [Function.comp_apply, Bool.eq_iff_iff, bne_iff_ne, bne_iff_ne]
    exact isFeed.not
  rw [lineSoFar, lineSoFar, List.rtakeWhile, List.rtakeWhile, ← List.map_reverse,
    List.takeWhile_map, sameTest, List.map_reverse]

/-- Which characters stay does not depend on case. -/
theorem stays_map_toLower_iff {before after : List Char} {c : Char} :
    Stays (before.map Char.toLower) c.toLower (after.map Char.toLower) ↔
      Stays before c after := by
  have isFeed (d : Char) : d.toLower = '\n' ↔ d = '\n' := toLower_eq_iff rfl
  have isReturn (d : Char) : d.toLower = '\r' ↔ d = '\r' := toLower_eq_iff rfl
  have isHash (d : Char) : d.toLower = '#' ↔ d = '#' := toLower_eq_iff rfl
  have sameComment : InComment (before.map Char.toLower) c.toLower ↔ InComment before c := by
    have sameHash : '#' = c.toLower ↔ '#' = c := by rw [eq_comm, isHash, eq_comm]
    simp [InComment, lineSoFar_map_toLower, isFeed, isHash, sameHash]
  have sameEnd : (c.toLower = '\n' → after.map Char.toLower ≠ []) ↔ (c = '\n' → after ≠ []) := by
    rw [isFeed, ne_eq, List.map_eq_nil_iff]
  have sameReturn : (c.toLower = '\r' → (after.map Char.toLower).head? ≠ some '\n') ↔
      (c = '\r' → after.head? ≠ some '\n') := by
    simp [isReturn, isFeed]
  constructor
  · rintro ⟨notInComment, notAtEnd, notReturn⟩
    exact ⟨mt sameComment.mpr notInComment, sameEnd.mp notAtEnd, sameReturn.mp notReturn⟩
  · rintro ⟨notInComment, notAtEnd, notReturn⟩
    exact ⟨mt sameComment.mp notInComment, sameEnd.mpr notAtEnd, sameReturn.mpr notReturn⟩

/-- In the source text the character belongs to a word that is read as a keyword when the
comments are cut. -/
def InKeyword (before : List Char) (c : Char) (after : List Char) : Prop :=
  ∃ text cut behind, Place text before c after cut behind ∧ StackScript.InKeyword cut c behind

/-- What stays of two texts agrees but for case at the places that are left of those where
the texts may differ. -/
theorem agreesBut_remaining {free kept : List Char → Char → List Char → Prop}
    {before other first second : List Char} (agrees : AgreesBut free first second)
    (sameBefore : before.map Char.toLower = other.map Char.toLower)
    (places : ∀ earlier c after, first = earlier ++ c :: after → free earlier c after →
      kept (remaining before earlier (c :: after)) c
        (remaining (before ++ earlier ++ [c]) after [])) :
    AgreesBut kept (remaining before first []) (remaining other second []) := by
  induction first generalizing free kept before other second with
  | nil =>
    rw [agreesBut_nil_iff.mp agrees]
    exact agreesBut_nil_iff.mpr rfl
  | cons c rest ih =>
    obtain ⟨d, others, rfl, atFirst, agreesRest⟩ := agreesBut_cons_iff.mp agrees
    have sameFirst : c.toLower = d.toLower := atFirst.elim (congrArg _) And.right
    have sameNext : (before ++ [c]).map Char.toLower = (other ++ [d]).map Char.toLower := by
      rw [List.map_append, List.map_append, sameBefore, List.map_singleton, List.map_singleton,
        sameFirst]
    have sameStays : Stays before c rest ↔ Stays other d others := by
      rw [← stays_map_toLower_iff, sameBefore, sameFirst, agreesRest.map_toLower_eq,
        stays_map_toLower_iff]
    by_cases stays : Stays before c rest
    · have staysToo := sameStays.mp stays
      rw [remaining_of_stays (by rwa [List.append_nil]),
        remaining_of_stays (by rwa [List.append_nil])]
      refine agreesBut_cons_iff.mpr ⟨d, _, rfl, ?_, ih agreesRest sameNext ?_⟩
      · refine atFirst.imp_right fun ⟨isFree, same⟩ => ⟨?_, same⟩
        have atPlace := places [] c rest rfl isFree
        rwa [List.append_nil] at atPlace
      · rintro earlier e after rfl isFree
        have atPlace := places (c :: earlier) e after rfl isFree
        rwa [remaining_of_stays stays, List.append_cons before c earlier] at atPlace
    · have goesToo := mt sameStays.mpr stays
      rw [remaining_of_not_stays (by rwa [List.append_nil]),
        remaining_of_not_stays (by rwa [List.append_nil])]
      refine ih agreesRest sameNext ?_
      rintro earlier e after rfl isFree
      have atPlace := places (c :: earlier) e after rfl isFree
      rwa [remaining_of_not_stays stays, List.append_cons before c earlier] at atPlace

/-- If a text is written again with other letter case in its keywords, the ones that the
scanner reads when the comments are cut, nothing changes: there are the same subroutines, or
there is the same error. -/
theorem subroutines_recased {text other : String}
    (agrees : AgreesBut InKeyword text.toList other.toList) :
    Source.subroutines text = Source.subroutines other := by
  have left : AgreesBut StackScript.InKeyword (stripComments text.toList)
      (stripComments other.toList) := by
    rw [stripComments_eq_remaining, stripComments_eq_remaining]
    refine agreesBut_remaining agrees rfl ?_
    rintro earlier c after - ⟨whole, cut, behind, place, inKeyword⟩
    rw [List.nil_append, place.cut_eq, place.behind_eq]
    exact inKeyword
  rw [subroutines_eq_bind, subroutines_eq_bind, lexemes, lexemes, Lexeme.ofText, Lexeme.ofText,
    Lexeme.scan_recased left]

/-- The empty subroutine, with a comment. -/
def emptyHelper : String :=
  "a do #d\nend"

/-- Its tokens. -/
def emptyHelperDivision : Division :=
  ⟨[], [⟨.identifier "a", ['a'], [' ']⟩, ⟨.keyword .doWord, ['d', 'o'], [' ']⟩,
    ⟨.lineBreak, ['\n'], []⟩, ⟨.keyword .endWord, ['e', 'n', 'd'], []⟩]⟩

theorem emptyHelperDivision_fits : emptyHelperDivision.Fits [] := by
  have isBlank : AreBlanks [' '] := List.forall_mem_singleton.mpr ⟨by decide, by decide⟩
  have isName : IsName "a" := by decide +kernel
  refine ⟨nofun, ⟨.identifier isName, isBlank, ?_⟩,
    ⟨.keyword (by decide) (by decide +kernel), isBlank, ?_⟩, ⟨.lineBreak, nofun, ?_⟩,
    ⟨.keyword (by decide) (by decide +kernel), nofun, nofun⟩, trivial⟩
  all_goals
    intro c first
    cases first
    rfl

/-- Large letters in its keywords change nothing. -/
theorem emptyHelper_recased :
    Source.subroutines emptyHelper = .ok [⟨"a", []⟩] ∧
    Source.subroutines "a dO #d\nEnd" = .ok [⟨"a", []⟩] := by
  have lexed : lexemes emptyHelper = .ok [⟨.identifier "a", 1⟩, ⟨.keyword .doWord, 1⟩,
      ⟨.lineBreak, 1⟩, ⟨.keyword .endWord, 2⟩] := by decide +kernel
  have accepted : Source.subroutines emptyHelper = .ok [⟨"a", []⟩] := by
    rw [subroutines_eq_bind, lexed]
    rfl
  have inDo : InKeyword "a d".toList 'o' " #d\nend".toList := by
    refine ⟨emptyHelper.toList, "a d".toList, " \nend".toList, ⟨by decide +kernel,
      by decide +kernel, by decide +kernel, by decide +kernel⟩, emptyHelperDivision, [], .doWord,
      by decide +kernel, emptyHelperDivision_fits, ?_⟩
    exact ⟨[_], _, [_, _], ['d'], [], rfl, rfl, rfl, rfl⟩
  have inEnd : InKeyword "a do #d\n".toList 'e' "nd".toList := by
    refine ⟨emptyHelper.toList, "a do \n".toList, "nd".toList, ⟨by decide +kernel,
      by decide +kernel, by decide +kernel, by decide +kernel⟩, emptyHelperDivision, [], .endWord,
      by decide +kernel, emptyHelperDivision_fits, ?_⟩
    exact ⟨[_, _, _], _, [], [], ['n', 'd'], rfl, rfl, rfl, rfl⟩
  have same {free : List Char → Char → List Char → Prop} {c : Char} {rest others : List Char}
      (agrees : AgreesBut (fun before => free (c :: before)) rest others) :
      AgreesBut free (c :: rest) (c :: others) :=
    agreesBut_cons_iff.mpr ⟨c, others, rfl, .inl rfl, agrees⟩
  have agrees : AgreesBut InKeyword emptyHelper.toList "a dO #d\nEnd".toList :=
    same (same (same (agreesBut_cons_iff.mpr ⟨'O', _, rfl, .inr ⟨inDo, rfl⟩, same (same (same
      (same (agreesBut_cons_iff.mpr ⟨'E', _, rfl, .inr ⟨inEnd, rfl⟩, same (same
        (agreesBut_nil_iff.mpr rfl))⟩))))⟩)))
  exact ⟨accepted, subroutines_recased agrees ▸ accepted⟩

end Source

end StackScript
