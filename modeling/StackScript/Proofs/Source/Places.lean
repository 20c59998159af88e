import Mathlib.Data.List.DropRight
import StackScript.Proofs.Lexis.Division
import StackScript.Proofs.Source

/-!
# Places in a source text

Which characters of a text stay when its comments are cut, told by what stands before and
after each of them. So every place in the text that is left is a place in the source text,
outside of its comments; and it has the same number of line feeds before it, since the only
line feed that goes is the one at the very end.
-/

namespace StackScript.Source

/-- What stands on the same line before the end of a text. -/
def lineSoFar (before : List Char) : List Char :=
  before.rtakeWhile (· != '\n')

/-- The character behind this text is part of a comment: the first `#` of its line, or a
character of the line behind that. -/
def InComment (before : List Char) (c : Char) : Prop :=
  c ≠ '\n' ∧ '#' ∈ lineSoFar before ++ [c]

/-- The character stays when the comments of the text are cut. -/
structure Stays (before : List Char) (c : Char) (after : List Char) : Prop where
  notInComment : ¬ InComment before c
  notAtEnd : c = '\n' → after ≠ []
  notReturn : c = '\r' → after.head? ≠ some '\n'

instance Stays.decidable (before : List Char) (c : Char) (after : List Char) :
    Decidable (Stays before c after) :=
  decidable_of_iff
    (¬ (c ≠ '\n' ∧ '#' ∈ lineSoFar before ++ [c]) ∧ (c = '\n' → after ≠ []) ∧
      (c = '\r' → after.head? ≠ some '\n'))
    ⟨fun ⟨notInComment, notAtEnd, notReturn⟩ => ⟨notInComment, notAtEnd, notReturn⟩,
      fun ⟨notInComment, notAtEnd, notReturn⟩ => ⟨notInComment, notAtEnd, notReturn⟩⟩

/-- The characters that stay of the middle one of three parts of a text. -/
def remaining : List Char → List Char → List Char → List Char
  | _, [], _ => []
  | before, c :: rest, after =>
    if Stays before c (rest ++ after) then c :: remaining (before ++ [c]) rest after
    else remaining (before ++ [c]) rest after

/-- The character `c` of a text, with what stands before and after it, and with what is
left of either when the comments are cut. -/
structure Place (text before : List Char) (c : Char) (after cut behind : List Char) : Prop where
  text_eq : text = before ++ c :: after
  stays : Stays before c after
  cut_eq : remaining [] before (c :: after) = cut
  behind_eq : remaining (before ++ [c]) after [] = behind

/-! ## Lines -/

@[simp]
theorem lineSoFar_nil : lineSoFar [] = [] :=
  rfl

@[simp]
theorem lineSoFar_feed (before : List Char) : lineSoFar (before ++ ['\n']) = [] :=
  List.rtakeWhile_concat_neg _ _ _ (by decide)

theorem lineSoFar_append_of_ne {c : Char} (notFeed : c ≠ '\n') (before : List Char) :
    lineSoFar (before ++ [c]) = lineSoFar before ++ [c] :=
  List.rtakeWhile_concat_pos _ _ _ (by simpa using notFeed)

/-! ## What stays -/

theorem remaining_of_stays {before : List Char} {c : Char} {rest after : List Char}
    (stays : Stays before c (rest ++ after)) :
    remaining before (c :: rest) after = c :: remaining (before ++ [c]) rest after :=
  if_pos stays

theorem remaining_of_not_stays {before : List Char} {c : Char} {rest after : List Char}
    (goes : ¬ Stays before c (rest ++ after)) :
    remaining before (c :: rest) after = remaining (before ++ [c]) rest after :=
  if_neg goes

/-- A line feed stays if anything follows it. -/
theorem stays_feed {after : List Char} (more : after ≠ []) (before : List Char) :
    Stays before '\n' after := by
  refine ⟨fun inComment => inComment.1 rfl, fun _ => more, ?_⟩
  intro isReturn
  cases isReturn

/-- What stays of a text stays of its parts. -/
theorem remaining_append (before first second after : List Char) :
    remaining before (first ++ second) after =
      remaining before first (second ++ after) ++ remaining (before ++ first) second after := by
  induction first generalizing before with
  | nil => rw [List.append_nil]; rfl
  | cons c rest ih =>
    have further := ih (before ++ [c])
    rw [List.append_assoc] at further
    simp only [List.cons_append, remaining, List.append_assoc, further]
    split <;> rfl

/-- Only the line that a text ends with matters to what follows it. -/
theorem remaining_congr {before other : List Char} (same : lineSoFar before = lineSoFar other)
    (text after : List Char) : remaining before text after = remaining other text after := by
  induction text generalizing before other with
  | nil => rfl
  | cons c rest ih =>
    have sameStays : Stays before c (rest ++ after) ↔ Stays other c (rest ++ after) := by
      constructor <;> rintro ⟨notInComment, notAtEnd, notReturn⟩ <;>
        refine ⟨?_, notAtEnd, notReturn⟩ <;>
        simpa only [InComment, same] using notInComment
    have sameNext : lineSoFar (before ++ [c]) = lineSoFar (other ++ [c]) := by
      by_cases isFeed : c = '\n'
      · rw [isFeed, lineSoFar_feed, lineSoFar_feed]
      · rw [lineSoFar_append_of_ne isFeed, lineSoFar_append_of_ne isFeed, same]
    simp only [remaining, sameStays, ih sameNext]

/-- Of the rest of a line everything up to a `#` stays, and nothing if there is one already. A
carriage return that ends the line is left aside. -/
theorem remaining_line {before line after : List Char} (oneLine : '\n' ∉ line)
    (noReturn : line.getLast? = some '\r' → after.head? ≠ some '\n') :
    remaining before line after = if '#' ∈ lineSoFar before then [] else cutComment line := by
  induction line generalizing before with
  | nil => simp [remaining, cutComment]
  | cons c rest ih =>
    obtain ⟨feedNe, oneLineRest⟩ := not_or.mp (mt List.mem_cons.mpr oneLine)
    have notFeed : c ≠ '\n' := Ne.symm feedNe
    have noReturnRest : rest.getLast? = some '\r' → after.head? ≠ some '\n' := by
      intro ends
      apply noReturn
      rw [List.getLast?_cons, ends]
      rfl
    have further := @ih (before ++ [c]) oneLineRest noReturnRest
    rw [lineSoFar_append_of_ne notFeed] at further
    by_cases commented : '#' ∈ lineSoFar before ++ [c]
    · have goes : ¬ Stays before c (rest ++ after) := fun stays =>
        stays.notInComment ⟨notFeed, commented⟩
      rw [remaining_of_not_stays goes, further, if_pos commented]
      by_cases earlier : '#' ∈ lineSoFar before
      · rw [if_pos earlier]
      · obtain rfl : '#' = c := by simpa [earlier] using commented
        rw [if_neg earlier, cutComment, List.takeWhile_cons_of_neg (by decide)]
    · obtain ⟨noneEarlier, notHash⟩ : '#' ∉ lineSoFar before ∧ '#' ≠ c := by
        simpa using commented
      have stays : Stays before c (rest ++ after) := by
        refine ⟨fun inComment => commented inComment.2, fun isFeed => absurd isFeed notFeed, ?_⟩
        rintro rfl
        cases rest with
        | nil => exact noReturn rfl
        | cons d rest =>
          intro isFeed
          cases isFeed
          exact oneLineRest List.mem_cons_self
      rw [remaining_of_stays stays, further, if_neg commented, if_neg noneEarlier, cutComment,
        cutComment, List.takeWhile_cons_of_pos (by simpa using notHash.symm)]

/-- Of a line that a line feed ends a carriage return at the end goes as well. -/
theorem remaining_line_feed {line : List Char} (oneLine : '\n' ∉ line) (after : List Char) :
    remaining [] line ('\n' :: after) = cutComment (dropReturn line) := by
  by_cases ends : line.getLast? = some '\r'
  · obtain ⟨inner, rfl⟩ := List.getLast?_eq_some_iff.mp ends
    have oneLineInner : '\n' ∉ inner := fun mem => oneLine (List.mem_append_left _ mem)
    have goes : ¬ Stays inner '\r' ([] ++ '\n' :: after) := fun stays => stays.notReturn rfl rfl
    rw [remaining_append, List.nil_append, remaining_of_not_stays goes, dropReturn_append_return,
      remaining_line oneLineInner (by simp)]
    simp [remaining]
  · rw [remaining_line oneLine fun isReturn => absurd isReturn ends, dropReturn, if_neg ends]
    simp

/-- The text without its comments consists of the characters that stay. -/
theorem stripComments_eq_remaining (text : List Char) :
    stripComments text = remaining [] text [] := by
  induction text using induction_on_lines with
  | last line oneLine =>
    rw [stripComments_line oneLine, remaining_line oneLine (by simp)]
    simp
  | feed line after oneLine ih =>
    rw [remaining_append, List.append_nil, remaining_line_feed oneLine]
    have next : remaining ([] ++ line ++ ['\n']) after [] = remaining [] after [] :=
      remaining_congr (by rw [lineSoFar_feed, lineSoFar_nil]) after []
    by_cases atEnd : after = []
    · subst atEnd
      have goes : ¬ Stays ([] ++ line) '\n' ([] ++ []) := fun stays => stays.notAtEnd rfl rfl
      rw [remaining_of_not_stays goes, stripComments_line_feed oneLine, next]
      simp [remaining]
    · have stays : Stays ([] ++ line) '\n' (after ++ []) := stays_feed (by simpa using atEnd) _
      rw [remaining_of_stays stays, stripComments_append_feed oneLine atEnd, next, ih]

/-! ## Places -/

/-- Line feeds that something follows stay. -/
theorem count_remaining {after : List Char} (more : after ≠ []) (before text : List Char) :
    (remaining before text after).count '\n' = text.count '\n' := by
  induction text generalizing before with
  | nil => rfl
  | cons c rest ih =>
    by_cases stays : Stays before c (rest ++ after)
    · rw [remaining_of_stays stays, List.count_cons, List.count_cons, ih]
    · have notFeed : c ≠ '\n' := by
        rintro rfl
        exact stays (stays_feed (by simp [more]) before)
      rw [remaining_of_not_stays stays, ih, List.count_cons_of_ne notFeed]

/-- A character that stays was in the text. -/
theorem exists_of_remaining_eq {before text cut behind : List Char} {c : Char}
    (left : remaining before text [] = cut ++ c :: behind) :
    ∃ first second, text = first ++ c :: second ∧ Stays (before ++ first) c second ∧
      remaining before first (c :: second) = cut ∧
      remaining (before ++ first ++ [c]) second [] = behind := by
  induction text generalizing before cut with
  | nil => simp [remaining] at left
  | cons d rest ih =>
    by_cases stays : Stays before d rest
    · rw [remaining_of_stays (by rwa [List.append_nil])] at left
      cases cut with
      | nil =>
        obtain ⟨rfl, same⟩ := List.cons.inj left
        exact ⟨[], rest, rfl, by rwa [List.append_nil], rfl, by rwa [List.append_nil]⟩
      | cons e cut =>
        obtain ⟨rfl, same⟩ := List.cons.inj left
        obtain ⟨first, second, rfl, staysThere, cutSame, behindSame⟩ := ih same
        refine ⟨d :: first, second, rfl, by simpa using staysThere, ?_, by simpa using behindSame⟩
        rw [remaining_of_stays stays, cutSame]
    · rw [remaining_of_not_stays (by rwa [List.append_nil])] at left
      obtain ⟨first, second, rfl, staysThere, cutSame, behindSame⟩ := ih left
      refine ⟨d :: first, second, rfl, by simpa using staysThere, ?_, by simpa using behindSame⟩
      rw [remaining_of_not_stays stays, cutSame]

/-- Every character of a text without its comments has its place in the source text. -/
theorem exists_place {text cut behind : List Char} {c : Char}
    (left : stripComments text = cut ++ c :: behind) :
    ∃ before after, Place text before c after cut behind := by
  rw [stripComments_eq_remaining] at left
  obtain ⟨before, after, rfl, stays, cutSame, behindSame⟩ := exists_of_remaining_eq left
  exact ⟨before, after, rfl, stays, cutSame, behindSame⟩

namespace Place

variable {text before after cut behind : List Char} {c : Char}

/-- A place of the source text is the place that it is said to be in what is left. -/
theorem stripComments_eq (place : Place text before c after cut behind) :
    stripComments text = cut ++ c :: behind := by
  have stays : Stays ([] ++ before) c (after ++ []) := by
    rw [List.nil_append, List.append_nil]
    exact place.stays
  rw [stripComments_eq_remaining, place.text_eq, remaining_append, List.append_nil, place.cut_eq,
    remaining_of_stays stays, List.nil_append, place.behind_eq]

/-- Cutting comments keeps every place on its line. -/
theorem lineBehind_eq (place : Place text before c after cut behind) :
    lineBehind before = lineBehind cut := by
  rw [lineBehind, lineBehind, ← place.cut_eq, count_remaining (List.cons_ne_nil c after)]

end Place

end StackScript.Source
