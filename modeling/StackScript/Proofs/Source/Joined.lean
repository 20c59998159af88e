import StackScript.Proofs.Grammar.Following
import StackScript.Proofs.Source

/-!
# Texts one after the other

A text that is accepted may be followed, after a line feed, by any other text: the
whole means what the two mean one after the other, and an error in the second
text is the same error further down. The seam needs care in one respect only: a
line feed at the end of a text is dropped with its last line, together with a
carriage return before it, but stays if another line follows.
-/

namespace StackScript.Source

/-! ## The seam -/

/-- A line with its end and the line alone differ in a blank at most. -/
theorem cutComment_dropReturn (line : List Char) :
    cutComment line = cutComment (dropReturn line) ∨
      cutComment line = cutComment (dropReturn line) ++ ['\r'] := by
  by_cases ends : line.getLast? = some '\r'
  · obtain ⟨inner, rfl⟩ := List.getLast?_eq_some_iff.mp ends
    rw [dropReturn_append_return]
    by_cases commented : '#' ∈ inner
    · left
      rw [cutComment, List.takeWhile_append, if_neg]
      · rfl
      · intro sameLength
        have whole : cutComment inner = inner :=
          (List.takeWhile_prefix (· != '#')).eq_of_length sameLength
        rw [← whole] at commented
        exact not_mem_cutComment inner commented
    · right
      rw [cutComment_of_not_mem commented]
      exact cutComment_of_not_mem (by simp [commented])
  · left
    rw [dropReturn, if_neg ends]

/-- A line feed behind a text is kept if the text has ended with one already. If not,
it ends the last line, and what it takes away is a carriage return at most. -/
theorem stripComments_feed (text : List Char) :
    stripComments (text ++ ['\n']) = stripComments text ++ ['\n'] ∨
      stripComments text = stripComments (text ++ ['\n']) ∨
      stripComments text = stripComments (text ++ ['\n']) ++ ['\r'] := by
  induction text using induction_on_lines with
  | last line oneLine =>
    rw [stripComments_line_feed oneLine, stripComments_line oneLine]
    exact .inr (cutComment_dropReturn line)
  | feed line after oneLine ih =>
    have feedBehind : after ++ ['\n'] ≠ [] := by simp
    rw [List.append_assoc, List.cons_append, stripComments_append_feed oneLine feedBehind]
    by_cases atEnd : after = []
    · subst atEnd
      left
      have emptyLine : stripComments ([] ++ ['\n']) = [] :=
        stripComments_line_feed List.not_mem_nil
      rw [emptyLine, stripComments_line_feed oneLine]
    · rw [stripComments_append_feed oneLine atEnd]
      rcases ih with ih | ih | ih <;> rw [ih] <;> simp

/-- Texts one after the other are cut one after the other. -/
theorem stripComments_joined (first : List Char) {second : List Char} (more : second ≠ []) :
    stripComments (first ++ '\n' :: second) =
      stripComments (first ++ ['\n']) ++ '\n' :: stripComments second := by
  induction first using induction_on_lines with
  | last line oneLine =>
    rw [stripComments_line_feed oneLine, stripComments_append_feed oneLine more]
  | feed line after oneLine ih =>
    have feedBehind : after ++ ['\n'] ≠ [] := by simp
    have moreBehind : after ++ '\n' :: second ≠ [] := by simp
    simp only [List.append_assoc, List.cons_append, stripComments_append_feed oneLine feedBehind,
      stripComments_append_feed oneLine moreBehind, ih]

/-- Cutting comments keeps every line feed that another one follows. -/
theorem count_stripComments_feed (text : List Char) :
    (stripComments (text ++ ['\n'])).count '\n' = text.count '\n' := by
  have noFeed {line : List Char} (oneLine : '\n' ∉ line) :
      (cutComment (dropReturn line)).count '\n' = 0 := by
    rw [List.count_eq_zero, cutComment, dropReturn]
    intro mem
    have inLine := (List.takeWhile_sublist _).subset mem
    split at inLine
    · exact oneLine (List.dropLast_subset line inLine)
    · exact oneLine inLine
  induction text using induction_on_lines with
  | last line oneLine =>
    rw [stripComments_line_feed oneLine, noFeed oneLine, List.count_eq_zero.mpr oneLine]
  | feed line after oneLine ih =>
    have feedBehind : after ++ ['\n'] ≠ [] := by simp
    rw [List.append_assoc, List.cons_append, stripComments_append_feed oneLine feedBehind,
      List.count_append, List.count_append, List.count_cons_self, List.count_cons_self, ih,
      noFeed oneLine, List.count_eq_zero.mpr oneLine]

/-! ## Lexemes -/

/-- A line feed behind a text adds line breaks at most. -/
theorem exists_split_feed {text : List Char} {found : List Lexeme}
    (split : Lexeme.Split 1 (stripComments text) found) :
    ∃ blank, (∀ lexeme ∈ blank, lexeme.token = .lineBreak) ∧
      Lexeme.Split 1 (stripComments (text ++ ['\n'])) (found ++ blank) := by
  rcases stripComments_feed text with kept | same | dropped
  · rw [kept]
    refine ⟨[⟨.lineBreak, 1 + (stripComments text).count '\n'⟩], by simp, ?_⟩
    rw [← Lexeme.ofText_eq_ok_iff, Lexeme.ofText, split.scan_append_feed, Lexeme.scan]
    simp
  · rw [← same]
    exact ⟨[], by simp, by rwa [List.append_nil]⟩
  · rw [dropped] at split
    exact ⟨[], by simp, by rw [List.append_nil]; exact split.of_append_return⟩

/-- Behind a line feed stand the lexemes of the second text, further down by the
lines before it; or its error does. -/
theorem lexemes_joined {first : String} {earlier : List Lexeme}
    (split : Lexeme.Split 1 (stripComments (first.toList ++ ['\n'])) earlier) {second : String}
    (more : second ≠ "") :
    lexemes (first ++ "\n" ++ second) =
      ((lexemes second).map fun found =>
        earlier ++ ⟨.lineBreak, 1 + first.toList.count '\n'⟩ ::
          found.map (Lexeme.movedDown (1 + first.toList.count '\n'))).mapError
        (SyntaxError.movedDown (1 + first.toList.count '\n')) := by
  have moreCharacters : second.toList ≠ [] := by simpa using more
  have joined : (first ++ "\n" ++ second).toList = first.toList ++ '\n' :: second.toList := by
    simp
  rw [lexemes, lexemes, joined, stripComments_joined _ moreCharacters, split.ofText_append_feed,
    count_stripComments_feed]

/-! ## Subroutines -/

/-- Reading a text is reading its lexemes. -/
theorem subroutines_eq_bind (text : String) :
    Source.subroutines text = (lexemes text).bind Subroutine.ofLexemes :=
  rfl

/-- What is left of a text without its comments is nothing but line breaks. -/
def IsBlank (text : String) : Prop :=
  ∃ found, lexemes text = .ok found ∧ ∀ lexeme ∈ found, lexeme.token = .lineBreak

/-- A line feed behind an accepted text changes nothing. -/
theorem exists_split_of_accepted {text : String} {definitions : List Subroutine}
    (accepted : Source.subroutines text = .ok definitions) :
    ∃ found, Lexeme.Split 1 (stripComments (text.toList ++ ['\n'])) found ∧
      Subroutine.ofLexemes found = .ok definitions := by
  rw [subroutines_eq_bind] at accepted
  cases lexed : lexemes text with
  | error error =>
    rw [lexed] at accepted
    cases accepted
  | ok found =>
    rw [lexed] at accepted
    obtain ⟨blank, allBlank, split⟩ := exists_split_feed (Lexeme.ofText_eq_ok_iff.mp lexed)
    exact ⟨found ++ blank, split, Subroutine.ofLexemes_append_lineBreaks accepted allBlank⟩

/-- A text of line breaks alone is no program. -/
theorem not_isBlank_of_accepted {text : String} {definitions : List Subroutine}
    (accepted : Source.subroutines text = .ok definitions) : ¬ IsBlank text := by
  rintro ⟨found, lexed, allBreaks⟩
  rw [subroutines_eq_bind, lexed] at accepted
  obtain ⟨lexeme, mem, notBreak⟩ := Subroutine.exists_ne_lineBreak_of_ofLexemes_eq_ok accepted
  exact notBreak (allBreaks lexeme mem)

section Joined

variable {first : String} {earlier : List Lexeme} {definitions : List Subroutine}
  (split : Lexeme.Split 1 (stripComments (first.toList ++ ['\n'])) earlier)
  (accepted : Subroutine.ofLexemes earlier = .ok definitions)

include split accepted

/-- A second text of line breaks adds nothing. -/
theorem subroutines_joined_of_isBlank {second : String} (blank : IsBlank second) :
    Source.subroutines (first ++ "\n" ++ second) = .ok definitions := by
  rw [subroutines_eq_bind]
  by_cases more : second = ""
  · have lexed : lexemes (first ++ "\n" ++ second) = .ok earlier := by
      rw [more, lexemes, ← Lexeme.ofText_eq_ok_iff.mpr split]
      simp
    rw [lexed]
    exact accepted
  · obtain ⟨found, lexed, allBreaks⟩ := blank
    rw [lexemes_joined split more, lexed]
    apply Subroutine.ofLexemes_append_lineBreaks accepted
    rw [List.forall_mem_cons, List.forall_mem_map]
    exact ⟨rfl, allBreaks⟩

/-- Any other second text is read as by itself. -/
theorem subroutines_joined_of_not_isBlank {second : String} (notBlank : ¬ IsBlank second) :
    Source.subroutines (first ++ "\n" ++ second) =
      ((Source.subroutines second).map (definitions ++ ·)).mapError
        (SyntaxError.movedDown (1 + first.toList.count '\n')) := by
  have more : second ≠ "" := by
    rintro rfl
    refine notBlank ⟨[], ?_, by simp⟩
    rw [lexemes, Lexeme.ofText_eq_ok_iff, String.toList_empty, stripComments_line List.not_mem_nil]
    exact .nil 1
  rw [subroutines_eq_bind, subroutines_eq_bind, lexemes_joined split more]
  cases lexed : lexemes second with
  | error error => rfl
  | ok found =>
    apply Subroutine.ofLexemes_following accepted
    by_contra blank
    exact notBlank ⟨found, lexed, by simpa using blank⟩

end Joined

/-- Source texts can be put one after the other, a line feed between them. If the
first is accepted, the subroutines of the second follow those of the first; a second
text without any token but line breaks adds none; and any other second text has an
error, which is the error of the whole, down by the lines before the second text. -/
theorem subroutines_joined {first : String} {definitions : List Subroutine}
    (accepted : Source.subroutines first = .ok definitions) (second : String) :
    (∀ more, Source.subroutines second = .ok more →
      Source.subroutines (first ++ "\n" ++ second) = .ok (definitions ++ more)) ∧
    (IsBlank second → Source.subroutines (first ++ "\n" ++ second) = .ok definitions) ∧
    ((∀ more, Source.subroutines second ≠ .ok more) → ¬ IsBlank second →
      ∃ error, Source.subroutines second = .error error ∧
        Source.subroutines (first ++ "\n" ++ second) =
          .error (error.movedDown (1 + first.toList.count '\n'))) := by
  obtain ⟨earlier, split, acceptedFeed⟩ := exists_split_of_accepted accepted
  refine ⟨?_, ?_, ?_⟩
  · intro more acceptedMore
    have notBlank := not_isBlank_of_accepted acceptedMore
    rw [subroutines_joined_of_not_isBlank split acceptedFeed notBlank, acceptedMore]
    rfl
  · intro blank
    exact subroutines_joined_of_isBlank split acceptedFeed blank
  · intro rejected notBlank
    cases found : Source.subroutines second with
    | ok more => exact absurd found (rejected more)
    | error error =>
      refine ⟨error, rfl, ?_⟩
      rw [subroutines_joined_of_not_isBlank split acceptedFeed notBlank, found]
      rfl

/-- A subroutine that does nothing, and a comment. -/
def emptyMain : String :=
  "main do\nend # nothing"

/-- Behind it a comment adds nothing, and the second line of a text that cannot be
read is the fourth of the whole. -/
theorem emptyMain_joined :
    Source.subroutines emptyMain = .ok [⟨"main", []⟩] ∧
    Source.subroutines (emptyMain ++ "\n" ++ "# nothing") = .ok [⟨"main", []⟩] ∧
    Source.subroutines (emptyMain ++ "\n" ++ "helper do\n$\nend") =
      .error (.invalidCharacter 4 '$') := by
  have lexed : lexemes emptyMain = .ok [⟨.identifier "main", 1⟩, ⟨.keyword .doWord, 1⟩,
      ⟨.lineBreak, 1⟩, ⟨.keyword .endWord, 2⟩] := by decide +kernel
  have accepted : Source.subroutines emptyMain = .ok [⟨"main", []⟩] := by
    rw [subroutines_eq_bind, lexed]
    rfl
  have blank : IsBlank "# nothing" := ⟨[], by decide +kernel, by simp⟩
  have failed : lexemes "helper do\n$\nend" = .error (.invalidCharacter 2 '$') := by
    decide +kernel
  have rejected : Source.subroutines "helper do\n$\nend" = .error (.invalidCharacter 2 '$') := by
    rw [subroutines_eq_bind, failed]
    rfl
  obtain ⟨-, joinedBlank, joinedError⟩ := subroutines_joined accepted "# nothing"
  obtain ⟨error, same, joined⟩ := (subroutines_joined accepted "helper do\n$\nend").2.2
    (by simp [rejected]) (by simp [IsBlank, failed])
  rw [rejected] at same
  cases same
  exact ⟨accepted, joinedBlank blank, joined⟩

end StackScript.Source
