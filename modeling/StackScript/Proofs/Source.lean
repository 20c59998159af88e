import StackScript.Proofs.Text
import StackScript.Source

/-!
# Lines of a source text

A text without its comments holds no `#`. Every text without one, and without a
line feed at its end, is what is left of some source text: a carriage return goes
before each line feed, so that no other carriage return is taken for a part of
the line's end.
-/

namespace StackScript.Source

/-! ## Lines -/

/-- What no line feed ends is one line. -/
theorem lines_of_not_mem {line : List Char} (oneLine : '\n' ∉ line) (notEmpty : line ≠ []) :
    lines line = [line] := by
  have taken : line.takeWhile (· != '\n') = line :=
    List.takeWhile_eq_self_iff.mpr (bne_of_not_mem oneLine)
  have dropped : line.dropWhile (· != '\n') = [] :=
    List.dropWhile_eq_nil_iff.mpr (bne_of_not_mem oneLine)
  obtain ⟨c, rest, rfl⟩ := List.exists_cons_of_ne_nil notEmpty
  rw [lines]
  split
  · rw [taken]
  · rename_i feed after behind
    rw [dropped] at behind
    cases behind

/-- A line feed ends a line. -/
theorem lines_append_feed {line : List Char} (oneLine : '\n' ∉ line) (after : List Char) :
    lines (line ++ '\n' :: after) = dropReturn line :: lines after := by
  have ends : ∀ c ∈ ('\n' :: after).head?, (c != '\n') = false := by simp
  have split := takeWhile_append_of_ends (bne_of_not_mem oneLine) ends
  generalize whole : line ++ '\n' :: after = text at split
  cases text with
  | nil => simp at whole
  | cons c rest =>
    rw [lines]
    split
    · rename_i behind
      rw [split.2] at behind
      cases behind
    · rename_i feed following behind
      rw [split.2] at behind
      cases behind
      rw [split.1]

theorem dropReturn_append_return (line : List Char) : dropReturn (line ++ ['\r']) = line := by
  simp [dropReturn]

theorem lines_ne_nil {text : List Char} (notEmpty : text ≠ []) : lines text ≠ [] := by
  obtain ⟨c, rest, rfl⟩ := List.exists_cons_of_ne_nil notEmpty
  rw [lines]
  split <;> exact List.cons_ne_nil _ _

/-- What holds of texts of one line, and of a text as soon as it holds of what
follows its first line feed, holds of every text. -/
@[elab_as_elim]
theorem induction_on_lines {holds : List Char → Prop}
    (last : ∀ line, '\n' ∉ line → holds line)
    (feed : ∀ line after, '\n' ∉ line → holds after → holds (line ++ '\n' :: after))
    (text : List Char) : holds text := by
  suffices further : ∀ line, '\n' ∉ line → holds (line ++ text) from further [] List.not_mem_nil
  induction text with
  | nil =>
    intro line oneLine
    rw [List.append_nil]
    exact last line oneLine
  | cons c rest ih =>
    intro line oneLine
    by_cases isFeed : c = '\n'
    · subst isFeed
      exact feed line rest oneLine (ih [] List.not_mem_nil)
    · rw [List.append_cons]
      apply ih
      simp [oneLine, Ne.symm isFeed]

/-! ## Comments -/

theorem not_mem_cutComment (line : List Char) : '#' ∉ cutComment line :=
  not_mem_of_test (fun _ => List.mem_takeWhile_imp) rfl

theorem cutComment_of_not_mem {line : List Char} (noComment : '#' ∉ line) :
    cutComment line = line := by
  rw [cutComment, List.takeWhile_eq_self_iff]
  exact bne_of_not_mem noComment

/-- A text of one line. -/
theorem stripComments_line {line : List Char} (oneLine : '\n' ∉ line) :
    stripComments line = cutComment line := by
  by_cases notEmpty : line = []
  · subst notEmpty
    simp [stripComments, lines, cutComment]
  · rw [stripComments, lines_of_not_mem oneLine notEmpty, List.map_singleton,
      List.intercalate_singleton]

/-- A line feed at the end is dropped with a carriage return before it. -/
theorem stripComments_line_feed {line : List Char} (oneLine : '\n' ∉ line) :
    stripComments (line ++ ['\n']) = cutComment (dropReturn line) := by
  rw [stripComments, lines_append_feed oneLine, lines, List.map_singleton,
    List.intercalate_singleton]

/-- A line feed that something follows stays. -/
theorem stripComments_append_feed {line after : List Char} (oneLine : '\n' ∉ line)
    (more : after ≠ []) :
    stripComments (line ++ '\n' :: after) =
      cutComment (dropReturn line) ++ '\n' :: stripComments after := by
  rw [stripComments, lines_append_feed oneLine, List.map_cons]
  obtain ⟨next, others, following⟩ := List.exists_cons_of_ne_nil (lines_ne_nil more)
  rw [stripComments, following, List.map_cons, List.intercalate_cons_cons]
  simp

/-- No `#` is left. -/
theorem not_mem_stripComments (text : List Char) : '#' ∉ stripComments text := by
  induction text using induction_on_lines with
  | last line oneLine =>
    rw [stripComments_line oneLine]
    exact not_mem_cutComment line
  | feed line after oneLine ih =>
    by_cases atEnd : after = []
    · rw [atEnd, stripComments_line_feed oneLine]
      exact not_mem_cutComment _
    · rw [stripComments_append_feed oneLine atEnd]
      simp [not_mem_cutComment, ih]

/-! ## Texts that are left -/

/-- A carriage return before every line feed. -/
def withReturns (text : List Char) : List Char :=
  text.flatMap fun c => if c = '\n' then ['\r', '\n'] else [c]

theorem withReturns_of_not_mem {line : List Char} (oneLine : '\n' ∉ line) :
    withReturns line = line := by
  induction line with
  | nil => rfl
  | cons c rest ih =>
    obtain ⟨notFeed, inRest⟩ := not_or.mp (mt List.mem_cons.mpr oneLine)
    have same : withReturns rest = rest := ih inRest
    rw [withReturns, List.flatMap_cons, if_neg (Ne.symm notFeed)]
    exact congrArg (c :: ·) same

theorem withReturns_append_feed {line : List Char} (oneLine : '\n' ∉ line) (after : List Char) :
    withReturns (line ++ '\n' :: after) = (line ++ ['\r']) ++ '\n' :: withReturns after := by
  have same := withReturns_of_not_mem oneLine
  rw [withReturns] at same ⊢
  simp [same, withReturns]

theorem withReturns_ne_nil {text : List Char} (notEmpty : text ≠ []) : withReturns text ≠ [] := by
  obtain ⟨c, rest, rfl⟩ := List.exists_cons_of_ne_nil notEmpty
  rw [withReturns, List.flatMap_cons]
  split <;> simp

/-- A text without `#` and without a line feed at its end is what is left of the
text that has a carriage return before every line feed. -/
theorem stripComments_withReturns {text : List Char} (noComment : '#' ∉ text)
    (noEnd : text.getLast? ≠ some '\n') : stripComments (withReturns text) = text := by
  induction text using induction_on_lines with
  | last line oneLine =>
    rw [withReturns_of_not_mem oneLine, stripComments_line oneLine,
      cutComment_of_not_mem noComment]
  | feed line after oneLine ih =>
    obtain ⟨noCommentLine, noCommentAfter⟩ : '#' ∉ line ∧ '#' ∉ after := by simpa using noComment
    have more : after ≠ [] := by
      rintro rfl
      simp at noEnd
    have noEndAfter : after.getLast? ≠ some '\n' := by
      intro atEnd
      exact noEnd (by simp [List.getLast?_cons, atEnd])
    have noFeedLine : '\n' ∉ line ++ ['\r'] := by simp [oneLine]
    rw [withReturns_append_feed oneLine, stripComments_append_feed noFeedLine
      (withReturns_ne_nil more), dropReturn_append_return, cutComment_of_not_mem noCommentLine,
      ih noCommentAfter noEndAfter]

end StackScript.Source
