import Mathlib.Logic.Relation
import StackScript.Proofs.Grammar.LineBreaks
import StackScript.Proofs.Lexis.Covering
import StackScript.Proofs.Source.Joined
import StackScript.Proofs.Source.Places

/-!
# Edits that change nothing

A comment behind a line and a carriage return before a line feed are gone with the comments,
so that nothing can tell whether they were there. A line without tokens is told by the lines
in the errors below it, but not by what is accepted, as long as it is not put into a quoted
text.
-/

namespace StackScript.Source

/-! ## Edits -/

/-- A line with this content may end like this, and these lines may follow it. What follows
the last line feed of a text is a line only if it is not empty. -/
inductive EndsLine (content : List Char) : (ending after : List Char) → Prop where
  | feed (after : List Char) (noReturn : content.getLast? ≠ some '\r') :
    EndsLine content ['\n'] after
  | returnFeed (after : List Char) : EndsLine content ['\r', '\n'] after
  | textEnd (notEmpty : content ≠ []) : EndsLine content [] []

/-- One line of a text, with the lines before and after it. -/
structure IsLine (before content ending after : List Char) : Prop where
  begins : before = [] ∨ before.getLast? = some '\n'
  oneLine : '\n' ∉ content
  ends : EndsLine content ending after

/-- An edit inside one line: a comment behind its content, wherever that stands, or a
carriage return before a line feed that has none. -/
inductive LineEdit : List Char → List Char → Prop where
  | comment {before content ending after comment : List Char}
      (line : IsLine before content ending after) (oneLine : '\n' ∉ comment) :
    LineEdit (before ++ (content ++ (ending ++ after)))
      (before ++ (content ++ '#' :: comment ++ (ending ++ after)))
  | carriageReturn {before after : List Char} (noReturn : before.getLast? ≠ some '\r') :
    LineEdit (before ++ '\n' :: after) (before ++ '\r' :: '\n' :: after)

/-- The line feed between two parts of a text belongs to no quoted text, and the whole can
be cut into tokens. -/
def OutsideQuotes (before after : List Char) : Prop :=
  ∃ division : Division, division.text = stripComments (before ++ '\n' :: after) ∧
    division.Fits [] ∧
    ∀ s, ¬ division.Covers (remaining [] before ('\n' :: after)) '\n' (.text s)

/-- A line without tokens: blanks at most, and perhaps a comment. -/
structure IsVoid (line : List Char) : Prop where
  oneLine : '\n' ∉ line
  areBlanks : AreBlanks (cutComment line)

/-- An edit inside one line, or a line without tokens behind a line feed. -/
inductive Edit : List Char → List Char → Prop where
  | inLine {text edited : List Char} (edit : LineEdit text edited) : Edit text edited
  | insertLine {before line after : List Char} (outside : OutsideQuotes before after)
      (isVoid : IsVoid line) :
    Edit (before ++ '\n' :: after) (before ++ '\n' :: (line ++ '\n' :: after))
  | appendLine {before line : List Char} (outside : OutsideQuotes before [])
      (isVoid : IsVoid line) : Edit (before ++ ['\n']) (before ++ '\n' :: line)

/-! ## Edits inside lines -/

/-- A comment hides itself. -/
theorem cutComment_append_comment (content comment : List Char) :
    cutComment (content ++ '#' :: comment) = cutComment content := by
  induction content with
  | nil => rfl
  | cons c rest ih =>
    simp only [cutComment, List.cons_append, List.takeWhile_cons] at ih ⊢
    rw [ih]

/-- A carriage return behind a comment is gone in any case. -/
theorem cutComment_dropReturn_comment (content comment : List Char) :
    cutComment (dropReturn (content ++ '#' :: comment)) = cutComment content := by
  by_cases ends : (content ++ '#' :: comment).getLast? = some '\r'
  · rcases List.eq_nil_or_concat' comment with rfl | ⟨inner, c, rfl⟩
    · simp at ends
    · rw [← List.cons_append, ← List.append_assoc] at ends ⊢
      rw [List.getLast?_concat] at ends
      cases ends
      rw [dropReturn_append_return, cutComment_append_comment]
  · rw [dropReturn, if_neg ends, cutComment_append_comment]

/-- Lines that are cut alike are alike above any other lines. -/
theorem stripComments_feed_congr {line other : List Char} (oneLine : '\n' ∉ line)
    (oneLineToo : '\n' ∉ other)
    (same : cutComment (dropReturn line) = cutComment (dropReturn other)) (after : List Char) :
    stripComments (line ++ '\n' :: after) = stripComments (other ++ '\n' :: after) := by
  by_cases atEnd : after = []
  · rw [atEnd, stripComments_line_feed oneLine, stripComments_line_feed oneLineToo, same]
  · rw [stripComments_append_feed oneLine atEnd, stripComments_append_feed oneLineToo atEnd, same]

/-- Lines that are cut alike are alike below any other lines. -/
theorem stripComments_below_congr {before text other : List Char}
    (begins : before = [] ∨ before.getLast? = some '\n') (notEmpty : text ≠ [])
    (notEmptyToo : other ≠ []) (same : stripComments text = stripComments other) :
    stripComments (before ++ text) = stripComments (before ++ other) := by
  rcases begins with rfl | ends
  · exact same
  · obtain ⟨above, rfl⟩ := List.getLast?_eq_some_iff.mp ends
    rw [List.append_assoc, List.append_assoc, List.singleton_append, List.singleton_append,
      stripComments_joined above notEmpty, stripComments_joined above notEmptyToo, same]

/-- A comment behind the content of a line is cut. -/
theorem stripComments_comment {before content ending after comment : List Char}
    (line : IsLine before content ending after) (oneLine : '\n' ∉ comment) :
    stripComments (before ++ (content ++ '#' :: comment ++ (ending ++ after))) =
      stripComments (before ++ (content ++ (ending ++ after))) := by
  obtain ⟨begins, oneLineContent, ends⟩ := line
  have oneLineBoth : '\n' ∉ content ++ '#' :: comment := by simp [oneLineContent, oneLine]
  cases ends with
  | feed after noReturn =>
    refine stripComments_below_congr begins (by simp) (by simp) ?_
    refine stripComments_feed_congr oneLineBoth oneLineContent ?_ after
    rw [cutComment_dropReturn_comment, dropReturn, if_neg noReturn]
  | returnFeed after =>
    refine stripComments_below_congr begins (by simp) (by simp) ?_
    have endsAlike : cutComment (dropReturn (content ++ '#' :: comment ++ ['\r'])) =
        cutComment (dropReturn (content ++ ['\r'])) := by
      rw [dropReturn_append_return, dropReturn_append_return, cutComment_append_comment]
    have above := stripComments_feed_congr (by simpa using oneLineBoth)
      (by simpa using oneLineContent) endsAlike after
    simpa using above
  | textEnd notEmpty =>
    refine stripComments_below_congr begins (by simp) (by simpa using notEmpty) ?_
    simp only [List.append_nil]
    rw [stripComments_line oneLineBoth, stripComments_line oneLineContent,
      cutComment_append_comment]

/-- A carriage return before a line feed is dropped. -/
theorem stripComments_carriageReturn {before : List Char}
    (noReturn : before.getLast? ≠ some '\r') (after : List Char) :
    stripComments (before ++ '\r' :: '\n' :: after) = stripComments (before ++ '\n' :: after) := by
  induction before using induction_on_lines with
  | last line oneLine =>
    have oneLineReturn : '\n' ∉ line ++ ['\r'] := by simpa using oneLine
    have same : cutComment (dropReturn (line ++ ['\r'])) = cutComment (dropReturn line) := by
      rw [dropReturn_append_return, dropReturn, if_neg noReturn]
    have above := stripComments_feed_congr oneLineReturn oneLine same after
    rwa [List.append_assoc] at above
  | feed line below oneLine ih =>
    have noReturnBelow : below.getLast? ≠ some '\r' := by
      intro isReturn
      apply noReturn
      rw [List.getLast?_append, List.getLast?_cons, isReturn]
      rfl
    rw [List.append_assoc, List.append_assoc, List.cons_append, List.cons_append,
      stripComments_append_feed oneLine (by simp), stripComments_append_feed oneLine (by simp),
      ih noReturnBelow]

/-- Edits inside lines are gone with the comments. -/
theorem LineEdit.stripComments_eq {text edited : List Char} (edit : LineEdit text edited) :
    stripComments edited = stripComments text := by
  cases edit with
  | comment line oneLine => exact stripComments_comment line oneLine
  | carriageReturn noReturn => exact stripComments_carriageReturn noReturn _

/-! ## Lines without tokens -/

/-- What stays before a line feed does not depend on what follows it. -/
theorem remaining_feed (before text after : List Char) :
    remaining before text ('\n' :: after) = remaining before text ['\n'] := by
  induction text generalizing before with
  | nil => rfl
  | cons c rest ih =>
    have sameStays : Stays before c (rest ++ '\n' :: after) ↔ Stays before c (rest ++ ['\n']) := by
      have sameHead : (rest ++ '\n' :: after).head? = (rest ++ ['\n']).head? := by
        cases rest <;> rfl
      constructor <;> rintro ⟨notInComment, -, notReturn⟩ <;>
        exact ⟨notInComment, by simp, by simpa only [sameHead] using notReturn⟩
    simp only [remaining, sameStays, ih]

/-- What stays before a line feed is what stays of a text that it ends. -/
theorem remaining_eq_stripComments (before after : List Char) :
    remaining [] before ('\n' :: after) = stripComments (before ++ ['\n']) := by
  have goes : ¬ Stays ([] ++ before) '\n' ([] ++ []) := fun stays => stays.notAtEnd rfl rfl
  rw [stripComments_eq_remaining, remaining_append, List.append_nil, remaining_of_not_stays goes,
    remaining_feed]
  simp [remaining]

/-- A line feed is outside of quotes exactly if the text can be read with and without what
stands behind it. -/
theorem outsideQuotes_iff {before after : List Char} :
    OutsideQuotes before after ↔
      (∃ found, Lexeme.ofText (stripComments (before ++ '\n' :: after)) = .ok found) ∧
        ∃ earlier, Lexeme.ofText (remaining [] before ('\n' :: after)) = .ok earlier := by
  constructor
  · rintro ⟨division, isText, fits, outside⟩
    refine ⟨⟨division.lexemes, by rw [← isText, Lexeme.ofText_text fits]⟩, ?_⟩
    rw [remaining_eq_stripComments] at outside ⊢
    by_cases atEnd : after = []
    · rw [atEnd] at isText
      exact ⟨division.lexemes, by rw [← isText, Lexeme.ofText_text fits]⟩
    · rw [stripComments_joined before atEnd] at isText
      exact (fits.outside_iff isText).mp outside
  · rintro ⟨⟨found, success⟩, earlier⟩
    obtain ⟨division, isText, fits, -⟩ := Lexeme.exists_division_of_ofText_eq_ok success
    refine ⟨division, isText, fits, ?_⟩
    intro s covers
    obtain ⟨rest, isCut⟩ := covers.exists_rest
    exact (fits.outside_iff isCut).mpr earlier s covers

/-- What stands before a line feed outside of quotes has lexemes of its own. -/
theorem OutsideQuotes.exists_split {before after : List Char}
    (outside : OutsideQuotes before after) :
    ∃ lexemes, Lexeme.Split 1 (stripComments (before ++ ['\n'])) lexemes := by
  obtain ⟨-, earlier, success⟩ := outsideQuotes_iff.mp outside
  rw [remaining_eq_stripComments] at success
  exact ⟨earlier, Lexeme.ofText_eq_ok_iff.mp success⟩

/-- A void line leaves blanks alone, with or without its carriage return. -/
theorem IsVoid.areBlanks_dropReturn {line : List Char} (isVoid : IsVoid line) :
    AreBlanks (cutComment (dropReturn line)) := by
  have areBlanks := isVoid.areBlanks
  rcases cutComment_dropReturn line with same | dropped
  · rwa [same] at areBlanks
  · rw [dropped] at areBlanks
    intro c mem
    exact areBlanks c (List.mem_append_left _ mem)

section Insertion

variable {cut blanks : List Char} {earlier : List Lexeme} {definitions : List Subroutine}
  (split : Lexeme.Split 1 cut earlier) (areBlanks : AreBlanks blanks)

include split areBlanks

/-- A line of blanks between two lines adds a line break behind another. -/
theorem accepts_insertLine_iff (rest : List Char) :
    (Lexeme.ofText (cut ++ '\n' :: (blanks ++ '\n' :: rest))).bind Subroutine.ofLexemes =
        .ok definitions ↔
      (Lexeme.ofText (cut ++ '\n' :: rest)).bind Subroutine.ofLexemes = .ok definitions := by
  have splitBlanks := Lexeme.split_blanks areBlanks 1
  rw [split.ofText_append_feed, split.ofText_append_feed, splitBlanks.ofText_append_feed]
  cases Lexeme.ofText rest with
  | error error => exact ⟨nofun, nofun⟩
  | ok found =>
    change Subroutine.ofLexemes _ = _ ↔ Subroutine.ofLexemes _ = _
    refine Iff.trans (Subroutine.ofLexemes_eq_ok_congr ?_) (Subroutine.ofLexemes_lineBreak_again 0)
    simp [Lexeme.movedDown]

/-- A line of blanks at the end adds a line break at most. -/
theorem accepts_appendLine_iff :
    (Lexeme.ofText (cut ++ '\n' :: blanks)).bind Subroutine.ofLexemes = .ok definitions ↔
      (Lexeme.ofText cut).bind Subroutine.ofLexemes = .ok definitions := by
  have splitBlanks := Lexeme.split_blanks areBlanks 1
  rw [split.ofText_append_feed, Lexeme.ofText_eq_ok_iff.mpr splitBlanks,
    Lexeme.ofText_eq_ok_iff.mpr split]
  exact Subroutine.ofLexemes_lineBreak_last

end Insertion

/-! ## Any number of edits -/

theorem subroutines_ofList (text : List Char) :
    Source.subroutines (String.ofList text) =
      (Lexeme.ofText (stripComments text)).bind Subroutine.ofLexemes := by
  rw [subroutines_eq_bind, lexemes, String.toList_ofList]

/-- One edit changes nothing in what is accepted. -/
theorem Edit.subroutines_eq_ok_iff {text edited : List Char} (edit : Edit text edited)
    (definitions : List Subroutine) :
    Source.subroutines (String.ofList text) = .ok definitions ↔
      Source.subroutines (String.ofList edited) = .ok definitions := by
  rw [subroutines_ofList, subroutines_ofList]
  cases edit with
  | inLine edit => rw [edit.stripComments_eq]
  | @insertLine before line after outside isVoid =>
    obtain ⟨earlier, split⟩ := outside.exists_split
    have moreBehind : line ++ '\n' :: after ≠ [] := by simp
    rw [stripComments_joined before moreBehind]
    -- behind the last line feed of the text the new line is the last one
    by_cases atEnd : after = []
    · rw [atEnd, stripComments_line_feed isVoid.oneLine]
      exact (accepts_appendLine_iff split isVoid.areBlanks_dropReturn).symm
    · rw [stripComments_joined before atEnd, stripComments_append_feed isVoid.oneLine atEnd]
      exact (accepts_insertLine_iff split isVoid.areBlanks_dropReturn _).symm
  | @appendLine before line outside isVoid =>
    obtain ⟨earlier, split⟩ := outside.exists_split
    by_cases atEnd : line = []
    · rw [atEnd]
    · rw [stripComments_joined before atEnd, stripComments_line isVoid.oneLine]
      exact (accepts_appendLine_iff split isVoid.areBlanks).symm

/-- Comments, carriage returns before line feeds, and lines without tokens outside of quoted
texts, any number of them, change nothing in what is accepted; and comments and carriage
returns change no error either. -/
theorem subroutines_edited (text edited : String) :
    (Relation.ReflTransGen Edit text.toList edited.toList → ∀ definitions,
      Source.subroutines text = .ok definitions ↔ Source.subroutines edited = .ok definitions) ∧
    (Relation.ReflTransGen LineEdit text.toList edited.toList →
      Source.subroutines edited = Source.subroutines text) := by
  rw [← String.ofList_toList (s := text), ← String.ofList_toList (s := edited)]
  generalize text.toList = first, edited.toList = last
  rw [String.toList_ofList, String.toList_ofList]
  constructor
  · intro edits definitions
    induction edits with
    | refl => rfl
    | tail edits edit ih => exact ih.trans (edit.subroutines_eq_ok_iff definitions)
  · intro edits
    induction edits with
    | refl => rfl
    | tail edits edit ih => rw [← ih, subroutines_ofList, subroutines_ofList, edit.stripComments_eq]

/-- A text that prints another one of two lines. -/
def printer : String :=
  "main do\nprint \"a\nb\"\nend"

/-- The same with a comment inside the quotes, and a carriage return before the second line. -/
def commentedPrinter : String :=
  "main do\r\nprint \"a#?\nb\"\nend"

/-- The same with a line that has nothing but a comment. -/
def spacedPrinter : String :=
  "main do\r\nprint \"a#?\nb\"\n #!\nend"

/-- The lexemes of its lines above the last one. -/
def printerLexemes : List Lexeme :=
  [⟨.identifier "main", 1⟩, ⟨.keyword .doWord, 1⟩, ⟨.lineBreak, 1⟩, ⟨.keyword .print, 2⟩,
    ⟨.text "a\nb", 2⟩]

/-- All three print the text without the comment. -/
theorem printer_edited :
    Source.subroutines printer = .ok [⟨"main", [.print (.text "a\nb")]⟩] ∧
    Source.subroutines commentedPrinter = Source.subroutines printer ∧
    Source.subroutines spacedPrinter = .ok [⟨"main", [.print (.text "a\nb")]⟩] := by
  have lexed : lexemes printer =
      .ok (printerLexemes ++ [⟨.lineBreak, 3⟩, ⟨.keyword .endWord, 4⟩]) := by decide +kernel
  have accepted : Source.subroutines printer = .ok [⟨"main", [.print (.text "a\nb")]⟩] := by
    rw [subroutines_eq_bind, lexed]
    rfl
  have isLine : IsLine "main do\n".toList "print \"a".toList ['\n'] "b\"\nend".toList :=
    ⟨by decide +kernel, by decide +kernel, .feed _ (by decide +kernel)⟩
  have comment : LineEdit printer.toList "main do\nprint \"a#?\nb\"\nend".toList :=
    @LineEdit.comment _ _ _ _ ['?'] isLine (by decide)
  have carriageReturn : LineEdit "main do\nprint \"a#?\nb\"\nend".toList commentedPrinter.toList :=
    @LineEdit.carriageReturn "main do".toList _ (by decide +kernel)
  have outside : OutsideQuotes "main do\r\nprint \"a#?\nb\"".toList "end".toList :=
    outsideQuotes_iff.mpr
      ⟨⟨printerLexemes ++ [⟨.lineBreak, 3⟩, ⟨.keyword .endWord, 4⟩], by decide +kernel⟩,
        ⟨printerLexemes, by decide +kernel⟩⟩
  have isVoid : IsVoid [' ', '#', '!'] := ⟨by decide, by simp [cutComment, AreBlanks, Text.isBlank]⟩
  have insertLine : Edit commentedPrinter.toList spacedPrinter.toList :=
    .insertLine outside isVoid
  have lineEdits := (Relation.ReflTransGen.single comment).tail carriageReturn
  have edits := (lineEdits.lift id fun _ _ => Edit.inLine).tail insertLine
  exact ⟨accepted, (subroutines_edited _ _).2 lineEdits,
    ((subroutines_edited _ _).1 edits _).mp accepted⟩

end StackScript.Source
