import StackScript.Proofs.Grammar.Recognition
import StackScript.Proofs.Grammar.Tree
import StackScript.Proofs.Lexis.Spelling
import StackScript.Proofs.Source

/-!
# The trees of source texts

The trees that texts spell are the well-formed ones: every text that is accepted
gives well-formed subroutines, and every list of well-formed subroutines without
float literals is given by some text.
-/

namespace StackScript

/-- The tokens of a text without `#` are well-formed. -/
theorem Lexeme.Split.wellFormed {line : Nat} {text : List Char} {lexemes : List Lexeme}
    (split : Split line text lexemes) (noComment : '#' ∉ text) :
    (lexemes.map Lexeme.token).Forall Token.WellFormed := by
  induction split with
  | nil line => trivial
  | blank notFeed isBlank rest ih =>
    apply ih
    intro mem
    exact noComment (List.mem_cons_of_mem _ mem)
  | token spelled ends rest ih =>
    obtain ⟨noCommentFirst, noCommentAfter⟩ := not_or.mp (mt List.mem_append.mpr noComment)
    exact (List.forall_cons ..).mpr ⟨spelled.wellFormed noCommentFirst, ih noCommentAfter⟩

namespace Source

open Grammar

/-- A text is accepted if what is left of it without its comments splits into
lexemes that spell a program and nest within the limit. -/
theorem subroutines_eq_ok_iff {text : String} {subroutines : List Subroutine} :
    Source.subroutines text = .ok subroutines ↔
      ∃ lexemes, Lexeme.Split 1 (stripComments text.toList) lexemes ∧
        Spells (lexemes.map Lexeme.token) (.program subroutines) ∧
        NestsWithin maxNesting (lexemes.map Lexeme.token) := by
  have parses (lexemes : List Lexeme) : Subroutine.ofLexemes lexemes = .ok subroutines ↔
      Spells (lexemes.map Lexeme.token) (.program subroutines) ∧
        NestsWithin maxNesting (lexemes.map Lexeme.token) := by
    simp only [Subroutine.ofLexemes_eq_ok_iff, foldlM_advance_initial_eq_ok_iff,
      spells_program_iff, exists_and_right, and_right_comm]
  simp only [← Lexeme.ofText_eq_ok_iff, ← parses, Source.subroutines, lexemes]
  cases Lexeme.ofText (stripComments text.toList) with
  | error error => simp [bind, Except.bind]
  | ok found => simp [bind, Except.bind]

/-- The tokens of a program nest within the limit if each of its subroutines does. -/
theorem nestsWithin_iff {tokens : List Token} {subroutines : List Subroutine}
    (spells : Spells tokens (.program subroutines)) :
    NestsWithin maxNesting tokens ↔
      ∀ subroutine ∈ subroutines, subroutine.body.nesting ≤ maxNesting := by
  rw [(nests_of_spells spells).within_iff]
  exact Subroutine.nestingOfAll_le_iff

/-- Every text that is accepted gives subroutines, and these are well-formed. -/
theorem wellFormed_of_subroutines {text : String} {subroutines : List Subroutine}
    (accepted : Source.subroutines text = .ok subroutines) :
    subroutines ≠ [] ∧ ∀ subroutine ∈ subroutines, subroutine.WellFormed := by
  obtain ⟨lexemes, split, spells, nests⟩ := subroutines_eq_ok_iff.mp accepted
  have consists : Phrase.ConsistsOf Token.WellFormed (.program subroutines) :=
    (forall_iff_consistsOf trivial (fun _ => trivial) spells).mp
      (split.wellFormed (not_mem_stripComments text.toList))
  constructor
  · exact ne_nil_of_spells_program spells
  · intro subroutine mem
    constructor
    · exact consists subroutine mem
    · exact (nestsWithin_iff spells).mp nests subroutine mem

/-- Tokens that can be written without `#` are the tokens of some source text. -/
theorem exists_split_stripComments {tokens : List Token}
    (spelled : ∀ token ∈ tokens, ∃ spelling, token.SpelledBy spelling ∧ '#' ∉ spelling) :
    ∃ (text : String) (lexemes : List Lexeme),
      Lexeme.Split 1 (stripComments text.toList) lexemes ∧
        lexemes.map Lexeme.token = tokens := by
  obtain ⟨text, noComment, noEnd, splits⟩ := Lexeme.exists_split spelled
  obtain ⟨lexemes, split, same⟩ := splits 1
  refine ⟨String.ofList (withReturns text), lexemes, ?_, same⟩
  rwa [String.toList_ofList, stripComments_withReturns noComment noEnd]

/-- Well-formed subroutines without float literals are given by some text. -/
theorem exists_text_of_wellFormed {subroutines : List Subroutine} (nonempty : subroutines ≠ [])
    (wellFormed : ∀ subroutine ∈ subroutines, subroutine.WellFormed)
    (floatFree : ∀ subroutine ∈ subroutines, subroutine.FloatFree) :
    ∃ text, Source.subroutines text = .ok subroutines := by
  have branched : ∀ subroutine ∈ subroutines, subroutine.body.Throughout Instruction.HasBranch := by
    intro subroutine mem instruction within
    exact ((wellFormed subroutine mem).consists.2 instruction within).1
  obtain ⟨tokens, spells⟩ := exists_spells_program nonempty branched
  -- a spelling is known for every well-formed token but a float
  let writable (token : Token) : Prop := token.WellFormed ∧ ∀ x, token ≠ .float x
  have consists : Phrase.ConsistsOf writable (.program subroutines) := by
    intro subroutine mem
    obtain ⟨isName, body⟩ := (wellFormed subroutine mem).consists
    constructor
    · exact ⟨isName, nofun⟩
    · intro instruction within
      obtain ⟨hasBranch, leaves⟩ := body instruction within
      refine ⟨hasBranch, fun leaf isLeaf => ⟨leaves leaf isLeaf, ?_⟩⟩
      rintro x rfl
      exact floatFree subroutine mem instruction within x isLeaf
  have allWritable : tokens.Forall writable :=
    (forall_iff_consistsOf ⟨trivial, nofun⟩ (fun _ => ⟨trivial, nofun⟩) spells).mpr consists
  have spelled : ∀ token ∈ tokens, ∃ spelling, token.SpelledBy spelling ∧ '#' ∉ spelling := by
    intro token mem
    obtain ⟨isWellFormed, notFloat⟩ := List.forall_iff_forall_mem.mp allWritable token mem
    exact Token.exists_spelledBy isWellFormed notFloat
  obtain ⟨text, lexemes, split, rfl⟩ := exists_split_stripComments spelled
  have nests : NestsWithin maxNesting (lexemes.map Lexeme.token) :=
    (nestsWithin_iff spells).mpr fun subroutine mem => (wellFormed subroutine mem).nesting
  exact ⟨text, subroutines_eq_ok_iff.mpr ⟨lexemes, split, spells, nests⟩⟩

/-- The trees that source texts spell are the well-formed ones. Whatever text is
accepted gives at least one subroutine, and well-formed ones only; and every list of
well-formed subroutines that is not empty and has no float literal is given by some
text. -/
theorem trees_of_texts :
    (∀ text subroutines, Source.subroutines text = .ok subroutines →
      subroutines ≠ [] ∧ ∀ subroutine ∈ subroutines, subroutine.WellFormed) ∧
    (∀ subroutines : List Subroutine, subroutines ≠ [] →
      (∀ subroutine ∈ subroutines, subroutine.WellFormed) →
      (∀ subroutine ∈ subroutines, subroutine.FloatFree) →
      ∃ text, Source.subroutines text = .ok subroutines) := by
  constructor
  · intro text subroutines
    exact wellFormed_of_subroutines
  · intro subroutines
    exact exists_text_of_wellFormed

/-- Subroutines with a text of two lines, the least integer, and a conditional of two
branches in a loop. -/
def twoLinePrinter : List Subroutine :=
  [⟨"print_lines",
    [.loop (.identifier "lines") [.conditional
      [⟨.identifier "lines", [.print (.text "a\r\nb\\\"")]⟩, ⟨.integer Int64.minValue, []⟩]
      (some [.pop "lines", .invoke "main"])]]⟩,
  ⟨"main", []⟩]

/-- Some text gives them, and so they are well-formed. -/
theorem exists_text_of_twoLinePrinter :
    ∃ text, Source.subroutines text = .ok twoLinePrinter ∧
      ∀ subroutine ∈ twoLinePrinter, subroutine.WellFormed := by
  have names : IsName "print_lines" ∧ IsName "lines" ∧ IsName "main" := by decide +kernel
  have quotable : Quotable ['a', '\r', '\n', 'b', '\\', '"'] := by
    repeat apply Quotable.plain (by decide) (by decide)
    exact .escape (by decide) .nil
  have wellFormed : ∀ subroutine ∈ twoLinePrinter, subroutine.WellFormed := by
    have consists : ∀ subroutine ∈ twoLinePrinter, subroutine.ConsistsOf Token.WellFormed := by
      simp [twoLinePrinter, Subroutine.ConsistsOf, Instruction.ConsistsOf, Instruction.HasBranch,
        Instruction.leaves, Instruction.blocks, Operand.token, Token.WellFormed, names, quotable]
    have nesting : ∀ subroutine ∈ twoLinePrinter, subroutine.body.nesting ≤ 512 := by
      simp [twoLinePrinter, Block.nesting, Instruction.nestingOfAll, Instruction.nesting,
        Branch.nestingOfAll]
    exact fun subroutine mem => ⟨consists subroutine mem, nesting subroutine mem⟩
  have floatFree : ∀ subroutine ∈ twoLinePrinter, subroutine.FloatFree := by
    simp [twoLinePrinter, Subroutine.FloatFree, Instruction.leaves, Instruction.blocks,
      Operand.token]
  have nonempty : twoLinePrinter ≠ [] := List.cons_ne_nil _ _
  obtain ⟨text, accepted⟩ := trees_of_texts.2 twoLinePrinter nonempty wellFormed floatFree
  exact ⟨text, accepted, (trees_of_texts.1 text twoLinePrinter accepted).2⟩

end Source

end StackScript
