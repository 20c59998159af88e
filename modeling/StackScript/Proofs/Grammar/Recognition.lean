import StackScript.Proofs.Grammar.Nesting

/-!
# Recognition

The parser accepts exactly the programs of the documented grammar that nest
within the limit, and gives the tree that the tokens spell; they spell one at
most. Lines play no part in what is accepted.
-/

namespace StackScript

open Grammar

/-- The parser succeeds if its run under the limit ends where a text may end. -/
theorem Subroutine.ofLexemes_eq_ok_iff {lexemes : List Lexeme} {subroutines : List Subroutine} :
    Subroutine.ofLexemes lexemes = .ok subroutines ↔
      ∃ state, lexemes.foldlM ParserState.advance .initial = .ok state ∧
        state.finish? = some subroutines := by
  rw [Subroutine.ofLexemes]
  cases run : lexemes.foldlM ParserState.advance ParserState.initial with
  | error error => simp [bind, Except.bind]
  | ok state =>
    cases finish : state.finish? with
    | none => simp [bind, Except.bind, finish]
    | some found => simp [bind, Except.bind, finish]

/-- A list of lexemes is accepted with a tree exactly if its tokens spell the tree by
the documented grammar and nowhere leave more than 512 blocks open; and no list of
tokens spells two trees. -/
theorem Grammar.ofLexemes_eq_ok_iff_spells (lexemes : List Lexeme) :
    (∀ subroutines, Subroutine.ofLexemes lexemes = .ok subroutines ↔
      Spells (lexemes.map Lexeme.token) (.program subroutines) ∧
        NestsWithin 512 (lexemes.map Lexeme.token)) ∧
    (∀ first second, Spells (lexemes.map Lexeme.token) (.program first) →
      Spells (lexemes.map Lexeme.token) (.program second) → first = second) := by
  constructor
  · intro subroutines
    rw [Subroutine.ofLexemes_eq_ok_iff, spells_program_iff]
    constructor
    · rintro ⟨state, run, finish⟩
      obtain ⟨reads, nests⟩ := foldlM_advance_initial_eq_ok_iff.mp run
      exact ⟨⟨state, reads, finish⟩, nests⟩
    · rintro ⟨⟨state, reads, finish⟩, nests⟩
      exact ⟨state, foldlM_advance_initial_eq_ok_iff.mpr ⟨reads, nests⟩, finish⟩
  · intro first second
    exact spells_program_unique

end StackScript
