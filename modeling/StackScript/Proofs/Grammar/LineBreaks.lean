import StackScript.Proofs.Grammar.Following

/-!
# Line breaks in a row

Whether tokens are accepted does not depend on the lines they stand on. Wherever a line
break may stand another may follow it, which leads nowhere; and a text may end behind a line
break exactly if it may end before it.
-/

namespace StackScript

open Grammar

namespace ParserState

variable {state next : ParserState} {line : Nat}

/-- Behind a line break another one leads nowhere. -/
theorem next?_lineBreak_again (step : state.next? .lineBreak = some next) :
    next.next? .lineBreak = some next := by
  obtain ⟨done, position⟩ := state
  cases position with
  | subroutine | subroutineEnd | heading =>
    cases step
    rfl
  | inside context point =>
    cases point with
    | instruction | instructionEnd | opening | branchEnd =>
      cases step
      rfl
    | value | target => cases step

theorem advance_lineBreak_again (step : state.advance ⟨.lineBreak, line⟩ = .ok next)
    (other : Nat) : next.advance ⟨.lineBreak, other⟩ = .ok next := by
  obtain ⟨allowed, within⟩ := advance_eq_ok_iff.mp step
  exact advance_eq_ok_iff.mpr ⟨next?_lineBreak_again allowed, within⟩

/-- Where a text may end behind a line break it may end before. -/
theorem finish?_of_advance_lineBreak {subroutines : List Subroutine}
    (step : state.advance ⟨.lineBreak, line⟩ = .ok next)
    (finish : next.finish? = some subroutines) : state.finish? = some subroutines := by
  obtain ⟨allowed, -⟩ := advance_eq_ok_iff.mp step
  obtain ⟨done, position⟩ := state
  cases position with
  | subroutine =>
    cases allowed
    exact finish
  | subroutineEnd =>
    cases allowed
    cases done with
    | nil => cases finish
    | cons last others => exact finish
  | heading =>
    cases allowed
    exact finish
  | inside context point =>
    cases point with
    | instruction | instructionEnd | opening | branchEnd =>
      cases allowed
      cases finish
    | value | target => cases allowed

end ParserState

namespace Subroutine

variable {definitions : List Subroutine} {earlier later : List Lexeme} {line : Nat}

/-- What is accepted depends on the tokens alone. -/
theorem ofLexemes_eq_ok_congr {lexemes others : List Lexeme}
    (same : lexemes.map Lexeme.token = others.map Lexeme.token) :
    ofLexemes lexemes = .ok definitions ↔ ofLexemes others = .ok definitions := by
  simp only [ofLexemes_eq_ok_iff, foldlM_advance_initial_eq_ok_iff, same]

/-- Acceptance at a line break: the earlier lexemes lead up to it, and the later ones on
from behind it. -/
theorem ofLexemes_eq_ok_iff_of_lineBreak :
    ofLexemes (earlier ++ ⟨.lineBreak, line⟩ :: later) = .ok definitions ↔
      ∃ before behind state, earlier.foldlM ParserState.advance .initial = .ok before ∧
        before.advance ⟨.lineBreak, line⟩ = .ok behind ∧
        later.foldlM ParserState.advance behind = .ok state ∧
        state.finish? = some definitions := by
  rw [ofLexemes_eq_ok_iff, List.foldlM_append]
  cases run : earlier.foldlM ParserState.advance ParserState.initial with
  | error error => simp [bind, Except.bind]
  | ok before =>
    simp only [bind, Except.bind, ParserState.foldlM_advance_cons_eq_ok_iff]
    constructor
    · rintro ⟨state, ⟨behind, step, runLater⟩, finish⟩
      exact ⟨before, behind, state, rfl, step, runLater, finish⟩
    · rintro ⟨found, behind, state, same, step, runLater, finish⟩
      cases same
      exact ⟨state, ⟨behind, step, runLater⟩, finish⟩

/-- A second line break changes nothing. -/
theorem ofLexemes_lineBreak_again (other : Nat) :
    ofLexemes (earlier ++ ⟨.lineBreak, line⟩ :: ⟨.lineBreak, other⟩ :: later) = .ok definitions ↔
      ofLexemes (earlier ++ ⟨.lineBreak, line⟩ :: later) = .ok definitions := by
  simp only [ofLexemes_eq_ok_iff_of_lineBreak, ParserState.foldlM_advance_cons_eq_ok_iff]
  constructor
  · rintro ⟨before, behind, state, run, step, ⟨again, stepAgain, runLater⟩, finish⟩
    rw [ParserState.advance_lineBreak_again step] at stepAgain
    cases stepAgain
    exact ⟨before, behind, state, run, step, runLater, finish⟩
  · rintro ⟨before, behind, state, run, step, runLater, finish⟩
    exact ⟨before, behind, state, run, step,
      ⟨behind, ParserState.advance_lineBreak_again step other, runLater⟩, finish⟩

/-- A line break at the end changes nothing. -/
theorem ofLexemes_lineBreak_last :
    ofLexemes (earlier ++ [⟨.lineBreak, line⟩]) = .ok definitions ↔
      ofLexemes earlier = .ok definitions := by
  constructor
  · intro accepted
    obtain ⟨before, behind, state, run, step, runLast, finish⟩ :=
      ofLexemes_eq_ok_iff_of_lineBreak.mp accepted
    cases runLast
    have finishBefore := ParserState.finish?_of_advance_lineBreak step finish
    exact ofLexemes_eq_ok_iff.mpr ⟨before, run, finishBefore⟩
  · intro accepted
    exact ofLexemes_append_lineBreak accepted line

end Subroutine

end StackScript
