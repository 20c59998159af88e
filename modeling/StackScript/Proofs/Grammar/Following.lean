import StackScript.Proofs.Grammar.Recognition
import StackScript.Proofs.Lexis.Lines

/-!
# Subroutines that follow others

What has been read before the subroutine at hand is only kept. So behind
subroutines and a line break the parser does what it does at the beginning of a
text, and ends with the subroutines of both; what it looks at on the way are the
tokens and not their lines.
-/

namespace StackScript

open Grammar

/-- The state with these subroutines, latest first, before those that it has read. -/
def ParserState.following (before : List Subroutine) (state : ParserState) : ParserState :=
  ⟨state.done ++ before, state.position⟩

/-! ## One token -/

namespace Context

variable (done before : List Subroutine) (context : Context) (token : Token)

theorem close_following :
    context.close (done ++ before) = (context.close done).following before := by
  cases context with
  | subroutine name body => rfl
  | nested kind body outer => cases kind <;> rfl

theorem start?_following :
    context.start? (done ++ before) token =
      (context.start? done token).map (ParserState.following before) := by
  cases token with
  | keyword word =>
    cases word with
    | endWord => exact congrArg some (close_following done before context)
    | _ => rfl
  | _ => rfl

theorem atInstruction?_following :
    context.atInstruction? (done ++ before) token =
      (context.atInstruction? done token).map (ParserState.following before) := by
  cases token with
  | lineBreak => rfl
  | _ => simp only [atInstruction?, start?_following]

theorem atInstructionEnd?_following :
    context.atInstructionEnd? (done ++ before) token =
      (context.atInstructionEnd? done token).map (ParserState.following before) := by
  cases token with
  | keyword word =>
    cases word with
    | endWord => exact congrArg some (close_following done before context)
    | _ => rfl
  | _ => rfl

theorem next?_following (point : Point) :
    context.next? (done ++ before) token point =
      (context.next? done token point).map (ParserState.following before) := by
  cases point with
  | instruction => exact atInstruction?_following ..
  | instructionEnd => exact atInstructionEnd?_following ..
  | value use =>
    simp only [next?, Option.map_map]
    congr 1
    funext operand
    cases use <;> rfl
  | target use =>
    cases token with
    | identifier name => cases use <;> rfl
    | _ => rfl
  | opening kind =>
    simp only [next?]
    split
    · rfl
    · split <;> rfl
  | branchEnd branches broken =>
    simp only [next?]
    split
    · rfl
    · rfl
    · rfl
    · cases broken with
      | true => exact atInstruction?_following ..
      | false => exact atInstructionEnd?_following ..

end Context

namespace ParserState

variable (before : List Subroutine) (state : ParserState)

theorem next?_following (token : Token) :
    (state.following before).next? token = (state.next? token).map (following before) := by
  obtain ⟨done, position⟩ := state
  cases position with
  | subroutine | subroutineEnd => cases token <;> rfl
  | heading name =>
    simp only [following, next?_heading]
    split
    · rfl
    · split <;> rfl
  | inside context point => exact context.next?_following done before token point

theorem advance_following (lexeme : Lexeme) :
    (state.following before).advance lexeme = (state.advance lexeme).map (following before) := by
  simp only [advance, next?_following]
  cases state.next? lexeme.token with
  | none => rfl
  | some next =>
    -- both states are as deep
    change (if maxNesting < next.depth then _ else .ok _) = Except.map _ (ite _ _ _)
    split <;> rfl

theorem foldlM_advance_following (lexemes : List Lexeme) :
    lexemes.foldlM advance (state.following before) =
      (lexemes.foldlM advance state).map (following before) := by
  induction lexemes generalizing state with
  | nil => rfl
  | cons lexeme rest ih =>
    rw [List.foldlM_cons, List.foldlM_cons, advance_following]
    cases state.advance lexeme with
    | error error => rfl
    | ok next => exact ih next

/-- Lines are named in errors alone. -/
theorem advance_movedDown (lines : Nat) (lexeme : Lexeme) :
    state.advance (lexeme.movedDown lines) =
      (state.advance lexeme).mapError (SyntaxError.movedDown lines) := by
  simp only [advance, Lexeme.movedDown]
  cases state.next? lexeme.token with
  | none => rfl
  | some next =>
    simp only
    split <;> rfl

theorem foldlM_advance_movedDown (lines : Nat) (lexemes : List Lexeme) :
    (lexemes.map (Lexeme.movedDown lines)).foldlM advance state =
      (lexemes.foldlM advance state).mapError (SyntaxError.movedDown lines) := by
  induction lexemes generalizing state with
  | nil => rfl
  | cons lexeme rest ih =>
    rw [List.map_cons, List.foldlM_cons, List.foldlM_cons, advance_movedDown]
    cases state.advance lexeme with
    | error error => rfl
    | ok next => exact ih next

/-- Where a text may end, another subroutine may follow on a new line. -/
theorem advance_lineBreak_of_finish? {subroutines : List Subroutine}
    (finish : state.finish? = some subroutines) (line : Nat) :
    state.advance ⟨.lineBreak, line⟩ = .ok (initial.following subroutines.reverse) := by
  obtain ⟨done, position⟩ := state
  cases position with
  | subroutine =>
    cases done with
    | nil => cases finish
    | cons last others =>
      cases finish
      rw [List.reverse_reverse]
      rfl
  | subroutineEnd =>
    cases finish
    rw [List.reverse_reverse]
    rfl
  | heading => cases finish
  | inside => cases finish

/-- Wherever the parser has got behind the line breaks of a text, it may end there
behind subroutines if it may end there by itself. -/
theorem finish?_following (notInitial : state ≠ initial) :
    (state.following before).finish? = state.finish?.map (before.reverse ++ ·) := by
  obtain ⟨done, position⟩ := state
  cases position with
  | subroutine =>
    cases done with
    | nil => exact absurd rfl notInitial
    | cons last others => simp [finish?, following]
  | subroutineEnd => simp [finish?, following]
  | heading | inside => rfl

end ParserState

/-- Line breaks lead nowhere at the beginning, and nothing else leads there. -/
theorem Grammar.read?_initial_eq_initial_iff {tokens : List Token} :
    ParserState.initial.read? tokens = some .initial ↔ ∀ token ∈ tokens, token = .lineBreak := by
  constructor
  · intro run
    cases hasRead_of_read? run with
    | subroutine ready =>
      cases ready with
      | first breaks => exact fun token mem => List.eq_of_mem_replicate mem
      | next breaksBefore breaks spells => exact absurd rfl (ne_nil_of_spells_subroutines spells)
  · intro blank
    rw [List.eq_replicate_of_mem blank]
    exact ParserState.read?_lineBreaks_of_next?_eq_self .initial rfl tokens.length

/-! ## Whole texts -/

namespace Subroutine

variable {earlier : List Lexeme} {definitions : List Subroutine}

/-- Behind accepted lexemes a line break leads to the place of another subroutine. -/
theorem foldlM_advance_of_ofLexemes_eq_ok (accepted : ofLexemes earlier = .ok definitions)
    (line : Nat) :
    (earlier ++ [Lexeme.mk .lineBreak line]).foldlM ParserState.advance ParserState.initial =
      .ok (ParserState.initial.following definitions.reverse) := by
  obtain ⟨state, run, finish⟩ := ofLexemes_eq_ok_iff.mp accepted
  have step := state.advance_lineBreak_of_finish? finish line
  rw [List.foldlM_append, run]
  exact ParserState.foldlM_advance_cons_eq_ok_iff.mpr ⟨_, step, rfl⟩

theorem ne_nil_of_ofLexemes_eq_ok (accepted : ofLexemes earlier = .ok definitions) :
    definitions ≠ [] := by
  obtain ⟨state, run, finish⟩ := ofLexemes_eq_ok_iff.mp accepted
  obtain ⟨reads, -⟩ := foldlM_advance_initial_eq_ok_iff.mp run
  exact ne_nil_of_spells_program (spells_program_iff.mpr ⟨state, reads, finish⟩)

/-- Accepted lexemes are not all line breaks. -/
theorem exists_ne_lineBreak_of_ofLexemes_eq_ok (accepted : ofLexemes earlier = .ok definitions) :
    ∃ lexeme ∈ earlier, lexeme.token ≠ .lineBreak := by
  by_contra blank
  obtain ⟨state, run, finish⟩ := ofLexemes_eq_ok_iff.mp accepted
  obtain ⟨reads, -⟩ := foldlM_advance_initial_eq_ok_iff.mp run
  have allBreaks : ∀ token ∈ earlier.map Lexeme.token, token = .lineBreak := by
    simpa using blank
  rw [read?_initial_eq_initial_iff.mpr allBreaks] at reads
  cases reads
  cases finish

/-- A line break behind accepted lexemes changes nothing. -/
theorem ofLexemes_append_lineBreak (accepted : ofLexemes earlier = .ok definitions) (line : Nat) :
    ofLexemes (earlier ++ [⟨.lineBreak, line⟩]) = .ok definitions := by
  rw [ofLexemes_eq_ok_iff]
  refine ⟨_, foldlM_advance_of_ofLexemes_eq_ok accepted line, ?_⟩
  obtain ⟨first, rest, reversed⟩ := List.exists_cons_of_ne_nil
    (mt List.reverse_eq_nil_iff.mp (ne_nil_of_ofLexemes_eq_ok accepted))
  have back : (first :: rest).reverse = definitions := by rw [← reversed, List.reverse_reverse]
  rw [reversed]
  exact congrArg some back

theorem ofLexemes_append_lineBreaks (accepted : ofLexemes earlier = .ok definitions)
    {blank : List Lexeme} (allBlank : ∀ lexeme ∈ blank, lexeme.token = .lineBreak) :
    ofLexemes (earlier ++ blank) = .ok definitions := by
  induction blank generalizing earlier with
  | nil => rwa [List.append_nil]
  | cons lexeme rest ih =>
    obtain ⟨isBreak, restBlank⟩ := List.forall_mem_cons.mp allBlank
    obtain ⟨token, line⟩ := lexeme
    cases isBreak
    rw [List.append_cons]
    exact ih (ofLexemes_append_lineBreak accepted line) restBlank

/-- Lexemes that follow accepted ones and a line break, so many lines further down:
their subroutines follow those before, or their error is the error of the whole. -/
theorem ofLexemes_following (accepted : ofLexemes earlier = .ok definitions)
    (line lines : Nat) {lexemes : List Lexeme}
    (notBlank : ∃ lexeme ∈ lexemes, lexeme.token ≠ .lineBreak) :
    ofLexemes (earlier ++ ⟨.lineBreak, line⟩ :: lexemes.map (Lexeme.movedDown lines)) =
      ((ofLexemes lexemes).map (definitions ++ ·)).mapError (SyntaxError.movedDown lines) := by
  have begun := foldlM_advance_of_ofLexemes_eq_ok accepted line
  rw [List.append_cons, ofLexemes, ofLexemes, List.foldlM_append, begun]
  simp only [bind, Except.bind, ParserState.foldlM_advance_movedDown,
    ParserState.foldlM_advance_following]
  cases run : lexemes.foldlM ParserState.advance ParserState.initial with
  | error error => rfl
  | ok state =>
    have notInitial : state ≠ .initial := by
      rintro rfl
      obtain ⟨reads, -⟩ := foldlM_advance_initial_eq_ok_iff.mp run
      obtain ⟨lexeme, mem, notBreak⟩ := notBlank
      exact notBreak (read?_initial_eq_initial_iff.mp reads _ (List.mem_map_of_mem mem))
    have read : ((Except.ok state).map (ParserState.following definitions.reverse)).mapError
        (SyntaxError.movedDown lines) = .ok (state.following definitions.reverse) := rfl
    simp only [read, ParserState.finish?_following _ _ notInitial, List.reverse_reverse]
    cases state.finish? with
    | some subroutines => rfl
    | none =>
      -- the last lexeme of the whole is the last one below
      have notEmpty : lexemes ≠ [] := by
        rintro rfl
        simp at notBlank
      have last := List.getLast?_eq_some_getLast notEmpty
      have lastBelow : (earlier ++ [Lexeme.mk .lineBreak line] ++
          lexemes.map (Lexeme.movedDown lines)).getLast? =
            some ((lexemes.getLast notEmpty).movedDown lines) := by
        rw [List.getLast?_append, List.getLast?_map, last]
        rfl
      rw [last, lastBelow]
      rfl

end Subroutine

end StackScript
