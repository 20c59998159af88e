import StackScript.Proofs.Grammar.Derivation

/-!
# Depth of nesting

The depth of a parser state is a count over the tokens that led to it: the words
that open a block less those that close one. Hence the parser with its limit
takes a list of lexemes exactly if the parser without it does and no beginning of
the list leaves more blocks open than the limit.
-/

namespace StackScript

open Grammar

/-- A word that opens a block opens one. -/
theorem Grammar.openBlocks_of_opensBlock {token : Token} (opensBlock : token.opensBlock = true) :
    openBlocks [token] = 1 := by
  obtain ⟨opening, rfl, rfl | rfl⟩ := exists_keyword_of_opensBlock opensBlock <;> rfl

namespace Context

@[simp]
theorem depth_add (context : Context) (instruction : Instruction) :
    (context.add instruction).depth = context.depth := by
  cases context <;> rfl

variable {done : List Subroutine} {context : Context} {token : Token} {next : ParserState}

/-- The end of a block closes one block. -/
theorem depth_close (done : List Subroutine) (context : Context) :
    ((context.close done).depth : Int) = context.depth + openBlocks [.keyword .endWord] := by
  have closes : openBlocks [.keyword .endWord] = -1 := rfl
  rw [closes]
  cases context with
  | subroutine name body => rfl
  | nested kind body outer =>
    have kept : ((nested kind body outer).close done).depth = outer.depth := by
      cases kind with
      | branch => rfl
      | loop | otherwise => exact depth_add ..
    rw [kept, depth]
    omega

/-- The first word of an instruction opens no block. -/
theorem depth_of_start? (starts : context.start? done token = some next) :
    (next.depth : Int) = context.depth + openBlocks [token] := by
  cases token with
  | identifier name =>
    cases starts
    simp [openBlocks]
  | keyword word =>
    cases word with
    | endWord =>
      cases starts
      exact depth_close done context
    | _ => cases starts <;> simp [openBlocks]
  | integer | float | text | lineBreak => cases starts

theorem depth_of_atInstruction? (step : context.atInstruction? done token = some next) :
    (next.depth : Int) = context.depth + openBlocks [token] := by
  by_cases isBreak : token = .lineBreak
  · subst isBreak
    cases step
    simp [openBlocks]
  · have starts : context.start? done token = some next := by
      simpa only [Context.atInstruction?] using step
    exact depth_of_start? starts

theorem depth_of_atInstructionEnd? (step : context.atInstructionEnd? done token = some next) :
    (next.depth : Int) = context.depth + openBlocks [token] := by
  simp only [atInstructionEnd?] at step
  split at step
  · cases step
    simp [openBlocks]
  · cases step
    exact depth_close done context
  · cases step

/-- One token inside a block. -/
theorem depth_of_next? {point : Point} (step : context.next? done token point = some next) :
    (next.depth : Int) = context.depth + openBlocks [token] := by
  cases point with
  | instruction => exact depth_of_atInstruction? step
  | instructionEnd => exact depth_of_atInstructionEnd? step
  | value use =>
    obtain ⟨operand, reads, rfl⟩ := Option.map_eq_some_iff.mp step
    have opensNone : openBlocks [token] = 0 := by
      cases token <;> first | rfl | cases reads
    cases use <;> simp [useValue, opensNone]
  | target use =>
    cases token with
    | identifier name =>
      cases step
      cases use <;> simp [useTarget, openBlocks]
    | keyword | integer | float | text | lineBreak => cases step
  | opening kind =>
    simp only [next?] at step
    split at step
    · rename_i opensBlock
      cases step
      simp [depth, openBlocks_of_opensBlock opensBlock]
    · split at step
      · subst token
        cases step
        simp [openBlocks]
      · cases step
  | branchEnd branches broken =>
    simp only [next?] at step
    split at step
    · cases step
      simp [openBlocks]
    · cases step
      simp [openBlocks]
    · cases step
      simp [openBlocks]
    · split at step
      · simpa using depth_of_atInstruction? step
      · simpa using depth_of_atInstructionEnd? step

end Context

namespace ParserState

variable {state next : ParserState} {token : Token} {tokens : List Token}

/-- One token changes the depth as it changes the count of open blocks. -/
theorem depth_of_next? (step : state.next? token = some next) :
    (next.depth : Int) = state.depth + openBlocks [token] := by
  obtain ⟨done, position⟩ := state
  cases position with
  | subroutine =>
    cases token <;> cases step <;> rfl
  | subroutineEnd =>
    cases token <;> cases step
    rfl
  | heading name =>
    rw [next?_heading] at step
    split at step
    · rename_i opensBlock
      cases step
      rw [openBlocks_of_opensBlock opensBlock]
      rfl
    · split at step
      · subst token
        cases step
        rfl
      · cases step
  | inside context point => exact Context.depth_of_next? step

/-- So do several tokens. -/
theorem depth_of_read? (run : state.read? tokens = some next) :
    (next.depth : Int) = state.depth + openBlocks tokens := by
  induction tokens generalizing state with
  | nil =>
    cases run
    simp
  | cons token rest ih =>
    obtain ⟨middle, step, run⟩ := Option.bind_eq_some_iff.mp run
    rw [ih run, depth_of_next? step, openBlocks_cons token rest]
    omega

/-- The parser goes on where the grammar allows the token and the limit allows the
depth behind it. -/
theorem advance_eq_ok_iff {lexeme : Lexeme} :
    state.advance lexeme = .ok next ↔
      state.next? lexeme.token = some next ∧ next.depth ≤ maxNesting := by
  rw [advance]
  cases step : state.next? lexeme.token with
  | none => simp
  | some reached =>
    by_cases tooDeep : maxNesting < reached.depth
    · simp only [if_pos tooDeep, reduceCtorEq, false_iff]
      rintro ⟨reachedEq, within⟩
      cases reachedEq
      omega
    · simp only [if_neg tooDeep, Except.ok.injEq, Option.some.injEq]
      constructor
      · rintro rfl
        exact ⟨rfl, by omega⟩
      · exact And.left

theorem foldlM_advance_cons_eq_ok_iff {lexeme : Lexeme} {rest : List Lexeme} :
    (lexeme :: rest).foldlM advance state = .ok next ↔
      ∃ middle, state.advance lexeme = .ok middle ∧ rest.foldlM advance middle = .ok next := by
  rw [List.foldlM_cons]
  cases step : state.advance lexeme with
  | error error => simp [bind, Except.bind]
  | ok middle => simp [bind, Except.bind]

/-- Under the limit the parser reads as without it, as long as no beginning opens
too many blocks. -/
theorem foldlM_advance_eq_ok_iff {lexemes : List Lexeme} (within : state.depth ≤ maxNesting) :
    lexemes.foldlM advance state = .ok next ↔
      state.read? (lexemes.map Lexeme.token) = some next ∧
        ∀ before, before <+: lexemes.map Lexeme.token →
          state.depth + openBlocks before ≤ maxNesting := by
  induction lexemes generalizing state with
  | nil =>
    have nests : ∀ before, before <+: List.map Lexeme.token [] →
        state.depth + openBlocks before ≤ maxNesting := by
      intro before isBeginning
      obtain rfl := List.prefix_nil.mp isBeginning
      rw [openBlocks_nil]
      omega
    exact ⟨fun run => ⟨by cases run; rfl, nests⟩, fun ⟨run, _⟩ => by cases run; rfl⟩
  | cons lexeme rest ih =>
    -- a beginning that is not empty begins with the first token, and what follows is
    -- a beginning of the rest, read from the state behind that token
    have shifts {middle : ParserState} (step : state.next? lexeme.token = some middle)
        (before : List Token) :
        (middle.depth : Int) + openBlocks before =
          state.depth + openBlocks (lexeme.token :: before) := by
      rw [depth_of_next? step, openBlocks_cons lexeme.token before]
      omega
    rw [foldlM_advance_cons_eq_ok_iff, List.map_cons, read?_cons]
    constructor
    · rintro ⟨middle, step, run⟩
      obtain ⟨stepNext, withinNext⟩ := advance_eq_ok_iff.mp step
      obtain ⟨runNext, nests⟩ := (ih withinNext).mp run
      refine ⟨Option.bind_eq_some_iff.mpr ⟨middle, stepNext, runNext⟩, ?_⟩
      intro before isBeginning
      rcases List.prefix_cons_iff.mp isBeginning with rfl | ⟨others, rfl, begins⟩
      · rw [openBlocks_nil]
        omega
      · rw [← shifts stepNext]
        exact nests others begins
    · rintro ⟨run, nests⟩
      obtain ⟨middle, stepNext, runNext⟩ := Option.bind_eq_some_iff.mp run
      have withinNext : middle.depth ≤ maxNesting := by
        have bound := nests [lexeme.token] (by simp)
        have depth := depth_of_next? stepNext
        omega
      refine ⟨middle, advance_eq_ok_iff.mpr ⟨stepNext, withinNext⟩, (ih withinNext).mpr ?_⟩
      refine ⟨runNext, fun before isBeginning => ?_⟩
      rw [shifts stepNext]
      exact nests _ (List.prefix_cons_iff.mpr (.inr ⟨before, rfl, isBeginning⟩))

/-- A run under the limit that fails, fails at one lexeme: what stands before it
has been read. -/
theorem exists_of_foldlM_advance_eq_error {lexemes : List Lexeme} {error : SyntaxError}
    (fails : lexemes.foldlM advance state = .error error) :
    ∃ before lexeme after middle, lexemes = before ++ lexeme :: after ∧
      before.foldlM advance state = .ok middle ∧ middle.advance lexeme = .error error := by
  induction lexemes generalizing state with
  | nil => cases fails
  | cons lexeme rest ih =>
    rw [List.foldlM_cons] at fails
    cases step : state.advance lexeme with
    | error found =>
      rw [step] at fails
      cases fails
      exact ⟨[], lexeme, rest, state, rfl, rfl, step⟩
    | ok middle =>
      rw [step] at fails
      obtain ⟨before, failing, after, reached, rfl, run, stops⟩ := ih fails
      exact ⟨lexeme :: before, failing, after, reached, rfl,
        foldlM_advance_cons_eq_ok_iff.mpr ⟨middle, step, run⟩, stops⟩

end ParserState

/-- The parser reads a whole list under its limit exactly if it reads it without the
limit and the list nests within the limit. -/
theorem Grammar.foldlM_advance_initial_eq_ok_iff {lexemes : List Lexeme} {state : ParserState} :
    lexemes.foldlM ParserState.advance .initial = .ok state ↔
      ParserState.initial.read? (lexemes.map Lexeme.token) = some state ∧
        NestsWithin maxNesting (lexemes.map Lexeme.token) := by
  have atFirst : ParserState.initial.depth = 0 := rfl
  rw [ParserState.foldlM_advance_eq_ok_iff (by simp [atFirst])]
  simp [atFirst, NestsWithin]

end StackScript
