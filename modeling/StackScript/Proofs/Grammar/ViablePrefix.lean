import StackScript.Proofs.Grammar.Recognition

/-!
# Viable beginnings

Every state of the parser can be led to the end of a program: open blocks can be
closed and what an instruction still needs can be supplied. So the parser without
its limit has read a list of tokens exactly if some program begins with them, and
each error names the first lexeme with which that stops.
-/

namespace StackScript

open Grammar

namespace ParserState

/-- Some tokens lead from the state to a place where a text may end. -/
def Completable (state : ParserState) : Prop :=
  ∃ rest last subroutines, state.read? rest = some last ∧ last.finish? = some subroutines

variable {state next : ParserState}

/-- A state before a completable one is completable. -/
theorem Completable.of_next? (completable : next.Completable) (token : Token)
    (step : state.next? token = some next) : state.Completable := by
  obtain ⟨rest, last, subroutines, run, finish⟩ := completable
  exact ⟨token :: rest, last, subroutines, Option.bind_eq_some_iff.mpr ⟨next, step, run⟩, finish⟩

theorem completable_subroutineEnd (done : List Subroutine) :
    Completable ⟨done, .subroutineEnd⟩ :=
  ⟨[], _, done.reverse, rfl, rfl⟩

/-- Behind a nested block the surrounding one may end. -/
theorem exists_next?_close_nested (done : List Subroutine) (kind : Nested)
    (body : List Instruction) (outer : Context) :
    ∃ instruction, ((Context.nested kind body outer).close done).next? (.keyword .endWord) =
      some ((outer.add instruction).close done) := by
  cases kind <;> exact ⟨_, rfl⟩

/-- All open blocks can be closed one after the other. The block that is closed
adds an instruction to the one around it, so the induction is on the context for
any instructions added to it. -/
theorem completable_close_addAll (done : List Subroutine) (context : Context)
    (instructions : List Instruction) :
    Completable ((context.addAll instructions).close done) := by
  induction context generalizing instructions with
  | subroutine name body =>
    rw [Context.addAll_subroutine]
    exact completable_subroutineEnd _
  | nested kind body outer ih =>
    rw [Context.addAll_nested]
    obtain ⟨instruction, step⟩ := exists_next?_close_nested done kind
      (instructions.reverse ++ body) outer
    exact (ih [instruction]).of_next? _ step

theorem completable_close (done : List Subroutine) (context : Context) :
    Completable (context.close done) :=
  completable_close_addAll done context []

/-! ## Places inside a block -/

section Places

variable (done : List Subroutine) (context : Context)

theorem completable_instruction : Completable ⟨done, .inside context .instruction⟩ :=
  (completable_close done context).of_next? (.keyword .endWord) rfl

theorem completable_instructionEnd : Completable ⟨done, .inside context .instructionEnd⟩ :=
  (completable_close done context).of_next? (.keyword .endWord) rfl

theorem completable_branchEnd (branches : List Branch) (broken : Bool) :
    Completable ⟨done, .inside context (.branchEnd branches broken)⟩ := by
  have closed := completable_close done (context.add (.conditional branches.reverse none))
  cases broken <;> exact closed.of_next? (.keyword .endWord) rfl

theorem completable_opening (kind : Nested) :
    Completable ⟨done, .inside context (.opening kind)⟩ :=
  (completable_instruction done (.nested kind [] context)).of_next? (.keyword .beginWord) rfl

theorem completable_target (use : TargetUse) :
    Completable ⟨done, .inside context (.target use)⟩ := by
  have ends (instruction : Instruction) :=
    completable_instructionEnd done (context.add instruction)
  cases use <;> exact (ends _).of_next? (.identifier "x") rfl

theorem completable_value (use : ValueUse) :
    Completable ⟨done, .inside context (.value use)⟩ := by
  have ends (instruction : Instruction) :=
    completable_instructionEnd done (context.add instruction)
  cases use with
  | assign => exact (completable_target done context (.assign _)).of_next? (.integer 0) rfl
  | push | print | exit => exact (ends _).of_next? (.integer 0) rfl
  | loop => exact (completable_opening done context (.loop _)).of_next? (.integer 0) rfl
  | branch earlier =>
    exact (completable_opening done context (.branch earlier _)).of_next? (.integer 0) rfl

end Places

/-- No state is a dead end. -/
theorem completable (state : ParserState) : state.Completable := by
  obtain ⟨done, position⟩ := state
  have heading (name : String) : Completable ⟨done, .heading name⟩ :=
    (completable_instruction done (.subroutine name [])).of_next? (.keyword .beginWord) rfl
  cases position with
  | subroutine => exact (heading "x").of_next? (.identifier "x") rfl
  | subroutineEnd => exact completable_subroutineEnd done
  | heading name => exact heading name
  | inside context point =>
    cases point with
    | instruction => exact completable_instruction done context
    | instructionEnd => exact completable_instructionEnd done context
    | value use => exact completable_value done context use
    | target use => exact completable_target done context use
    | opening kind => exact completable_opening done context kind
    | branchEnd branches broken => exact completable_branchEnd done context branches broken

end ParserState

namespace Grammar

/-- A list of tokens begins a program exactly if the parser without its limit reads
it. -/
theorem viable_iff {tokens : List Token} :
    Viable tokens ↔ ∃ state, ParserState.initial.read? tokens = some state := by
  constructor
  · rintro ⟨rest, subroutines, spells⟩
    obtain ⟨last, run, _⟩ := spells_program_iff.mp spells
    rw [ParserState.read?_append] at run
    obtain ⟨state, reads, _⟩ := Option.bind_eq_some_iff.mp run
    exact ⟨state, reads⟩
  · rintro ⟨state, reads⟩
    obtain ⟨rest, last, subroutines, run, finish⟩ := state.completable
    refine ⟨rest, subroutines, spells_program_iff.mpr ⟨last, ?_, finish⟩⟩
    rw [ParserState.read?_append_of_eq_some reads, run]

/-! ## Errors -/

/-- The error names the first lexeme with which the list stops being the beginning of
a program, or crosses the limit; or the list is such a beginning and ends too early. -/
inductive FirstFault (lexemes : List Lexeme) : SyntaxError → Prop where
  | unexpectedToken {before after : List Lexeme} {lexeme : Lexeme} (expected : Expectation) :
    lexemes = before ++ lexeme :: after →
    Viable (before.map Lexeme.token) →
    ¬ Viable ((before ++ [lexeme]).map Lexeme.token) →
    FirstFault lexemes (.unexpectedToken lexeme.line lexeme.token expected)
  | unexpectedEnd (expected : Expectation) :
    Viable (lexemes.map Lexeme.token) →
    (∀ subroutines, ¬ Spells (lexemes.map Lexeme.token) (.program subroutines)) →
    FirstFault lexemes
      (.unexpectedEnd ((lexemes.getLast?.map Lexeme.line).getD 1) expected)
  | nestingTooDeep {before after : List Lexeme} {lexeme : Lexeme} :
    lexemes = before ++ lexeme :: after →
    lexeme.token = .keyword .beginWord ∨ lexeme.token = .keyword .doWord →
    Viable ((before ++ [lexeme]).map Lexeme.token) →
    NestsWithin 512 (before.map Lexeme.token) →
    openBlocks ((before ++ [lexeme]).map Lexeme.token) = 513 →
    FirstFault lexemes (.nestingTooDeep lexeme.line 512)

/-- The depth of a state that the parser reaches counts the open blocks. -/
theorem depth_eq_openBlocks {tokens : List Token} {state : ParserState}
    (run : ParserState.initial.read? tokens = some state) :
    (state.depth : Int) = openBlocks tokens := by
  have depth := ParserState.depth_of_read? run
  have atFirst : ParserState.initial.depth = 0 := rfl
  omega

/-- Only the two words that open a block raise the count. -/
theorem eq_keyword_of_openBlocks_pos {token : Token} (positive : 0 < openBlocks [token]) :
    token = .keyword .beginWord ∨ token = .keyword .doWord := by
  cases token with
  | keyword word =>
    cases word with
    | beginWord => exact .inl rfl
    | doWord => exact .inr rfl
    | _ => exact absurd positive (by decide)
  | identifier | integer | float | text | lineBreak => simp [openBlocks] at positive

/-- What the parser says of a lexeme that it cannot take. -/
theorem firstFault_of_advance_eq_error {before after : List Lexeme} {lexeme : Lexeme}
    {state : ParserState} {error : SyntaxError}
    (reads : ParserState.initial.read? (before.map Lexeme.token) = some state)
    (nests : NestsWithin maxNesting (before.map Lexeme.token))
    (stops : state.advance lexeme = .error error) :
    FirstFault (before ++ lexeme :: after) error := by
  rw [ParserState.advance] at stops
  have readsNext : ParserState.initial.read? ((before ++ [lexeme]).map Lexeme.token) =
      state.next? lexeme.token := by
    rw [List.map_append, ParserState.read?_append_of_eq_some reads]
    simp
  cases step : state.next? lexeme.token with
  | none =>
    rw [step] at stops readsNext
    cases stops
    apply FirstFault.unexpectedToken _ rfl (viable_iff.mpr ⟨state, reads⟩)
    rw [viable_iff, readsNext]
    simp
  | some next =>
    rw [step] at stops readsNext
    by_cases tooDeep : maxNesting < next.depth
    · simp only [if_pos tooDeep, Except.error.injEq] at stops
      subst stops
      -- one token is all that lies between a depth within the limit and this one
      have within := nests _ (List.prefix_refl _)
      have depthBefore := depth_eq_openBlocks reads
      have depthBehind := depth_eq_openBlocks readsNext
      have split : openBlocks ((before ++ [lexeme]).map Lexeme.token) =
          openBlocks (before.map Lexeme.token) + openBlocks [lexeme.token] := by
        rw [List.map_append, openBlocks_append, List.map_singleton]
      have opens : lexeme.token = .keyword .beginWord ∨ lexeme.token = .keyword .doWord :=
        eq_keyword_of_openBlocks_pos (by omega)
      have opensOne : openBlocks [lexeme.token] = 1 := by
        rcases opens with opening | opening <;> rw [opening] <;> rfl
      apply FirstFault.nestingTooDeep rfl opens (viable_iff.mpr ⟨next, readsNext⟩) nests
      rw [maxNesting] at within tooDeep
      omega
    · simp only [if_neg tooDeep, reduceCtorEq] at stops

/-- Every rejected list of lexemes is rejected for its first fault. -/
theorem firstFault_of_ofLexemes_eq_error {lexemes : List Lexeme} {error : SyntaxError}
    (rejected : Subroutine.ofLexemes lexemes = .error error) : FirstFault lexemes error := by
  rw [Subroutine.ofLexemes] at rejected
  cases run : lexemes.foldlM ParserState.advance ParserState.initial with
  | error found =>
    rw [run] at rejected
    cases rejected
    obtain ⟨before, lexeme, after, state, rfl, run, stops⟩ :=
      ParserState.exists_of_foldlM_advance_eq_error run
    obtain ⟨reads, nests⟩ := foldlM_advance_initial_eq_ok_iff.mp run
    exact firstFault_of_advance_eq_error reads nests stops
  | ok state =>
    rw [run] at rejected
    obtain ⟨reads, _⟩ := foldlM_advance_initial_eq_ok_iff.mp run
    cases finish : state.finish? with
    | some found => simp [bind, Except.bind, finish] at rejected
    | none =>
      simp only [bind, Except.bind, finish, Except.error.injEq] at rejected
      subst rejected
      apply FirstFault.unexpectedEnd _ (viable_iff.mpr ⟨state, reads⟩)
      intro subroutines spells
      obtain ⟨last, run, finishes⟩ := spells_program_iff.mp spells
      obtain rfl := Option.some.inj (reads.symm.trans run)
      rw [finish] at finishes
      cases finishes

/-- A value on the line after its instruction: the line break is the fault. -/
theorem firstFault_push_lineBreak :
    Subroutine.ofLexemes [⟨.identifier "main", 1⟩, ⟨.keyword .doWord, 1⟩, ⟨.lineBreak, 1⟩,
        ⟨.keyword .push, 2⟩, ⟨.lineBreak, 2⟩, ⟨.integer 1, 3⟩] =
      .error (.unexpectedToken 2 .lineBreak .value) ∧
    FirstFault [⟨.identifier "main", 1⟩, ⟨.keyword .doWord, 1⟩, ⟨.lineBreak, 1⟩,
        ⟨.keyword .push, 2⟩, ⟨.lineBreak, 2⟩, ⟨.integer 1, 3⟩]
      (.unexpectedToken 2 .lineBreak .value) :=
  ⟨rfl, firstFault_of_ofLexemes_eq_error rfl⟩

end Grammar

end StackScript
