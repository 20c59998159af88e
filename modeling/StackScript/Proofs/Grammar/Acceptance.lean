import StackScript.Proofs.Grammar

/-!
# The parser reads every program

Read without its nesting limit, the parser takes every token list that the
grammar derives and ends with the derived tree. The proof is one induction on
the derivation: for each phrase it says to which state its tokens lead. Two
states may stand before an instruction, because the line break after a branch
ends the conditional only if no `elif` or `else` follows it, and two may stand
after one.
-/

namespace StackScript

open Grammar

namespace ParserState

/-- The state after so many tokens, where the grammar without its nesting limit
allows them. -/
def read? (state : ParserState) (tokens : List Token) : Option ParserState :=
  tokens.foldlM next? state

@[simp]
theorem read?_nil (state : ParserState) : state.read? [] = some state :=
  rfl

@[simp]
theorem read?_cons (state : ParserState) (token : Token) (tokens : List Token) :
    state.read? (token :: tokens) = (state.next? token).bind (·.read? tokens) :=
  rfl

/-- Reading goes on where it stopped. -/
theorem read?_append (state : ParserState) (left right : List Token) :
    state.read? (left ++ right) = (state.read? left).bind (·.read? right) := by
  simp only [read?, List.foldlM_append]
  rfl

/-- What has been read does not stand in the way of the rest. -/
theorem read?_append_of_eq_some {state middle : ParserState} {left : List Token}
    (reads : state.read? left = some middle) (right : List Token) :
    state.read? (left ++ right) = middle.read? right := by
  rw [read?_append, reads]
  rfl

/-- A state that stays where it is at a line break stays there at any number of
them. -/
theorem read?_lineBreaks_of_next?_eq_self (state : ParserState)
    (stays : state.next? .lineBreak = some state) (count : Nat) :
    state.read? (lineBreaks count) = some state := by
  induction count with
  | zero => rfl
  | succ count ih => simpa [lineBreaks_succ, stays] using ih

end ParserState

namespace Context

/-- Puts instructions after those of the innermost block. -/
def addAll (context : Context) (instructions : List Instruction) : Context :=
  instructions.foldl (fun context instruction => context.add instruction) context

@[simp]
theorem addAll_nil (context : Context) : context.addAll [] = context :=
  rfl

@[simp]
theorem addAll_singleton (context : Context) (instruction : Instruction) :
    context.addAll [instruction] = context.add instruction :=
  rfl

theorem addAll_concat (context : Context) (earlier : List Instruction)
    (instruction : Instruction) :
    context.addAll (earlier ++ [instruction]) = (context.addAll earlier).add instruction := by
  simp [addAll]

theorem addAll_subroutine (name : String) (body instructions : List Instruction) :
    (Context.subroutine name body).addAll instructions =
      .subroutine name (instructions.reverse ++ body) := by
  induction instructions generalizing body with
  | nil => rfl
  | cons first rest ih =>
    calc
      (Context.subroutine name body).addAll (first :: rest) =
          (Context.subroutine name (first :: body)).addAll rest := rfl
      _ = .subroutine name (rest.reverse ++ first :: body) := ih (first :: body)
      _ = .subroutine name ((first :: rest).reverse ++ body) := by simp

theorem addAll_nested (kind : Nested) (body instructions : List Instruction) (outer : Context) :
    (Context.nested kind body outer).addAll instructions =
      .nested kind (instructions.reverse ++ body) outer := by
  induction instructions generalizing body with
  | nil => rfl
  | cons first rest ih =>
    calc
      (Context.nested kind body outer).addAll (first :: rest) =
          (Context.nested kind (first :: body) outer).addAll rest := rfl
      _ = .nested kind (rest.reverse ++ first :: body) outer := ih (first :: body)
      _ = .nested kind ((first :: rest).reverse ++ body) outer := by simp

end Context

namespace Grammar

/-! ## Around an instruction -/

/-- The states that may stand before an instruction of the context: the plain one,
and the one that still waits for `elif` or `else` of the conditional before it. -/
inductive BeforeInstruction (done : List Subroutine) : Context → ParserState → Prop where
  | plain (context : Context) :
    BeforeInstruction done context ⟨done, .inside context .instruction⟩
  | afterBranch (context : Context) (branches : List Branch) :
    BeforeInstruction done (context.add (.conditional branches.reverse none))
      ⟨done, .inside context (.branchEnd branches true)⟩

/-- The states that may stand right after an instruction of the context. -/
inductive AfterInstruction (done : List Subroutine) : Context → ParserState → Prop where
  | plain (context : Context) :
    AfterInstruction done context ⟨done, .inside context .instructionEnd⟩
  | afterBranch (context : Context) (branches : List Branch) :
    AfterInstruction done (context.add (.conditional branches.reverse none))
      ⟨done, .inside context (.branchEnd branches false)⟩

variable {done : List Subroutine} {context : Context} {state : ParserState}

/-- The token means the same in both states before an instruction. -/
def MeansAlike (token : Token) : Prop :=
  token ≠ .lineBreak ∧ token ≠ .keyword .elifWord ∧ token ≠ .keyword .elseWord

instance (token : Token) : Decidable (MeansAlike token) :=
  inferInstanceAs (Decidable (_ ∧ _ ∧ _))

/-- Before an instruction, such a token starts an instruction or ends the block. -/
theorem BeforeInstruction.next?_eq (before : BeforeInstruction done context state) {token : Token}
    (alike : MeansAlike token) : state.next? token = context.start? done token := by
  obtain ⟨notBreak, notElif, notElse⟩ := alike
  cases before with
  | plain context =>
    simp only [ParserState.next?_inside, Context.next?, Context.atInstruction?]
  | afterBranch context branches =>
    simp only [ParserState.next?_inside, Context.next?, Context.atInstruction?, if_true]

/-- Line breaks do not move a state away from the instruction after them. -/
theorem BeforeInstruction.next?_lineBreak (before : BeforeInstruction done context state) :
    state.next? .lineBreak = some state := by
  cases before <;> rfl

/-- A line break after an instruction leads before the next one. -/
theorem AfterInstruction.exists_next?_lineBreak (after : AfterInstruction done context state) :
    ∃ next, state.next? .lineBreak = some next ∧ BeforeInstruction done context next := by
  cases after with
  | plain context => exact ⟨_, rfl, .plain context⟩
  | afterBranch context branches => exact ⟨_, rfl, .afterBranch context branches⟩

/-- So do several line breaks. -/
theorem AfterInstruction.exists_read?_lineBreaks (after : AfterInstruction done context state)
    (count : Nat) :
    ∃ next, state.read? (lineBreaks (count + 1)) = some next ∧
      BeforeInstruction done context next := by
  obtain ⟨next, step, before⟩ := after.exists_next?_lineBreak
  refine ⟨next, ?_, before⟩
  simpa [lineBreaks_succ, step] using
    next.read?_lineBreaks_of_next?_eq_self before.next?_lineBreak count

/-- The end of a block may follow an instruction at once. -/
theorem AfterInstruction.next?_endWord (after : AfterInstruction done context state) :
    state.next? (.keyword .endWord) = some (context.close done) := by
  cases after <;> rfl

/-- The end of a block may follow the line breaks after an instruction. -/
theorem AfterInstruction.read?_end (after : AfterInstruction done context state) (count : Nat) :
    state.read? (lineBreaks count ++ [.keyword .endWord]) = some (context.close done) := by
  cases count with
  | zero => simpa using after.next?_endWord
  | succ count =>
    obtain ⟨next, reads, before⟩ := after.exists_read?_lineBreaks count
    rw [ParserState.read?_append_of_eq_some reads]
    have ends : next.next? (.keyword .endWord) = some (context.close done) :=
      before.next?_eq (by decide)
    simp [ends]

/-! ## Phrases -/

/-- What reading the tokens of a phrase does, wherever the phrase may stand. -/
def Understood (tokens : List Token) : Phrase → Prop
  | .value operand => ∃ token, tokens = [token] ∧ Operand.ofToken? token = some operand
  | .instruction instruction =>
    ∀ done context state, BeforeInstruction done context state →
      ∃ next, state.read? tokens = some next ∧
        AfterInstruction done (context.add instruction) next
  | .branches branches =>
    ∀ done context state, BeforeInstruction done context state →
      state.read? tokens = some ⟨done, .inside context (.branchEnd branches.reverse false)⟩
  | .sequence instructions =>
    ∀ done context state, BeforeInstruction done context state →
      ∃ next, state.read? tokens = some next ∧
        AfterInstruction done (context.addAll instructions) next
  | .block body =>
    ∃ opening rest, tokens = .keyword opening :: rest ∧ opening.opensBlock = true ∧
      ∀ done context, ParserState.read? ⟨done, .inside context .instruction⟩ rest =
        some ((context.addAll body).close done)
  | .subroutine subroutine =>
    ∀ done, ParserState.read? ⟨done, .subroutine⟩ tokens =
      some ⟨subroutine :: done, .subroutineEnd⟩
  | .subroutines subroutines =>
    ∀ done, ParserState.read? ⟨done, .subroutine⟩ tokens =
      some ⟨subroutines.reverse ++ done, .subroutineEnd⟩
  | .program subroutines =>
    ∃ state, ParserState.initial.read? tokens = some state ∧ state.finish? = some subroutines

/-- An instruction is understood if its first token starts it and the others lead
to its end; from both states before an instruction the way is the same. -/
theorem understood_instruction {instruction : Instruction} {first : Token} {rest : List Token}
    (alike : MeansAlike first)
    (reads : ∀ done context, (Context.start? done context first).bind (·.read? rest) =
      some ⟨done, .inside (context.add instruction) .instructionEnd⟩) :
    Understood (first :: rest) (.instruction instruction) := by
  intro done context state before
  refine ⟨_, ?_, .plain _⟩
  rw [ParserState.read?_cons, before.next?_eq alike]
  exact reads done context

namespace Understood

variable {operand : Operand} {body : Block} {branches : List Branch}
variable {value block before tokens : List Token}

/-- A block after line breaks, where a nested block has to be opened. -/
theorem read?_opening (understood : Understood block (.block body)) (done : List Subroutine)
    (context : Context) (kind : Nested) (breaks : Nat) :
    ParserState.read? ⟨done, .inside context (.opening kind)⟩ (lineBreaks breaks ++ block) =
      some (Context.close done (.nested kind body.reverse context)) := by
  obtain ⟨opening, rest, rfl, opens, reads⟩ := understood
  have stays := ParserState.read?_lineBreaks_of_next?_eq_self
    ⟨done, .inside context (.opening kind)⟩ rfl breaks
  have inner := reads done (.nested kind [] context)
  rw [Context.addAll_nested, List.append_nil] at inner
  rw [ParserState.read?_append_of_eq_some stays]
  simpa [Context.next?, Token.opensBlock, opens] using inner

/-- A block after line breaks, behind a subroutine's name. -/
theorem read?_heading (understood : Understood block (.block body)) (done : List Subroutine)
    (name : String) (breaks : Nat) :
    ParserState.read? ⟨done, .heading name⟩ (lineBreaks breaks ++ block) =
      some ⟨⟨name, body⟩ :: done, .subroutineEnd⟩ := by
  obtain ⟨opening, rest, rfl, opens, reads⟩ := understood
  have stays := ParserState.read?_lineBreaks_of_next?_eq_self ⟨done, .heading name⟩ rfl breaks
  have inner := reads done (.subroutine name [])
  rw [Context.addAll_subroutine, List.append_nil] at inner
  rw [ParserState.read?_append_of_eq_some stays]
  simpa [Token.opensBlock, opens, Context.close] using inner

/-- A branch behind `if` or `elif`: a value, line breaks and a block. -/
theorem read?_branch (understoodValue : Understood value (.value operand))
    (understoodBlock : Understood block (.block body)) (done : List Subroutine)
    (context : Context) (earlier : List Branch) (breaks : Nat) :
    ParserState.read? ⟨done, .inside context (.value (.branch earlier))⟩
        (value ++ lineBreaks breaks ++ block) =
      some ⟨done, .inside context (.branchEnd (⟨operand, body⟩ :: earlier) false)⟩ := by
  obtain ⟨token, rfl, reads⟩ := understoodValue
  have inner := understoodBlock.read?_opening done context (.branch earlier operand) breaks
  simpa [Context.next?, reads, Context.useValue, Context.close] using inner

/-- The branches of a conditional and line breaks after them: the conditional may
still go on. -/
theorem exists_read?_branchEnd (understood : Understood before (.branches branches))
    {done : List Subroutine} {context : Context} {state : ParserState}
    (start : BeforeInstruction done context state) (breaks : Nat) :
    ∃ broken, state.read? (before ++ lineBreaks breaks) =
      some ⟨done, .inside context (.branchEnd branches.reverse broken)⟩ := by
  rw [ParserState.read?_append_of_eq_some (understood done context state start)]
  cases breaks with
  | zero => exact ⟨false, rfl⟩
  | succ breaks =>
    exact ⟨true, ParserState.read?_lineBreaks_of_next?_eq_self
      ⟨done, .inside context (.branchEnd branches.reverse true)⟩ rfl breaks⟩

theorem loop (understoodValue : Understood value (.value operand))
    (understoodBlock : Understood block (.block body)) (breaks : Nat) :
    Understood (.keyword .whileWord :: value ++ lineBreaks breaks ++ block)
      (.instruction (.loop operand body)) := by
  obtain ⟨token, rfl, reads⟩ := understoodValue
  apply understood_instruction (by decide)
  intro done context
  have inner := understoodBlock.read?_opening done context (.loop operand) breaks
  simpa [Context.start?, Context.next?, reads, Context.useValue, Context.close] using inner

theorem ifBranch (understoodValue : Understood value (.value operand))
    (understoodBlock : Understood block (.block body)) (breaks : Nat) :
    Understood (.keyword .ifWord :: value ++ lineBreaks breaks ++ block)
      (.branches [⟨operand, body⟩]) := by
  intro done context state start
  have alike : MeansAlike (.keyword .ifWord) := by decide
  have step := start.next?_eq alike
  have inner := understoodValue.read?_branch understoodBlock done context [] breaks
  simpa [step, Context.start?] using inner

theorem elifBranch (understoodBefore : Understood before (.branches branches))
    (understoodValue : Understood value (.value operand))
    (understoodBlock : Understood block (.block body)) (breaksBefore breaks : Nat) :
    Understood (before ++ lineBreaks breaksBefore ++ .keyword .elifWord :: value ++
        lineBreaks breaks ++ block)
      (.branches (branches ++ [⟨operand, body⟩])) := by
  intro done context state start
  obtain ⟨broken, reads⟩ := understoodBefore.exists_read?_branchEnd start breaksBefore
  have inner := understoodValue.read?_branch understoodBlock done context branches.reverse breaks
  rw [List.append_assoc, List.append_assoc, ParserState.read?_append_of_eq_some reads]
  simpa [Context.next?] using inner

theorem conditional (understood : Understood tokens (.branches branches)) :
    Understood tokens (.instruction (.conditional branches none)) := by
  intro done context state start
  refine ⟨_, understood done context state start, ?_⟩
  have ends : AfterInstruction done _ _ := .afterBranch context branches.reverse
  simpa using ends

theorem conditionalElse (understoodBefore : Understood before (.branches branches))
    (understoodBlock : Understood block (.block body)) (breaksBefore breaks : Nat) :
    Understood (before ++ lineBreaks breaksBefore ++ .keyword .elseWord ::
        lineBreaks breaks ++ block)
      (.instruction (.conditional branches (some body))) := by
  intro done context state start
  obtain ⟨broken, reads⟩ := understoodBefore.exists_read?_branchEnd start breaksBefore
  have inner := understoodBlock.read?_opening done context (.otherwise branches.reverse) breaks
  refine ⟨_, ?_, .plain _⟩
  rw [List.append_assoc, ParserState.read?_append_of_eq_some reads]
  simpa [Context.next?, Context.close] using inner

theorem nextInstruction {earlier : List Instruction} {instruction : Instruction}
    (understoodBefore : Understood before (.sequence earlier))
    (understood : Understood tokens (.instruction instruction)) (breaks : Nat) :
    Understood (before ++ lineBreaks (breaks + 1) ++ tokens)
      (.sequence (earlier ++ [instruction])) := by
  intro done context state start
  obtain ⟨middle, readsBefore, after⟩ := understoodBefore done context state start
  obtain ⟨resumed, readsBreaks, startNext⟩ := after.exists_read?_lineBreaks breaks
  obtain ⟨next, reads, afterNext⟩ := understood done _ resumed startNext
  refine ⟨next, ?_, by simpa only [Context.addAll_concat] using afterNext⟩
  rw [List.append_assoc, ParserState.read?_append_of_eq_some readsBefore,
    ParserState.read?_append_of_eq_some readsBreaks, reads]

theorem emptyBlock {opening : Keyword} (opens : opening = .beginWord ∨ opening = .doWord)
    (breaks : Nat) :
    Understood (.keyword opening :: lineBreaks breaks ++ [.keyword .endWord]) (.block []) := by
  refine ⟨opening, lineBreaks breaks ++ [.keyword .endWord], rfl,
    by rcases opens with rfl | rfl <;> rfl, ?_⟩
  intro done context
  have stays := ParserState.read?_lineBreaks_of_next?_eq_self
    ⟨done, .inside context .instruction⟩ rfl breaks
  rw [ParserState.read?_append_of_eq_some stays]
  rfl

theorem filledBlock {opening : Keyword} (opens : opening = .beginWord ∨ opening = .doWord)
    (understood : Understood tokens (.sequence body)) (breaksBefore breaks : Nat) :
    Understood (.keyword opening :: lineBreaks breaksBefore ++ tokens ++ lineBreaks breaks ++
        [.keyword .endWord])
      (.block body) := by
  refine ⟨opening, lineBreaks breaksBefore ++ (tokens ++ (lineBreaks breaks ++
    [.keyword .endWord])), by simp, by rcases opens with rfl | rfl <;> rfl, ?_⟩
  intro done context
  have stays := ParserState.read?_lineBreaks_of_next?_eq_self
    ⟨done, .inside context .instruction⟩ rfl breaksBefore
  obtain ⟨next, reads, after⟩ := understood done context _ (.plain context)
  rw [ParserState.read?_append_of_eq_some stays, ParserState.read?_append_of_eq_some reads,
    after.read?_end]

/-- Line breaks after a subroutine lead before the next one. -/
theorem read?_separator (done : List Subroutine) (breaks : Nat) :
    ParserState.read? ⟨done, .subroutineEnd⟩ (lineBreaks (breaks + 1)) =
      some ⟨done, .subroutine⟩ :=
  ParserState.read?_lineBreaks_of_next?_eq_self ⟨done, .subroutine⟩ rfl breaks

theorem nextSubroutine {earlier : List Subroutine} {subroutine : Subroutine}
    (understoodBefore : Understood before (.subroutines earlier))
    (understood : Understood tokens (.subroutine subroutine)) (breaks : Nat) :
    Understood (before ++ lineBreaks (breaks + 1) ++ tokens)
      (.subroutines (earlier ++ [subroutine])) := by
  intro done
  rw [List.append_assoc, ParserState.read?_append_of_eq_some (understoodBefore done),
    ParserState.read?_append_of_eq_some (read?_separator _ breaks), understood]
  simp

/-- The text may end right after its last subroutine, and after line breaks there. -/
theorem program {subroutines : List Subroutine}
    (understood : Understood tokens (.subroutines subroutines)) (nonempty : subroutines ≠ [])
    (breaksBefore breaks : Nat) :
    Understood (lineBreaks breaksBefore ++ tokens ++ lineBreaks breaks)
      (.program subroutines) := by
  have stays := ParserState.read?_lineBreaks_of_next?_eq_self .initial rfl breaksBefore
  have reads : ParserState.initial.read? tokens =
      some ⟨subroutines.reverse, .subroutineEnd⟩ := by
    rw [ParserState.initial, understood, List.append_nil]
  rw [Understood, List.append_assoc, ParserState.read?_append_of_eq_some stays,
    ParserState.read?_append_of_eq_some reads]
  cases breaks with
  | zero => exact ⟨_, rfl, by simp [ParserState.finish?]⟩
  | succ breaks =>
    refine ⟨_, read?_separator _ breaks, ?_⟩
    cases reversed : subroutines.reverse with
    | nil => exact absurd (List.reverse_eq_nil_iff.mp reversed) nonempty
    | cons last others => simp [ParserState.finish?, ← reversed]

end Understood

/-- A text has a subroutine. -/
theorem ne_nil_of_spells_subroutines {tokens : List Token} {subroutines : List Subroutine}
    (spells : Spells tokens (.subroutines subroutines)) : subroutines ≠ [] := by
  cases spells with
  | firstSubroutine => simp
  | nextSubroutine => simp

theorem ne_nil_of_spells_program {tokens : List Token} {subroutines : List Subroutine}
    (spells : Spells tokens (.program subroutines)) : subroutines ≠ [] := by
  cases spells with
  | program countBefore count spells => exact ne_nil_of_spells_subroutines spells

/-- The tokens of a phrase are understood as the phrase. -/
theorem understood_of_spells {tokens : List Token} {phrase : Phrase}
    (spells : Spells tokens phrase) : Understood tokens phrase := by
  induction spells with
  | integer n => exact ⟨_, rfl, rfl⟩
  | float x => exact ⟨_, rfl, rfl⟩
  | text s => exact ⟨_, rfl, rfl⟩
  | identifier name => exact ⟨_, rfl, rfl⟩
  | assign target _ value =>
    obtain ⟨token, rfl, reads⟩ := value
    apply understood_instruction (by decide)
    intro done context
    simp [Context.start?, Context.next?, reads, Context.useValue, Context.useTarget]
  | push _ value | print _ value | exit _ value =>
    obtain ⟨token, rfl, reads⟩ := value
    apply understood_instruction (by decide)
    intro done context
    simp [Context.start?, Context.next?, reads, Context.useValue]
  | pop target | stop | store | load =>
    exact understood_instruction (by decide) fun _ _ => rfl
  | arithmetic op target | bitwise op target =>
    cases op <;> exact understood_instruction (by decide) fun _ _ => rfl
  | invoke name =>
    have alike : MeansAlike (.identifier name) := by simp [MeansAlike]
    exact understood_instruction alike fun _ _ => rfl
  | loop breaks _ _ value block => exact value.loop block breaks
  | ifBranch breaks _ _ value block => exact value.ifBranch block breaks
  | elifBranch breaksBefore breaks _ _ _ before value block =>
    exact before.elifBranch value block breaksBefore breaks
  | conditional _ branches => exact branches.conditional
  | conditionalElse breaksBefore breaks _ _ before block =>
    exact before.conditionalElse block breaksBefore breaks
  | firstInstruction _ instruction => exact instruction
  | nextInstruction breaks _ _ before instruction =>
    exact before.nextInstruction instruction breaks
  | emptyBlock breaks opens => exact .emptyBlock opens breaks
  | block breaksBefore breaks opens _ sequence =>
    exact .filledBlock opens sequence breaksBefore breaks
  | subroutine name breaks _ block => exact fun done => block.read?_heading done name breaks
  | firstSubroutine _ subroutine => exact subroutine
  | nextSubroutine breaks _ _ before subroutine =>
    exact before.nextSubroutine subroutine breaks
  | program breaksBefore breaks spells subroutines =>
    exact subroutines.program (ne_nil_of_spells_subroutines spells) breaksBefore breaks

end Grammar

end StackScript
