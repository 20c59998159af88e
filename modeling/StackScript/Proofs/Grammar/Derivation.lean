import StackScript.Proofs.Grammar.Acceptance

/-!
# What a parser state has read

`HasRead state tokens` says in terms of the grammar what a state knows of the
tokens before it: which phrases they spell in full and which phrases are still
open. One token keeps this true, so it is true of every run from the beginning,
and where a run may end it is a derivation of the whole program.
-/

namespace StackScript

open Grammar

/-- The instructions of the innermost block, latest first. -/
def Context.body : Context → List Instruction
  | .subroutine _ body => body
  | .nested _ body _ => body

@[simp]
theorem Context.body_add (context : Context) (instruction : Instruction) :
    (context.add instruction).body = instruction :: context.body := by
  cases context <;> rfl

namespace Grammar

/-! ## Lists with line breaks between their items -/

/-- The tokens of some items, latest first, up to a place where another item may
stand: line breaks separate it from what comes before. -/
inductive Ready {α : Type} (phrase : List α → Phrase) : List α → List Token → Prop where
  | first (breaks : Nat) : Ready phrase [] (lineBreaks breaks)
  | next {items : List α} {tokens : List Token} (breaksBefore breaks : Nat) :
    Spells tokens (phrase items.reverse) →
    Ready phrase items (lineBreaks breaksBefore ++ tokens ++ lineBreaks (breaks + 1))

/-- The tokens of some items, latest first, up to the end of the last one. -/
inductive Settled {α : Type} (phrase : List α → Phrase) : List α → List Token → Prop where
  | intro {items : List α} {tokens : List Token} (breaks : Nat) :
    Spells tokens (phrase items.reverse) → Settled phrase items (lineBreaks breaks ++ tokens)

section Lists

variable {α : Type} {phrase : List α → Phrase} {items : List α} {tokens : List Token}

theorem Ready.lineBreak (ready : Ready phrase items tokens) :
    Ready phrase items (tokens ++ [.lineBreak]) := by
  cases ready with
  | first breaks =>
    rw [lineBreaks_append_lineBreak]
    exact .first (breaks + 1)
  | next breaksBefore breaks spells =>
    rw [List.append_assoc, lineBreaks_append_lineBreak]
    exact .next breaksBefore (breaks + 1) spells

theorem Settled.lineBreaks (settled : Settled phrase items tokens) (count : Nat) :
    Ready phrase items (tokens ++ lineBreaks (count + 1)) := by
  obtain ⟨breaks, spells⟩ := settled
  exact .next breaks count spells

end Lists

variable {done : List Subroutine} {body : List Instruction} {context : Context}
variable {before tokens : List Token}

theorem Ready.instruction {instruction : Instruction} (ready : Ready .sequence body before)
    (spells : Spells tokens (.instruction instruction)) :
    Settled .sequence (instruction :: body) (before ++ tokens) := by
  cases ready with
  | first breaks => exact .intro breaks (.firstInstruction spells)
  | next breaksBefore breaks earlier =>
    rw [List.append_assoc, List.append_assoc, ← List.append_assoc _ (lineBreaks _)]
    apply Settled.intro breaksBefore
    rw [List.reverse_cons]
    exact .nextInstruction breaks earlier spells

theorem Ready.subroutine {subroutine : Subroutine} (ready : Ready .subroutines done before)
    (spells : Spells tokens (.subroutine subroutine)) :
    Settled .subroutines (subroutine :: done) (before ++ tokens) := by
  cases ready with
  | first breaks => exact .intro breaks (.firstSubroutine spells)
  | next breaksBefore breaks earlier =>
    rw [List.append_assoc, List.append_assoc, ← List.append_assoc _ (lineBreaks _)]
    apply Settled.intro breaksBefore
    rw [List.reverse_cons]
    exact .nextSubroutine breaks earlier spells

/-- The tokens behind the opening word make a block with the closing one. -/
def Closes (body : List Instruction) (tokens : List Token) : Prop :=
  ∀ opening, opening = .beginWord ∨ opening = .doWord →
    Spells (.keyword opening :: tokens ++ [.keyword .endWord]) (.block body.reverse)

theorem Ready.closes (ready : Ready .sequence body tokens) : Closes body tokens := by
  intro opening opens
  cases ready with
  | first breaks => exact .emptyBlock breaks opens
  | next breaksBefore breaks spells => exact .block breaksBefore (breaks + 1) opens spells

theorem Settled.closes (settled : Settled .sequence body tokens) : Closes body tokens := by
  intro opening opens
  obtain ⟨breaks, spells⟩ := settled
  simpa using Spells.block breaks 0 opens spells

/-! ## Unfinished phrases -/

/-- The tokens of a conditional up to the word before the next condition. -/
inductive AsksBranch : List Branch → List Token → Prop where
  | ifWord : AsksBranch [] [.keyword .ifWord]
  | elifWord {branches : List Branch} {before : List Token} (breaks : Nat) :
    Spells before (.branches branches.reverse) →
    AsksBranch branches (before ++ lineBreaks breaks ++ [.keyword .elifWord])

/-- The tokens of an instruction up to the place of a value. -/
inductive AsksValue : ValueUse → List Token → Prop where
  | assign : AsksValue .assign [.keyword .assign]
  | push : AsksValue .push [.keyword .push]
  | print : AsksValue .print [.keyword .print]
  | exit : AsksValue .exit [.keyword .exit]
  | loop : AsksValue .loop [.keyword .whileWord]
  | branch {branches : List Branch} {tokens : List Token} :
    AsksBranch branches tokens → AsksValue (.branch branches) tokens

/-- The tokens of an instruction up to the place of a variable's name. -/
inductive AsksTarget : TargetUse → List Token → Prop where
  | assign {source : Operand} {value : List Token} :
    Spells value (.value source) → AsksTarget (.assign source) (.keyword .assign :: value)
  | pop : AsksTarget .pop [.keyword .pop]
  | arithmetic (op : ArithmeticOp) : AsksTarget (.arithmetic op) [.keyword op.keyword]
  | bitwise (op : BitwiseOp) : AsksTarget (.bitwise op) [.keyword op.keyword]

/-- The tokens of an instruction up to the place of a nested block. -/
inductive AsksBlock : Nested → List Token → Prop where
  | loop {condition : Operand} {value : List Token} :
    Spells value (.value condition) →
    AsksBlock (.loop condition) (.keyword .whileWord :: value)
  | branch {branches : List Branch} {condition : Operand} {before value : List Token} :
    AsksBranch branches before → Spells value (.value condition) →
    AsksBlock (.branch branches condition) (before ++ value)
  | otherwise {branches : List Branch} {before : List Token} (breaks : Nat) :
    Spells before (.branches branches.reverse) →
    AsksBlock (.otherwise branches) (before ++ lineBreaks breaks ++ [.keyword .elseWord])

/-- The tokens up to the word that opens the innermost block, that word included. -/
inductive Opens (done : List Subroutine) : Context → List Token → Prop where
  | subroutine {before : List Token} {opening : Keyword} (name : String)
      (body : List Instruction) (breaks : Nat) :
    opening = .beginWord ∨ opening = .doWord → Ready .subroutines done before →
    Opens done (.subroutine name body)
      (before ++ .identifier name :: lineBreaks breaks ++ [.keyword opening])
  | nested {kind : Nested} {outer : Context} {around before head : List Token}
      {opening : Keyword} (body : List Instruction) (breaks : Nat) :
    opening = .beginWord ∨ opening = .doWord → Opens done outer around →
    Ready .sequence outer.body before → AsksBlock kind head →
    Opens done (.nested kind body outer)
      (around ++ before ++ head ++ lineBreaks breaks ++ [.keyword opening])

/-- The tokens of the innermost block behind the word that opens it. -/
inductive HasReadInside (body : List Instruction) : Point → List Token → Prop where
  | instruction {tokens : List Token} :
    Ready .sequence body tokens → HasReadInside body .instruction tokens
  | instructionEnd {tokens : List Token} :
    Settled .sequence body tokens → HasReadInside body .instructionEnd tokens
  | value {use : ValueUse} {before tokens : List Token} :
    Ready .sequence body before → AsksValue use tokens →
    HasReadInside body (.value use) (before ++ tokens)
  | target {use : TargetUse} {before tokens : List Token} :
    Ready .sequence body before → AsksTarget use tokens →
    HasReadInside body (.target use) (before ++ tokens)
  | opening {kind : Nested} {before tokens : List Token} (breaks : Nat) :
    Ready .sequence body before → AsksBlock kind tokens →
    HasReadInside body (.opening kind) (before ++ tokens ++ lineBreaks breaks)
  | branchEnd {branches : List Branch} {before tokens : List Token} (breaks : Nat) :
    Ready .sequence body before → Spells tokens (.branches branches.reverse) →
    HasReadInside body (.branchEnd branches (decide (0 < breaks)))
      (before ++ tokens ++ lineBreaks breaks)

/-- The tokens that a state has read. -/
inductive HasRead : ParserState → List Token → Prop where
  | subroutine {done : List Subroutine} {tokens : List Token} :
    Ready .subroutines done tokens → HasRead ⟨done, .subroutine⟩ tokens
  | subroutineEnd {done : List Subroutine} {tokens : List Token} :
    Settled .subroutines done tokens → HasRead ⟨done, .subroutineEnd⟩ tokens
  | heading {done : List Subroutine} {before : List Token} (name : String) (breaks : Nat) :
    Ready .subroutines done before →
    HasRead ⟨done, .heading name⟩ (before ++ .identifier name :: lineBreaks breaks)
  | inside {done : List Subroutine} {context : Context} {point : Point}
      {around tokens : List Token} :
    Opens done context around → HasReadInside context.body point tokens →
    HasRead ⟨done, .inside context point⟩ (around ++ tokens)

/-! ## One more token -/

/-- What stands in front of a block does not depend on what the block holds. -/
theorem Opens.add (opens : Opens done context before) (instruction : Instruction) :
    Opens done (context.add instruction) before := by
  cases opens with
  | subroutine name body breaks word ready =>
    exact .subroutine name (instruction :: body) breaks word ready
  | nested body breaks word around ready head =>
    exact .nested (instruction :: body) breaks word around ready head

/-- An instruction has been read to its end. -/
theorem Opens.instruction {instruction : Instruction} {around : List Token}
    (opens : Opens done context around) (ready : Ready .sequence context.body before)
    (spells : Spells tokens (.instruction instruction)) :
    HasRead ⟨done, .inside (context.add instruction) .instructionEnd⟩
      (around ++ (before ++ tokens)) := by
  apply HasRead.inside (opens.add instruction)
  apply HasReadInside.instructionEnd
  rw [Context.body_add]
  exact ready.instruction spells

/-- A branch and its block extend the conditional that asked for it. -/
theorem AsksBranch.spells_branches {branches : List Branch} {condition : Operand}
    {body : Block} {value block : List Token} (asks : AsksBranch branches before)
    (spellsValue : Spells value (.value condition)) (spellsBlock : Spells block (.block body))
    (breaks : Nat) :
    Spells (before ++ value ++ lineBreaks breaks ++ block)
      (.branches (List.reverse (⟨condition, body⟩ :: branches))) := by
  cases asks with
  | ifWord => exact .ifBranch breaks spellsValue spellsBlock
  | elifWord breaksBefore earlier =>
    rw [List.reverse_cons]
    simpa using Spells.elifBranch breaksBefore breaks earlier spellsValue spellsBlock

/-- The end of a block ends what it is the block of. -/
theorem Opens.close {around : List Token} (opens : Opens done context around)
    (closes : Closes context.body tokens) :
    HasRead (context.close done) (around ++ tokens ++ [.keyword .endWord]) := by
  cases opens with
  | subroutine name body breaks word ready =>
    have spells := Spells.subroutine name breaks (closes _ word)
    simpa [Context.close, Context.body] using HasRead.subroutineEnd (ready.subroutine spells)
  | @nested kind outer _ _ _ _ body breaks word around ready head =>
    have block := closes _ word
    cases head with
    | loop value =>
      have spells := Spells.loop breaks value block
      simpa [Context.close, Context.body] using around.instruction ready spells
    | branch asks value =>
      have branches := asks.spells_branches value block breaks
      simpa [Context.close, Context.body] using HasRead.inside around (.branchEnd 0 ready branches)
    | otherwise breaksBefore branches =>
      have spells := Spells.conditionalElse breaksBefore breaks branches block
      simpa [Context.close, Context.body] using around.instruction ready spells

section Step

variable {around : List Token} {token : Token} {state next : ParserState}

/-- The first word of an instruction, or the end of the block. -/
theorem HasRead.of_start? (opens : Opens done context around)
    (ready : Ready .sequence context.body before)
    (starts : context.start? done token = some next) :
    HasRead next (around ++ (before ++ [token])) := by
  cases token with
  | identifier name =>
    cases starts
    exact opens.instruction ready (.invoke name)
  | keyword word =>
    cases word with
    | beginWord | doWord | elifWord | elseWord => cases starts
    | endWord =>
      cases starts
      simpa using opens.close ready.closes
    | ifWord =>
      cases starts
      exact .inside opens (.value ready (.branch .ifWord))
    | whileWord =>
      cases starts
      exact .inside opens (.value ready .loop)
    | assign =>
      cases starts
      exact .inside opens (.value ready .assign)
    | push =>
      cases starts
      exact .inside opens (.value ready .push)
    | print =>
      cases starts
      exact .inside opens (.value ready .print)
    | exit =>
      cases starts
      exact .inside opens (.value ready .exit)
    | pop =>
      cases starts
      exact .inside opens (.target ready .pop)
    | add =>
      cases starts
      exact .inside opens (.target ready (.arithmetic .add))
    | subtract =>
      cases starts
      exact .inside opens (.target ready (.arithmetic .subtract))
    | multiply =>
      cases starts
      exact .inside opens (.target ready (.arithmetic .multiply))
    | divide =>
      cases starts
      exact .inside opens (.target ready (.arithmetic .divide))
    | and =>
      cases starts
      exact .inside opens (.target ready (.bitwise .and))
    | or =>
      cases starts
      exact .inside opens (.target ready (.bitwise .or))
    | xor =>
      cases starts
      exact .inside opens (.target ready (.bitwise .xor))
    | negate =>
      cases starts
      exact .inside opens (.target ready (.bitwise .negate))
    | not =>
      cases starts
      exact .inside opens (.target ready (.bitwise .not))
    | stop =>
      cases starts
      exact opens.instruction ready .stop
    | store =>
      cases starts
      exact opens.instruction ready .store
    | load =>
      cases starts
      exact opens.instruction ready .load
  | integer | float | text | lineBreak => cases starts

/-- Before an instruction a line break changes nothing. -/
theorem HasRead.of_atInstruction? (opens : Opens done context around)
    (ready : Ready .sequence context.body before)
    (step : context.atInstruction? done token = some next) :
    HasRead next (around ++ (before ++ [token])) := by
  by_cases isBreak : token = .lineBreak
  · subst isBreak
    cases step
    exact .inside opens (.instruction ready.lineBreak)
  · have starts : context.start? done token = some next := by
      simpa only [Context.atInstruction?] using step
    exact .of_start? opens ready starts

/-- Right after an instruction stands a line break or the end of the block. -/
theorem HasRead.of_atInstructionEnd? (opens : Opens done context around)
    (settled : Settled .sequence context.body before)
    (step : context.atInstructionEnd? done token = some next) :
    HasRead next (around ++ (before ++ [token])) := by
  simp only [Context.atInstructionEnd?] at step
  split at step
  · cases step
    exact .inside opens (.instruction (settled.lineBreaks 0))
  · cases step
    simpa using opens.close settled.closes
  · cases step

/-- A value ends an instruction or leads to what follows it there. -/
theorem HasRead.of_useValue {use : ValueUse} {operand : Operand} {value : List Token}
    (opens : Opens done context around) (ready : Ready .sequence context.body before)
    (asks : AsksValue use tokens) (spells : Spells value (.value operand)) :
    HasRead (context.useValue done operand use) (around ++ (before ++ (tokens ++ value))) := by
  cases asks with
  | assign => exact .inside opens (.target ready (.assign spells))
  | push => exact opens.instruction ready (.push spells)
  | print => exact opens.instruction ready (.print spells)
  | exit => exact opens.instruction ready (.exit spells)
  | loop =>
    simpa [Context.useValue] using HasRead.inside opens (.opening 0 ready (.loop spells))
  | branch asks =>
    simpa [Context.useValue] using HasRead.inside opens (.opening 0 ready (.branch asks spells))

/-- A variable's name ends an instruction. -/
theorem HasRead.of_useTarget {use : TargetUse} (opens : Opens done context around)
    (ready : Ready .sequence context.body before) (asks : AsksTarget use tokens)
    (name : String) :
    HasRead (context.useTarget done name use)
      (around ++ (before ++ (tokens ++ [.identifier name]))) := by
  cases asks with
  | assign spells => exact opens.instruction ready (.assign name spells)
  | pop => exact opens.instruction ready (.pop name)
  | arithmetic op => exact opens.instruction ready (.arithmetic op name)
  | bitwise op => exact opens.instruction ready (.bitwise op name)

/-- Tokens that open a block are its two words. -/
theorem exists_keyword_of_opensBlock (opensBlock : token.opensBlock = true) :
    ∃ opening, token = .keyword opening ∧ (opening = .beginWord ∨ opening = .doWord) := by
  cases token with
  | keyword word => cases word <;> simp_all [Token.opensBlock, Keyword.opensBlock]
  | identifier | integer | float | text | lineBreak => cases opensBlock

/-- A token that spells a value. -/
theorem spells_of_ofToken? {operand : Operand} (reads : Operand.ofToken? token = some operand) :
    Spells [token] (.value operand) := by
  cases token with
  | integer n => cases reads; exact .integer n
  | float x => cases reads; exact .float x
  | text s => cases reads; exact .text s
  | identifier name => cases reads; exact .identifier name
  | keyword | lineBreak => cases reads

/-- After a branch the conditional goes on, or the token is one that may stand after
the whole conditional; then line breaks in between count as those after it. -/
theorem HasRead.of_branchEnd {branches : List Branch} (opens : Opens done context around)
    (breaks : Nat) (ready : Ready .sequence context.body before)
    (spells : Spells tokens (.branches branches.reverse))
    (step : context.next? done token (.branchEnd branches (decide (0 < breaks))) = some next) :
    HasRead next (around ++ (before ++ tokens ++ lineBreaks breaks ++ [token])) := by
  simp only [Context.next?] at step
  split at step
  · cases step
    rw [List.append_assoc, lineBreaks_append_lineBreak]
    simpa using HasRead.inside opens (.branchEnd (breaks + 1) ready spells)
  · cases step
    simpa using HasRead.inside opens (.value ready (.branch (.elifWord breaks spells)))
  · cases step
    simpa using HasRead.inside opens (.opening 0 ready (.otherwise breaks spells))
  · have settled := ready.instruction (.conditional spells)
    rw [← Context.body_add] at settled
    cases breaks with
    | zero => simpa using HasRead.of_atInstructionEnd? (opens.add _) settled step
    | succ breaks =>
      have readyNext := settled.lineBreaks breaks
      exact .of_atInstruction? (opens.add _) readyNext step

/-- One token inside a block. -/
theorem HasRead.of_next? {point : Point} (opens : Opens done context around)
    (reads : HasReadInside context.body point tokens)
    (step : context.next? done token point = some next) :
    HasRead next (around ++ (tokens ++ [token])) := by
  cases reads with
  | instruction ready => exact .of_atInstruction? opens ready step
  | instructionEnd settled => exact .of_atInstructionEnd? opens settled step
  | value ready asks =>
    obtain ⟨operand, spells, rfl⟩ := Option.map_eq_some_iff.mp step
    simpa using HasRead.of_useValue opens ready asks (spells_of_ofToken? spells)
  | target ready asks =>
    cases token with
    | identifier name =>
      cases step
      simpa using HasRead.of_useTarget opens ready asks name
    | keyword | integer | float | text | lineBreak => cases step
  | opening breaks ready asks =>
    simp only [Context.next?] at step
    split at step
    · rename_i opensBlock
      obtain ⟨opening, rfl, word⟩ := exists_keyword_of_opensBlock opensBlock
      cases step
      simpa using HasRead.inside (.nested [] breaks word opens ready asks)
        (.instruction (.first 0))
    · split at step
      · subst token
        cases step
        simpa [lineBreaks_append_lineBreak] using
          HasRead.inside opens (.opening (breaks + 1) ready asks)
      · cases step
  | branchEnd breaks ready spells => exact .of_branchEnd opens breaks ready spells step

/-- One more token. -/
theorem HasRead.append (reads : HasRead state before) (step : state.next? token = some next) :
    HasRead next (before ++ [token]) := by
  cases reads with
  | subroutine ready =>
    cases token with
    | lineBreak =>
      cases step
      exact .subroutine ready.lineBreak
    | identifier name =>
      cases step
      exact .heading name 0 ready
    | keyword | integer | float | text => cases step
  | subroutineEnd settled =>
    cases token with
    | lineBreak =>
      cases step
      exact .subroutine (settled.lineBreaks 0)
    | keyword | identifier | integer | float | text => cases step
  | heading name breaks ready =>
    rw [ParserState.next?_heading] at step
    split at step
    · rename_i opensBlock
      obtain ⟨opening, rfl, word⟩ := exists_keyword_of_opensBlock opensBlock
      cases step
      simpa using HasRead.inside (.subroutine name [] breaks word ready) (.instruction (.first 0))
    · split at step
      · subst token
        cases step
        simpa [lineBreaks_append_lineBreak] using HasRead.heading name (breaks + 1) ready
      · cases step
  | inside opens inner =>
    rw [List.append_assoc]
    exact .of_next? opens inner step

/-- So many more tokens. -/
theorem HasRead.read? (reads : HasRead state before) (run : state.read? tokens = some next) :
    HasRead next (before ++ tokens) := by
  induction tokens generalizing state before with
  | nil =>
    cases run
    simpa using reads
  | cons token rest ih =>
    obtain ⟨middle, step, run⟩ := Option.bind_eq_some_iff.mp run
    simpa using ih (reads.append step) run

/-! ## Whole texts -/

/-- A state that the parser reaches has read what led to it. -/
theorem hasRead_of_read? (run : ParserState.initial.read? tokens = some state) :
    HasRead state tokens :=
  HasRead.read? (.subroutine (.first 0)) run

/-- Where the text may end, the tokens spell the subroutines read. -/
theorem HasRead.spells_program {subroutines : List Subroutine} (reads : HasRead state tokens)
    (finish : state.finish? = some subroutines) : Spells tokens (.program subroutines) := by
  cases reads with
  | @subroutine done _ ready =>
    cases done with
    | nil => cases finish
    | cons last others =>
      cases finish
      cases ready with
      | next breaksBefore breaks spells => exact .program breaksBefore (breaks + 1) spells
  | subroutineEnd settled =>
    obtain ⟨breaksBefore, spells⟩ := settled
    cases finish
    simpa using Spells.program breaksBefore 0 spells
  | heading => cases finish
  | inside => cases finish

end Step

/-- The parser without its nesting limit accepts exactly the tokens that spell a
program, and gives the subroutines that they spell. -/
theorem spells_program_iff {tokens : List Token} {subroutines : List Subroutine} :
    Spells tokens (.program subroutines) ↔
      ∃ state, ParserState.initial.read? tokens = some state ∧
        state.finish? = some subroutines := by
  constructor
  · intro spells
    exact understood_of_spells spells
  · rintro ⟨state, run, finish⟩
    exact (hasRead_of_read? run).spells_program finish

/-- Tokens spell one program at most. -/
theorem spells_program_unique {tokens : List Token} {first second : List Subroutine}
    (spellsFirst : Spells tokens (.program first))
    (spellsSecond : Spells tokens (.program second)) : first = second := by
  obtain ⟨state, run, finish⟩ := spells_program_iff.mp spellsFirst
  obtain ⟨other, otherRun, otherFinish⟩ := spells_program_iff.mp spellsSecond
  obtain rfl : state = other := Option.some.inj (run.symm.trans otherRun)
  exact Option.some.inj (finish.symm.trans otherFinish)

end Grammar

end StackScript
