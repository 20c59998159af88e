import StackScript.Proofs.Operation
import StackScript.Proofs.Run.Session
import StackScript.Proofs.Run.Values

/-!
# The sizes of texts

Only two operations make new texts, and both check the size of the result before they
make it. So a text that a machine comes upon is within the limit, or no longer than one
that is written in its code, however often and with whatever blocks the machine is
used.
-/

namespace StackScript

/-- A text literal of the program or of one of the blocks that are given to it. -/
def Program.Spells (program : Program) (given : List Block) (literal : String) : Prop :=
  ∃ instruction : Instruction, .text literal ∈ instruction.operands ∧
    (program.Contains instruction ∨ ∃ block ∈ given, instruction.Within block)

/-- If the value is a text, then it is within the limit or no longer than a literal. -/
def Value.Fits (program : Program) (limits : Limits) (given : List Block) (value : Value) : Prop :=
  ∀ s, value = .text s → s.utf8ByteSize ≤ limits.maxStringBytes ∨
    ∃ literal, program.Spells given literal ∧ s.utf8ByteSize ≤ literal.utf8ByteSize

theorem Value.kept_fits (program : Program) (limits : Limits) (given : List Block) :
    Kept limits (Fits program limits given) where
  integer n := nofun
  arithmetic := by
    rintro op target left right _ _ _ computed s rfl
    exact .inl (ArithmeticOp.utf8ByteSize_le_of_apply computed)

/-! ## Code -/

section Code

variable {program : Program} {given : List Block}

/-- An instruction of the program or of a given block brings in its own literals. -/
theorem Instruction.introduces_fits (limits : Limits) {instruction : Instruction}
    (known : program.Contains instruction ∨ ∃ block ∈ given, instruction.Within block) :
    instruction.Introduces (Value.Fits program limits given) where
  literal operand mem value isLiteral s isText := by
    subst isText
    cases operand with
    | integer | float | identifier => cases isLiteral
    | text literal =>
      cases isLiteral
      exact .inr ⟨s, ⟨instruction, mem, known⟩, Nat.le_refl _⟩
  empty _ := nofun

theorem Program.introduces_fits (program : Program) (limits : Limits) (given : List Block) :
    program.Throughout (Instruction.Introduces (Value.Fits program limits given)) :=
  fun subroutine mem _ within =>
    Instruction.introduces_fits limits (.inl ⟨subroutine, mem, within⟩)

theorem Block.introduces_fits (program : Program) (limits : Limits) {block : Block}
    (mem : block ∈ given) :
    block.Throughout (Instruction.Introduces (Value.Fits program limits given)) :=
  fun _ within => Instruction.introduces_fits limits (.inr ⟨block, mem, within⟩)

/-- One more block takes nothing away. -/
theorem Value.Fits.cons {limits : Limits} {value : Value} (fits : value.Fits program limits given)
    (block : Block) : value.Fits program limits (block :: given) := by
  intro s isText
  rcases fits s isText with within | ⟨literal, ⟨instruction, mem, known⟩, longer⟩
  · exact .inl within
  · refine .inr ⟨literal, ⟨instruction, mem, ?_⟩, longer⟩
    rcases known with contained | ⟨other, isGiven, within⟩
    · exact .inl contained
    · exact .inr ⟨other, List.mem_cons_of_mem _ isGiven, within⟩

end Code

/-! ## Sessions -/

/-- A use of a new machine into which nothing comes from outside but blocks: the scopes
of a request are new, or a request before has left them. The index lists the blocks
given and the scopes left so far. -/
inductive ClosedSession (program : Program) (limits : Limits) (output : Output) :
    List Block → List Scopes → Turn → Prop
  | here : ClosedSession program limits output [] [.initial] (.unused output)
  | request {given : List Block} {left : List Scopes} {ending : Ending}
      (before : ClosedSession program limits output given left (.ended ending))
      (request : Request) {scopes : Scopes} (known : scopes ∈ ending.scopes :: left) :
      ClosedSession program limits output (request.given :: given) (ending.scopes :: left)
        (request.start program limits ending.machine scopes).turn
  | step {given : List Block} {left : List Scopes} {turn : Turn}
      (before : ClosedSession program limits output given left turn) :
      ClosedSession program limits output given left (turn.step program limits).turn

namespace ClosedSession

variable {program : Program} {limits : Limits} {output : Output} {given : List Block}
  {left : List Scopes} {turn : Turn}

/-- All texts of the run fit, and so do those in the scopes left before. -/
theorem closed (session : ClosedSession program limits output given left turn) :
    turn.Closed (Value.Fits program limits given) ∧
      ∀ scopes ∈ left, scopes.AllValues (Value.Fits program limits given) := by
  induction session with
  | here =>
    refine ⟨⟨trivial, Machine.allValues_initial output, Scopes.allValues_initial, nofun⟩, ?_⟩
    intro scopes mem
    rw [List.mem_singleton.mp mem]
    exact Scopes.allValues_initial
  | @request given left ending before request scopes known ih =>
    -- The block that is given only adds literals, so what fitted before fits now.
    have more (value : Value) (fits : value.Fits program limits given) :
        value.Fits program limits (request.given :: given) := fits.cons request.given
    obtain ⟨ofMachine, ofEnding, _⟩ := ih.1.values
    have ofKnown : ∀ scopes ∈ ending.scopes :: left,
        scopes.AllValues (Value.Fits program limits (request.given :: given)) := by
      intro scopes mem
      exact (List.forall_mem_cons.mpr ⟨ofEnding, ih.2⟩ scopes mem).mono more
    have introduces := program.introduces_fits limits (request.given :: given)
    have ofGiven : Block.Throughout (Instruction.Introduces
        (Value.Fits program limits (request.given :: given))) request.given :=
      Block.introduces_fits program limits List.mem_cons_self
    exact ⟨Request.closed_start introduces ofGiven (ofMachine.mono more) (ofKnown scopes known),
      ofKnown⟩
  | @step given left turn before ih =>
    have introduces := program.introduces_fits limits given
    exact ⟨Turn.closed_step introduces (Value.kept_fits program limits given) ih.1, ih.2⟩

/-- At every moment of such a use every text on the stack, in the heap and in the scopes
of the active calls is within the limit, or no longer than a literal of the program or
of a block given so far. So is a text that has halted the run, and one that the next
step prints. If the limit and the literals are below 2^63 bytes, then all texts are, so
that the sum of two sizes is a word of sixty-four bits. -/
theorem texts_fit (session : ClosedSession program limits output given left turn) :
    turn.AllValues (Value.Fits program limits given) ∧
    turn.machine.output.Prints (Value.Fits program limits given)
      (turn.step program limits).turn.machine.output ∧
    (limits.maxStringBytes < 1 <<< 63 →
      (∀ literal, program.Spells given literal → literal.utf8ByteSize < 1 <<< 63) →
      turn.AllValues fun value => ∀ s, value = .text s → s.utf8ByteSize < 1 <<< 63) := by
  have closed := session.closed.1
  refine ⟨closed.values, closed.prints_step program limits, ?_⟩
  intro smallLimit smallLiterals
  apply closed.values.mono
  intro value fits s isText
  rcases fits s isText with within | ⟨literal, spelled, longer⟩
  · exact Nat.lt_of_le_of_lt within smallLimit
  · exact Nat.lt_of_le_of_lt longer (smallLiterals literal spelled)

end ClosedSession

/-- A program whose entry point doubles a text. -/
def Program.doublingText : Program where
  subroutines := [⟨entryPoint, [.assign (.text "é") "x", .push (.identifier "x"),
    .arithmetic .add "x"]⟩]
  sorted := List.pairwise_singleton _ _
  definesEntryPoint := ⟨_, List.mem_singleton_self _, rfl⟩

/-- Its block is given to its machine, and then one that prints the doubled text in the
scopes that are left. The four bytes are more than any literal has, but within the
limit. -/
theorem ClosedSession.doublingText_fits :
    ∃ left turn, ClosedSession .doublingText ⟨1, 0, 4⟩ (.empty none)
        [[.print (.identifier "x")], Program.doublingText.entry] left turn ∧
      turn.AllValues (Value.Fits .doublingText ⟨1, 0, 4⟩
        [[.print (.identifier "x")], Program.doublingText.entry]) ∧
      (turn.step .doublingText ⟨1, 0, 4⟩).turn.machine.output =
        (Output.empty none).write (Machine.printedLine (.text "éé")) := by
  have doubled : ClosedSession .doublingText ⟨1, 0, 4⟩ (.empty none)
      [Program.doublingText.entry] [.initial, .initial] _ :=
    .step (.step (.step (.step
      (.request .here (.executeBlock Program.doublingText.entry) List.mem_cons_self))))
  have session : ClosedSession .doublingText ⟨1, 0, 4⟩ (.empty none)
      [[.print (.identifier "x")], Program.doublingText.entry] _ _ :=
    .request doubled (.executeBlock [.print (.identifier "x")]) List.mem_cons_self
  exact ⟨_, _, session, (texts_fit session).1, rfl⟩

end StackScript
