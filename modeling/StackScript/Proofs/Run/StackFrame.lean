import StackScript.Proofs.Run.Code
import StackScript.Proofs.Run.ControlFlow

/-!
# Values beneath the stack

Only `store` and `load` go through the whole stack. Code without them sees no
more of it than it pops, so values that lie beneath the stack stay where they
are and change nothing, as long as no instruction finds the stack empty without
them.
-/

namespace StackScript

namespace Machine

/-- The machine with these values beneath its stack, the first at the bottom. -/
def above (values : List Value) (machine : Machine) : Machine :=
  { machine with stack := values.toArray ++ machine.stack }

variable (values : List Value)

/-- A value on the top is the top, whatever lies beneath. -/
theorem top?_above {machine : Machine} {value : Value} (top : machine.top? = some value) :
    (machine.above values).top? = some value := by
  have back : machine.stack.back? = some value := top
  simp only [top?, above, Array.back?_append, back, Option.some_or]

/-- Calls notice nothing beneath the stack, nor does pushing, nor does popping a
value that is there. -/
theorem unnoticed_above : Unnoticed (above values) := by
  constructor
  · intro machine
    rfl
  · intro machine depth
    rfl
  · intro machine value
    simp only [above, Array.append_push]
  · intro machine value top
    have notEmpty : machine.stack.isEmpty = false := by
      rw [Array.isEmpty_eq_false_iff]
      rintro empty
      simp [top?, empty] at top
    simp [dropTop, above, Array.pop_append, notEmpty]

end Machine

/-- An instruction that looks at no more of the stack than it pops. -/
def Instruction.Local (instruction : Instruction) : Prop :=
  instruction ≠ .store ∧ instruction ≠ .load

/-- A run ended because an instruction found the stack empty. -/
def Ending.Underflowed (ending : Ending) : Prop :=
  ∃ op, ending.result = .error (.stackUnderflow op)

/-- A local instruction does the same above other values, unless it finds the
stack empty without them. -/
theorem Step.perform_above (values : List Value) (program : Program) (limits : Limits)
    (machine : Machine) (scopes : Scopes) (after : Block) (outer : List Suspension)
    {instruction : Instruction} (isLocal : instruction.Local) :
    (∃ ending, (perform program limits machine scopes after outer instruction).turn =
        .ended ending ∧ ending.Underflowed) ∨
      (perform program limits (machine.above values) scopes after outer instruction).turn =
        (perform program limits machine scopes after outer instruction).turn.mapMachine
          (Machine.above values) := by
  by_cases underflows : instruction.pops = true ∧ machine.top? = none
  · obtain ⟨pops, empty⟩ := underflows
    left
    cases instruction with
    | arithmetic op target =>
      simp only [perform, Machine.arithmetic, Machine.updateWithPopped, empty]
      exact ⟨_, rfl, op.mnemonic, rfl⟩
    | bitwise op target =>
      cases op with
      | and | or | xor =>
        simp only [perform, Machine.bitwise, Machine.updateWithPopped, empty]
        exact ⟨_, rfl, _, rfl⟩
      | negate | not => cases pops
    | pop target =>
      simp only [perform, Machine.pop, empty]
      exact ⟨_, rfl, .pop, rfl⟩
    | _ => cases pops
  · right
    apply perform_change (Machine.unnoticed_above values)
    · intro pops
      cases top : machine.top? with
      | none => exact absurd ⟨pops, top⟩ underflows
      | some value => exact machine.top?_above values top
    · intro source isPrint
      simp only [Machine.print]
      cases scopes.evaluate source <;> rfl
    · intro isStore
      exact absurd isStore isLocal.1
    · intro isLoad
      exact absurd isLoad isLocal.2

/-- A run, and the run of the same code above other values: the same run, as long
as the first has not found the stack empty. -/
inductive Turn.Framed (values : List Value) : Turn → Turn → Prop
  | underflowed {ending : Ending} {other : Turn} (underflow : ending.Underflowed) :
      Framed values (.ended ending) other
  | same {turn : Turn} (allLocal : turn.Throughout Instruction.Local) :
      Framed values turn (turn.mapMachine (Machine.above values))

/-- Every step keeps the two runs together. -/
theorem Turn.framed_step {values : List Value} {program : Program}
    (all : program.Throughout Instruction.Local) (limits : Limits) {turn framed : Turn}
    (before : turn.Framed values framed) :
    (turn.step program limits).turn.Framed values (framed.step program limits).turn := by
  cases before with
  | underflowed underflow => exact .underflowed underflow
  | same allLocal =>
    have next := throughout_step limits all.supplies allLocal
    cases turn with
    | ended ending => exact .same trivial
    | ongoing activity =>
      obtain ⟨machine, scopes, code, outer⟩ := activity
      cases code with
      | nil =>
        have same := Step.resume_change (Machine.unnoticed_above values) machine scopes outer
        simp only [mapMachine, step, Activity.step, same]
        exact .same next
      | cons instruction after =>
        have isLocal := (Block.throughout_cons_iff.mp allLocal.1).1
        rcases Step.perform_above values program limits machine scopes after outer isLocal with
          ⟨ending, ended, underflow⟩ | same
        · simp only [step, Activity.step, Step.announce, ended]
          exact .underflowed underflow
        · simp only [mapMachine, step, Activity.step, Step.announce, same]
          exact .same next

namespace Request

/-- Code without `store` and `load` never looks at what lies beneath the part of
the stack that it uses, and leaves it as it is. If a block has ended, and not by
finding the stack empty, then above other values it ends with the same result,
output, heap and scopes, and the stack it leaves lies above the same values. -/
theorem executeBlock_above_values {program : Program} {block : Block}
    (programLocal : program.Throughout Instruction.Local)
    (blockLocal : block.Throughout Instruction.Local) (values : List Value) (limits : Limits)
    (machine : Machine) (scopes : Scopes) (count : Nat) {ending : Ending}
    (ended : ((executeBlock block).run program limits machine scopes count).ending? = some ending)
    (noUnderflow : ¬ ending.Underflowed) :
    ((executeBlock block).run program limits (machine.above values) scopes count).ending? =
      some { ending with machine := ending.machine.above values } := by
  have framed : ((executeBlock block).run program limits machine scopes count).Framed values
      ((executeBlock block).run program limits (machine.above values) scopes count) := by
    apply Turn.advance_lockstep (Turn.Framed values)
    · exact .same ⟨blockLocal, nofun⟩
    · intro turn framed before
      exact Turn.framed_step programLocal limits before
  rw [Turn.ending?_eq_some_iff.mp ended] at framed
  generalize (executeBlock block).run program limits (machine.above values) scopes count = above
    at framed ⊢
  cases framed with
  | underflowed underflow => exact absurd underflow noUnderflow
  | same allLocal => rfl

end Request

/-- A program whose entry point pops a value and pushes it twice. -/
def Program.doubling : Program where
  subroutines := [⟨entryPoint, [.pop "x", .push (.identifier "x"), .push (.identifier "x")]⟩]
  sorted := List.pairwise_singleton _ _
  definesEntryPoint := ⟨_, List.mem_singleton_self _, rfl⟩

/-- A block that calls it and leaves the whole run finds the value it has pushed
itself, and not the one beneath. -/
theorem Request.doubling_above_value :
    Program.doubling.Throughout Instruction.Local ∧
    Block.Throughout Instruction.Local
      [.push (.integer 5), .invoke entryPoint, .pop "y", .exit (.identifier "y")] ∧
    ∃ ending,
      ((executeBlock [.push (.integer 5), .invoke entryPoint, .pop "y",
        .exit (.identifier "y")]).run .doubling .default
          ((Machine.initial (.empty none)).above [.integer 7]) .initial 8).ending? =
        some ending ∧
      ending.result = .ok (.halted (.integer 5)) ∧
      ending.machine.stack = #[.integer 7, .integer 5] := by
  have programLocal : Program.doubling.Throughout Instruction.Local := by
    intro subroutine mem
    rw [List.mem_singleton.mp mem]
    simp [Block.throughout_cons_iff, Block.throughout_nil, Instruction.Local, Instruction.blocks]
  have blockLocal : Block.Throughout Instruction.Local
      [.push (.integer 5), .invoke entryPoint, .pop "y", .exit (.identifier "y")] := by
    simp [Block.throughout_cons_iff, Block.throughout_nil, Instruction.Local, Instruction.blocks]
  have alone : ∃ ending,
      ((executeBlock [.push (.integer 5), .invoke entryPoint, .pop "y",
        .exit (.identifier "y")]).run .doubling .default (.initial (.empty none)) .initial
          8).ending? = some ending ∧
      ending.result = .ok (.halted (.integer 5)) ∧ ending.machine.stack = #[.integer 5] :=
    ⟨_, rfl, rfl, rfl⟩
  obtain ⟨ending, ended, result, stack⟩ := alone
  have noUnderflow : ¬ ending.Underflowed := by
    rintro ⟨op, faulted⟩
    rw [result] at faulted
    cases faulted
  have framed := executeBlock_above_values programLocal blockLocal [.integer 7] .default
    (.initial (.empty none)) .initial 8 ended noUnderflow
  refine ⟨programLocal, blockLocal, _, framed, result, ?_⟩
  simp only [Machine.above, stack, List.append_toArray]
  rfl

end StackScript
