import StackScript.Proofs.Run.Faults
import StackScript.Proofs.Run.Values

/-!
# Programs on integers

A program without float and text literals computes with integers only, since all
operations on integers give integers, as long as it does not load: an unwritten cell
of the heap is read as the empty value. Such a program cannot fail because of the kind
of a value.
-/

namespace StackScript

/-- The value is an integer. -/
def Value.IsInteger (value : Value) : Prop :=
  ∃ n, value = .integer n

/-- The operand is an integer literal or a variable. -/
def Operand.IsIntegral : Operand → Prop
  | .integer _ => True
  | .identifier _ => True
  | .float _ => False
  | .text _ => False

/-- An instruction whose own operands are integers and variables, and which does not
load. -/
structure Instruction.Integral (instruction : Instruction) : Prop where
  operands : ∀ operand ∈ instruction.operands, operand.IsIntegral
  notLoad : instruction ≠ .load

theorem Instruction.integral_iff {instruction : Instruction} :
    instruction.Integral ↔
      (∀ operand ∈ instruction.operands, operand.IsIntegral) ∧ instruction ≠ .load := by
  constructor
  · rintro ⟨operands, notLoad⟩
    exact ⟨operands, notLoad⟩
  · rintro ⟨operands, notLoad⟩
    exact ⟨operands, notLoad⟩

/-- The faults that are left when all values are integers. -/
def Fault.OfIntegers : Fault → Prop
  | .typeMismatch .. => False
  | .unsupportedOperand .. => False
  | .stringLimit .. => False
  | .invalidAddress address => ∃ n, address = .integer n ∧ n < 0
  | _ => True

/-! ## Values -/

/-- All that an integral instruction brings in are integers. -/
theorem Instruction.Integral.introduces {instruction : Instruction}
    (integral : instruction.Integral) : instruction.Introduces Value.IsInteger where
  literal operand mem value isLiteral := by
    have isIntegral := integral.operands operand mem
    cases operand with
    | integer n =>
      cases isLiteral
      exact ⟨n, rfl⟩
    | identifier name => cases isLiteral
    | float | text => cases isIntegral
  empty isLoad := absurd isLoad integral.notLoad

/-- Operations on integers give integers. -/
theorem Value.kept_isInteger (limits : Limits) : Kept limits IsInteger where
  integer n := ⟨n, rfl⟩
  arithmetic := by
    rintro op target _ _ result ⟨a, rfl⟩ ⟨b, rfl⟩ computed
    exact ArithmeticOp.eq_integer_of_onIntegers computed

/-! ## Faults -/

section Faults

variable {program : Program} {limits : Limits} {machine left : Machine} {scopes : Scopes}
  {fault : Fault}

/-- Arithmetic on two integers fails only for a divisor of zero. -/
theorem ArithmeticOp.Refuses.ofIntegers {op : ArithmeticOp} {limit : Nat} {target : String}
    {left right : Value} (refuses : op.Refuses limit target left right fault)
    (ofLeft : left.IsInteger) (ofRight : right.IsInteger) : fault.OfIntegers := by
  obtain ⟨a, rfl⟩ := ofLeft
  obtain ⟨b, rfl⟩ := ofRight
  cases refuses with
  | zeroDivisor => trivial
  | tooLong makesText fromText | aborted makesText fromText =>
    rcases fromText with isText | isText
    · cases isText
    · cases isText
  | kinds undefined => cases op <;> cases undefined

/-- Storing at an integer fails for a negative one, or for a cell beyond the limit or out of
reach. -/
theorem Heap.Refuses.ofIntegers {limit reach : Nat} {address : Value}
    (refuses : Heap.Refuses limit reach address fault) (ofAddress : address.IsInteger) :
    fault.OfIntegers := by
  cases refuses with
  | invalid notNatural =>
    obtain ⟨n, rfl⟩ := ofAddress
    exact ⟨n, rfl, Int64.lt_iff_toInt_lt.mpr (notNatural n rfl)⟩
  | beyond | aborted => trivial

/-- Among integers an instruction that does not load cannot fail on kinds. -/
theorem Fails.ofIntegers {instruction : Instruction}
    (introduces : instruction.Introduces Value.IsInteger)
    (ofMachine : machine.AllValues Value.IsInteger) (ofScopes : scopes.AllValues Value.IsInteger)
    (fails : Fails program limits machine scopes instruction fault left) : fault.OfIntegers := by
  cases fails with
  | unbound | underflow | output | undefined | depth => trivial
  | arithmetic found top refuses =>
    exact refuses.ofIntegers (ofScopes.of_find? found) (ofMachine.of_top? top)
  | pair pops found top kinds =>
    have ofValue := Value.kind_eq_integer_iff.mpr (ofScopes.of_find? found)
    have ofOperand := Value.kind_eq_integer_iff.mpr (ofMachine.of_top? top)
    exact absurd ⟨ofValue, ofOperand⟩ kinds
  | complement found kind =>
    exact absurd (Value.kind_eq_integer_iff.mpr (ofScopes.of_find? found)) kind
  | store mem refuses => exact refuses.ofIntegers (ofMachine.stack _ mem)
  | load =>
    obtain ⟨n, isInteger⟩ := introduces.empty rfl
    cases isInteger

end Faults

/-! ## Runs -/

/-- All values of a run are integers, its code brings in no others, and if it has
failed, then not because of the kind of a value. -/
structure Turn.OnIntegers (turn : Turn) : Prop where
  closed : turn.Closed Value.IsInteger
  faults : ∀ ending fault, turn = .ended ending → ending.result = .error fault →
    fault.OfIntegers

section Runs

variable {program : Program} (integral : program.Throughout Instruction.Integral)

include integral

theorem Program.Throughout.introduces :
    program.Throughout (Instruction.Introduces Value.IsInteger) :=
  fun subroutine mem instruction within =>
    (integral subroutine mem instruction within).introduces

/-- Every step of an integral program stays on integers. -/
theorem Turn.onIntegers_step (limits : Limits) {turn : Turn} (before : turn.OnIntegers) :
    (turn.step program limits).turn.OnIntegers where
  closed := closed_step integral.introduces (Value.kept_isInteger limits) before.closed
  faults ending fault ended failed := by
    cases turn with
    | ended ending => exact before.faults _ fault ended failed
    | ongoing activity =>
      obtain ⟨code, ofMachine, ofScopes, _⟩ := before.closed
      obtain ⟨instruction, introduces, fails⟩ := activity.exists_fails code ended failed
      exact fails.ofIntegers introduces ofMachine ofScopes

namespace Request

/-- At every moment of a run of an integral program on a new machine all values on the
stack, in the heap and in the scopes are integers. The run does not end because of the
kind of a value or the length of a text, an address that is not valid is negative, and
the value that halts the run is an integer. -/
theorem integers_run (limits : Limits) (output : Output) (count : Nat) :
    (Request.execute.run program limits (.initial output) .initial count).AllValues
      Value.IsInteger ∧
    ∀ ending, (Request.execute.run program limits (.initial output) .initial count).ending? =
        some ending →
      (∀ fault, ending.result = .error fault → fault.OfIntegers) ∧
      ∀ code, ending.result = .ok (.halted code) → ∃ n, code = .integer n := by
  have atFirst :
      (Request.execute.start program limits (.initial output) .initial).turn.OnIntegers := by
    constructor
    · exact closed_start integral.introduces Block.throughout_nil
        (Machine.allValues_initial output) Scopes.allValues_initial
    · intro ending fault ended failed
      rw [eq_callDepth_of_start_execute ended failed]
      trivial
  have reached := Turn.advance_induction Turn.OnIntegers atFirst
    (fun _ => Turn.onIntegers_step integral limits) count
  refine ⟨reached.closed.values, ?_⟩
  intro ending ended
  have isEnded := Turn.ending?_eq_some_iff.mp ended
  constructor
  · intro fault failed
    exact reached.faults ending fault isEnded failed
  · have values : (Turn.ended ending).AllValues Value.IsInteger := isEnded ▸ reached.closed.values
    exact values.2.2

end Request

end Runs

/-- A program that divides a number by one that it pops, takes the complement, and
stores the result at the address that it is. -/
def Program.storingBelow : Program where
  subroutines := [⟨entryPoint, [.assign (.integer 6) "x", .conditional [⟨.identifier "x",
    [.push (.integer 4), .arithmetic .divide "x", .bitwise .negate "x"]⟩] none,
    .push (.identifier "x"), .push (.identifier "x"), .store]⟩]
  sorted := List.pairwise_singleton _ _
  definesEntryPoint := ⟨_, List.mem_singleton_self _, rfl⟩

/-- The address is negative, so that its run fails, but it is an integer. -/
theorem Request.storingBelow_integers :
    Program.storingBelow.Throughout Instruction.Integral ∧
    ∃ ending : Ending,
      (Request.execute.run .storingBelow .default (.initial (.empty none)) .initial 9).ending? =
        some ending ∧
      ending.result = .error (.invalidAddress (.integer (-2))) ∧
      ∃ n, Value.integer (-2) = .integer n ∧ n < 0 := by
  have integral : Program.storingBelow.Throughout Instruction.Integral := by
    intro subroutine mem
    obtain rfl := List.mem_singleton.mp mem
    simp [Instruction.blocks, Instruction.integral_iff, Instruction.operands,
      Operand.IsIntegral]
  have ended : (Request.execute.run .storingBelow .default (.initial (.empty none)) .initial
    9).ending? = some _ := rfl
  have run := integers_run integral .default (.empty none) 9
  exact ⟨integral, _, ended, rfl, (run.2 _ ended).1 _ rfl⟩

end StackScript
