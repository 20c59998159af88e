import Mathlib.Logic.Function.Basic
import Mathlib.Data.Int.Notation
import StackScript.Activity

/-!
# Arithmetic without bounds

The language of integers that are as long as they need to be, and of straight-line code.
It assigns, pushes and pops, and its operations are those of a ring besides the
complement, which is one less than the opposite. It looks names up, runs out of stack
and stops at the first fault as the language of words does.
-/

namespace StackScript

/-! ## Code -/

/-- What an instruction on integers reads: a literal, or the variable of that name. -/
inductive IntegerOperand where
  | literal (n : Int64)
  | named (name : String)
  deriving DecidableEq

/-- Arithmetic that does not divide. -/
inductive RingOp where
  | add
  | subtract
  | multiply
  deriving DecidableEq

/-- An instruction that makes integers of integers and never fails on their kind. -/
inductive IntegerInstruction where
  | assign (source : IntegerOperand) (target : String)
  | push (source : IntegerOperand)
  | pop (target : String)
  | combine (op : RingOp) (target : String)
  | negate (target : String)
  deriving DecidableEq

/-- The operand in a program. -/
def IntegerOperand.operand : IntegerOperand → Operand
  | .literal n => .integer n
  | .named name => .identifier name

/-- The operation in a program. -/
def RingOp.arithmetic : RingOp → ArithmeticOp
  | .add => .add
  | .subtract => .subtract
  | .multiply => .multiply

/-- The instruction in a program. -/
def IntegerInstruction.instruction : IntegerInstruction → Instruction
  | .assign source target => .assign source.operand target
  | .push source => .push source.operand
  | .pop target => .pop target
  | .combine op target => .arithmetic op.arithmetic target
  | .negate target => .bitwise .negate target

/-- The operation on integers. -/
def RingOp.onIntegers : RingOp → ℤ → ℤ → ℤ
  | .add, n, m => n + m
  | .subtract, n, m => n - m
  | .multiply, n, m => n * m

/-! ## States -/

/-- A stack and scopes that hold integers. -/
structure Unbounded where
  /-- The stack, its top first. -/
  stack : List ℤ
  /-- What the scopes bind, the innermost one first. -/
  frames : List (String → Option ℤ)

namespace Unbounded

/-- The integer of a name in the nearest frame that binds it, or the fault of reading it. -/
def resolve (state : Unbounded) (name : String) : Except Fault ℤ :=
  match state.frames.findSome? fun frame => frame name with
  | some n => .ok n
  | none => .error (.unboundName name)

/-- The integer of an operand. -/
def evaluate (state : Unbounded) : IntegerOperand → Except Fault ℤ
  | .literal n => .ok n.toInt
  | .named name => state.resolve name

/-- The place of the frame that a write changes: the nearest one that binds the name, or
else the innermost one. -/
def levelFor (state : Unbounded) (name : String) : Nat :=
  (state.frames.findIdx? fun frame => (frame name).isSome).getD 0

/-- Writes a name. -/
def assign (state : Unbounded) (name : String) (n : ℤ) : Unbounded where
  stack := state.stack
  frames := state.frames.modify (state.levelFor name) fun frame =>
    Function.update frame name (some n)

/-- Changes a variable by a function of its integer. -/
def update (state : Unbounded) (target : String) (change : ℤ → ℤ) : Unbounded × Option Fault :=
  match state.resolve target with
  | .ok n => (state.assign target (change n), none)
  | .error fault => (state, some fault)

/-- What an instruction does, and the fault if it fails. -/
def perform (state : Unbounded) : IntegerInstruction → Unbounded × Option Fault
  | .assign source target =>
    match state.evaluate source with
    | .ok n => (state.assign target n, none)
    | .error fault => (state, some fault)
  | .push source =>
    match state.evaluate source with
    | .ok n => (⟨n :: state.stack, state.frames⟩, none)
    | .error fault => (state, some fault)
  | .pop target =>
    match state.stack with
    | [] => (state, some (.stackUnderflow .pop))
    | top :: rest => (assign ⟨rest, state.frames⟩ target top, none)
  | .combine op target =>
    match state.stack with
    | [] => (state, some (.stackUnderflow op.arithmetic.mnemonic))
    -- The operand stays popped also if the variable has no value.
    | top :: rest => update ⟨rest, state.frames⟩ target fun n => op.onIntegers n top
  | .negate target => state.update target fun n => -n - 1

/-! ## Runs -/

/-- How a run of straight-line code ends. -/
structure Outcome where
  /-- The number of instructions before the one that fails, or of all. -/
  count : Nat
  state : Unbounded
  fault : Option Fault

/-- How a block that ends so is left. -/
def Outcome.result (outcome : Outcome) : Except Fault Flow :=
  match outcome.fault with
  | none => .ok .completed
  | some fault => .error fault

/-- Runs code up to the first fault. -/
def run (state : Unbounded) : List IntegerInstruction → Outcome
  | [] => ⟨0, state, none⟩
  | instruction :: after =>
    match state.perform instruction with
    | (next, none) =>
      let rest := next.run after
      ⟨rest.count + 1, rest.state, rest.fault⟩
    | (next, some fault) => ⟨0, next, some fault⟩

/-- The two faults of straight-line code on integers. -/
inductive Faults : Fault → Prop
  | unbound (name : String) : Faults (.unboundName name)
  | underflow (op : Mnemonic) : Faults (.stackUnderflow op)

section Faults

variable {state : Unbounded} {fault : Fault}

theorem faults_of_resolve {name : String} (failed : state.resolve name = .error fault) :
    Faults fault := by
  simp only [resolve] at failed
  split at failed
  · cases failed
  · cases failed
    exact .unbound name

theorem faults_of_evaluate {source : IntegerOperand}
    (failed : state.evaluate source = .error fault) : Faults fault := by
  cases source with
  | literal n => cases failed
  | named name => exact faults_of_resolve failed

theorem faults_of_update {target : String} {change : ℤ → ℤ}
    (failed : (state.update target change).2 = some fault) : Faults fault := by
  simp only [update] at failed
  split at failed
  · cases failed
  · rename_i unresolved
    cases failed
    exact faults_of_resolve unresolved

theorem faults_of_perform {instruction : IntegerInstruction}
    (failed : (state.perform instruction).2 = some fault) : Faults fault := by
  cases instruction <;> simp only [perform] at failed
  case assign | push =>
    split at failed
    · cases failed
    · rename_i unevaluated
      cases failed
      exact faults_of_evaluate unevaluated
  case pop =>
    split at failed
    · cases failed
      exact .underflow _
    · cases failed
  case combine =>
    split at failed
    · cases failed
      exact .underflow _
    · exact faults_of_update failed
  case negate => exact faults_of_update failed

end Faults

/-- A run that does not fail runs all instructions, and one that fails runs fewer and has
one of the two faults. -/
theorem count_run (state : Unbounded) (code : List IntegerInstruction) :
    ((state.run code).fault = none → (state.run code).count = code.length) ∧
    ∀ fault, (state.run code).fault = some fault →
      (state.run code).count < code.length ∧ Faults fault := by
  induction code generalizing state with
  | nil => exact ⟨fun _ => rfl, nofun⟩
  | cons instruction after ih =>
    rw [run]
    split
    · rename_i next performed
      obtain ⟨completed, failed⟩ := ih next
      constructor
      · intro noFault
        exact congrArg (· + 1) (completed noFault)
      · intro fault hasFault
        exact (failed fault hasFault).imp_left Nat.succ_lt_succ
    · rename_i next fault performed
      constructor
      · nofun
      · rintro _ ⟨⟩
        exact ⟨Nat.succ_pos _, faults_of_perform (congrArg Prod.snd performed)⟩

end Unbounded

end StackScript
