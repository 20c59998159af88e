import StackScript.Proofs.Run.Integers
import StackScript.Proofs.Run.StraightLine
import StackScript.Proofs.Scopes.FlatTable
import StackScript.Proofs.Unbounded
import StackScript.Proofs.Wrapping

/-!
# Words in place of integers

Straight-line code runs on words as it does on integers without bounds: it takes the same
course to the same end, and at every place of the stack and under every name of the scopes
stands the integer that the unbounded run has there, wrapped. One instruction keeps this,
and so does a run.
-/

namespace StackScript

/-! ## States that agree -/

/-- The value is the integer wrapped. -/
def Value.Wraps (exact : ℤ) (value : Value) : Prop :=
  ∃ n, value = .integer n ∧ IsWrap n.toInt exact

/-- Both bind the same names, and each value is the integer wrapped. -/
def Frame.Wraps (exact : String → Option ℤ) (frame : Frame) : Prop :=
  ∀ name, Option.Rel Value.Wraps (exact name) (frame.get? name)

/-- Both readings fail with one fault, or the value is the integer wrapped. -/
def Value.ReadAlike (exact : Except Fault ℤ) (reading : Except Fault Value) : Prop :=
  (∃ fault, exact = .error fault ∧ reading = .error fault) ∨
    ∃ n value, exact = .ok n ∧ reading = .ok value ∧ value.Wraps n

/-- The state is that of the machine and its scopes before wrapping. -/
structure Unbounded.WrapsTo (state : Unbounded) (machine : Machine) (scopes : Scopes) : Prop where
  stack : List.Forall₂ Value.Wraps state.stack machine.stack.toList.reverse
  frames : List.Forall₂ Frame.Wraps state.frames scopes.frames

/-- The effect is what an instruction does without bounds, wrapped. -/
structure Effect.Wraps (exact : Unbounded × Option Fault) (effect : Effect) : Prop where
  fault : effect.fault = exact.2
  left : exact.1.WrapsTo effect.machine effect.scopes

/-- Either both are missing or both are there and related. -/
theorem cases_of_rel {α β : Type} {related : α → β → Prop} {first : Option α}
    {second : Option β} (rel : Option.Rel related first second) :
    first = none ∧ second = none ∨
      ∃ a b, first = some a ∧ second = some b ∧ related a b := by
  cases rel with
  | none => exact .inl ⟨rfl, rfl⟩
  | some related => exact .inr ⟨_, _, rfl, rfl, related⟩

/-! ## Operations -/

/-- Sums, differences and products of words are those of the integers, wrapped. -/
theorem RingOp.exists_wraps (op : RingOp) (limit : Nat) (target : String) {n m : ℤ}
    {left right : Value} (ofLeft : left.Wraps n) (ofRight : right.Wraps m) :
    ∃ result, op.arithmetic.apply limit target left right = .ok result ∧
      result.Wraps (op.onIntegers n m) := by
  obtain ⟨a, rfl, wrapsLeft⟩ := ofLeft
  obtain ⟨b, rfl, wrapsRight⟩ := ofRight
  cases op with
  | add => exact ⟨_, rfl, _, rfl, wrapsLeft.add wrapsRight⟩
  | subtract => exact ⟨_, rfl, _, rfl, wrapsLeft.sub wrapsRight⟩
  | multiply => exact ⟨_, rfl, _, rfl, wrapsLeft.mul wrapsRight⟩

theorem BitwiseOp.exists_wraps_complement {n : ℤ} {value : Value} (wraps : value.Wraps n) :
    ∃ result, complement value = .ok result ∧ result.Wraps (-n - 1) := by
  obtain ⟨a, rfl, wraps⟩ := wraps
  exact ⟨_, rfl, _, rfl, wraps.complement⟩

/-! ## Scopes -/

namespace Frame.Wraps

variable {exact : String → Option ℤ} {frame : Frame} (wraps : frame.Wraps exact)

include wraps

theorem isSome_eq (name : String) : (exact name).isSome = frame.binds name := by
  rcases cases_of_rel (wraps name) with ⟨unbound, missing⟩ | ⟨n, value, bound, found, _⟩
  · rw [binds, unbound, missing]
    rfl
  · rw [binds, bound, found]
    rfl

theorem set (name : String) {n : ℤ} {value : Value} (new : value.Wraps n) :
    (frame.set name value).Wraps (Function.update exact name (some n)) := by
  intro other
  rw [get?_set, Function.update_apply]
  split
  · exact .some new
  · exact wraps other

end Frame.Wraps

/-- A write changes the nearest frame that binds the name, or else the innermost one. -/
theorem Scopes.frames_assign_eq_modify (scopes : Scopes) (name : String) (value : Value) :
    (scopes.assign name value).frames =
      scopes.frames.modify ((scopes.frames.findIdx? fun frame => frame.binds name).getD 0)
        fun frame => frame.set name value := by
  have overwrite (frames : List Frame) : overwrite? name value frames =
      (frames.findIdx? fun frame => frame.binds name).map fun level =>
        frames.modify level fun frame => frame.set name value := by
    induction frames with
    | nil => rfl
    | cons frame rest ih =>
      rw [overwrite?, List.findIdx?_cons, ih]
      split
      · rfl
      · rw [Option.map_map, Option.map_map]
        rfl
  rw [frames_assign, overwrite]
  cases scopes.frames.findIdx? fun frame => frame.binds name with
  | none => rfl
  | some level => rfl

section Frames

variable {exacts : List (String → Option ℤ)} {frames : List Frame}
  (wraps : List.Forall₂ Frame.Wraps exacts frames)

include wraps

theorem rel_findSome?_of_wraps (name : String) :
    Option.Rel Value.Wraps (exacts.findSome? fun exact => exact name)
      (frames.findSome? fun frame => frame.get? name) := by
  induction wraps with
  | nil => exact .none
  | cons head _ ih =>
    rw [List.findSome?_cons, List.findSome?_cons]
    rcases cases_of_rel (head name) with ⟨unbound, missing⟩ | ⟨n, value, bound, found, wrapped⟩
    · rw [unbound, missing]
      exact ih
    · rw [bound, found]
      exact .some wrapped

theorem findIdx?_of_wraps (name : String) :
    (exacts.findIdx? fun exact => (exact name).isSome) =
      frames.findIdx? fun frame => frame.binds name := by
  induction wraps with
  | nil => rfl
  | cons head _ ih => rw [List.findIdx?_cons, List.findIdx?_cons, head.isSome_eq name, ih]

theorem modify_of_wraps (level : Nat) (name : String) {n : ℤ} {value : Value}
    (new : value.Wraps n) :
    List.Forall₂ Frame.Wraps
      (exacts.modify level fun exact => Function.update exact name (some n))
      (frames.modify level fun frame => frame.set name value) := by
  induction wraps generalizing level with
  | nil =>
    rw [List.modify_nil, List.modify_nil]
    exact .nil
  | cons head tail ih =>
    cases level with
    | zero => exact .cons (head.set name new) tail
    | succ level => exact .cons head (ih level)

end Frames

namespace Unbounded.WrapsTo

variable {state : Unbounded} {machine : Machine} {scopes : Scopes}

section

variable (wraps : state.WrapsTo machine scopes)

include wraps

/-- A name is unbound on both sides, or bound to an integer and to the same one wrapped. -/
theorem resolve (name : String) :
    Value.ReadAlike (state.resolve name) (scopes.resolve name) := by
  rw [Unbounded.resolve, Scopes.resolve, Scopes.find?]
  rcases cases_of_rel (rel_findSome?_of_wraps wraps.frames name) with
    ⟨unbound, missing⟩ | ⟨n, value, bound, found, wrapped⟩
  · rw [unbound, missing]
    exact .inl ⟨_, rfl, rfl⟩
  · rw [bound, found]
    exact .inr ⟨n, value, rfl, rfl, wrapped⟩

theorem evaluate (source : IntegerOperand) :
    Value.ReadAlike (state.evaluate source) (scopes.evaluate source.operand) := by
  cases source with
  | literal n => exact .inr ⟨n.toInt, .integer n, rfl, rfl, n, rfl, .toInt n⟩
  | named name => exact wraps.resolve name

theorem assign (name : String) {n : ℤ} {value : Value} (new : value.Wraps n) :
    (state.assign name n).WrapsTo machine (scopes.assign name value) where
  stack := wraps.stack
  frames := by
    rw [Scopes.frames_assign_eq_modify, ← findIdx?_of_wraps wraps.frames]
    exact modify_of_wraps wraps.frames _ name new

/-- A changed variable stays its integer wrapped if the change of words is the wrapped
change of integers. -/
theorem update (target : String) {change : ℤ → ℤ} {changeWord : Value → Except Fault Value}
    (agrees : ∀ {n value}, value.Wraps n →
      ∃ result, changeWord value = .ok result ∧ result.Wraps (change n)) :
    (machine.update scopes target changeWord).Wraps (state.update target change) := by
  rw [Machine.update, Unbounded.update]
  rcases wraps.resolve target with
    ⟨fault, unbound, missing⟩ | ⟨n, value, bound, found, wrapped⟩
  · rw [unbound, missing]
    exact ⟨rfl, wraps⟩
  · obtain ⟨result, changed, wrappedResult⟩ := agrees wrapped
    simp only [bound, found, changed]
    exact ⟨rfl, wraps.assign target wrappedResult⟩

/-- Both stacks are empty, or both have a top, and agree below it. -/
theorem top :
    state.stack = [] ∧ machine.top? = none ∨
      ∃ n rest value, state.stack = n :: rest ∧ machine.top? = some value ∧ value.Wraps n ∧
        WrapsTo ⟨rest, state.frames⟩ machine.dropTop scopes := by
  have fromTop := wraps.stack
  by_cases empty : machine.stack = #[]
  · rw [empty] at fromTop
    exact .inl ⟨List.forall₂_nil_right_iff.mp fromTop, Array.back?_eq_none_iff.mpr empty⟩
  · obtain ⟨below, value, pushed⟩ := Array.exists_push_of_ne_empty empty
    rw [pushed, Array.toList_push, List.reverse_concat] at fromTop
    obtain ⟨n, rest, wrapped, restWraps, isStack⟩ := List.forall₂_cons_right_iff.mp fromTop
    have isTop : machine.top? = some value := by rw [Machine.top?, pushed, Array.back?_push]
    have isBelow : machine.dropTop.stack = below := by
      rw [Machine.dropTop, pushed, Array.pop_push]
    exact .inr ⟨n, rest, value, isStack, isTop, wrapped, isBelow ▸ restWraps, wraps.frames⟩

end

/-- One instruction. -/
theorem perform (wraps : state.WrapsTo machine scopes) (limits : Limits)
    (instruction : IntegerInstruction) :
    ∃ effect, machine.effect? scopes limits instruction.instruction = some effect ∧
      effect.Wraps (state.perform instruction) := by
  cases instruction with
  | assign source target =>
    refine ⟨_, rfl, ?_⟩
    rw [Unbounded.perform, Machine.assign]
    rcases wraps.evaluate source with
      ⟨fault, failed, failedToo⟩ | ⟨n, value, evaluated, evaluatedToo, wrapped⟩
    · rw [failed, failedToo]
      exact ⟨rfl, wraps⟩
    · rw [evaluated, evaluatedToo]
      exact ⟨rfl, wraps.assign target wrapped⟩
  | push source =>
    refine ⟨_, rfl, ?_⟩
    rw [Unbounded.perform, Machine.push]
    rcases wraps.evaluate source with
      ⟨fault, failed, failedToo⟩ | ⟨n, value, evaluated, evaluatedToo, wrapped⟩
    · rw [failed, failedToo]
      exact ⟨rfl, wraps⟩
    · rw [evaluated, evaluatedToo]
      refine ⟨rfl, ?_, wraps.frames⟩
      simpa using And.intro wrapped wraps.stack
  | pop target =>
    refine ⟨_, rfl, ?_⟩
    rw [Unbounded.perform, Machine.pop]
    rcases wraps.top with ⟨empty, noTop⟩ | ⟨n, rest, value, stack, top, wrapped, below⟩
    · rw [empty, noTop]
      exact ⟨rfl, wraps⟩
    · rw [stack, top]
      exact ⟨rfl, below.assign target wrapped⟩
  | combine op target =>
    refine ⟨_, rfl, ?_⟩
    rw [Unbounded.perform, Machine.arithmetic, Machine.updateWithPopped]
    rcases wraps.top with ⟨empty, noTop⟩ | ⟨n, rest, value, stack, top, wrapped, below⟩
    · rw [empty, noTop]
      exact ⟨rfl, wraps⟩
    · rw [stack, top]
      exact below.update target fun ofVariable => op.exists_wraps _ target ofVariable wrapped
  | negate target =>
    exact ⟨_, rfl, wraps.update target BitwiseOp.exists_wraps_complement⟩

/-- A run: the instructions before the one that fails, or all, and then the step that ends
the block. -/
theorem run (wraps : state.WrapsTo machine scopes) (program : Program) (limits : Limits)
    (code : List IntegerInstruction) :
    ∃ between within left reached,
      StraightLine limits machine scopes
        ((code.take (state.run code).count).map IntegerInstruction.instruction) between within ∧
      (Activity.step program limits ⟨between, within,
          (code.drop (state.run code).count).map IntegerInstruction.instruction, []⟩).turn =
        .ended ⟨(state.run code).result, left, reached⟩ ∧
      (state.run code).state.WrapsTo left reached := by
  -- What holds of the states before an instruction holds of those after it, also if it fails.
  induction code generalizing state machine scopes with
  | nil => exact ⟨machine, scopes, machine, scopes, .nil _ _, rfl, wraps⟩
  | cons instruction after ih =>
    obtain ⟨⟨next, within, events, fault⟩, has, faulted, nextWraps⟩ :=
      wraps.perform limits instruction
    rw [Unbounded.run]
    split
    · rename_i exact performed
      rw [performed] at faulted nextWraps
      cases faulted
      obtain ⟨last, inner, left, reached, straight, ended, agrees⟩ := ih nextWraps
      exact ⟨last, inner, left, reached, .cons has straight, ended, agrees⟩
    · rename_i exact failure performed
      rw [performed] at faulted nextWraps
      cases faulted
      refine ⟨machine, scopes, next, within, .nil _ _, ?_, nextWraps⟩
      exact Activity.turn_step_of_effect? program has _ _

end Unbounded.WrapsTo

/-! ## Blocks -/

/-- The state of a machine and its scopes that hold integers only. -/
def Unbounded.of (machine : Machine) (scopes : Scopes) : Unbounded where
  stack := machine.stack.toList.reverse.filterMap fun value => value.integer?.map Int64.toInt
  frames := scopes.frames.map fun frame name =>
    (frame.get? name).bind fun value => value.integer?.map Int64.toInt

theorem Unbounded.wrapsTo_of {machine : Machine} {scopes : Scopes}
    (ofStack : ∀ value ∈ machine.stack, value.IsInteger)
    (ofScopes : scopes.AllValues Value.IsInteger) :
    (Unbounded.of machine scopes).WrapsTo machine scopes where
  stack := by
    have ofList : ∀ value ∈ machine.stack.toList.reverse, value.IsInteger := by
      simpa using ofStack
    rw [Unbounded.of]
    generalize machine.stack.toList.reverse = values at ofList ⊢
    induction values with
    | nil => exact .nil
    | cons value rest ih =>
      obtain ⟨⟨n, rfl⟩, ofRest⟩ := List.forall_mem_cons.mp ofList
      exact .cons ⟨n, rfl, .toInt n⟩ (ih ofRest)
  frames := by
    rw [Unbounded.of, List.forall₂_map_left_iff, List.forall₂_same]
    intro frame mem name
    beta_reduce
    cases found : frame.get? name with
    | none => exact .none
    | some value =>
      obtain ⟨n, rfl⟩ := ofScopes frame mem name value found
      exact .some ⟨n, rfl, .toInt n⟩

/-- A straight-line block runs on words as on integers without bounds. It ends behind its
last instruction, or at the same instruction with the same fault of a name without value
or a stack without top, and then every integer of the unbounded run stands at its place
wrapped: as the only integer of sixty-four bits that differs from it by a multiple of
`2 ^ 64`. -/
theorem Request.wraps_executeBlock (program : Program) (limits : Limits) {machine : Machine}
    {scopes : Scopes} (ofStack : ∀ value ∈ machine.stack, value.IsInteger)
    (ofScopes : scopes.AllValues Value.IsInteger) (code : List IntegerInstruction) :
    let exact := (Unbounded.of machine scopes).run code
    let block := Request.executeBlock (code.map IntegerInstruction.instruction)
    (exact.fault = none → exact.count = code.length) ∧
    (∀ fault, exact.fault = some fault →
      exact.count < code.length ∧ Unbounded.Faults fault) ∧
    ∃ between within left reached,
      block.run program limits machine scopes exact.count =
        .ongoing ⟨between, within,
          (code.drop exact.count).map IntegerInstruction.instruction, []⟩ ∧
      block.run program limits machine scopes (exact.count + 1) =
        .ended ⟨exact.result, left, reached⟩ ∧
      exact.state.WrapsTo left reached := by
  intro exact block
  obtain ⟨completed, failed⟩ := (Unbounded.of machine scopes).count_run code
  obtain ⟨between, within, left, reached, straight, ended, wraps⟩ :=
    (Unbounded.wrapsTo_of ofStack ofScopes).run program limits code
  have counted : exact.count ≤ code.length := by
    cases hasFault : exact.fault with
    | none => exact (completed hasFault).le
    | some fault => exact (failed fault hasFault).1.le
  have before := straight.advance program
    ((code.drop exact.count).map IntegerInstruction.instruction) []
  rw [← List.map_append, List.take_append_drop, List.length_map,
    List.length_take_of_le counted] at before
  have atEnd : block.run program limits machine scopes (exact.count + 1) =
      .ended ⟨exact.result, left, reached⟩ := by
    rw [Request.run_add]
    exact (congrArg (Turn.advance program limits 1) before).trans ended
  exact ⟨completed, failed, between, within, left, reached, before, atEnd, wraps⟩

/-- Adds one to a variable, takes the complement of it, and pops from a stack that is then
empty. -/
def IntegerInstruction.complementOfNext : List IntegerInstruction :=
  [.push (.literal 1), .combine .add "x", .negate "x", .pop "y"]

/-- From the greatest word the sum wraps to the least one, whose complement is the greatest
word again. Without bounds it is `-2 ^ 63 - 1`. -/
theorem Request.wraps_executeBlock_complementOfNext :
    (∀ value ∈ (Machine.initial (.empty none)).stack, value.IsInteger) ∧
    (Scopes.initial.assign "x" (.integer Int64.maxValue)).AllValues Value.IsInteger ∧
    ∃ left reached value,
      (Request.executeBlock
            (IntegerInstruction.complementOfNext.map IntegerInstruction.instruction)).run
          .idle .default (.initial (.empty none))
          (Scopes.initial.assign "x" (.integer Int64.maxValue)) 4 =
        .ended ⟨.error (.stackUnderflow .pop), left, reached⟩ ∧
      reached.resolve "x" = .ok value ∧ value.Wraps (-2 ^ 63 - 1) := by
  have ofStack : ∀ value ∈ (Machine.initial (.empty none)).stack, value.IsInteger := by
    simp [Machine.initial]
  have ofScopes :
      (Scopes.initial.assign "x" (.integer Int64.maxValue)).AllValues Value.IsInteger :=
    Scopes.allValues_initial.assign ⟨_, rfl⟩ "x"
  obtain ⟨_, _, _, _, left, reached, _, ended, wraps⟩ :=
    wraps_executeBlock .idle .default ofStack ofScopes IntegerInstruction.complementOfNext
  rcases wraps.resolve "x" with ⟨fault, unbound, _⟩ | ⟨n, value, bound, found, wrapped⟩
  · cases unbound
  · cases bound
    exact ⟨ofStack, ofScopes, left, reached, value, ended, found, wrapped⟩

end StackScript
