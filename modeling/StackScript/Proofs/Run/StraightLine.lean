import Mathlib.Data.List.Forall2
import StackScript.Proofs.Run.Effects

/-!
# Straight-line code

Code that holds no block, calls nothing and leaves nothing is run one effect after the
other, each in one step. As long as no effect fails, the run of such a block is the chain of
its effects.
-/

namespace StackScript

/-- The block leads from one machine and its scopes to others, by effects that do not
fail. -/
inductive StraightLine (limits : Limits) : Machine → Scopes → Block → Machine → Scopes → Prop
  | nil (machine : Machine) (scopes : Scopes) : StraightLine limits machine scopes [] machine scopes
  | cons {machine between left : Machine} {scopes within reached : Scopes}
      {instruction : Instruction} {events : List Event} {after : Block}
      (has : machine.effect? scopes limits instruction = some ⟨between, within, events, none⟩)
      (rest : StraightLine limits between within after left reached) :
      StraightLine limits machine scopes (instruction :: after) left reached

/-- The step of an instruction that is nothing but an effect. -/
theorem Activity.turn_step_of_effect? (program : Program) {limits : Limits} {machine : Machine}
    {scopes : Scopes} {instruction : Instruction} {effect : Effect}
    (has : machine.effect? scopes limits instruction = some effect) (after : Block)
    (outer : List Suspension) :
    (Activity.step program limits ⟨machine, scopes, instruction :: after, outer⟩).turn =
      (Step.settle effect after outer).turn := by
  rw [← Step.perform_of_effect? program after outer has]
  rfl

namespace StraightLine

variable {limits : Limits} {machine left : Machine} {scopes reached : Scopes} {block : Block}

/-- A block after another. -/
theorem append {last : Machine} {final : Scopes} {after : Block}
    (first : StraightLine limits machine scopes block left reached)
    (second : StraightLine limits left reached after last final) :
    StraightLine limits machine scopes (block ++ after) last final := by
  induction first with
  | nil => exact second
  | cons has _ ih => exact .cons has (ih second)

section

variable (straight : StraightLine limits machine scopes block left reached) (program : Program)

include straight

/-- Each instruction takes a step. -/
theorem advance (after : Block) (outer : List Suspension) :
    Turn.advance program limits block.length
        (.ongoing ⟨machine, scopes, block ++ after, outer⟩) =
      .ongoing ⟨left, reached, after, outer⟩ := by
  induction straight with
  | nil => rfl
  | cons has _ ih =>
    rw [List.cons_append, List.length_cons, Turn.advance, Turn.step,
      Activity.turn_step_of_effect? program has]
    exact ih

/-- The block has then ended. -/
theorem run_executeBlock :
    (Request.executeBlock block).run program limits machine scopes (block.length + 1) =
      .ended ⟨.ok .completed, left, reached⟩ := by
  have before := straight.advance program [] []
  rw [List.append_nil] at before
  rw [Request.run_add]
  exact congrArg (Turn.advance program limits 1) before

end

/-- A call of a subroutine that is straight-line code gives the caller's scopes back. -/
theorem run_invoke (machine : Machine) {program : Program} {name : String} {body : Block}
    {caller : Scopes} (found : program.body? name = some body)
    (shallow : machine.depth < limits.maxCallDepth)
    (straight : StraightLine limits { machine with depth := machine.depth + 1 } .initial body left
      reached) :
    (Request.invoke name).run program limits machine caller (body.length + 2) =
      .ended ⟨.ok .completed, { left with depth := left.depth - 1 }, caller⟩ := by
  have before := straight.advance program [] [.call name caller []]
  rw [List.append_nil] at before
  have start : ((Request.invoke name).start program limits machine caller).turn =
      .ongoing ⟨{ machine with depth := machine.depth + 1 }, .initial, body,
        [.call name caller []]⟩ := by
    simp only [Request.start, Machine.invoke, Step.invoke, found, if_neg (Nat.not_le.mpr shallow)]
  rw [Request.run, start, Turn.advance_add, before]
  rfl

end StraightLine

/-! ## Single instructions -/

namespace StraightLine

variable {limits : Limits} {stack : Array Value} {heap : Heap} {depth : Nat} {output : Output}
  {left : Machine} {scopes reached : Scopes} {after : Block}

/-- An effect that reports nothing. -/
theorem cons_silent {machine between : Machine} {within : Scopes} {instruction : Instruction}
    (has : machine.effect? scopes limits instruction = some ⟨between, within, [], none⟩)
    (rest : StraightLine limits between within after left reached) :
    StraightLine limits machine scopes (instruction :: after) left reached :=
  .cons has rest

theorem cons_assign {machine : Machine} {source : Operand} {target : String} {value : Value}
    (evaluated : scopes.evaluate source = .ok value)
    (rest : StraightLine limits machine (scopes.assign target value) after left reached) :
    StraightLine limits machine scopes (.assign source target :: after) left reached := by
  apply cons_silent ?_ rest
  simp only [Machine.effect?, Machine.assign, evaluated]

theorem cons_push {source : Operand} {value : Value}
    (evaluated : scopes.evaluate source = .ok value)
    (rest : StraightLine limits ⟨stack.push value, heap, depth, output⟩ scopes after left
      reached) :
    StraightLine limits ⟨stack, heap, depth, output⟩ scopes (.push source :: after) left
      reached := by
  apply cons_silent ?_ rest
  simp only [Machine.effect?, Machine.push, evaluated]

/-- A value that has been pushed is popped. -/
theorem cons_pop {target : String} {value : Value}
    (rest : StraightLine limits ⟨stack, heap, depth, output⟩ (scopes.assign target value) after
      left reached) :
    StraightLine limits ⟨stack.push value, heap, depth, output⟩ scopes (.pop target :: after) left
      reached := by
  apply cons_silent ?_ rest
  simp only [Machine.effect?, Machine.pop, Machine.top?, Machine.dropTop, Array.back?_push,
    Array.pop_push]

/-- A value that has been pushed is combined with a variable. -/
theorem cons_arithmetic {op : ArithmeticOp} {target : String} {value operand result : Value}
    (evaluated : scopes.resolve target = .ok value)
    (computed : op.apply limits.maxStringBytes target value operand = .ok result)
    (rest : StraightLine limits ⟨stack, heap, depth, output⟩ (scopes.assign target result) after
      left reached) :
    StraightLine limits ⟨stack.push operand, heap, depth, output⟩ scopes
      (.arithmetic op target :: after) left reached := by
  apply cons_silent ?_ rest
  simp only [Machine.effect?, Machine.arithmetic, Machine.updateWithPopped, Machine.update,
    Machine.top?, Machine.dropTop, Array.back?_push, Array.pop_push, evaluated, computed]

end StraightLine

/-- A program that does nothing; blocks that call nothing can be run in it. -/
def Program.idle : Program where
  subroutines := [⟨entryPoint, []⟩]
  sorted := List.pairwise_singleton _ _
  definesEntryPoint := ⟨_, List.mem_singleton_self _, rfl⟩

/-! ## Pushing several values -/

/-- The operands have these values. -/
def Scopes.EvaluatesAll (scopes : Scopes) (sources : List Operand) (values : List Value) : Prop :=
  List.Forall₂ (fun source value => scopes.evaluate source = .ok value) sources values

/-- Integer literals are their own values. -/
theorem Scopes.evaluatesAll_integers (scopes : Scopes) (numbers : List Int64) :
    scopes.EvaluatesAll (numbers.map .integer) (numbers.map .integer) := by
  rw [EvaluatesAll, List.forall₂_map_left_iff, List.forall₂_map_right_iff, List.forall₂_same]
  intro n _
  rfl

/-- Pushing operands puts their values on the stack, the first of them lowest. -/
theorem straightLine_push (limits : Limits) {scopes : Scopes} {sources : List Operand}
    {values : List Value} (evaluated : scopes.EvaluatesAll sources values) (stack : Array Value)
    (heap : Heap) (depth : Nat) (output : Output) :
    StraightLine limits ⟨stack, heap, depth, output⟩ scopes (sources.map .push)
      ⟨stack ++ values.toArray, heap, depth, output⟩ scopes := by
  induction evaluated generalizing stack with
  | nil =>
    rw [Array.append_empty]
    exact .nil _ _
  | @cons source value sources values hasValue _ ih =>
    have same : stack.push value ++ values.toArray = stack ++ (value :: values).toArray := by
      simp
    exact .cons_push hasValue (same ▸ ih (stack.push value))

end StackScript
