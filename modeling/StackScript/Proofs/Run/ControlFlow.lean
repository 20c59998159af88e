import StackScript.Proofs.Run

/-!
# What control flow reads

Blocks, loops and calls read nothing of the machine but the number of active
calls. So a change of the rest of the machine goes through them: the changed
machine goes the same way, and what it arrives at is changed in the same way.
For instructions that use the stack this also needs that pushing goes through,
and that an instruction which pops finds the same value.
-/

namespace StackScript

/-- An effect on a machine that has been changed. -/
def Effect.mapMachine (change : Machine → Machine) (effect : Effect) : Effect :=
  { effect with machine := change effect.machine }

/-- A run whose machine has been changed. -/
def Turn.mapMachine (change : Machine → Machine) : Turn → Turn
  | .ongoing activity => .ongoing { activity with machine := change activity.machine }
  | .ended ending => .ended { ending with machine := change ending.machine }

/-- A change of the machine that calls and the stack do not notice. -/
structure Machine.Unnoticed (change : Machine → Machine) : Prop where
  /-- As many calls are active. -/
  depth : ∀ machine, (change machine).depth = machine.depth
  /-- It does not matter whether a call begins or ends before or after it. -/
  withDepth : ∀ machine depth,
    { change machine with depth := depth } = change { machine with depth := depth }
  /-- Nor whether a value is pushed. -/
  push : ∀ machine value,
    { change machine with stack := (change machine).stack.push value } =
      change { machine with stack := machine.stack.push value }
  /-- Nor whether a value that both machines have is popped. -/
  dropTop : ∀ machine value, machine.top? = some value →
    (change machine).dropTop = change machine.dropTop

section ControlFlow

variable {change : Machine → Machine} (unnoticed : Machine.Unnoticed change) (machine : Machine)
  (scopes : Scopes)

include unnoticed

theorem Suspension.abandon_change (outer : List Suspension) :
    abandon (change machine) scopes outer =
      (change (abandon machine scopes outer).1, (abandon machine scopes outer).2) := by
  induction outer generalizing machine scopes with
  | nil => rfl
  | cons suspension outer ih =>
    cases suspension with
    | branch | loop => exact ih machine scopes.leave
    | call name caller after =>
      simp only [abandon, unnoticed.depth, unnoticed.withDepth]
      exact ih { machine with depth := machine.depth - 1 } caller

theorem Turn.finish_change (result : Except Fault Flow) (outer : List Suspension) :
    finish result (change machine) scopes outer =
      (finish result machine scopes outer).mapMachine change := by
  simp only [finish, Suspension.abandon_change unnoticed]
  rfl

namespace Step

variable (program : Program) (limits : Limits) (after : Block) (outer : List Suspension)

theorem returnTo_change (name : String) (caller : Scopes) :
    (returnTo (change machine) name caller after outer).turn =
      (returnTo machine name caller after outer).turn.mapMachine change := by
  simp only [returnTo, unnoticed.depth, unnoticed.withDepth]
  rfl

theorem stop_change :
    (stop (change machine) scopes outer).turn =
      (stop machine scopes outer).turn.mapMachine change := by
  induction outer generalizing scopes with
  | nil => rfl
  | cons suspension outer ih =>
    cases suspension with
    | branch | loop => exact ih scopes.leave
    | call name caller after => exact returnTo_change unnoticed machine after outer name caller

theorem iterate_change (condition : Operand) (body : Block) :
    (iterate (change machine) scopes condition body after outer).turn =
      (iterate machine scopes condition body after outer).turn.mapMachine change := by
  simp only [iterate]
  cases scopes.evaluate condition with
  | error fault => exact Turn.finish_change unnoticed machine scopes _ outer
  | ok value =>
    by_cases truthy : value.isTruthy = true
    · simp only [if_pos truthy]
      rfl
    · simp only [if_neg truthy]
      rfl

theorem choose_change (otherwise : Option Block) (branches : List Branch) :
    (choose (change machine) scopes otherwise after outer branches).turn =
      (choose machine scopes otherwise after outer branches).turn.mapMachine change := by
  induction branches with
  | nil => cases otherwise <;> rfl
  | cons branch rest ih =>
    obtain ⟨condition, body⟩ := branch
    simp only [choose]
    cases scopes.evaluate condition with
    | error fault => exact Turn.finish_change unnoticed machine scopes _ outer
    | ok value =>
      by_cases truthy : value.isTruthy = true
      · simp only [if_pos truthy]
        rfl
      · simp only [if_neg truthy]
        exact ih

theorem invoke_change (name : String) :
    (invoke program limits (change machine) scopes name after outer).turn =
      (invoke program limits machine scopes name after outer).turn.mapMachine change := by
  simp only [invoke, unnoticed.depth, unnoticed.withDepth]
  cases program.body? name with
  | none => exact Turn.finish_change unnoticed machine scopes _ outer
  | some body =>
    by_cases deep : limits.maxCallDepth ≤ machine.depth
    · simp only [if_pos deep]
      exact Turn.finish_change unnoticed machine scopes _ outer
    · simp only [if_neg deep]
      rfl

theorem exit_change (code : Operand) :
    (exit (change machine) scopes code outer).turn =
      (exit machine scopes code outer).turn.mapMachine change := by
  simp only [exit]
  cases scopes.evaluate code with
  | error fault | ok value => exact Turn.finish_change unnoticed machine scopes _ outer

theorem settle_change (effect : Effect) :
    (settle (effect.mapMachine change) after outer).turn =
      (settle effect after outer).turn.mapMachine change := by
  obtain ⟨reached, left, events, fault⟩ := effect
  cases fault with
  | none => rfl
  | some fault => exact Turn.finish_change unnoticed reached left _ outer

theorem resume_change :
    (resume (change machine) scopes outer).turn =
      (resume machine scopes outer).turn.mapMachine change := by
  cases outer with
  | nil => rfl
  | cons suspension outer =>
    cases suspension with
    | branch after => rfl
    | loop condition body after =>
      exact iterate_change unnoticed machine scopes.leave after outer condition body
    | call name caller after => exact returnTo_change unnoticed machine after outer name caller

end Step

/-! ## Instructions -/

namespace Machine

theorem push_change (source : Operand) :
    (change machine).push scopes source = (machine.push scopes source).mapMachine change := by
  simp only [push, unnoticed.push]
  cases scopes.evaluate source <;> rfl

theorem pop_change (sameTop : (change machine).top? = machine.top?) (target : String) :
    (change machine).pop scopes target = (machine.pop scopes target).mapMachine change := by
  simp only [pop, sameTop]
  cases top : machine.top? with
  | none => rfl
  | some value =>
    simp only [unnoticed.dropTop machine value top]
    rfl

omit unnoticed in
theorem assign_change (source : Operand) (target : String) :
    (change machine).assign scopes source target =
      (machine.assign scopes source target).mapMachine change := by
  simp only [assign]
  cases scopes.evaluate source <;> rfl

omit unnoticed in
theorem update_change (target : String) (combine : Value → Except Fault Value) :
    (change machine).update scopes target combine =
      (machine.update scopes target combine).mapMachine change := by
  simp only [update]
  cases scopes.resolve target with
  | error fault => rfl
  | ok value =>
    simp only
    cases combine value <;> rfl

theorem updateWithPopped_change (sameTop : (change machine).top? = machine.top?) (op : Mnemonic)
    (target : String) (combine : Value → Value → Except Fault Value) :
    (change machine).updateWithPopped scopes op target combine =
      (machine.updateWithPopped scopes op target combine).mapMachine change := by
  simp only [updateWithPopped, sameTop]
  cases top : machine.top? with
  | none => rfl
  | some operand =>
    simp only [unnoticed.dropTop machine operand top]
    exact machine.dropTop.update_change scopes target _

end Machine

end ControlFlow

/-- Whether an instruction takes a value from the stack, whatever the stack
holds. -/
def Instruction.pops : Instruction → Bool
  | .pop _ => true
  | .arithmetic _ _ => true
  | .bitwise op _ => op.popsOperand
  | _ => false

namespace Step

variable {change : Machine → Machine} (unnoticed : Machine.Unnoticed change) (program : Program)
  (limits : Limits) (machine : Machine) (scopes : Scopes) (after : Block)
  (outer : List Suspension)

include unnoticed

/-- An instruction goes through a change if the three that read more of the
machine do, and if it finds the same value where it pops one. -/
theorem perform_change (instruction : Instruction)
    (sameTop : instruction.pops = true → (change machine).top? = machine.top?)
    (print : ∀ source, instruction = .print source →
      (change machine).print scopes source = (machine.print scopes source).mapMachine change)
    (store : instruction = .store →
      (change machine).store scopes limits = (machine.store scopes limits).mapMachine change)
    (load : instruction = .load →
      (change machine).load scopes = (machine.load scopes).mapMachine change) :
    (perform program limits (change machine) scopes after outer instruction).turn =
      (perform program limits machine scopes after outer instruction).turn.mapMachine change := by
  cases instruction with
  | assign source target =>
    simp only [perform, machine.assign_change]
    exact settle_change unnoticed after outer _
  | arithmetic op target =>
    simp only [perform, Machine.arithmetic,
      machine.updateWithPopped_change unnoticed scopes (sameTop rfl)]
    exact settle_change unnoticed after outer _
  | bitwise op target =>
    cases op with
    | and | or | xor =>
      simp only [perform, Machine.bitwise,
        machine.updateWithPopped_change unnoticed scopes (sameTop rfl)]
      exact settle_change unnoticed after outer _
    | negate | not =>
      simp only [perform, Machine.bitwise, machine.update_change]
      exact settle_change unnoticed after outer _
  | conditional branches otherwise =>
    exact choose_change unnoticed machine scopes after outer otherwise branches
  | loop condition body => exact iterate_change unnoticed machine scopes after outer condition body
  | push source =>
    simp only [perform, machine.push_change unnoticed]
    exact settle_change unnoticed after outer _
  | pop target =>
    simp only [perform, machine.pop_change unnoticed scopes (sameTop rfl)]
    exact settle_change unnoticed after outer _
  | print source =>
    simp only [perform, print source rfl]
    exact settle_change unnoticed after outer _
  | exit code => exact exit_change unnoticed machine scopes outer code
  | stop => exact stop_change unnoticed machine scopes outer
  | store =>
    simp only [perform, store rfl]
    exact settle_change unnoticed after outer _
  | load =>
    simp only [perform, load rfl]
    exact settle_change unnoticed after outer _
  | invoke name => exact invoke_change unnoticed machine scopes program limits after outer name

end Step

end StackScript
