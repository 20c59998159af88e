import StackScript.Proofs.Run.Code
import StackScript.Proofs.Run.ScopeChain
import StackScript.Proofs.Values

/-!
# Properties of all values of a run

Besides the machine and the current scopes a run keeps the scopes of the callers,
which come back when the calls return. A property of values that operations keep and
that all literals of the code have is true of all of these at every moment, and of the
value that ends a run.
-/

namespace StackScript

open Suspension (callers)

variable {holds : Value → Prop}

/-- Every value on the stack, in the heap and in the scopes of all active calls has a
property, and so has the value that has ended a run. -/
def Turn.AllValues (holds : Value → Prop) : Turn → Prop
  | .ongoing activity =>
    activity.machine.AllValues holds ∧ activity.scopes.AllValues holds ∧
      ∀ caller ∈ callers activity.suspended, caller.AllValues holds
  | .ended ending =>
    ending.machine.AllValues holds ∧ ending.scopes.AllValues holds ∧
      ∀ code, ending.result = .ok (.halted code) → holds code

/-! ## Weaker properties -/

section Mono

variable {weaker : Value → Prop} (implies : ∀ value, holds value → weaker value)

include implies

theorem Scopes.AllValues.mono {scopes : Scopes} (all : scopes.AllValues holds) :
    scopes.AllValues weaker :=
  fun frame mem name value bound => implies value (all frame mem name value bound)

theorem Machine.AllValues.mono {machine : Machine} (all : machine.AllValues holds) :
    machine.AllValues weaker where
  stack value mem := implies value (all.stack value mem)
  heap address value found := implies value (all.heap address value found)

theorem Turn.AllValues.mono {turn : Turn} (all : turn.AllValues holds) :
    turn.AllValues weaker := by
  cases turn with
  | ongoing activity =>
    obtain ⟨ofMachine, ofScopes, ofCallers⟩ := all
    exact ⟨ofMachine.mono implies, ofScopes.mono implies,
      fun caller mem => (ofCallers caller mem).mono implies⟩
  | ended ending =>
    obtain ⟨ofMachine, ofScopes, ofCode⟩ := all
    exact ⟨ofMachine.mono implies, ofScopes.mono implies,
      fun code halted => implies code (ofCode code halted)⟩

end Mono

/-! ## Steps -/

/-- Counting calls moves no value. -/
theorem Machine.AllValues.withDepth {machine : Machine} (all : machine.AllValues holds)
    (depth : Nat) : AllValues holds { machine with depth := depth } :=
  ⟨all.stack, all.heap⟩

section Steps

variable (program : Program) {limits : Limits} {machine : Machine} {scopes : Scopes}
  (after : Block) {outer : List Suspension} (ofMachine : machine.AllValues holds)
  (ofScopes : scopes.AllValues holds)
  (ofCallers : ∀ caller ∈ callers outer, caller.AllValues holds)

include ofMachine ofScopes ofCallers

/-- What is left after giving up what waits was there before. -/
theorem Suspension.allValues_abandon :
    (abandon machine scopes outer).1.AllValues holds ∧
      (abandon machine scopes outer).2.AllValues holds := by
  induction outer generalizing machine scopes with
  | nil => exact ⟨ofMachine, ofScopes⟩
  | cons suspension outer ih =>
    cases suspension with
    | branch | loop => exact ih ofMachine ofScopes.leave ofCallers
    | call name caller after =>
      obtain ⟨ofCaller, ofOthers⟩ := List.forall_mem_cons.mp ofCallers
      exact ih (ofMachine.withDepth _) ofCaller ofOthers

theorem Turn.allValues_finish {result : Except Fault Flow}
    (ofCode : ∀ code, result = .ok (.halted code) → holds code) :
    (Turn.finish result machine scopes outer).AllValues holds := by
  obtain ⟨machineLeft, scopesLeft⟩ :=
    Suspension.allValues_abandon ofMachine ofScopes ofCallers
  exact ⟨machineLeft, scopesLeft, ofCode⟩

theorem Turn.allValues_finish_error (fault : Fault) :
    (Turn.finish (.error fault) machine scopes outer).AllValues holds := by
  apply allValues_finish ofMachine ofScopes ofCallers
  intro code halted
  cases halted

namespace Step

theorem allValues_stop : (stop machine scopes outer).turn.AllValues holds := by
  induction outer generalizing scopes with
  | nil => exact ⟨ofMachine, ofScopes, nofun⟩
  | cons suspension outer ih =>
    cases suspension with
    | branch | loop => exact ih ofScopes.leave ofCallers
    | call name caller after =>
      exact ⟨ofMachine.withDepth _, List.forall_mem_cons.mp ofCallers⟩

theorem allValues_iterate (condition : Operand) (body : Block) :
    (iterate machine scopes condition body after outer).turn.AllValues holds := by
  rcases iterate_cases machine scopes after outer condition body with
    ⟨reads, entered⟩ | past | ⟨fault, failed, ended⟩
  · rw [entered]
    exact ⟨ofMachine, ofScopes.inherit, ofCallers⟩
  · rw [past]
    exact ⟨ofMachine, ofScopes, ofCallers⟩
  · rw [ended]
    exact Turn.allValues_finish_error ofMachine ofScopes ofCallers _

theorem allValues_choose (otherwise : Option Block) (branches : List Branch) :
    (choose machine scopes otherwise after outer branches).turn.AllValues holds := by
  rcases choose_cases machine scopes after outer otherwise branches with
    ⟨body, held, entered⟩ | past | ⟨fault, failed⟩
  · rw [entered]
    exact ⟨ofMachine, ofScopes.inherit, ofCallers⟩
  · rw [past]
    exact ⟨ofMachine, ofScopes, ofCallers⟩
  · rw [failed]
    exact Turn.allValues_finish_error ofMachine ofScopes ofCallers _

theorem allValues_invoke (limits : Limits) (name : String) :
    (invoke program limits machine scopes name after outer).turn.AllValues holds := by
  rcases invoke_cases program limits machine scopes after outer name with
    ⟨body, called⟩ | ⟨fault, failed⟩
  · rw [called]
    exact ⟨ofMachine.withDepth _, Scopes.allValues_initial,
      List.forall_mem_cons.mpr ⟨ofScopes, ofCallers⟩⟩
  · rw [failed]
    exact Turn.allValues_finish_error ofMachine ofScopes ofCallers _

theorem allValues_exit {code : Operand}
    (literal : ∀ value, code.literal? = some value → holds value) :
    (exit machine scopes code outer).turn.AllValues holds := by
  simp only [exit]
  split
  · exact Turn.allValues_finish_error ofMachine ofScopes ofCallers _
  · rename_i value evaluated
    apply Turn.allValues_finish ofMachine ofScopes ofCallers
    rintro found ⟨⟩
    exact ofScopes.of_evaluate literal evaluated

omit ofMachine ofScopes in
theorem allValues_settle {effect : Effect} (ofEffect : effect.AllValues holds) :
    (settle effect after outer).turn.AllValues holds := by
  obtain ⟨reached, left, events, fault⟩ := effect
  cases fault with
  | none => exact ⟨ofEffect.machine, ofEffect.scopes, ofCallers⟩
  | some fault => exact Turn.allValues_finish_error ofEffect.machine ofEffect.scopes ofCallers fault

theorem allValues_perform (kept : Value.Kept limits holds) {instruction : Instruction}
    (introduces : instruction.Introduces holds) :
    (perform program limits machine scopes after outer instruction).turn.AllValues holds := by
  have settled {effect : Effect} (ofEffect : effect.AllValues holds) :=
    allValues_settle after ofCallers ofEffect
  have literal := introduces.literal
  cases instruction with
  | assign source target =>
    have ofSource := literal source List.mem_cons_self
    exact settled (Machine.allValues_assign ofMachine ofScopes ofSource target)
  | arithmetic op target =>
    exact settled (Machine.allValues_arithmetic ofMachine ofScopes kept op target)
  | bitwise op target =>
    exact settled (Machine.allValues_bitwise ofMachine ofScopes kept op target)
  | conditional branches otherwise =>
    exact allValues_choose after ofMachine ofScopes ofCallers otherwise branches
  | loop condition body => exact allValues_iterate after ofMachine ofScopes ofCallers condition body
  | push source =>
    exact settled (Machine.allValues_push ofMachine ofScopes (literal source List.mem_cons_self))
  | pop target => exact settled (Machine.allValues_pop ofMachine ofScopes target)
  | print source => exact settled (Machine.allValues_print ofMachine ofScopes source)
  | exit code => exact allValues_exit ofMachine ofScopes ofCallers (literal code List.mem_cons_self)
  | stop => exact allValues_stop ofMachine ofScopes ofCallers
  | store => exact settled (Machine.allValues_store ofMachine ofScopes limits)
  | load => exact settled (Machine.allValues_load ofMachine ofScopes (introduces.empty rfl))
  | invoke name => exact allValues_invoke program after ofMachine ofScopes ofCallers limits name

theorem allValues_resume : (resume machine scopes outer).turn.AllValues holds := by
  cases outer with
  | nil => exact ⟨ofMachine, ofScopes, nofun⟩
  | cons suspension outer =>
    cases suspension with
    | branch after => exact ⟨ofMachine, ofScopes.leave, ofCallers⟩
    | loop condition body after =>
      have ofOthers : ∀ caller ∈ callers outer, caller.AllValues holds := ofCallers
      exact allValues_iterate after ofMachine ofScopes.leave ofOthers condition body
    | call name caller after =>
      exact ⟨ofMachine.withDepth _, List.forall_mem_cons.mp ofCallers⟩

end Step

end Steps

/-! ## Runs -/

/-- Every value of a run has a property, and its code brings in no other. -/
structure Turn.Closed (holds : Value → Prop) (turn : Turn) : Prop where
  code : turn.Throughout (Instruction.Introduces holds)
  values : turn.AllValues holds

section Runs

variable {program : Program} {limits : Limits}
  (all : program.Throughout (Instruction.Introduces holds))

include all

/-- A request on closed values begins a closed run. -/
theorem Request.closed_start {machine : Machine} {scopes : Scopes} {request : Request}
    (given : Block.Throughout (Instruction.Introduces holds) request.given)
    (ofMachine : machine.AllValues holds) (ofScopes : scopes.AllValues holds) :
    (request.start program limits machine scopes).turn.Closed holds where
  code := Request.throughout_start limits machine scopes all given
  values := by
    have noCallers : ∀ caller ∈ callers [], caller.AllValues holds := List.forall_mem_nil _
    cases request with
    | execute | invoke =>
      exact Step.allValues_invoke program [] ofMachine ofScopes noCallers limits _
    | executeBlock body => exact ⟨ofMachine, ofScopes, noCallers⟩

/-- Every step keeps a run closed. -/
theorem Turn.closed_step (kept : Value.Kept limits holds) {turn : Turn}
    (before : turn.Closed holds) : (turn.step program limits).turn.Closed holds where
  code := throughout_step limits all.supplies before.code
  values := by
    cases turn with
    | ended ending => exact before.values
    | ongoing activity =>
      obtain ⟨machine, scopes, code, outer⟩ := activity
      obtain ⟨ofMachine, ofScopes, ofCallers⟩ := before.values
      cases code with
      | nil => exact Step.allValues_resume ofMachine ofScopes ofCallers
      | cons instruction after =>
        have introduces := (Block.throughout_cons_iff.mp before.code.1).1
        exact Step.allValues_perform program after ofMachine ofScopes ofCallers kept introduces

end Runs

/-! ## Printed values -/

/-- Nothing has been written to an output, or the line of one value with a property. -/
def Output.Prints (holds : Value → Prop) (before after : Output) : Prop :=
  after = before ∨ ∃ value, holds value ∧ after = before.write (Machine.printedLine value)

/-- What an instruction prints is a literal of its own or the value of a variable. -/
theorem Step.prints_perform (program : Program) (limits : Limits) (machine : Machine)
    {scopes : Scopes} (after : Block) (outer : List Suspension)
    (ofScopes : scopes.AllValues holds) {instruction : Instruction}
    (introduces : instruction.Introduces holds) :
    machine.output.Prints holds
      (perform program limits machine scopes after outer instruction).turn.machine.output := by
  by_cases prints : ∃ source, instruction = .print source
  · obtain ⟨source, rfl⟩ := prints
    rw [perform, view_settle Machine.apart_output, Machine.print]
    split
    · exact .inl rfl
    · rename_i value evaluated
      have literal := introduces.literal source List.mem_cons_self
      exact .inr ⟨value, ofScopes.of_evaluate literal evaluated, rfl⟩
  · exact .inl (output_perform program limits machine scopes after outer (not_exists.mp prints))

/-- What a step of a closed run prints has the property, too. -/
theorem Turn.Closed.prints_step {turn : Turn} (closed : turn.Closed holds) (program : Program)
    (limits : Limits) :
    turn.machine.output.Prints holds (turn.step program limits).turn.machine.output := by
  cases turn with
  | ended ending => exact .inl rfl
  | ongoing activity =>
    obtain ⟨machine, scopes, code, outer⟩ := activity
    cases code with
    | nil => exact .inl (Step.view_resume Machine.apart_output machine scopes outer)
    | cons instruction after =>
      have introduces := (Block.throughout_cons_iff.mp closed.code.1).1
      exact Step.prints_perform program limits machine after outer closed.values.2.1 introduces

/-- On a machine that nothing was asked of there are no values. -/
theorem Machine.allValues_initial (output : Output) :
    (Machine.initial output).AllValues holds where
  stack value mem := by simp [initial] at mem
  heap address value found := by simp [initial, Heap.get?, Heap.empty] at found

end StackScript
