import StackScript.Proofs.Heap
import StackScript.Proofs.Operation
import StackScript.Proofs.Run

/-!
# Raised limits

The limits are compared with what a step would reach and are never stored. So
under higher limits a step does just the same, unless it ends the run for a
limit. A run that no limit has ended is therefore the same run under higher
limits, and one that a limit has ended is a beginning of it: what it has printed
stays printed.
-/

namespace StackScript

/-- Whether a limit is the reason of a fault. -/
def Fault.isLimit : Fault → Bool
  | .callDepth _ => true
  | .heapLimit _ _ => true
  | .stringLimit _ _ => true
  | _ => false

/-- The first limits allow no more than the second. -/
instance : LE Limits where
  le limits raised :=
    limits.maxCallDepth ≤ raised.maxCallDepth ∧
      limits.maxHeapCells ≤ raised.maxHeapCells ∧
      limits.maxStringBytes ≤ raised.maxStringBytes

theorem Limits.maxCallDepth_le {limits raised : Limits} (le : limits ≤ raised) :
    limits.maxCallDepth ≤ raised.maxCallDepth :=
  le.1

theorem Limits.maxHeapCells_le {limits raised : Limits} (le : limits ≤ raised) :
    limits.maxHeapCells ≤ raised.maxHeapCells :=
  le.2.1

theorem Limits.maxStringBytes_le {limits raised : Limits} (le : limits ≤ raised) :
    limits.maxStringBytes ≤ raised.maxStringBytes :=
  le.2.2

/-- A computation failed for a limit. -/
def HitsLimit {α : Type} (result : Except Fault α) : Prop :=
  ∃ fault, result = .error fault ∧ fault.isLimit = true

/-! ## Values -/

namespace ArithmeticOp

variable {limit raised : Nat}

/-- A text within the limit is made, or aborts the run, in the same way under a higher
limit. -/
theorem ObeysLimit.hitsLimit_or_eq {op : Mnemonic} {size : Nat} {made : String}
    {result resultRaised : Except Fault Value} (obeys : ObeysLimit op limit size made result)
    (obeysRaised : ObeysLimit op raised size made resultRaised) (le : limit ≤ raised) :
    HitsLimit result ∨ resultRaised = result := by
  rcases Nat.lt_or_ge limit size with tooLong | fits
  · exact .inl ⟨_, obeys.beyond tooLong, rfl⟩
  · right
    have fitsRaised := Nat.le_trans fits le
    rcases Nat.lt_or_ge maxAllocation size with large | small
    · rw [obeys.aborted fits large, obeysRaised.aborted fitsRaised large]
    · rw [obeys.within fits small, obeysRaised.within fitsRaised small]

theorem joinTexts_raised (le : limit ≤ raised) (s t : String) :
    HitsLimit (joinTexts limit s t) ∨ joinTexts raised s t = joinTexts limit s t :=
  (obeysLimit_joinTexts limit s t).hitsLimit_or_eq (obeysLimit_joinTexts raised s t) le

theorem repeatWithin_raised (le : limit ≤ raised) (s : String) (n : Int64) :
    HitsLimit (repeatWithin limit s n) ∨ repeatWithin raised s n = repeatWithin limit s n :=
  (obeysLimit_repeatWithin limit s n).hitsLimit_or_eq (obeysLimit_repeatWithin raised s n) le

/-- Only joining and repeating texts looks at the limit. -/
theorem apply_raised (le : limit ≤ raised) (op : ArithmeticOp) (target : String)
    (left right : Value) :
    HitsLimit (op.apply limit target left right) ∨
      op.apply raised target left right = op.apply limit target left right := by
  cases op with
  | add =>
    cases left with
    | text s =>
      cases right with
      | text t => exact joinTexts_raised le s t
      | integer | float | empty => exact .inr rfl
    | integer | float | empty => cases right <;> exact .inr rfl
  | multiply =>
    cases left with
    | text s =>
      cases right with
      | integer n => exact repeatWithin_raised le s n
      | float | text | empty => exact .inr rfl
    | integer n =>
      cases right with
      | text s => exact repeatWithin_raised le s n
      | integer | float | empty => exact .inr rfl
    | float | empty => cases right <;> exact .inr rfl
  | subtract | divide => cases left <;> cases right <;> exact .inr rfl

end ArithmeticOp

namespace Heap

variable {limit raised : Nat}

/-- An address below a limit is below a higher one. -/
theorem storeAddress_raised (le : limit ≤ raised) (address : Value) :
    HitsLimit (storeAddress limit address) ∨
      storeAddress raised address = storeAddress limit address := by
  cases address with
  | integer n =>
    by_cases negative : n < 0
    · right
      rw [storeAddress, storeAddress, if_pos negative, if_pos negative]
    · by_cases below : n.toInt.toNat < limit
      · right
        rw [storeAddress, storeAddress, if_neg negative, if_neg negative, if_pos below,
          if_pos (Nat.lt_of_lt_of_le below le)]
      · left
        refine ⟨.heapLimit n limit, ?_, rfl⟩
        rw [storeAddress, if_neg negative, if_neg below]
  | float | text | empty => exact .inr rfl

/-- The pairs before the one that hits the limit are stored in the same way. -/
theorem storePairs_raised (le : limit ≤ raised) (heap : Heap) (growth : List (Nat × Nat))
    (stack : List Value) :
    (∃ fault, (heap.storePairs limit growth stack).fault = some fault ∧ fault.isLimit = true) ∨
      heap.storePairs raised growth stack = heap.storePairs limit growth stack := by
  fun_induction storePairs limit heap growth stack with
  | case1 heap growth address value rest fault failed =>
    rcases storeAddress_raised le address with ⟨limitFault, hits, isLimit⟩ | same
    · left
      rw [failed] at hits
      cases hits
      exact ⟨fault, rfl, isLimit⟩
    · right
      rw [storePairs, same, failed]
  | case2 heap growth address value rest index found size longer within ih =>
    rcases storeAddress_raised le address with ⟨limitFault, hits, isLimit⟩ | same
    · rw [found] at hits
      cases hits
    · simp only [storePairs, same, found, within, if_true]
      exact ih
  | case3 heap growth address value rest index found size longer outOfReach =>
    rcases storeAddress_raised le address with ⟨limitFault, hits, isLimit⟩ | same
    · rw [found] at hits
      cases hits
    · right
      simp only [storePairs, same, found, outOfReach, if_false]
      rfl
  | case4 heap growth rest short =>
    right
    rw [storePairs]
    exact short

end Heap

/-! ## Instructions -/

/-- An instruction failed for a limit, and printed nothing. -/
def Effect.HitsLimit (machine : Machine) (effect : Effect) : Prop :=
  (∃ fault, effect.fault = some fault ∧ fault.isLimit = true) ∧
    effect.machine.output = machine.output

namespace Machine

variable (machine : Machine) (scopes : Scopes)

/-- A variable changes in the same way if the changing function does. -/
theorem update_raised (target : String) {change changeRaised : Value → Except Fault Value}
    (raised : ∀ value, HitsLimit (change value) ∨ changeRaised value = change value) :
    (machine.update scopes target change).HitsLimit machine ∨
      machine.update scopes target changeRaised = machine.update scopes target change := by
  simp only [update]
  cases scopes.resolve target with
  | error fault => exact .inr rfl
  | ok value =>
    rcases raised value with ⟨fault, hits, isLimit⟩ | same
    · left
      simp only [hits]
      exact ⟨⟨fault, rfl, isLimit⟩, rfl⟩
    · right
      simp only [same]

theorem arithmetic_raised {limits raised : Limits} (le : limits ≤ raised) (op : ArithmeticOp)
    (target : String) :
    (machine.arithmetic scopes limits op target).HitsLimit machine ∨
      machine.arithmetic scopes raised op target = machine.arithmetic scopes limits op target := by
  simp only [arithmetic, updateWithPopped]
  cases machine.top? with
  | none => exact .inr rfl
  | some operand =>
    exact machine.dropTop.update_raised scopes target fun value =>
      op.apply_raised (Limits.maxStringBytes_le le) target value operand

theorem store_raised {limits raised : Limits} (le : limits ≤ raised) :
    (machine.store scopes limits).HitsLimit machine ∨
      machine.store scopes raised = machine.store scopes limits := by
  obtain ⟨stack, heap, depth, output⟩ := machine
  rcases heap.storePairs_raised (Limits.maxHeapCells_le le) [] stack.toList.reverse with
    hits | same
  · exact .inl ⟨hits, rfl⟩
  · right
    simp only [store, same]

end Machine

/-! ## Steps -/

/-- A run ended for a limit. -/
def Ending.HitsLimit (ending : Ending) : Prop :=
  StackScript.HitsLimit ending.result

/-- A step ends its run for a limit and prints nothing. -/
def Step.HitsLimit (machine : Machine) (step : Step) : Prop :=
  ∃ ending, step.turn = .ended ending ∧ ending.HitsLimit ∧ ending.machine.output = machine.output

namespace Step

variable (program : Program) {limits raised : Limits} (machine : Machine) (scopes : Scopes)
  (after : Block) (outer : List Suspension)

/-- A fault of a limit ends the run. -/
theorem hitsLimit_finish {fault : Fault} (isLimit : fault.isLimit = true) (events : List Event) :
    HitsLimit machine ⟨.finish (.error fault) machine scopes outer, events⟩ :=
  ⟨_, rfl, ⟨fault, rfl, isLimit⟩,
    Suspension.view_abandon Machine.apart_output machine scopes outer⟩

theorem settle_raised {effect effectRaised : Effect}
    (same : effect.HitsLimit machine ∨ effectRaised = effect) :
    (settle effect after outer).HitsLimit machine ∨
      settle effectRaised after outer = settle effect after outer := by
  rcases same with hits | rfl
  · left
    obtain ⟨reached, left, events, found⟩ := effect
    obtain ⟨⟨fault, rfl, isLimit⟩, kept⟩ := hits
    obtain ⟨ending, ended, hits, output⟩ := hitsLimit_finish reached left outer isLimit events
    exact ⟨ending, ended, hits, output.trans kept⟩
  · exact .inr rfl

theorem invoke_raised (le : limits ≤ raised) (name : String) :
    (invoke program limits machine scopes name after outer).HitsLimit machine ∨
      invoke program raised machine scopes name after outer =
        invoke program limits machine scopes name after outer := by
  simp only [invoke]
  cases program.body? name with
  | none => exact .inr rfl
  | some body =>
    by_cases deep : limits.maxCallDepth ≤ machine.depth
    · left
      simp only [if_pos deep]
      exact hitsLimit_finish machine scopes outer rfl []
    · right
      have shallow : ¬ raised.maxCallDepth ≤ machine.depth :=
        fun reached => deep (Nat.le_trans (Limits.maxCallDepth_le le) reached)
      simp only [if_neg deep, if_neg shallow]

/-- Only arithmetic, storing and calls look at the limits. -/
theorem perform_raised (le : limits ≤ raised) (instruction : Instruction) :
    (perform program limits machine scopes after outer instruction).HitsLimit machine ∨
      perform program raised machine scopes after outer instruction =
        perform program limits machine scopes after outer instruction := by
  cases instruction with
  | arithmetic op target =>
    exact settle_raised machine after outer (machine.arithmetic_raised scopes le op target)
  | store => exact settle_raised machine after outer (machine.store_raised scopes le)
  | invoke name => exact invoke_raised program machine scopes after outer le name
  | _ => exact .inr rfl

end Step

namespace Turn

variable {program : Program} {limits raised : Limits}

/-- Under higher limits a step does the same, unless it ends the run for a
limit. -/
theorem step_raised (program : Program) (le : limits ≤ raised) (turn : Turn) :
    (∃ ending, (turn.step program limits).turn = .ended ending ∧ ending.HitsLimit ∧
        ending.machine.output = turn.machine.output) ∨
      turn.step program raised = turn.step program limits := by
  cases turn with
  | ended ending => exact .inr rfl
  | ongoing activity =>
    obtain ⟨machine, scopes, code, outer⟩ := activity
    cases code with
    | nil => exact .inr rfl
    | cons instruction after =>
      rcases Step.perform_raised program machine scopes after outer le instruction with
        hits | same
      · exact .inl hits
      · right
        simp only [Turn.step, Activity.step, same]

/-- A run under higher limits is the same run, unless a limit has ended the one
under the lower ones; what that one has printed, the other has printed too. -/
theorem advance_raised (le : limits ≤ raised) (count : Nat) (turn : Turn) :
    turn.advance program raised count = turn.advance program limits count ∨
      ∃ ending, turn.advance program limits count = .ended ending ∧ ending.HitsLimit ∧
        ending.machine.output.bytes <+:
          (turn.advance program raised count).machine.output.bytes := by
  induction count generalizing turn with
  | zero => exact .inl rfl
  | succ count ih =>
    rcases turn.step_raised program le with ⟨ending, ended, hits, kept⟩ | same
    · right
      refine ⟨ending, ?_, hits, ?_⟩
      · rw [advance, ended, advance_ended]
      · rw [kept]
        exact bytes_prefix_advance program raised (count + 1) turn
    · rw [advance, advance, same]
      exact ih _

end Turn

/-! ## Runs -/

namespace Request

variable {limits raised : Limits} (request : Request) (program : Program) (machine : Machine)
  (scopes : Scopes)

/-- To begin is the same, unless the call depth is reached at once. -/
theorem start_raised (le : limits ≤ raised) :
    (request.start program limits machine scopes).HitsLimit machine ∨
      request.start program raised machine scopes =
        request.start program limits machine scopes := by
  cases request with
  | execute => exact Step.invoke_raised program machine scopes [] [] le entryPoint
  | invoke name => exact Step.invoke_raised program machine scopes [] [] le name
  | executeBlock body => exact .inr rfl

/-- The run is the same, unless a limit has ended the one under the lower
limits. -/
theorem run_raised (le : limits ≤ raised) (count : Nat) :
    request.run program raised machine scopes count =
        request.run program limits machine scopes count ∨
      ∃ ending, request.run program limits machine scopes count = .ended ending ∧
        ending.HitsLimit ∧ ending.machine.output.bytes <+:
          (request.run program raised machine scopes count).machine.output.bytes := by
  rcases request.start_raised program machine scopes le with
    ⟨ending, ended, hits, kept⟩ | same
  · right
    refine ⟨ending, ?_, hits, ?_⟩
    · rw [run, ended, Turn.advance_ended]
    · rw [kept]
      exact request.bytes_prefix_run program raised machine scopes count
  · rw [run, run, same]
    exact Turn.advance_raised le count _

/-- A request that has ended without hitting a limit ends in the same way under
higher limits: with the same result, stack, heap, output and scopes. If it has
hit one, what it has printed is the beginning of what is printed under higher
limits from then on, whether or not that ends. -/
theorem ending_under_raised_limits (le : limits ≤ raised) (count : Nat) {ending : Ending}
    (ended : (request.run program limits machine scopes count).ending? = some ending) :
    (¬ ending.HitsLimit →
      (request.run program raised machine scopes count).ending? = some ending) ∧
    (ending.HitsLimit → ∀ more, ending.machine.output.bytes <+:
      (request.run program raised machine scopes (count + more)).machine.output.bytes) := by
  have reached := Turn.ending?_eq_some_iff.mp ended
  rcases request.run_raised program machine scopes le count with
    same | ⟨found, foundEnded, hits, printed⟩
  · rw [← same] at reached
    constructor
    · intro noLimit
      exact Turn.ending?_eq_some_iff.mpr reached
    · intro hits more
      rw [run_add, reached, Turn.advance_ended]
      exact List.prefix_refl _
  · rw [reached] at foundEnded
    cases foundEnded
    constructor
    · intro noLimit
      exact absurd hits noLimit
    · intro hits more
      rw [run_add]
      exact printed.trans (Turn.bytes_prefix_advance ..)

end Request

/-- A program whose entry point prints a line and calls itself. -/
def Program.selfCalling : Program where
  subroutines := [⟨entryPoint, [.print (.text "a"), .invoke entryPoint]⟩]
  sorted := List.pairwise_singleton _ _
  definesEntryPoint := ⟨_, List.mem_singleton_self _, rfl⟩

/-- With one call allowed it prints one line, and that line is the first of what
it prints with two calls allowed. -/
theorem Request.selfCalling_under_two_calls :
    ∃ ending : Ending, Limits.mk 1 8 8 ≤ Limits.mk 2 8 8 ∧
      (execute.run .selfCalling ⟨1, 8, 8⟩ (.initial (.empty none)) .initial 2).ending? =
        some ending ∧
      ending.result = .error (.callDepth 1) ∧ ending.machine.output.bytes = [97, 10] ∧
      ∀ more, ending.machine.output.bytes <+:
        (execute.run .selfCalling ⟨2, 8, 8⟩ (.initial (.empty none)) .initial
          (2 + more)).machine.output.bytes := by
  have le : Limits.mk 1 8 8 ≤ Limits.mk 2 8 8 := ⟨by decide, by decide, by decide⟩
  have hits : StackScript.HitsLimit (.error (.callDepth 1) : Except Fault Flow) :=
    ⟨.callDepth 1, rfl, rfl⟩
  refine ⟨_, le, rfl, rfl, rfl, ?_⟩
  exact (ending_under_raised_limits execute .selfCalling _ _ le 2 rfl).2 hits

end StackScript
