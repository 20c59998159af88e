import StackScript.Proofs.Run

/-!
# Blocks among what waits

A block never looks at what waits for it. Its run inside a branch, a loop or a
call is, step by step, the run that it would have by itself, until it ends; then
its ending is handed over to what waits. So what is shown of blocks run by
themselves holds of every block inside a run.
-/

namespace StackScript

/-- How a run goes on when a block has ended inside what waits for it. -/
def Ending.handOver (ending : Ending) (outer : List Suspension) : Turn :=
  match ending with
  | ⟨.ok .completed, machine, scopes⟩ => (Step.resume machine scopes outer).turn
  | ⟨.ok .stopped, machine, scopes⟩ => (Step.stop machine scopes outer).turn
  | ⟨result, machine, scopes⟩ => .finish result machine scopes outer

/-- A block's run by itself, with this waiting beneath all that waits in it. -/
def Turn.within (outer : List Suspension) : Turn → Turn
  | .ongoing ⟨machine, scopes, code, inner⟩ =>
    .ongoing ⟨machine, scopes, code, inner ++ outer⟩
  | .ended ending => ending.handOver outer

/-- What waits may be given up in two parts. -/
theorem Suspension.abandon_append (machine : Machine) (scopes : Scopes)
    (inner outer : List Suspension) :
    abandon machine scopes (inner ++ outer) =
      abandon (abandon machine scopes inner).1 (abandon machine scopes inner).2 outer := by
  induction inner generalizing machine scopes with
  | nil => rfl
  | cons suspension inner ih => cases suspension <;> exact ih ..

namespace Turn

variable (machine : Machine) (scopes : Scopes) (inner outer : List Suspension)

theorem finish_error_append (fault : Fault) :
    finish (.error fault) machine scopes (inner ++ outer) =
      (finish (.error fault) machine scopes inner).within outer := by
  simp only [finish, within, Ending.handOver, Suspension.abandon_append]

theorem finish_halted_append (code : Value) :
    finish (.ok (.halted code)) machine scopes (inner ++ outer) =
      (finish (.ok (.halted code)) machine scopes inner).within outer := by
  simp only [finish, within, Ending.handOver, Suspension.abandon_append]

end Turn

namespace Step

variable (program : Program) (limits : Limits) (machine : Machine) (scopes : Scopes)
  (after : Block) (inner outer : List Suspension)

theorem stop_append :
    (stop machine scopes (inner ++ outer)).turn =
      (stop machine scopes inner).turn.within outer := by
  induction inner generalizing scopes with
  | nil => rfl
  | cons suspension inner ih =>
    cases suspension with
    | branch | loop => exact ih scopes.leave
    | call => rfl

theorem iterate_append (condition : Operand) (body : Block) :
    (iterate machine scopes condition body after (inner ++ outer)).turn =
      (iterate machine scopes condition body after inner).turn.within outer := by
  simp only [iterate]
  cases scopes.evaluate condition with
  | error fault => exact Turn.finish_error_append ..
  | ok value =>
    by_cases truthy : value.isTruthy = true
    · simp only [if_pos truthy]
      rfl
    · simp only [if_neg truthy]
      rfl

theorem choose_append (otherwise : Option Block) (branches : List Branch) :
    (choose machine scopes otherwise after (inner ++ outer) branches).turn =
      (choose machine scopes otherwise after inner branches).turn.within outer := by
  induction branches with
  | nil => cases otherwise <;> rfl
  | cons branch rest ih =>
    obtain ⟨condition, body⟩ := branch
    simp only [choose]
    cases scopes.evaluate condition with
    | error fault => exact Turn.finish_error_append ..
    | ok value =>
      by_cases truthy : value.isTruthy = true
      · simp only [if_pos truthy]
        rfl
      · simp only [if_neg truthy]
        exact ih

theorem invoke_append (name : String) :
    (invoke program limits machine scopes name after (inner ++ outer)).turn =
      (invoke program limits machine scopes name after inner).turn.within outer := by
  simp only [invoke]
  cases program.body? name with
  | none => exact Turn.finish_error_append ..
  | some body =>
    by_cases deep : limits.maxCallDepth ≤ machine.depth
    · simp only [if_pos deep]
      exact Turn.finish_error_append ..
    · simp only [if_neg deep]
      rfl

theorem exit_append (code : Operand) :
    (exit machine scopes code (inner ++ outer)).turn =
      (exit machine scopes code inner).turn.within outer := by
  simp only [exit]
  cases scopes.evaluate code with
  | error fault => exact Turn.finish_error_append ..
  | ok value => exact Turn.finish_halted_append ..

theorem settle_append (effect : Effect) :
    (settle effect after (inner ++ outer)).turn =
      (settle effect after inner).turn.within outer := by
  obtain ⟨machine, scopes, events, fault⟩ := effect
  cases fault with
  | none => rfl
  | some fault => exact Turn.finish_error_append ..

theorem resume_append :
    (resume machine scopes (inner ++ outer)).turn =
      (resume machine scopes inner).turn.within outer := by
  cases inner with
  | nil => rfl
  | cons suspension inner =>
    cases suspension with
    | branch | call => rfl
    | loop condition body after => exact iterate_append ..

theorem perform_append (instruction : Instruction) :
    (perform program limits machine scopes after (inner ++ outer) instruction).turn =
      (perform program limits machine scopes after inner instruction).turn.within outer := by
  cases instruction with
  | conditional => exact choose_append ..
  | loop => exact iterate_append ..
  | exit => exact exit_append ..
  | stop => exact stop_append ..
  | invoke => exact invoke_append ..
  | _ => exact settle_append ..

end Step

namespace Turn

variable {program : Program} {limits : Limits}

/-- One step is the step of the block by itself. -/
theorem step_within (activity : Activity) (outer : List Suspension) :
    (((Turn.ongoing activity).within outer).step program limits).turn =
      (activity.step program limits).turn.within outer := by
  obtain ⟨machine, scopes, code, inner⟩ := activity
  cases code with
  | nil => exact Step.resume_append machine scopes inner outer
  | cons instruction after =>
    exact Step.perform_append program limits machine scopes after inner outer instruction

/-- A block that ends by itself ends in the same way, after the same number of
steps, whatever waits for it, and hands its ending over. -/
theorem advance_within {turn : Turn} {ending : Ending} {count : Nat}
    (ended : turn.advance program limits count = .ended ending) :
    ∃ length, length ≤ count ∧ ∀ outer,
      (turn.within outer).advance program limits length = ending.handOver outer := by
  induction count generalizing turn with
  | zero =>
    cases ended
    exact ⟨0, Nat.le_refl 0, fun outer => rfl⟩
  | succ count ih =>
    cases turn with
    | ended found =>
      rw [advance_ended] at ended
      cases ended
      exact ⟨0, Nat.zero_le _, fun outer => rfl⟩
    | ongoing activity =>
      obtain ⟨length, lengthLe, handedOver⟩ := ih ended
      refine ⟨length + 1, Nat.succ_le_succ lengthLe, ?_⟩
      intro outer
      rw [advance, step_within]
      exact handedOver outer

end Turn

end StackScript
