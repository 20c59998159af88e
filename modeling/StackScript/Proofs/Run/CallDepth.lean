import StackScript.Proofs.Run.Effects
import StackScript.Proofs.Run.ScopeChain
import StackScript.Proofs.Run.Session

/-!
# The depth of calls

A machine counts the calls that are active. It counts one more when a call begins,
and one less for every call that returns or is given up, so that it stands at zero
whenever nothing is being run, however the runs before have ended. The limit is
therefore met by a call exactly if as many calls as allowed are active.
-/

namespace StackScript

open Suspension (callers)

/-- The subroutine that is asked for. -/
def Request.subroutine? : Request → Option String
  | .execute => some entryPoint
  | .invoke name => some name
  | .executeBlock _ => none

/-- The number of calls that are active. -/
def Turn.activeCalls : Turn → Nat
  | .ongoing activity => (callers activity.suspended).length
  | .ended _ => 0

/-- The machine counts the active calls, and these are no more than allowed. -/
structure Turn.CountsCalls (limits : Limits) (turn : Turn) : Prop where
  depth : turn.machine.depth = turn.activeCalls
  bounded : turn.activeCalls ≤ limits.maxCallDepth

/-! ## Steps -/

section Counting

variable (program : Program) {limits : Limits} (machine : Machine) (scopes : Scopes)
  (after : Block) (outer : List Suspension)

variable (depth : machine.depth = (callers outer).length)

include depth

/-- A run that is ended gives back all calls, and changes nothing else of the
machine. -/
theorem Turn.finish_eq (result : Except Fault Flow) :
    Turn.finish result machine scopes outer =
      .ended ⟨result, { machine with depth := 0 }, scopes.unwind outer⟩ := by
  simp only [finish, Suspension.machine_abandon, Suspension.scopes_abandon, depth, Nat.sub_self]

theorem Turn.countsCalls_finish (result : Except Fault Flow) :
    (Turn.finish result machine scopes outer).CountsCalls limits := by
  rw [finish_eq machine scopes outer depth]
  exact ⟨rfl, Nat.zero_le _⟩

namespace Step

/-- A call fails for its name or for the depth, or begins and is counted. -/
theorem turn_invoke (name : String) :
    (invoke program limits machine scopes name after outer).turn =
      match program.body? name with
      | none =>
        .ended ⟨.error (.unknownSubroutine name), { machine with depth := 0 }, scopes.unwind outer⟩
      | some body =>
        if limits.maxCallDepth ≤ (callers outer).length then
          .ended ⟨.error (.callDepth limits.maxCallDepth), { machine with depth := 0 },
            scopes.unwind outer⟩
        else
          .ongoing ⟨{ machine with depth := (callers outer).length + 1 }, .initial, body,
            .call name scopes after :: outer⟩ := by
  have finished := Turn.finish_eq machine scopes outer depth
  simp only [invoke, finished, depth]
  cases program.body? name with
  | none => rfl
  | some body =>
    simp only
    split <;> rfl

theorem countsCalls_invoke (name : String) :
    (invoke program limits machine scopes name after outer).turn.CountsCalls limits := by
  rw [turn_invoke program machine scopes after outer depth]
  split
  · exact ⟨rfl, Nat.zero_le _⟩
  · split
    · exact ⟨rfl, Nat.zero_le _⟩
    · rename_i body found shallow
      exact ⟨rfl, Nat.lt_of_not_le shallow⟩

theorem countsCalls_exit (code : Operand) :
    (exit machine scopes code outer).turn.CountsCalls limits := by
  simp only [exit]
  split <;> exact Turn.countsCalls_finish machine scopes outer depth _

variable (bounded : (callers outer).length ≤ limits.maxCallDepth)

include bounded

theorem countsCalls_stop : (stop machine scopes outer).turn.CountsCalls limits := by
  induction outer generalizing scopes with
  | nil => exact ⟨depth, Nat.zero_le _⟩
  | cons suspension outer ih =>
    cases suspension with
    | branch | loop => exact ih scopes.leave depth bounded
    | call name caller after => exact ⟨congrArg (· - 1) depth, Nat.le_of_succ_le bounded⟩

theorem countsCalls_iterate (condition : Operand) (body : Block) :
    (iterate machine scopes condition body after outer).turn.CountsCalls limits := by
  rcases iterate_cases machine scopes after outer condition body with
    ⟨reads, entered⟩ | past | ⟨fault, failed, ended⟩
  · rw [entered]
    exact ⟨depth, bounded⟩
  · rw [past]
    exact ⟨depth, bounded⟩
  · rw [ended]
    exact Turn.countsCalls_finish machine scopes outer depth _

theorem countsCalls_choose (otherwise : Option Block) (branches : List Branch) :
    (choose machine scopes otherwise after outer branches).turn.CountsCalls limits := by
  rcases choose_cases machine scopes after outer otherwise branches with
    ⟨body, held, entered⟩ | past | ⟨fault, failed⟩
  · rw [entered]
    exact ⟨depth, bounded⟩
  · rw [past]
    exact ⟨depth, bounded⟩
  · rw [failed]
    exact Turn.countsCalls_finish machine scopes outer depth _

theorem countsCalls_settle {effect : Effect} (kept : effect.machine.depth = machine.depth) :
    (settle effect after outer).turn.CountsCalls limits := by
  obtain ⟨reached, left, events, fault⟩ := effect
  cases fault with
  | none => exact ⟨kept.trans depth, bounded⟩
  | some fault => exact Turn.countsCalls_finish reached left outer (kept.trans depth) _

theorem countsCalls_perform (instruction : Instruction) :
    (perform program limits machine scopes after outer instruction).turn.CountsCalls limits := by
  cases has : machine.effect? scopes limits instruction with
  | some effect =>
    rw [perform_of_effect? program after outer has]
    have kept := (machine.keepsCalls_of_effect? scopes has).depth
    exact countsCalls_settle machine after outer depth bounded kept
  | none =>
    cases instruction with
    | conditional => exact countsCalls_choose machine scopes after outer depth bounded ..
    | loop => exact countsCalls_iterate machine scopes after outer depth bounded ..
    | exit => exact countsCalls_exit machine scopes outer depth _
    | stop => exact countsCalls_stop machine scopes outer depth bounded
    | invoke => exact countsCalls_invoke program machine scopes after outer depth _
    | _ => cases has

theorem countsCalls_resume : (resume machine scopes outer).turn.CountsCalls limits := by
  cases outer with
  | nil => exact ⟨depth, bounded⟩
  | cons suspension outer =>
    cases suspension with
    | branch after => exact ⟨depth, bounded⟩
    | loop => exact countsCalls_iterate machine scopes.leave _ outer depth bounded ..
    | call name caller after => exact ⟨congrArg (· - 1) depth, Nat.le_of_succ_le bounded⟩

end Step

end Counting

namespace Turn

variable {program : Program} {limits : Limits}

/-- Every step keeps the count. -/
theorem countsCalls_step {turn : Turn} (counts : turn.CountsCalls limits) :
    (turn.step program limits).turn.CountsCalls limits := by
  cases turn with
  | ended ending => exact counts
  | ongoing activity =>
    obtain ⟨machine, scopes, code, outer⟩ := activity
    cases code with
    | nil => exact Step.countsCalls_resume machine scopes outer counts.depth counts.bounded
    | cons instruction after =>
      exact Step.countsCalls_perform program machine scopes after outer counts.depth
        counts.bounded instruction

/-- A moment at which a subroutine is called, with the machine and the scopes at that
moment, what waits for the caller, and what the call leads to. -/
inductive Calls (program : Program) (limits : Limits) (name : String) :
    Turn → Machine → Scopes → List Suspension → Turn → Prop
  /-- By the next instruction of a run. -/
  | instruction {machine : Machine} {scopes : Scopes} {after : Block} {outer : List Suspension} :
      Calls program limits name (.ongoing ⟨machine, scopes, .invoke name :: after, outer⟩)
        machine scopes outer
        ((Turn.ongoing ⟨machine, scopes, .invoke name :: after, outer⟩).step program limits).turn
  /-- By a request on a machine at rest. -/
  | request {ending : Ending} {scopes : Scopes} (request : Request)
      (asks : request.subroutine? = some name) :
      Calls program limits name (.ended ending) ending.machine scopes []
        (request.start program limits ending.machine scopes).turn

/-- A run has ended with this fault. -/
def FailedWith (fault : Fault) (turn : Turn) : Prop :=
  ∃ ending, turn = .ended ending ∧ ending.result = .error fault

@[simp]
theorem not_failedWith_ongoing (fault : Fault) (activity : Activity) :
    ¬ (Turn.ongoing activity).FailedWith fault := by
  simp [FailedWith]

@[simp]
theorem failedWith_ended_iff {fault : Fault} {ending : Ending} :
    (Turn.ended ending).FailedWith fault ↔ ending.result = .error fault := by
  simp [FailedWith]

namespace Calls

variable {name : String} {turn next : Turn} {machine : Machine} {scopes : Scopes}
  {outer : List Suspension} (calls : turn.Calls program limits name machine scopes outer next)
  (counts : turn.CountsCalls limits)

include calls counts

/-- What a call leads to, by its name and by the number of active calls. -/
theorem next_eq : ∃ after, next =
    match program.body? name with
    | none =>
      .ended ⟨.error (.unknownSubroutine name), { machine with depth := 0 }, scopes.unwind outer⟩
    | some body =>
      if limits.maxCallDepth ≤ turn.activeCalls then
        .ended ⟨.error (.callDepth limits.maxCallDepth), { machine with depth := 0 },
          scopes.unwind outer⟩
      else
        .ongoing ⟨{ machine with depth := turn.activeCalls + 1 }, .initial, body,
          .call name scopes after :: outer⟩ := by
  cases calls with
  | @instruction machine scopes after outer =>
    exact ⟨after, Step.turn_invoke program machine scopes after outer counts.depth name⟩
  | @request ending scopes request asks =>
    refine ⟨[], ?_⟩
    cases request with
    | execute | invoke =>
      cases asks
      exact Step.turn_invoke program ending.machine scopes [] [] counts.depth _
    | executeBlock body => cases asks

theorem failedWith_unknownSubroutine_iff :
    next.FailedWith (.unknownSubroutine name) ↔ program.body? name = none := by
  obtain ⟨after, rfl⟩ := calls.next_eq counts
  cases program.body? name with
  | none => simp
  | some body =>
    simp only
    split <;> simp

theorem failedWith_callDepth_iff {body : Block} (defined : program.body? name = some body) :
    next.FailedWith (.callDepth limits.maxCallDepth) ↔
      turn.activeCalls = limits.maxCallDepth := by
  obtain ⟨after, rfl⟩ := calls.next_eq counts
  have bounded := counts.bounded
  simp only [defined]
  split
  · rename_i full
    simp [Nat.le_antisymm bounded full]
  · rename_i below
    simp only [not_failedWith_ongoing, false_iff]
    omega

/-- A call that fails changes nothing but the number of active calls. -/
theorem unchanged {ending : Ending} (ended : next = .ended ending) :
    ending.machine = { machine with depth := 0 } ∧ ending.scopes = scopes.unwind outer := by
  obtain ⟨after, nextEq⟩ := calls.next_eq counts
  rw [ended] at nextEq
  split at nextEq
  · cases nextEq
    exact ⟨rfl, rfl⟩
  · split at nextEq
    · cases nextEq
      exact ⟨rfl, rfl⟩
    · cases nextEq

end Calls

end Turn

/-! ## Sessions -/

namespace Session

variable {program : Program} {limits : Limits} {output : Output} {turn : Turn}
  {written : List (Nat × Value)}

/-- At every moment of a session that began with an unused machine the machine counts
the active calls. -/
theorem countsCalls (session : Session program limits (.unused output) written turn) :
    turn.CountsCalls limits := by
  induction session with
  | here => exact ⟨rfl, Nat.zero_le _⟩
  | request before request scopes ih =>
    cases request with
    | execute | invoke =>
      exact Step.countsCalls_invoke program _ scopes [] [] ih.depth _
    | executeBlock body => exact ⟨ih.depth, Nat.zero_le _⟩
  | step before ih => exact Turn.countsCalls_step ih

/-- At every moment of a session that began with an unused machine the machine counts
the active calls, which are never more than allowed, and counts none when it is at
rest. A call, by an instruction or by a request, fails as unknown exactly if its name
is not defined, and else fails for the depth exactly if as many calls as allowed are
active. A call that fails leaves the stack, the heap and the output as they are, and
writes no variable: of the scopes it only closes those that were open for the blocks
that wait for it. -/
theorem calls_counted (session : Session program limits (.unused output) written turn) :
    turn.machine.depth = turn.activeCalls ∧
    turn.activeCalls ≤ limits.maxCallDepth ∧
    (∀ ending, turn = .ended ending → ending.machine.depth = 0) ∧
    ∀ name machine scopes outer next,
      turn.Calls program limits name machine scopes outer next →
      (next.FailedWith (.unknownSubroutine name) ↔ program.body? name = none) ∧
      (∀ body, program.body? name = some body →
        (next.FailedWith (.callDepth limits.maxCallDepth) ↔
          turn.activeCalls = limits.maxCallDepth)) ∧
      ∀ ending, next = .ended ending →
        ending.machine = { machine with depth := 0 } ∧ ending.scopes = scopes.unwind outer := by
  have counts := session.countsCalls
  refine ⟨counts.depth, counts.bounded, ?_, ?_⟩
  · rintro ending rfl
    exact counts.depth
  · intro name machine scopes outer next calls
    constructor
    · exact calls.failedWith_unknownSubroutine_iff counts
    · constructor
      · intro body defined
        exact calls.failedWith_callDepth_iff counts defined
      · intro ending ended
        exact calls.unchanged counts ended

end Session

/-- A program whose entry point pushes a number and calls itself. -/
def Program.recurring : Program where
  subroutines := [⟨entryPoint, [.push (.integer 3), .invoke entryPoint]⟩]
  sorted := List.pairwise_singleton _ _
  definesEntryPoint := ⟨_, List.mem_singleton_self _, rfl⟩

/-- With one call allowed its second call fails and keeps the number. The machine is
then at rest with no call active, so that it may be called again from outside. -/
theorem Session.recurring_counted :
    ∃ turn next again,
      Session .recurring ⟨1, 8, 8⟩ (.unused (.empty none)) [] turn ∧
      turn.Calls .recurring ⟨1, 8, 8⟩ entryPoint turn.machine .initial
        [.call entryPoint .initial []] next ∧
      turn.activeCalls = 1 ∧ next.FailedWith (.callDepth 1) ∧
      next.machine = { turn.machine with depth := 0 } ∧ next.machine.stack = #[.integer 3] ∧
      next.Calls .recurring ⟨1, 8, 8⟩ entryPoint next.machine .initial [] again ∧
      ¬ again.FailedWith (.callDepth 1) := by
  have session : Session .recurring ⟨1, 8, 8⟩ (.unused (.empty none)) [] _ :=
    .step (.request .here .execute .initial)
  have failed : Session .recurring ⟨1, 8, 8⟩ (.unused (.empty none)) [] _ := .step session
  have atCall := (calls_counted session).2.2.2 entryPoint _ .initial _ _ .instruction
  have atRest := (calls_counted failed).2.2.2 entryPoint _ .initial [] _
    (.request .execute rfl)
  refine ⟨_, _, _, session, .instruction, rfl, (atCall.2.1 _ rfl).mpr rfl, rfl, rfl,
    .request .execute rfl, ?_⟩
  intro deep
  cases (atRest.2.1 _ rfl).mp deep

end StackScript
