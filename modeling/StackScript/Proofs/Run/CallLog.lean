import StackScript.Proofs.Run.CallDepth
import StackScript.Proofs.Run.Events
import StackScript.Proofs.Run.LoopConditions

/-!
# The log of calls

Without the growth of the heap, the events of a run are a log of its calls. Read from
its beginning, the log says which calls are open: a call is opened one deeper than
those before it, and only the innermost one returns. How a run ends can be told from
its log alone, since a fault can only follow upon an instruction, and a value that ends
the run is reported last.
-/

namespace StackScript

open Suspension (called)

namespace Event

/-- A call or a return. -/
def isCall : Event → Bool
  | .invoked _ _ => true
  | .returned _ => true
  | _ => false

/-- The calls that are open after an event, the innermost first, or nothing if the
event cannot come while these calls are open. -/
def nextCalls? (limits : Limits) (calls : List String) : Event → Option (List String)
  | .invoked name depth =>
    if depth = calls.length + 1 ∧ depth ≤ limits.maxCallDepth then some (name :: calls) else none
  | .returned name =>
    match calls with
    | [] => none
    | innermost :: outer => if name = innermost then some outer else none
  | _ => some calls

end Event

/-- The calls that are open after these events, if the events are well bracketed. -/
def openCalls? (limits : Limits) (log : List Event) : Option (List String) :=
  log.foldlM (Event.nextCalls? limits) []

/-- The events of a step without the growth of the heap. -/
def Step.log (step : Step) : List Event :=
  step.events.filter fun event => !event.isGrowth

/-- The events of a run without the growth of the heap. -/
def Request.log (request : Request) (program : Program) (limits : Limits) (machine : Machine)
    (scopes : Scopes) (count : Nat) : List Event :=
  (request.events program limits machine scopes count).filter fun event => !event.isGrowth

theorem Request.log_succ (request : Request) (program : Program) (limits : Limits)
    (machine : Machine) (scopes : Scopes) (count : Nat) :
    request.log program limits machine scopes (count + 1) =
      request.log program limits machine scopes count ++
        ((request.run program limits machine scopes count).step program limits).log := by
  rw [log, events_succ, List.filter_append]
  rfl

/-! ## Open calls -/

section OpenCalls

variable {limits : Limits} {log : List Event} {calls : List String}
  (isOpen : openCalls? limits log = some calls)

include isOpen

theorem openCalls?_concat (event : Event) :
    openCalls? limits (log ++ [event]) = event.nextCalls? limits calls := by
  rw [openCalls?] at isOpen
  rw [openCalls?, List.foldlM_append, isOpen]
  simp

/-- A call is opened one deeper than the others. -/
theorem openCalls?_invoked (name : String) (below : calls.length < limits.maxCallDepth) :
    openCalls? limits (log ++ [.invoked name (calls.length + 1)]) = some (name :: calls) := by
  rw [openCalls?_concat isOpen, Event.nextCalls?, if_pos ⟨rfl, below⟩]

end OpenCalls

/-- The innermost call is closed. -/
theorem openCalls?_returned {limits : Limits} {log : List Event} {name : String}
    {calls : List String} (isOpen : openCalls? limits log = some (name :: calls)) :
    openCalls? limits (log ++ [.returned name]) = some calls := by
  rw [openCalls?_concat isOpen]
  exact if_pos rfl

/-! ## Ways to end -/

/-- How a run has ended is told by its log. -/
structure Ending.ToldBy (ending : Ending) (limits : Limits) (log : List Event) : Prop where
  /-- It has completed exactly if there are calls, and all of them have returned. -/
  completed : ending.result.map Flow.exit = .ok .completed ↔
    (∃ event ∈ log, event.isCall = true) ∧ openCalls? limits log = some []
  /-- It was ended by a value exactly if this value is the last event. -/
  halted : ∀ code, ending.result.map Flow.exit = .ok (.halted code) ↔
    log.getLast? = some (.halted code)
  /-- It has failed exactly if there is no event, or an instruction is the last. -/
  failed : (∃ fault, ending.result.map Flow.exit = .error fault) ↔
    log = [] ∨ ∃ op height, log.getLast? = some (.dispatched op height)

namespace Turn

/-- The log of a run of the entry point, up to this turn. -/
inductive Logged (limits : Limits) : Turn → List Event → Prop
  /-- Inside the entry point the open calls are those that wait. -/
  | running {activity : Activity} {log : List Event} {scopes : Scopes}
      (inside : (Turn.ongoing activity).Inside (.call entryPoint scopes []) [])
      (isOpen : openCalls? limits log = some (called activity.suspended)) :
      Logged limits (.ongoing activity) log
  /-- The entry point has returned. -/
  | returned {machine : Machine} {scopes : Scopes} {log : List Event} {name : String}
      (last : log.getLast? = some (.returned name)) (isOpen : openCalls? limits log = some []) :
      Logged limits (.ongoing ⟨machine, scopes, [], []⟩) log
  | completed {ending : Ending} {flow : Flow} {log : List Event} {name : String}
      (ended : ending.result = .ok flow) (exits : flow.exit = .completed)
      (last : log.getLast? = some (.returned name)) (isOpen : openCalls? limits log = some []) :
      Logged limits (.ended ending) log
  | halted {ending : Ending} {code : Value} {log : List Event} {innermost : String}
      {outer : List String} (ended : ending.result = .ok (.halted code))
      (last : log.getLast? = some (.halted code))
      (isOpen : openCalls? limits log = some (innermost :: outer)) :
      Logged limits (.ended ending) log
  | failed {ending : Ending} {fault : Fault} {log : List Event} {op : Mnemonic} {height : Nat}
      {innermost : String} {outer : List String} (ended : ending.result = .error fault)
      (last : log.getLast? = some (.dispatched op height))
      (isOpen : openCalls? limits log = some (innermost :: outer)) :
      Logged limits (.ended ending) log
  /-- The call of the entry point was refused. -/
  | refused {ending : Ending} {fault : Fault} (ended : ending.result = .error fault) :
      Logged limits (.ended ending) []

namespace Logged

variable {limits : Limits} {log : List Event}

theorem exists_openCalls? {turn : Turn} (logged : turn.Logged limits log) :
    ∃ calls, openCalls? limits log = some calls := by
  cases logged with
  | running inside isOpen => exact ⟨_, isOpen⟩
  | returned last isOpen => exact ⟨_, isOpen⟩
  | completed ended exits last isOpen => exact ⟨_, isOpen⟩
  | halted ended last isOpen => exact ⟨_, isOpen⟩
  | failed ended last isOpen => exact ⟨_, isOpen⟩
  | refused ended => exact ⟨[], rfl⟩

theorem toldBy {ending : Ending} (logged : (Turn.ended ending).Logged limits log) :
    ending.ToldBy limits log := by
  cases logged with
  | @completed _ flow _ name ended exits last isOpen =>
    have called : ∃ event ∈ log, event.isCall = true :=
      ⟨_, List.mem_of_getLast? last, rfl⟩
    have notEmpty : log ≠ [] := List.ne_nil_of_mem (List.mem_of_getLast? last)
    constructor <;> simp [ended, exits, last, isOpen, called, notEmpty, Except.map]
  | @halted _ code _ innermost outer ended last isOpen =>
    have notEmpty : log ≠ [] := List.ne_nil_of_mem (List.mem_of_getLast? last)
    constructor <;> simp [ended, last, isOpen, notEmpty, Except.map, Flow.exit]
  | @failed _ fault _ op height innermost outer ended last isOpen =>
    constructor <;> simp [ended, last, isOpen, Except.map]
  | @refused _ fault ended =>
    constructor <;> simp [ended, Except.map]

end Logged

end Turn

/-! ## Steps -/

theorem Suspension.called_append (inner outer : List Suspension) :
    called (inner ++ outer) = called inner ++ called outer := by
  induction inner with
  | nil => rfl
  | cons waiting inner ih =>
    cases waiting with
    | branch | loop => exact ih
    | call name caller after => exact congrArg (name :: ·) ih

theorem Step.log_eq_nil {turn : Turn} {events : List Event}
    (growth : ∀ event ∈ events, event.isGrowth = true) : (Step.mk turn events).log = [] := by
  rw [log, List.filter_eq_nil_iff]
  intro event mem
  rw [growth event mem]
  exact Bool.false_ne_true

namespace Turn

variable {limits : Limits} {log : List Event}

/-- A step inside the entry point keeps the log, if it does not fail unless the last
event is an instruction. -/
theorem logged_of_reports {machine : Machine} {scopes caller : Scopes} {code : Block}
    {inner outer : List Suspension} {step : Step}
    (reports : Reports limits machine (called outer) step.turn step.events)
    (moves : Moves scopes code outer step.turn)
    (inside : outer = inner ++ [.call entryPoint caller []])
    (isOpen : openCalls? limits log = some (called outer))
    (depth : machine.depth = (called outer).length)
    (atFault : ∀ ending fault, step.turn = .ended ending → ending.result = .error fault →
      ∃ op height, log.getLast? = some (.dispatched op height)) :
    step.turn.Logged limits (log ++ step.log) := by
  obtain ⟨turn, events⟩ := step
  -- The call of the entry point is among those that wait, so some call is open.
  obtain ⟨innermost, others, calledEq⟩ :
      ∃ innermost others, called outer = innermost :: others := by
    apply List.exists_cons_of_ne_nil
    rw [inside, Suspension.called_append]
    exact List.append_ne_nil_of_right_ne_nil _ (List.cons_ne_nil _ _)
  have stays {activity : Activity} (moves : Moves scopes code outer (.ongoing activity)) :
      (Turn.ongoing activity).Inside (.call entryPoint caller []) [] ∨
        ∃ machine, activity = ⟨machine, caller, [], []⟩ := by
    rw [inside] at moves
    rcases inside_of_moves moves with still | ⟨machine, back⟩ | ⟨ending, ended, unwound⟩
    · exact .inl still
    · cases back
      exact .inr ⟨machine, rfl⟩
    · cases ended
  cases reports with
  | goesOn same growth =>
    rw [Step.log_eq_nil growth, List.append_nil]
    rw [← same] at isOpen
    rcases stays moves with still | ⟨reached, rfl⟩
    · exact .running still isOpen
    · cases same.trans calledEq
  | @calls activity name opened below =>
    rcases stays moves with still | ⟨reached, rfl⟩
    · rw [depth] at below ⊢
      have oneMore := openCalls?_invoked isOpen name below
      rw [← opened] at oneMore
      exact .running still oneMore
    · cases opened
  | returns closed =>
    rw [closed] at isOpen
    have closedCall := openCalls?_returned isOpen
    rcases stays moves with still | ⟨reached, rfl⟩
    · exact .running still closedCall
    · exact .returned List.getLast?_concat closedCall
  | fails failed growth =>
    rw [Step.log_eq_nil growth, List.append_nil]
    obtain ⟨op, height, last⟩ := atFault _ _ rfl failed
    exact .failed failed last (isOpen.trans (congrArg some calledEq))
  | @halts ending code halted silent =>
    have stillOpen : openCalls? limits (log ++ [.halted code]) = some (innermost :: others) :=
      (openCalls?_concat isOpen _).trans (congrArg some calledEq)
    exact .halted halted List.getLast?_concat stillOpen
  | ends ended exits outside => cases outside.symm.trans calledEq

/-- Every step keeps the log. -/
theorem logged_step {program : Program} {turn : Turn} (logged : turn.Logged limits log)
    (counts : turn.CountsCalls limits) (readable : turn.Readable) :
    (turn.step program limits).turn.Logged limits (log ++ (turn.step program limits).log) := by
  cases turn with
  | ended ending =>
    have silent : (Turn.step program limits (.ended ending)).log = [] := rfl
    rw [silent, List.append_nil]
    exact logged
  | ongoing activity =>
    cases logged with
    | returned last isOpen =>
      rw [← List.append_nil log] at last isOpen
      exact .completed rfl rfl last isOpen
    | running inside isOpen =>
      obtain ⟨machine, scopes, code, outer⟩ := activity
      obtain ⟨_, inner, ⟨⟩, suspendedEq⟩ := inside
      have depth : machine.depth = (called outer).length :=
        counts.depth.trans (Suspension.length_called outer).symm
      cases code with
      | nil =>
        -- No instruction has been reported here, so it matters that nothing can fail.
        apply logged_of_reports (Step.reports_resume ..) (Step.moves_resume ..) suspendedEq
          isOpen depth
        intro ending fault ended failed
        cases (Step.completed_of_resume readable ended).symm.trans failed
      | cons instruction after =>
        have announced := openCalls?_concat isOpen
          (.dispatched instruction.mnemonic machine.stack.size)
        have logged := logged_of_reports (Step.reports_perform program ..)
          (Step.moves_perform program limits machine scopes after outer instruction)
          suspendedEq announced depth fun _ _ _ _ => ⟨_, _, List.getLast?_concat⟩
        rw [List.append_assoc] at logged
        exact logged

end Turn

/-! ## Runs -/

/-- An instruction is reported first in its step, with the height of the stack. -/
theorem Turn.height_of_dispatched {program : Program} {limits : Limits} {turn : Turn}
    {front back : List Event} {op : Mnemonic} {height : Nat}
    (split : (turn.step program limits).events = front ++ .dispatched op height :: back) :
    front = [] ∧ height = turn.machine.stack.size := by
  have mem : Event.dispatched op height ∈ (turn.step program limits).events := by
    rw [split]
    exact List.mem_append_right _ List.mem_cons_self
  cases turn with
  | ended ending => cases mem
  | ongoing activity =>
    obtain ⟨machine, scopes, code, outer⟩ := activity
    cases code with
    | nil => cases (Step.reports_resume limits machine scopes outer).isDispatch_eq_false mem
    | cons instruction after =>
      cases front with
      | nil =>
        cases split
        exact ⟨rfl, rfl⟩
      | cons first front =>
        have later : Event.dispatched op height ∈
            (Step.perform program limits machine scopes after outer instruction).events := by
          rw [(List.cons.inj split).2]
          exact List.mem_append_right _ List.mem_cons_self
        cases (Step.reports_perform program limits machine scopes after outer
          instruction).isDispatch_eq_false later

/-- Nothing comes after the value that ends a run, and nothing is printed with it. -/
theorem Turn.ended_of_halted {program : Program} {limits : Limits} {turn : Turn}
    {front back : List Event} {code : Value}
    (split : (turn.step program limits).events = front ++ .halted code :: back) :
    back = [] ∧ ∃ ending, (turn.step program limits).turn = .ended ending ∧
      ending.machine.output = turn.machine.output := by
  cases turn with
  | ended ending => cases List.append_ne_nil_of_right_ne_nil _ (List.cons_ne_nil _ _) split.symm
  | ongoing activity =>
    obtain ⟨machine, scopes, remaining, outer⟩ := activity
    cases remaining with
    | nil => exact (Step.reports_resume limits machine scopes outer).ended_of_halted split
    | cons instruction after =>
      cases front with
      | nil => cases split
      | cons first front =>
        have tail := (List.cons.inj split).2
        exact (Step.reports_perform program limits machine scopes after outer
          instruction).ended_of_halted tail

namespace Request

variable (program : Program) (limits : Limits) {machine : Machine} (scopes : Scopes)
  (rest : machine.depth = 0)

/-- At first nothing is reported but the call of the entry point. -/
theorem isCall_of_mem_events_start {event : Event}
    (mem : event ∈ (execute.start program limits machine scopes).events) :
    event.isCall = true := by
  simp only [start, Machine.invoke, Step.invoke] at mem
  split at mem
  · cases mem
  · split at mem
    · cases mem
    · rw [List.mem_singleton.mp mem]
      rfl

include rest

theorem logged_start :
    (execute.start program limits machine scopes).turn.Logged limits
      (execute.start program limits machine scopes).log := by
  simp only [start, Machine.invoke, Step.invoke, rest]
  split
  · exact .refused rfl
  · split
    · exact .refused rfl
    · rename_i body found shallow
      have entered := @openCalls?_invoked limits [] [] rfl entryPoint (Nat.lt_of_not_le shallow)
      exact .running ⟨_, [], rfl, rfl⟩ entered

theorem logged (count : Nat) :
    (execute.run program limits machine scopes count).Logged limits
      (execute.log program limits machine scopes count) := by
  induction count with
  | zero =>
    have atFirst := logged_start program limits scopes rest
    rw [log, events_zero]
    exact atFirst
  | succ count ih =>
    have counts : (execute.run program limits machine scopes count).CountsCalls limits :=
      Turn.advance_induction (Turn.CountsCalls limits)
        (Step.countsCalls_invoke program machine scopes [] [] rest entryPoint)
        (fun _ => Turn.countsCalls_step) count
    have readable : (execute.run program limits machine scopes count).Readable :=
      Turn.advance_induction Turn.Readable (readable_start program limits machine scopes execute)
        (fun _ => Turn.readable_step) count
    rw [log_succ, run_succ]
    exact Turn.logged_step ih counts readable

omit rest in
/-- An instruction was reported when a step began, with the height of the stack then. -/
theorem exists_dispatch {count : Nat} {before after : List Event} {op : Mnemonic} {height : Nat}
    (split : execute.events program limits machine scopes count =
      before ++ .dispatched op height :: after) :
    ∃ earlier < count, before = execute.events program limits machine scopes earlier ∧
      height = (execute.run program limits machine scopes earlier).machine.stack.size := by
  have notFirst : Event.dispatched op height ∉
      (execute.start program limits machine scopes).events := by
    intro mem
    cases isCall_of_mem_events_start program limits scopes mem
  obtain ⟨earlier, front, back, earlierLt, beforeEq, stepEq⟩ :=
    exists_step_of_events execute program limits machine scopes split notFirst
  obtain ⟨rfl, heightEq⟩ := Turn.height_of_dispatched stepEq
  rw [List.append_nil] at beforeEq
  exact ⟨earlier, earlierLt, beforeEq, heightEq⟩

omit rest in
/-- A value that ends the run is the last event, and from the step on that reports it
nothing is printed. -/
theorem exists_halt {count : Nat} {before after : List Event} {code : Value}
    (split : execute.events program limits machine scopes count =
      before ++ .halted code :: after) :
    after = [] ∧ ∃ earlier < count,
      Event.halted code ∈
        ((execute.run program limits machine scopes earlier).step program limits).events ∧
      ∀ more, (execute.run program limits machine scopes (earlier + more)).machine.output =
        (execute.run program limits machine scopes earlier).machine.output := by
  have notFirst : Event.halted code ∉ (execute.start program limits machine scopes).events := by
    intro mem
    cases isCall_of_mem_events_start program limits scopes mem
  obtain ⟨earlier, front, back, earlierLt, beforeEq, stepEq⟩ :=
    exists_step_of_events execute program limits machine scopes split notFirst
  obtain ⟨rfl, ending, ended, silent⟩ := Turn.ended_of_halted stepEq
  rw [← run_succ] at ended
  constructor
  · -- The run has ended by then, so these are all events there will ever be.
    obtain ⟨more, rfl⟩ := Nat.exists_eq_add_of_le earlierLt
    rw [events_of_ended execute program limits machine scopes ended, events_succ, stepEq,
      beforeEq, ← List.append_assoc] at split
    exact (List.cons.inj (List.append_cancel_left split)).2.symm
  · refine ⟨earlier, earlierLt, ?_, ?_⟩
    · rw [stepEq]
      exact List.mem_append_right _ List.mem_cons_self
    · intro more
      cases more with
      | zero => rfl
      | succ more =>
        rw [Nat.add_comm more, ← Nat.add_assoc, run_add, ended, Turn.advance_ended]
        exact silent

/-- The log of a run of the entry point on a machine at rest. At every moment it is well
bracketed, each call being one deeper than those that are open and no deeper than
allowed, and each return closing the innermost one. Each instruction is reported with
the height of the stack at that moment. How the run has ended is told by its log. A
value that ends it is the last event, and nothing is printed after it. -/
theorem execute_log (count : Nat) :
    (∃ calls, openCalls? limits (execute.log program limits machine scopes count) =
      some calls) ∧
    (∀ before op height after,
      execute.events program limits machine scopes count =
        before ++ .dispatched op height :: after →
      ∃ earlier < count, before = execute.events program limits machine scopes earlier ∧
        height = (execute.run program limits machine scopes earlier).machine.stack.size) ∧
    (∀ ending, execute.run program limits machine scopes count = .ended ending →
      ending.ToldBy limits (execute.log program limits machine scopes count)) ∧
    ∀ before code after,
      execute.events program limits machine scopes count = before ++ .halted code :: after →
      after = [] ∧ ∃ earlier < count,
        Event.halted code ∈
          ((execute.run program limits machine scopes earlier).step program limits).events ∧
        ∀ more, (execute.run program limits machine scopes (earlier + more)).machine.output =
          (execute.run program limits machine scopes earlier).machine.output := by
  have atCount := logged program limits scopes rest count
  refine ⟨atCount.exists_openCalls?, ?_, ?_, ?_⟩
  · intro before op height after split
    exact exists_dispatch program limits scopes split
  · intro ending ended
    rw [ended] at atCount
    exact atCount.toldBy
  · intro before code after split
    exact exists_halt program limits scopes split

end Request

/-- A program that pushes a number and halts with it inside a second call. -/
def Program.haltingInside : Program where
  subroutines := [⟨"f", [.exit (.integer 7)]⟩, ⟨entryPoint, [.push (.integer 7), .invoke "f"]⟩]
  sorted := by
    simp only [List.pairwise_cons, List.forall_mem_cons]
    decide
  definesEntryPoint := ⟨⟨entryPoint, [.push (.integer 7), .invoke "f"]⟩, by simp, rfl⟩

/-- Two calls are open when it ends. -/
theorem Request.haltingInside_log :
    ∃ ending, execute.run .haltingInside .default (.initial (.empty none)) .initial 3 =
        .ended ending ∧
      execute.log .haltingInside .default (.initial (.empty none)) .initial 3 =
        [.invoked entryPoint 1, .dispatched .push 0, .dispatched .invoke 1, .invoked "f" 2,
          .dispatched .exit 1, .halted (.integer 7)] ∧
      openCalls? .default (execute.log .haltingInside .default (.initial (.empty none))
        .initial 3) = some ["f", entryPoint] ∧
      ending.ToldBy .default (execute.log .haltingInside .default (.initial (.empty none))
        .initial 3) := by
  have described := @execute_log .haltingInside .default (.initial (.empty none)) .initial rfl 3
  exact ⟨_, rfl, rfl, rfl, described.2.2.1 _ rfl⟩

end StackScript
