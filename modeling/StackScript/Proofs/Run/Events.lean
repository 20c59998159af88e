import StackScript.Proofs.Run.Effects
import StackScript.Proofs.Run.ScopeChain

/-!
# The events of a run

A run reports its calls and returns, the instructions that it comes to, and at the end
the value that it halts with. In between it reports the growth of the heap.

`Reports` says once what a step can report and where it then leads. An instruction is
reported before it is run, so this leaves it out.
-/

namespace StackScript

/-- An instruction is about to run. -/
def Event.isDispatch : Event → Bool
  | .dispatched _ _ => true
  | _ => false

/-- The events of the beginning and of this many steps, in order. -/
def Request.events (request : Request) (program : Program) (limits : Limits)
    (machine : Machine) (scopes : Scopes) (count : Nat) : List Event :=
  let start := request.start program limits machine scopes
  start.events ++ start.turn.trace program limits count

/-! ## Step by step -/

namespace Turn

variable {program : Program} {limits : Limits}

/-- The last step counted reports last. -/
theorem trace_succ (turn : Turn) (count : Nat) :
    turn.trace program limits (count + 1) =
      turn.trace program limits count ++
        ((turn.advance program limits count).step program limits).events := by
  induction count generalizing turn with
  | zero => exact List.append_nil _
  | succ count ih =>
    rw [trace, ih, trace, advance]
    exact (List.append_assoc ..).symm

end Turn

namespace Request

variable (request : Request) (program : Program) (limits : Limits) (machine : Machine)
  (scopes : Scopes)

/-- One more step adds its events. -/
theorem events_succ (count : Nat) :
    request.events program limits machine scopes (count + 1) =
      request.events program limits machine scopes count ++
        ((request.run program limits machine scopes count).step program limits).events := by
  rw [events, Turn.trace_succ, ← List.append_assoc]
  rfl

/-- A run goes on by one more step. -/
theorem run_succ (count : Nat) :
    request.run program limits machine scopes (count + 1) =
      ((request.run program limits machine scopes count).step program limits).turn :=
  run_add request program limits machine scopes count 1

theorem events_zero :
    request.events program limits machine scopes 0 =
      (request.start program limits machine scopes).events :=
  List.append_nil _

/-- A run that has ended reports nothing more. -/
theorem events_of_ended {count : Nat} {ending : Ending}
    (ended : request.run program limits machine scopes count = .ended ending) (more : Nat) :
    request.events program limits machine scopes (count + more) =
      request.events program limits machine scopes count := by
  induction more with
  | zero => rfl
  | succ more ih =>
    rw [← Nat.add_assoc, events_succ, ih, run_add, ended, Turn.advance_ended]
    exact List.append_nil _

/-- Every event but the first ones was reported by a step. -/
theorem exists_step_of_events {count : Nat} {before after : List Event} {event : Event}
    (split : request.events program limits machine scopes count = before ++ event :: after)
    (notFirst : event ∉ (request.start program limits machine scopes).events) :
    ∃ earlier front back, earlier < count ∧
      before = request.events program limits machine scopes earlier ++ front ∧
      ((request.run program limits machine scopes earlier).step program limits).events =
        front ++ event :: back := by
  induction count generalizing after with
  | zero =>
    rw [events_zero] at split
    rw [split] at notFirst
    exact absurd (List.mem_append_right _ List.mem_cons_self) notFirst
  | succ count ih =>
    rw [events_succ] at split
    rcases List.append_eq_append_iff.mp split with
      ⟨front, beforeEq, stepEq⟩ | ⟨shared, eventsEq, afterEq⟩
    · exact ⟨count, front, after, Nat.lt_succ_self _, beforeEq, stepEq⟩
    · cases shared with
      | nil =>
        refine ⟨count, [], after, Nat.lt_succ_self _, ?_, afterEq.symm⟩
        rw [List.append_nil] at eventsEq ⊢
        exact eventsEq.symm
      | cons first shared =>
        obtain ⟨rfl, rest⟩ := List.cons.inj afterEq
        obtain ⟨earlier, front, back, earlierLt, beforeEq, stepEq⟩ := ih eventsEq
        exact ⟨earlier, front, back, Nat.lt_succ_of_lt earlierLt, beforeEq, stepEq⟩

end Request

/-! ## What a step reports -/

/-- The names of the calls that wait to return, the innermost first. -/
def Suspension.called : List Suspension → List String
  | [] => []
  | .branch _ :: outer => called outer
  | .loop _ _ _ :: outer => called outer
  | .call name _ _ :: outer => name :: called outer

open Suspension (called callers)

theorem Suspension.length_called (outer : List Suspension) :
    (called outer).length = (callers outer).length := by
  induction outer with
  | nil => rfl
  | cons suspension outer ih =>
    cases suspension with
    | branch | loop => exact ih
    | call => exact congrArg (· + 1) ih

/-- What a step can report on a machine while these calls wait, and what it then leads
to. -/
inductive Reports (limits : Limits) (machine : Machine) (calls : List String) :
    Turn → List Event → Prop
  /-- The run goes on in the same call. -/
  | goesOn {activity : Activity} {events : List Event}
      (same : called activity.suspended = calls)
      (growth : ∀ event ∈ events, event.isGrowth = true) :
      Reports limits machine calls (.ongoing activity) events
  /-- A subroutine is called. -/
  | calls {activity : Activity} {name : String}
      (opened : called activity.suspended = name :: calls)
      (below : machine.depth < limits.maxCallDepth) :
      Reports limits machine calls (.ongoing activity) [.invoked name (machine.depth + 1)]
  /-- The innermost call returns. -/
  | returns {activity : Activity} {name : String}
      (closed : calls = name :: called activity.suspended) :
      Reports limits machine calls (.ongoing activity) [.returned name]
  /-- The run fails. -/
  | fails {ending : Ending} {fault : Fault} {events : List Event}
      (failed : ending.result = .error fault)
      (growth : ∀ event ∈ events, event.isGrowth = true) :
      Reports limits machine calls (.ended ending) events
  /-- The run is ended by a value, and nothing is printed. -/
  | halts {ending : Ending} {code : Value} (halted : ending.result = .ok (.halted code))
      (silent : ending.machine.output = machine.output) :
      Reports limits machine calls (.ended ending) [.halted code]
  /-- The run ends outside of any call. -/
  | ends {ending : Ending} {flow : Flow} (ended : ending.result = .ok flow)
      (exits : flow.exit = .completed) (outside : calls = []) :
      Reports limits machine calls (.ended ending) []

namespace Step

variable (program : Program) (limits : Limits) (machine : Machine) (scopes : Scopes)
  (after : Block) (outer : List Suspension)

@[simp]
theorem turn_announce (event : Event) (step : Step) : (announce event step).turn = step.turn :=
  rfl

@[simp]
theorem events_announce (event : Event) (step : Step) :
    (announce event step).events = event :: step.events :=
  rfl

theorem events_iterate (condition : Operand) (body : Block) :
    (iterate machine scopes condition body after outer).events = [] := by
  simp only [iterate]
  split
  · rfl
  · split <;> rfl

theorem events_choose (otherwise : Option Block) (branches : List Branch) :
    (choose machine scopes otherwise after outer branches).events = [] := by
  induction branches with
  | nil => cases otherwise <;> rfl
  | cons branch rest ih =>
    obtain ⟨condition, body⟩ := branch
    simp only [choose]
    split
    · rfl
    · split
      · rfl
      · exact ih

theorem reports_fault (fault : Fault) :
    Reports limits machine (called outer) (.finish (.error fault) machine scopes outer) [] :=
  .fails rfl nofun

/-- An instruction without calls and blocks goes on, or fails. -/
theorem reports_settle {effect : Effect}
    (growth : ∀ event ∈ effect.events, event.isGrowth = true) :
    Reports limits machine (called outer) (settle effect after outer).turn
      (settle effect after outer).events := by
  obtain ⟨reached, left, events, fault⟩ := effect
  cases fault with
  | none => exact .goesOn rfl growth
  | some fault => exact .fails rfl growth

theorem reports_iterate (condition : Operand) (body : Block) :
    Reports limits machine (called outer) (iterate machine scopes condition body after outer).turn
      (iterate machine scopes condition body after outer).events := by
  rw [events_iterate]
  rcases iterate_cases machine scopes after outer condition body with
    ⟨reads, entered⟩ | past | ⟨fault, failed, ended⟩
  · rw [entered]
    exact .goesOn rfl nofun
  · rw [past]
    exact .goesOn rfl nofun
  · rw [ended]
    exact reports_fault ..

theorem reports_choose (otherwise : Option Block) (branches : List Branch) :
    Reports limits machine (called outer)
      (choose machine scopes otherwise after outer branches).turn
      (choose machine scopes otherwise after outer branches).events := by
  rw [events_choose]
  rcases choose_cases machine scopes after outer otherwise branches with
    ⟨body, held, entered⟩ | past | ⟨fault, ended⟩
  · rw [entered]
    exact .goesOn rfl nofun
  · rw [past]
    exact .goesOn rfl nofun
  · rw [ended]
    exact reports_fault ..

theorem reports_invoke (name : String) :
    Reports limits machine (called outer)
      (invoke program limits machine scopes name after outer).turn
      (invoke program limits machine scopes name after outer).events := by
  simp only [invoke]
  split
  · exact reports_fault ..
  · split
    · exact reports_fault ..
    · rename_i body found shallow
      exact .calls rfl (Nat.lt_of_not_le shallow)

theorem reports_exit (code : Operand) :
    Reports limits machine (called outer) (exit machine scopes code outer).turn
      (exit machine scopes code outer).events := by
  simp only [exit]
  split
  · exact reports_fault ..
  · exact .halts rfl (Turn.view_finish Machine.apart_output ..)

theorem reports_stop :
    Reports limits machine (called outer) (stop machine scopes outer).turn
      (stop machine scopes outer).events := by
  induction outer generalizing scopes with
  | nil => exact .ends rfl rfl rfl
  | cons suspension outer ih =>
    cases suspension with
    | branch | loop => exact ih scopes.leave
    | call name caller after => exact .returns rfl

/-- What an instruction can report after it has been reported itself. -/
theorem reports_perform (instruction : Instruction) :
    Reports limits machine (called outer)
      (perform program limits machine scopes after outer instruction).turn
      (perform program limits machine scopes after outer instruction).events := by
  cases has : machine.effect? scopes limits instruction with
  | some effect =>
    rw [perform_of_effect? program after outer has]
    exact reports_settle _ _ _ _ (machine.keepsCalls_of_effect? scopes has).growth
  | none =>
    cases instruction with
    | conditional => exact reports_choose ..
    | loop => exact reports_iterate ..
    | exit => exact reports_exit ..
    | stop => exact reports_stop ..
    | invoke => exact reports_invoke ..
    | _ => cases has

/-- What the end of a block can report. -/
theorem reports_resume :
    Reports limits machine (called outer) (resume machine scopes outer).turn
      (resume machine scopes outer).events := by
  cases outer with
  | nil => exact .ends rfl rfl rfl
  | cons suspension outer =>
    cases suspension with
    | branch => exact .goesOn rfl nofun
    | call => exact .returns rfl
    | loop condition body after =>
      exact reports_iterate limits machine scopes.leave after outer condition body

end Step

/-- After an instruction has been reported, no other is in the same step. -/
theorem Reports.isDispatch_eq_false {limits : Limits} {machine : Machine}
    {calls : List String} {turn : Turn} {events : List Event}
    (reports : Reports limits machine calls turn events) {event : Event}
    (mem : event ∈ events) : event.isDispatch = false := by
  have ofGrowth (growth : event.isGrowth = true) : event.isDispatch = false := by
    cases event with
    | heapGrown => rfl
    | _ => cases growth
  cases reports with
  | goesOn same growth => exact ofGrowth (growth event mem)
  | fails failed growth => exact ofGrowth (growth event mem)
  | ends => cases mem
  | calls | returns | halts =>
    rw [List.mem_singleton.mp mem]
    rfl

/-- Where a run is ended by a value, this value is all that is reported after the
instruction. -/
theorem Reports.ended_of_halted {limits : Limits} {machine : Machine} {calls : List String}
    {turn : Turn} {events front back : List Event} {code : Value}
    (reports : Reports limits machine calls turn events)
    (split : events = front ++ .halted code :: back) :
    back = [] ∧ ∃ ending, turn = .ended ending ∧ ending.machine.output = machine.output := by
  have mem : Event.halted code ∈ events := by
    rw [split]
    exact List.mem_append_right _ List.mem_cons_self
  cases reports with
  | goesOn same growth => cases growth _ mem
  | fails failed growth => cases growth _ mem
  | ends => cases mem
  | calls | returns => cases List.mem_singleton.mp mem
  | @halts ending value halted silent =>
    cases front with
    | nil => exact ⟨(List.cons.inj split).2.symm, ending, rfl, silent⟩
    | cons first front =>
      cases List.append_ne_nil_of_right_ne_nil _ (List.cons_ne_nil _ _)
        (List.cons.inj split).2.symm

end StackScript
