import StackScript.Proofs.Run

/-!
# Code written differently

A translation writes the code of a subroutine in another way. The subroutines of
a program may each have one of their own, since a call sees nothing of the scopes
of its caller. If every instruction does the same in its translation, then the
translated program runs step by step as the program does, on the same machine.
-/

namespace StackScript

/-- Another way of writing the code of a subroutine. The scopes that the code
runs in and the faults that it fails with are translated along with it. -/
structure Translation where
  operand : Operand → Operand
  block : Block → Block
  scopes : Scopes → Scopes
  fault : Fault → Fault
  /-- Nothing is put behind the end of a block. -/
  block_nil : block [] = []
  /-- A call begins without names. -/
  scopes_initial : scopes .initial = .initial
  scopes_inherit : ∀ before, scopes before.inherit = (scopes before).inherit
  scopes_leave : ∀ before, scopes before.leave = (scopes before).leave
  /-- A translated operand has the same value in the translated scopes. -/
  evaluate : ∀ before source,
    (scopes before).evaluate (operand source) = (before.evaluate source).mapError fault
  fault_unknownSubroutine : ∀ name, fault (.unknownSubroutine name) = .unknownSubroutine name
  fault_callDepth : ∀ limit, fault (.callDepth limit) = .callDepth limit

section Evaluation

variable {translation : Translation} {scopes : Scopes} {source : Operand}

theorem Translation.evaluate_eq_error {fault : Fault}
    (failed : scopes.evaluate source = .error fault) :
    (translation.scopes scopes).evaluate (translation.operand source) =
      .error (translation.fault fault) := by
  rw [translation.evaluate, failed]
  rfl

theorem Translation.evaluate_eq_ok {value : Value}
    (evaluated : scopes.evaluate source = .ok value) :
    (translation.scopes scopes).evaluate (translation.operand source) = .ok value := by
  rw [translation.evaluate, evaluated]
  rfl

end Evaluation

/-- A translated branch. -/
def Translation.branch (translation : Translation) (branch : Branch) : Branch :=
  ⟨translation.operand branch.condition, translation.block branch.body⟩

/-- What a translated instruction leaves behind. -/
def Effect.translated (translation : Translation) (effect : Effect) : Effect :=
  { effect with
    scopes := translation.scopes effect.scopes
    fault := effect.fault.map translation.fault }

/-- The subroutine that the current block is part of; none if it was given from
outside of the program. -/
def Suspension.subroutine? : List Suspension → Option String
  | [] => none
  | .branch _ :: outer => subroutine? outer
  | .loop _ _ _ :: outer => subroutine? outer
  | .call name _ _ :: _ => some name

variable (translations : Option String → Translation)

/-- The translation of the code that these wait for. -/
def Translation.inside (outer : List Suspension) : Translation :=
  translations (Suspension.subroutine? outer)

open Translation (inside)

/-- What waits, with the code of each subroutine translated in its own way. -/
def Suspension.translatedAll : List Suspension → List Suspension
  | [] => []
  | .branch after :: outer =>
    .branch ((inside translations outer).block after) :: translatedAll outer
  | .loop condition body after :: outer =>
    .loop ((inside translations outer).operand condition) ((inside translations outer).block body)
      ((inside translations outer).block after) :: translatedAll outer
  | .call name caller after :: outer =>
    .call name ((inside translations outer).scopes caller)
      ((inside translations outer).block after) :: translatedAll outer

open Suspension (translatedAll)

/-- What the translated program leaves behind, if its last step was in code of the
`last` translation. -/
def Ending.translated (last : Translation) (ending : Ending) : Ending where
  result := ending.result.mapError last.fault
  machine := ending.machine
  scopes := (translations none).scopes ending.scopes

/-- A run of the translated program. If it has ended, its last step was in code of
the `last` translation. -/
def Turn.translated (last : Translation) : Turn → Turn
  | .ongoing ⟨machine, scopes, code, outer⟩ =>
    .ongoing ⟨machine, (inside translations outer).scopes scopes,
      (inside translations outer).block code, translatedAll translations outer⟩
  | .ended ending => .ended (ending.translated translations last)

theorem Turn.ending?_translated (last : Translation) (turn : Turn) :
    (turn.translated translations last).ending? =
      turn.ending?.map (Ending.translated translations last) := by
  cases turn <;> rfl

/-- The program with the body of each subroutine translated in its own way. -/
def Program.translated (program : Program) : Program where
  subroutines := program.subroutines.map fun ⟨name, body⟩ =>
    ⟨name, (translations (some name)).block body⟩
  sorted := List.pairwise_map.mpr program.sorted
  definesEntryPoint := by
    obtain ⟨subroutine, mem, isEntry⟩ := program.definesEntryPoint
    exact ⟨_, List.mem_map_of_mem mem, isEntry⟩

/-- A translated program defines the same names. -/
theorem Program.body?_translated (program : Program) (name : String) :
    (program.translated translations).body? name =
      (program.body? name).map (translations (some name)).block := by
  simp only [body?, translated, List.find?_map, Option.map_map]
  change (program.subroutines.find? fun subroutine => subroutine.name == name).map _ = _
  cases found : program.subroutines.find? fun subroutine => subroutine.name == name with
  | none => rfl
  | some subroutine =>
    have isNamed := List.find?_some found
    have named : subroutine.name = name := eq_of_beq isNamed
    simp only [Option.map_some, Function.comp_apply, named]

/-! ## Control flow -/

variable (last : Translation) (machine : Machine) (scopes : Scopes) (outer : List Suspension)

/-- Scopes that are given up do not matter, but for those outside of the
program. -/
theorem Suspension.abandon_translated :
    abandon machine ((inside translations outer).scopes scopes)
        (translatedAll translations outer) =
      ((abandon machine scopes outer).1,
        (translations none).scopes (abandon machine scopes outer).2) := by
  induction outer generalizing machine scopes with
  | nil => rfl
  | cons suspension outer ih =>
    cases suspension with
    | branch after | loop condition body after =>
      simp only [translatedAll, abandon, ← Translation.scopes_leave]
      exact ih machine scopes.leave
    | call name caller after => exact ih _ caller

theorem Turn.finish_translated (result : Except Fault Flow) :
    finish (result.mapError last.fault) machine ((inside translations outer).scopes scopes)
        (translatedAll translations outer) =
      (finish result machine scopes outer).translated translations last := by
  simp only [finish, Suspension.abandon_translated, translated, Ending.translated]

theorem Turn.finish_error_translated (fault : Fault) :
    finish (.error (last.fault fault)) machine ((inside translations outer).scopes scopes)
        (translatedAll translations outer) =
      (finish (.error fault) machine scopes outer).translated translations last :=
  finish_translated translations last machine scopes outer (.error fault)

namespace Step

variable (after : Block)

theorem stop_translated :
    (stop machine ((inside translations outer).scopes scopes)
        (translatedAll translations outer)).turn =
      (stop machine scopes outer).turn.translated translations last := by
  induction outer generalizing scopes with
  | nil => rfl
  | cons suspension outer ih =>
    cases suspension with
    | branch after | loop condition body after =>
      simp only [translatedAll, stop, ← Translation.scopes_leave]
      exact ih scopes.leave
    | call name caller after => rfl

theorem iterate_translated (condition : Operand) (body : Block) :
    (iterate machine ((inside translations outer).scopes scopes)
        ((inside translations outer).operand condition) ((inside translations outer).block body)
        ((inside translations outer).block after) (translatedAll translations outer)).turn =
      (iterate machine scopes condition body after outer).turn.translated translations
        (inside translations outer) := by
  cases evaluated : scopes.evaluate condition with
  | error fault =>
    simp only [iterate, evaluated, Translation.evaluate_eq_error evaluated]
    exact Turn.finish_error_translated ..
  | ok value =>
    simp only [iterate, evaluated, Translation.evaluate_eq_ok evaluated]
    by_cases truthy : value.isTruthy = true
    · simp only [if_pos truthy, ← Translation.scopes_inherit]
      rfl
    · simp only [if_neg truthy]
      rfl

theorem choose_translated (otherwise : Option Block) (branches : List Branch) :
    (choose machine ((inside translations outer).scopes scopes)
        (otherwise.map (inside translations outer).block)
        ((inside translations outer).block after) (translatedAll translations outer)
        (branches.map (inside translations outer).branch)).turn =
      (choose machine scopes otherwise after outer branches).turn.translated translations
        (inside translations outer) := by
  induction branches with
  | nil =>
    cases otherwise with
    | none => rfl
    | some body =>
      simp only [List.map_nil, Option.map_some, choose, ← Translation.scopes_inherit]
      rfl
  | cons branch rest ih =>
    obtain ⟨condition, body⟩ := branch
    simp only [List.map_cons, Translation.branch]
    cases evaluated : scopes.evaluate condition with
    | error fault =>
      simp only [choose, evaluated, Translation.evaluate_eq_error evaluated]
      exact Turn.finish_error_translated ..
    | ok value =>
      simp only [choose, evaluated, Translation.evaluate_eq_ok evaluated]
      by_cases truthy : value.isTruthy = true
      · simp only [if_pos truthy, ← Translation.scopes_inherit]
        rfl
      · simp only [if_neg truthy]
        exact ih

theorem exit_translated (code : Operand) :
    (exit machine ((inside translations outer).scopes scopes)
        ((inside translations outer).operand code) (translatedAll translations outer)).turn =
      (exit machine scopes code outer).turn.translated translations
        (inside translations outer) := by
  cases evaluated : scopes.evaluate code with
  | error fault =>
    simp only [exit, evaluated, Translation.evaluate_eq_error evaluated]
    exact Turn.finish_error_translated ..
  | ok value =>
    simp only [exit, evaluated, Translation.evaluate_eq_ok evaluated]
    exact Turn.finish_translated translations _ machine scopes outer (.ok (.halted value))

theorem settle_translated {effect effectOfOther : Effect}
    (same : effectOfOther = effect.translated (inside translations outer)) :
    (settle effectOfOther ((inside translations outer).block after)
        (translatedAll translations outer)).turn =
      (settle effect after outer).turn.translated translations (inside translations outer) := by
  obtain ⟨machine, scopes, events, fault⟩ := effect
  rw [same]
  cases fault with
  | none => rfl
  | some fault => exact Turn.finish_error_translated ..

theorem invoke_translated (program : Program) (limits : Limits) (name : String) :
    (invoke (program.translated translations) limits machine
        ((inside translations outer).scopes scopes) name ((inside translations outer).block after)
        (translatedAll translations outer)).turn =
      (invoke program limits machine scopes name after outer).turn.translated translations
        (inside translations outer) := by
  simp only [invoke, Program.body?_translated]
  cases program.body? name with
  | none =>
    have failed := Turn.finish_error_translated translations (inside translations outer) machine
      scopes outer (.unknownSubroutine name)
    rwa [Translation.fault_unknownSubroutine] at failed
  | some body =>
    simp only [Option.map_some]
    by_cases deep : limits.maxCallDepth ≤ machine.depth
    · simp only [if_pos deep]
      have failed := Turn.finish_error_translated translations (inside translations outer)
        machine scopes outer (.callDepth limits.maxCallDepth)
      rwa [Translation.fault_callDepth] at failed
    · simp only [if_neg deep, Turn.translated, Translation.scopes_initial]
      rfl

theorem resume_translated :
    (resume machine ((inside translations outer).scopes scopes)
        (translatedAll translations outer)).turn =
      (resume machine scopes outer).turn.translated translations (inside translations outer) := by
  cases outer with
  | nil => rfl
  | cons suspension outer =>
    cases suspension with
    | branch after =>
      simp only [translatedAll, resume, ← Translation.scopes_leave]
      rfl
    | loop condition body after =>
      simp only [translatedAll, resume, ← Translation.scopes_leave]
      exact iterate_translated translations machine scopes.leave outer after condition body
    | call name caller after => rfl

end Step

/-! ## Runs -/

/-- Every instruction does in its translation what it does in the program. -/
def Translation.Faithful (program : Program) (limits : Limits) : Prop :=
  ∀ machine scopes instruction after outer,
    (Activity.step (program.translated translations) limits
        ⟨machine, (inside translations outer).scopes scopes,
          (inside translations outer).block (instruction :: after),
          translatedAll translations outer⟩).turn =
      (Step.perform program limits machine scopes after outer instruction).turn.translated
        translations (inside translations outer)

/-- The subroutine whose code makes the step with which a run ends, if it ends
within so many steps. -/
def Turn.endsIn? (program : Program) (limits : Limits) : Nat → Turn → Option String
  | 0, _ => none
  | count + 1, turn =>
    match turn, (turn.step program limits).turn with
    | .ongoing activity, .ended _ => Suspension.subroutine? activity.suspended
    | _, next => endsIn? program limits count next

/-- Once a run has ended, its last step does not change any more. -/
theorem Turn.endsIn?_of_ends {program : Program} {limits : Limits} {turn : Turn} {count : Nat}
    {activity : Activity} {ending : Ending}
    (reached : turn.advance program limits count = .ongoing activity)
    (ends : (activity.step program limits).turn = .ended ending) (more : Nat) :
    turn.endsIn? program limits (more + count + 1) =
      Suspension.subroutine? activity.suspended := by
  induction count generalizing turn with
  | zero =>
    cases reached
    simp only [endsIn?, step, ends]
  | succ count ih =>
    cases turn with
    | ended found =>
      rw [advance_ended] at reached
      cases reached
    | ongoing first =>
      rw [advance, step] at reached
      cases stepped : (first.step program limits).turn with
      | ended found =>
        rw [stepped, advance_ended] at reached
        cases reached
      | ongoing next =>
        rw [stepped] at reached
        simp only [endsIn?, step, stepped]
        exact ih reached

namespace Request

/-- The subroutine whose code makes the last step of what is asked for, if it ends
within so many steps. -/
def endsIn? (request : Request) (program : Program) (limits : Limits) (machine : Machine)
    (scopes : Scopes) (count : Nat) : Option String :=
  (request.start program limits machine scopes).turn.endsIn? program limits count

/-- What is asked for, with the code given translated. -/
def translated (translation : Translation) : Request → Request
  | .execute => .execute
  | .invoke name => .invoke name
  | .executeBlock body => .executeBlock (translation.block body)

end Request

variable {translations} {program : Program} {limits : Limits}
  (faithful : Translation.Faithful translations program limits)

include faithful

/-- A step of the translated program is the step of the program, translated. -/
theorem Turn.step_translated (last : Translation) (activity : Activity) :
    (((ongoing activity).translated translations last).step (program.translated translations)
        limits).turn =
      (activity.step program limits).turn.translated translations
        (inside translations activity.suspended) := by
  obtain ⟨machine, scopes, code, outer⟩ := activity
  cases code with
  | nil =>
    simp only [Turn.translated, step, Translation.block_nil]
    exact Step.resume_translated translations machine scopes outer
  | cons instruction after => exact faithful machine scopes instruction after outer

theorem Turn.advance_translated (count : Nat) (turn : Turn) :
    (turn.translated translations (translations none)).advance (program.translated translations)
        limits count =
      (turn.advance program limits count).translated translations
        (translations (turn.endsIn? program limits count)) := by
  induction count generalizing turn with
  | zero => rfl
  | succ count ih =>
    cases turn with
    | ended ending => exact ih (.ended ending)
    | ongoing activity =>
      rw [advance, step_translated faithful, advance]
      cases reached : (activity.step program limits).turn with
      | ended ending =>
        simp only [endsIn?, step, reached, advance_ended]
        exact advance_ended ..
      | ongoing next =>
        simp only [endsIn?, step, reached]
        exact ih (.ongoing next)

/-- A run of the translated program is the run of the program, translated. -/
theorem Request.run_translated (request : Request) (machine : Machine) (scopes : Scopes)
    (count : Nat) :
    (request.translated (translations none)).run (program.translated translations) limits machine
        ((translations none).scopes scopes) count =
      (request.run program limits machine scopes count).translated translations
        (translations (request.endsIn? program limits machine scopes count)) := by
  have start : ((request.translated (translations none)).start (program.translated translations)
        limits machine ((translations none).scopes scopes)).turn =
      (request.start program limits machine scopes).turn.translated translations
        (translations none) := by
    have invoked := Step.invoke_translated translations machine scopes [] [] program limits
    cases request with
    | execute | invoke =>
      simp only [Translation.block_nil] at invoked
      exact invoked _
    | executeBlock body => rfl
  rw [run, start]
  exact Turn.advance_translated faithful count _

end StackScript
