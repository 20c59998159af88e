import StackScript.Proofs.Run.Code

/-!
# Subroutines that a run can come to

A run calls only what the code before it calls, and that code belongs to subroutines
that have been called. So a subroutine that no chain of calls leads to is never looked
up, and two programs that define the others alike run alike.
-/

namespace StackScript

/-- A chain of calls leads from the entry point to this name. The last subroutine of
the chain need not be defined. -/
inductive Program.Reaches (program : Program) : String → Prop
  | entry : Reaches program entryPoint
  | call {caller callee : String} {body : Block} (reached : Reaches program caller)
      (defined : program.body? caller = some body)
      (calls : (Instruction.invoke callee).Within body) : Reaches program callee

/-- The instruction calls nothing but what the program reaches. -/
def Instruction.CallsReached (program : Program) (instruction : Instruction) : Prop :=
  ∀ name, instruction = .invoke name → program.Reaches name

/-- What is reached calls nothing but what is reached. -/
theorem Program.supplies_callsReached (program : Program) :
    program.Supplies (Instruction.CallsReached program) := by
  rintro caller body isReached defined instruction within callee rfl
  exact .call (isReached caller rfl) defined within

section Runs

variable {first second : Program} {limits : Limits}
  (same : ∀ name, first.Reaches name → first.body? name = second.body? name)

include same

/-- A step looks up no subroutine but the one that its instruction calls. -/
theorem Turn.step_eq_of_same_reached {turn : Turn}
    (ahead : turn.Throughout (Instruction.CallsReached first)) :
    turn.step second limits = turn.step first limits := by
  cases turn with
  | ended ending => rfl
  | ongoing activity =>
    obtain ⟨machine, scopes, code, outer⟩ := activity
    cases code with
    | nil => rfl
    | cons instruction after =>
      cases instruction with
      | invoke name =>
        have own := (Block.throughout_cons_iff.mp ahead.1).1
        have found := same name (own name rfl)
        simp only [Turn.step, Activity.step, Step.perform, Step.invoke, found]
      | _ => rfl

theorem Turn.advance_eq_of_same_reached {turn : Turn}
    (ahead : turn.Throughout (Instruction.CallsReached first)) (count : Nat) :
    turn.advance second limits count = turn.advance first limits count := by
  induction count generalizing turn with
  | zero => rfl
  | succ count ih =>
    rw [advance, advance, step_eq_of_same_reached same ahead]
    exact ih (throughout_step limits first.supplies_callsReached ahead)

/-- Only subroutines that are reached from the entry point matter. If a second program
defines each of these as the first one does, and leaves undefined what the first one
leaves undefined, then the two run alike, step by step, whatever else they define. -/
theorem Request.execute_eq_of_same_reached (limits : Limits) (machine : Machine)
    (scopes : Scopes) (count : Nat) :
    execute.run first limits machine scopes count =
      execute.run second limits machine scopes count := by
  have found := same entryPoint .entry
  have start : execute.start second limits machine scopes =
      execute.start first limits machine scopes := by
    simp only [Request.start, Machine.invoke, Step.invoke, found]
  have ahead : (execute.start first limits machine scopes).turn.Throughout
      (Instruction.CallsReached first) := by
    have entered : Instruction.CallsReached first (.invoke entryPoint) := by
      rintro name ⟨⟩
      exact .entry
    apply Step.throughout_invoke
    · exact Suspension.throughout_nil
    · exact Block.throughout_nil
    · intro body defined
      exact first.supplies_callsReached entryPoint body entered defined
  rw [run, run, start, Turn.advance_eq_of_same_reached same ahead]

end Runs

/-- A program that prints a number and then calls a subroutine that it does not define,
with a further subroutine `u` that nothing calls. -/
def Program.besides (unreached : Block) : Program where
  subroutines := [⟨"f", [.print (.integer 1), .invoke "g"]⟩, ⟨entryPoint, [.invoke "f"]⟩,
    ⟨"u", unreached⟩]
  sorted := by
    simp only [List.pairwise_cons, List.forall_mem_cons]
    decide
  definesEntryPoint := ⟨⟨entryPoint, [.invoke "f"]⟩, by simp, rfl⟩

theorem Program.body?_besides (unreached : Block) {name : String} (other : name ≠ "u") :
    (besides unreached).body? name = (besides []).body? name := by
  have isOther : ("u" == name) = false := by simpa using other.symm
  simp [body?, besides, List.find?_cons, isOther]

/-- It never comes to `u`. -/
theorem Program.ne_of_reaches_besides {name : String} (reached : (besides []).Reaches name) :
    name ≠ "u" := by
  induction reached with
  | entry => decide
  | @call caller callee body reached defined calls ih =>
    have calledApart : (besides []).Throughout
        fun instruction => ∀ called, instruction = .invoke called → called ≠ "u" := by
      simp [Throughout, besides, Instruction.blocks]
    exact calledApart.of_body?_eq_some defined _ calls callee rfl

/-- It fails in the same way if `u` calls itself. -/
theorem Request.execute_besides :
    (∀ name, (Program.besides []).Reaches name →
      (Program.besides []).body? name = (Program.besides [.invoke "u"]).body? name) ∧
    execute.run (.besides []) .default (.initial (.empty none)) .initial 3 =
      execute.run (.besides [.invoke "u"]) .default (.initial (.empty none)) .initial 3 ∧
    ∃ ending,
      (execute.run (.besides []) .default (.initial (.empty none)) .initial 3).ending? =
        some ending ∧
      ending.result = .error (.unknownSubroutine "g") := by
  have same (name : String) (reached : (Program.besides []).Reaches name) :
      (Program.besides []).body? name = (Program.besides [.invoke "u"]).body? name :=
    (Program.body?_besides _ (Program.ne_of_reaches_besides reached)).symm
  exact ⟨same, execute_eq_of_same_reached same .default (.initial (.empty none)) .initial 3,
    _, rfl, rfl⟩

end StackScript
