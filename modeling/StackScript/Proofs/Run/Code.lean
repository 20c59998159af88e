import StackScript.Proofs.Block
import StackScript.Proofs.Run

/-!
# The code of a run

A run only ever has code before it that the program or the block it began with
holds. So what is asked of all their instructions is true of every instruction
that the run comes to. Of the program it is enough to ask it of the subroutines
that are called.
-/

namespace StackScript

/-- The blocks that something that waits goes on with. A loop whose body is being
run goes on with itself. -/
def Suspension.blocks : Suspension → List Block
  | .branch after => [after]
  | .loop condition body after => [.loop condition body :: after]
  | .call _ _ after => [after]

/-- Every instruction that waits is allowed. -/
def Suspension.Throughout (allowed : Instruction → Prop) (outer : List Suspension) : Prop :=
  ∀ suspension ∈ outer, ∀ block ∈ suspension.blocks, Block.Throughout allowed block

/-- Every instruction that a run has before it is allowed. -/
def Turn.Throughout (allowed : Instruction → Prop) : Turn → Prop
  | .ongoing activity =>
    Block.Throughout allowed activity.code ∧ Suspension.Throughout allowed activity.suspended
  | .ended _ => True

variable {allowed : Instruction → Prop}

/-- The body of every subroutine is allowed that an allowed instruction calls. -/
def Program.Supplies (allowed : Instruction → Prop) (program : Program) : Prop :=
  ∀ name body, allowed (.invoke name) → program.body? name = some body →
    Block.Throughout allowed body

theorem Program.Throughout.supplies {program : Program} (all : program.Throughout allowed) :
    program.Supplies allowed :=
  fun _ _ _ found => all.of_body?_eq_some found

theorem Suspension.throughout_nil : Throughout allowed [] := by
  intro suspension mem
  cases mem

theorem Suspension.throughout_cons_iff {suspension : Suspension} {outer : List Suspension} :
    Throughout allowed (suspension :: outer) ↔
      (∀ block ∈ suspension.blocks, Block.Throughout allowed block) ∧
        Throughout allowed outer :=
  List.forall_mem_cons

namespace Step

variable {program : Program} (limits : Limits) (machine : Machine) (scopes : Scopes)
  {after : Block} {outer : List Suspension}

theorem throughout_stop (waiting : Suspension.Throughout allowed outer) :
    (stop machine scopes outer).turn.Throughout allowed := by
  induction outer generalizing scopes with
  | nil => trivial
  | cons suspension outer ih =>
    obtain ⟨own, beyond⟩ := Suspension.throughout_cons_iff.mp waiting
    cases suspension with
    | branch | loop => exact ih scopes.leave beyond
    | call name caller after => exact ⟨own after List.mem_cons_self, beyond⟩

section

variable (waiting : Suspension.Throughout allowed outer)

include waiting

/-- What waits stays allowed if the rest of a block is put in front of it. -/
theorem throughout_of_enter {rest body : Block} {suspension : Suspension}
    (following : Block.Throughout allowed rest) (only : suspension.blocks = [rest])
    (entered : Block.Throughout allowed body) :
    Turn.Throughout allowed (.ongoing ⟨machine, scopes, body, suspension :: outer⟩) := by
  refine ⟨entered, Suspension.throughout_cons_iff.mpr ⟨?_, waiting⟩⟩
  rw [only]
  intro block held
  rwa [List.mem_singleton.mp held]

theorem throughout_iterate (condition : Operand) {body : Block}
    (again : Block.Throughout allowed (.loop condition body :: after)) :
    (iterate machine scopes condition body after outer).turn.Throughout allowed := by
  obtain ⟨own, held, following⟩ := Block.throughout_cons_iff.mp again
  simp only [iterate]
  split
  · trivial
  · split
    · exact throughout_of_enter machine _ waiting again rfl (held body List.mem_cons_self)
    · exact ⟨following, waiting⟩

section

variable (following : Block.Throughout allowed after)

include following

theorem throughout_choose (otherwise : Option Block) {branches : List Branch}
    (chosen : ∀ body ∈ branches.map Branch.body ++ otherwise.toList,
      Block.Throughout allowed body) :
    (choose machine scopes otherwise after outer branches).turn.Throughout allowed := by
  induction branches with
  | nil =>
    cases otherwise with
    | none => exact ⟨following, waiting⟩
    | some body =>
      exact throughout_of_enter machine _ waiting following rfl (chosen body (by simp))
  | cons branch rest ih =>
    obtain ⟨condition, body⟩ := branch
    simp only [choose]
    split
    · trivial
    · split
      · exact throughout_of_enter machine _ waiting following rfl (chosen body (by simp))
      · apply ih
        intro body mem
        exact chosen body (List.mem_cons_of_mem _ mem)

theorem throughout_invoke {name : String}
    (called : ∀ body, program.body? name = some body → Block.Throughout allowed body) :
    (invoke program limits machine scopes name after outer).turn.Throughout allowed := by
  simp only [invoke]
  split
  · trivial
  · split
    · trivial
    · rename_i body found shallow
      exact throughout_of_enter _ _ waiting following rfl (called body found)

theorem throughout_settle (effect : Effect) :
    (settle effect after outer).turn.Throughout allowed := by
  obtain ⟨reached, left, events, fault⟩ := effect
  cases fault with
  | none => exact ⟨following, waiting⟩
  | some fault => trivial

end

theorem throughout_perform (supplies : program.Supplies allowed) {instruction : Instruction}
    (code : Block.Throughout allowed (instruction :: after)) :
    (perform program limits machine scopes after outer instruction).turn.Throughout allowed := by
  obtain ⟨own, held, following⟩ := Block.throughout_cons_iff.mp code
  cases instruction with
  | conditional branches otherwise =>
    exact throughout_choose machine scopes waiting following otherwise held
  | loop condition body => exact throughout_iterate machine scopes waiting condition code
  | exit code =>
    simp only [perform, exit]
    split <;> trivial
  | stop => exact throughout_stop machine scopes waiting
  | invoke name =>
    exact throughout_invoke limits machine scopes waiting following
      fun body found => supplies name body own found
  | _ => exact throughout_settle waiting following _

theorem throughout_resume : (resume machine scopes outer).turn.Throughout allowed := by
  cases outer with
  | nil => trivial
  | cons suspension outer =>
    obtain ⟨own, beyond⟩ := Suspension.throughout_cons_iff.mp waiting
    cases suspension with
    | branch after | call name caller after => exact ⟨own after List.mem_cons_self, beyond⟩
    | loop condition body after =>
      exact throughout_iterate machine _ beyond condition (own _ List.mem_cons_self)

end

end Step

/-- Every step keeps what a run has before it allowed. -/
theorem Turn.throughout_step {program : Program} (limits : Limits)
    (supplies : program.Supplies allowed) {turn : Turn} (before : turn.Throughout allowed) :
    (turn.step program limits).turn.Throughout allowed := by
  cases turn with
  | ended ending => trivial
  | ongoing activity =>
    obtain ⟨machine, scopes, code, outer⟩ := activity
    obtain ⟨following, waiting⟩ := before
    cases code with
    | nil => exact Step.throughout_resume machine scopes waiting
    | cons instruction after =>
      exact Step.throughout_perform limits machine scopes waiting supplies following

/-- The block that is given along with a request. -/
def Request.given : Request → Block
  | .executeBlock body => body
  | .execute => []
  | .invoke _ => []

/-- At first a run has before it what the program and the given block hold. -/
theorem Request.throughout_start {program : Program} (limits : Limits) (machine : Machine)
    (scopes : Scopes) (all : program.Throughout allowed) {request : Request}
    (given : Block.Throughout allowed request.given) :
    (request.start program limits machine scopes).turn.Throughout allowed := by
  cases request with
  | execute | invoke name =>
    exact Step.throughout_invoke limits machine scopes Suspension.throughout_nil given
      fun _ => all.of_body?_eq_some
  | executeBlock body => exact ⟨given, Suspension.throughout_nil⟩

end StackScript
