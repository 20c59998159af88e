import StackScript.Proofs.Run.ScopeChain

/-!
# Conditions of loops

The body of a loop is entered only after the condition has been read, in the scopes
around the loop. Whatever the body does, these scopes still bind the names that they
bound, so the condition can be read again. Hence a run never fails at the end of a
block.
-/

namespace StackScript

open Scopes (Grown)

/-- What can be read can be read after any writes. -/
theorem Scopes.Grown.reads {before after : Scopes} {written : List String}
    (grown : Grown before written after) {operand : Operand} (reads : before.Reads operand) :
    after.Reads operand := by
  cases operand with
  | identifier name =>
    have bound := reads_identifier_iff.mp reads
    exact reads_identifier_iff.mpr ((grown.binds_iff name).mpr (.inl bound))
  | integer | float | text => exact ⟨_, rfl⟩

namespace Suspension

theorem ReadsIn.grown {before after : Scopes} {written : List String}
    (grown : Grown before written after) {waiting : Suspension}
    (reads : waiting.ReadsIn before) : waiting.ReadsIn after := by
  cases waiting with
  | loop => exact grown.reads reads
  | branch | call => trivial

/-- Every loop that waits can read its condition in the scopes around it. -/
def Readable : Scopes → List Suspension → Prop
  | _, [] => True
  | _, .call _ caller _ :: outer => Readable caller outer
  | scopes, waiting :: outer =>
    scopes.outer ≠ [] ∧ waiting.ReadsIn scopes.leave ∧ Readable scopes.leave outer

theorem readable_cons_iff {waiting : Suspension} {after : Block} {scopes : Scopes}
    {outer : List Suspension} (encloses : waiting.Encloses after) :
    Readable scopes (waiting :: outer) ↔
      scopes.outer ≠ [] ∧ waiting.ReadsIn scopes.leave ∧ Readable scopes.leave outer := by
  cases encloses <;> rfl

namespace Readable

variable {scopes : Scopes} {outer : List Suspension}

/-- Writes inside a block take nothing away from the scopes around it. -/
theorem grown (readable : Readable scopes outer) {written : List String} {after : Scopes}
    (grown : Grown scopes written after) : Readable after outer := by
  induction outer generalizing scopes written after with
  | nil => trivial
  | cons waiting outer ih =>
    cases waiting with
    | call => exact readable
    | branch | loop =>
      obtain ⟨enclosed, reads, beyond⟩ := readable
      obtain ⟨stillEnclosed, grownAround⟩ := grown.leave enclosed
      exact ⟨stillEnclosed, reads.grown grownAround, ih beyond grownAround⟩

/-- Out of a call, through the blocks that wait inside it. -/
theorem of_append_call {inner : List Suspension} {name : String} {caller : Scopes}
    {after : Block} (readable : Readable scopes (inner ++ .call name caller after :: outer)) :
    Readable caller outer := by
  induction inner generalizing scopes with
  | nil => exact readable
  | cons waiting inner ih =>
    cases waiting with
    | call => exact ih readable
    | branch | loop => exact ih readable.2.2

end Readable

end Suspension

namespace Turn

/-- Every loop that waits can read its condition. -/
def Readable : Turn → Prop
  | .ongoing activity => Suspension.Readable activity.scopes activity.suspended
  | .ended _ => True

theorem readable_of_moves {scopes : Scopes} {code : Block} {outer : List Suspension}
    {turn : Turn} (moves : Moves scopes code outer turn)
    (readable : Suspension.Readable scopes outer) : turn.Readable := by
  cases moves with
  | next writes => exact readable.grown writes
  | enter encloses reads opens =>
    exact (Suspension.readable_cons_iff encloses).mpr ⟨List.cons_ne_nil _ _, reads, readable⟩
  | leave encloses => exact ((Suspension.readable_cons_iff encloses).mp readable).2.2
  | again encloses reads =>
    have beyond := ((Suspension.readable_cons_iff encloses).mp readable).2.2
    exact (Suspension.readable_cons_iff encloses).mpr ⟨List.cons_ne_nil _ _, reads, beyond⟩
  | call => exact readable
  | «return» blocks => exact readable.of_append_call
  | finish => trivial

/-- Every step keeps the conditions readable. -/
theorem readable_step {program : Program} {limits : Limits} {turn : Turn}
    (readable : turn.Readable) : (turn.step program limits).turn.Readable := by
  cases turn with
  | ended ending => trivial
  | ongoing activity => exact readable_of_moves (activity.moves program limits) readable

end Turn

/-- At first no loop waits. -/
theorem Request.readable_start (program : Program) (limits : Limits) (machine : Machine)
    (scopes : Scopes) (request : Request) :
    (request.start program limits machine scopes).turn.Readable := by
  have called (name : String) : (machine.invoke program limits scopes name).turn.Readable := by
    rcases Step.invoke_cases program limits machine scopes [] [] name with
      ⟨body, entered⟩ | ⟨fault, ended⟩
    · rw [Machine.invoke, entered]
      trivial
    · rw [Machine.invoke, ended]
      trivial
  cases request with
  | execute => exact called entryPoint
  | invoke name => exact called name
  | executeBlock body => trivial

/-- The end of a block never fails. -/
theorem Step.completed_of_resume {machine : Machine} {scopes : Scopes}
    {outer : List Suspension} (readable : Suspension.Readable scopes outer) {ending : Ending}
    (ended : (resume machine scopes outer).turn = .ended ending) :
    ending.result = .ok .completed := by
  cases outer with
  | nil =>
    cases ended
    rfl
  | cons waiting outer =>
    cases waiting with
    | branch | call => cases ended
    | loop condition body after =>
      obtain ⟨enclosed, ⟨value, evaluated⟩, beyond⟩ := readable
      rcases iterate_cases machine scopes.leave after outer condition body with
        ⟨reads, entered⟩ | past | ⟨fault, failed, finished⟩
      · cases entered.symm.trans ended
      · cases past.symm.trans ended
      · cases failed.symm.trans evaluated

end StackScript
