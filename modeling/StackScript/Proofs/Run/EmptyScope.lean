import StackScript.Proofs.Run.ScopeChain
import StackScript.Proofs.Scopes.Inside

/-!
# An empty scope around a block

A block does the same, step by step, with an empty frame between its own frame and the
chain around it. The empty frame stays where it is and stays empty: names are created in
the block's frame or in frames inside that one, and a call sees nothing of its caller's
chain.
-/

namespace StackScript

/-- The chains of a run and what waits in it, without and with an empty frame around the
block that the run began with. -/
inductive Suspension.Interposed : Scopes → List Suspension → Scopes → List Suspension → Prop where
  /-- The block itself is being run. -/
  | here (frame : Frame) (around : Scopes) :
      Interposed (around.inside frame) [] (around.inherit.inside frame) []
  /-- A branch or a loop body inside it is being run. -/
  | block {scopes other : Scopes} {outer others : List Suspension} {waiting : Suspension}
      {after : Block} (encloses : waiting.Encloses after) (frame : Frame) :
      Interposed scopes outer other others →
      Interposed (scopes.inside frame) (waiting :: outer) (other.inside frame) (waiting :: others)
  /-- A subroutine that is called inside it is being run, in the same chain. -/
  | call {caller other : Scopes} {outer others : List Suspension} (name : String)
      (after : Block) (callee : Scopes) :
      Interposed caller outer other others →
      Interposed callee (.call name caller after :: outer) callee (.call name other after :: others)

/-- A run, and the same run with an empty frame around the block that it began with. -/
inductive Turn.Interposed : Turn → Turn → Prop where
  | ongoing {machine : Machine} {code : Block} {scopes other : Scopes}
      {outer others : List Suspension} (waits : Suspension.Interposed scopes outer other others) :
      Turn.Interposed (.ongoing ⟨machine, scopes, code, outer⟩)
        (.ongoing ⟨machine, other, code, others⟩)
  | ended (result : Except Fault Flow) (machine : Machine) (frame : Frame) (around : Scopes) :
      Turn.Interposed (.ended ⟨result, machine, around.inside frame⟩)
        (.ended ⟨result, machine, around.inherit.inside frame⟩)

/-! ## Scopes -/

namespace Suspension.Interposed

variable {scopes other : Scopes} {outer others : List Suspension}

theorem find?_eq (interposed : Suspension.Interposed scopes outer other others) (name : String) :
    other.find? name = scopes.find? name := by
  induction interposed with
  | here frame around =>
    rw [Scopes.find?_inside, Scopes.inherit_eq_inside, Scopes.find?_inside, Scopes.find?_inside]
    rfl
  | block encloses frame beneath ih => rw [Scopes.find?_inside, Scopes.find?_inside, ih]
  | call name after callee beneath ih => rfl

theorem binds_eq (interposed : Suspension.Interposed scopes outer other others) (name : String) :
    other.binds name = scopes.binds name := by
  rw [Bool.eq_iff_iff, ← Scopes.reads_identifier_iff, ← Scopes.reads_identifier_iff, Scopes.Reads,
    Scopes.Reads, Scopes.evaluate_eq_of_find?_eq interposed.find?_eq]

/-- The same name is written in the same frame of both chains, and never in the empty
one. -/
theorem assign (interposed : Suspension.Interposed scopes outer other others) (name : String)
    (value : Value) :
    Interposed (scopes.assign name value) outer (other.assign name value) others := by
  have free {frame : Frame} (unbound : ¬ frame.binds name = true) : frame.binds name = false :=
    Bool.eq_false_iff.mpr unbound
  induction interposed with
  | here frame around =>
    by_cases bound : frame.binds name = true
    · rw [Scopes.assign_inside_of_binds bound, Scopes.assign_inside_of_binds bound]
      exact .here ..
    · have bindsInherit : around.inherit.binds name = around.binds name := rfl
      by_cases boundAround : around.binds name = true
      · rw [Scopes.assign_inside_of_outer (free bound) boundAround,
          Scopes.assign_inside_of_outer (free bound) (bindsInherit.trans boundAround),
          Scopes.inherit_eq_inside, Scopes.assign_inside_of_outer rfl boundAround]
        exact .here ..
      · have unbound : around.binds name = false := Bool.eq_false_iff.mpr boundAround
        rw [Scopes.assign_inside_of_free (free bound) unbound,
          Scopes.assign_inside_of_free (free bound) (bindsInherit.trans unbound)]
        exact .here ..
  | @block scopes other _ _ _ _ encloses frame beneath ih =>
    by_cases bound : frame.binds name = true
    · rw [Scopes.assign_inside_of_binds bound, Scopes.assign_inside_of_binds bound]
      exact .block encloses _ beneath
    · have bindsOther := beneath.binds_eq name
      by_cases boundAround : scopes.binds name = true
      · rw [Scopes.assign_inside_of_outer (free bound) boundAround,
          Scopes.assign_inside_of_outer (free bound) (bindsOther.trans boundAround)]
        exact .block encloses frame ih
      · have unbound : scopes.binds name = false := Bool.eq_false_iff.mpr boundAround
        rw [Scopes.assign_inside_of_free (free bound) unbound,
          Scopes.assign_inside_of_free (free bound) (bindsOther.trans unbound)]
        exact .block encloses _ beneath
  | call name after callee beneath ih => exact .call name after _ beneath

/-- Chains of a run without and with the empty frame are alike. -/
theorem alike (outer others : List Suspension) :
    Scopes.Alike fun scopes other => Suspension.Interposed scopes outer other others where
  evaluate interposed := Scopes.evaluate_eq_of_find?_eq interposed.find?_eq
  assign interposed := interposed.assign

end Suspension.Interposed

/-! ## Steps -/

section Steps

variable {scopes other : Scopes} {outer others : List Suspension}
  (interposed : Suspension.Interposed scopes outer other others) (machine : Machine)

include interposed

/-- To give up everything leaves the empty frame. -/
theorem Turn.interposed_finish (result : Except Fault Flow) :
    Turn.Interposed (.finish result machine scopes outer)
      (.finish result machine other others) := by
  induction interposed generalizing machine with
  | here frame around => exact .ended ..
  | block encloses frame beneath ih => cases encloses <;> exact ih machine
  | call name after callee beneath ih => exact ih _

namespace Step

theorem interposed_stop :
    Turn.Interposed (stop machine scopes outer).turn (stop machine other others).turn := by
  induction interposed with
  | here frame around => exact .ended ..
  | block encloses frame beneath ih => cases encloses <;> exact ih
  | call name after callee beneath ih => exact .ongoing beneath

variable (after : Block)

theorem interposed_iterate (condition : Operand) (body : Block) :
    Turn.Interposed (iterate machine scopes condition body after outer).turn
      (iterate machine other condition body after others).turn := by
  simp only [iterate, (Suspension.Interposed.alike outer others).evaluate interposed]
  split
  · exact Turn.interposed_finish interposed ..
  · split
    · exact .ongoing (.block (.loop condition body after) .empty interposed)
    · exact .ongoing interposed

theorem interposed_choose (otherwise : Option Block) (branches : List Branch) :
    Turn.Interposed (choose machine scopes otherwise after outer branches).turn
      (choose machine other otherwise after others branches).turn := by
  induction branches with
  | nil =>
    cases otherwise with
    | none => exact .ongoing interposed
    | some body => exact .ongoing (.block (.branch after) .empty interposed)
  | cons branch rest ih =>
    obtain ⟨condition, body⟩ := branch
    simp only [choose, (Suspension.Interposed.alike outer others).evaluate interposed]
    split
    · exact Turn.interposed_finish interposed ..
    · split
      · exact .ongoing (.block (.branch after) .empty interposed)
      · exact ih

theorem interposed_invoke (program : Program) (limits : Limits) (name : String) :
    Turn.Interposed (invoke program limits machine scopes name after outer).turn
      (invoke program limits machine other name after others).turn := by
  simp only [invoke]
  split
  · exact Turn.interposed_finish interposed ..
  · split
    · exact Turn.interposed_finish interposed ..
    · exact .ongoing (.call name after .initial interposed)

theorem interposed_exit (code : Operand) :
    Turn.Interposed (exit machine scopes code outer).turn
      (exit machine other code others).turn := by
  simp only [exit, (Suspension.Interposed.alike outer others).evaluate interposed]
  split <;> exact Turn.interposed_finish interposed ..

omit interposed in
theorem interposed_settle {effect same : Effect}
    (alike : Effect.Alike (fun scopes other => Suspension.Interposed scopes outer other others)
      effect same) :
    Turn.Interposed (settle effect after outer).turn (settle same after others).turn := by
  obtain @⟨machine, scopes, other, events, fault, interposed⟩ := alike
  cases fault with
  | none => exact .ongoing interposed
  | some fault => exact Turn.interposed_finish interposed ..

theorem interposed_perform (program : Program) (limits : Limits) (instruction : Instruction) :
    Turn.Interposed (perform program limits machine scopes after outer instruction).turn
      (perform program limits machine other after others instruction).turn := by
  cases has : machine.effect? scopes limits instruction with
  | some effect =>
    obtain ⟨same, hasSame, alike⟩ := machine.exists_alike_of_effect?
      (Suspension.Interposed.alike outer others) interposed has
    rw [perform_of_effect? program after outer has, perform_of_effect? program after others hasSame]
    exact interposed_settle after alike
  | none =>
    cases instruction with
    | conditional branches otherwise => exact interposed_choose interposed ..
    | loop condition body => exact interposed_iterate interposed ..
    | exit code => exact interposed_exit interposed ..
    | stop => exact interposed_stop interposed ..
    | invoke name => exact interposed_invoke interposed ..
    | _ => cases has

theorem interposed_resume :
    Turn.Interposed (resume machine scopes outer).turn (resume machine other others).turn := by
  cases interposed with
  | here frame around => exact .ended ..
  | block encloses frame beneath =>
    cases encloses with
    | branch after => exact .ongoing beneath
    | loop condition body after => exact interposed_iterate beneath ..
  | call name after callee beneath => exact .ongoing beneath

end Step

end Steps

namespace Turn.Interposed

variable {first second : Turn}

/-- Every step keeps the two runs together. -/
theorem step (program : Program) (limits : Limits) (interposed : first.Interposed second) :
    (first.step program limits).turn.Interposed (second.step program limits).turn := by
  cases interposed with
  | ended => exact .ended ..
  | @ongoing machine code scopes other outer others waits =>
    cases code with
    | nil => exact Step.interposed_resume waits machine
    | cons instruction after => exact Step.interposed_perform waits machine after ..

/-- The two runs end after the same number of steps, with the same result and machine, and
with the empty frame still in its place. -/
theorem advance (program : Program) (limits : Limits) (interposed : first.Interposed second)
    (count : Nat) :
    (first.advance program limits count).Interposed (second.advance program limits count) :=
  advance_lockstep Turn.Interposed interposed (fun _ _ => step program limits) count

end Turn.Interposed

end StackScript
