import StackScript.Proofs.Run.EmptyScope

/-!
# Chains of conditions

A conditional with several branches is a conditional with the first of them whose last
block is a conditional with the others. In the nested form the later conditions and blocks
find one more scope around them, which is empty; the two forms still come to the same end.
-/

namespace StackScript

/-! ## Where a run ends -/

/-- The run comes to this end. -/
def Turn.EndsAs (program : Program) (limits : Limits) (turn : Turn) (ending : Ending) : Prop :=
  ∃ count, turn.advance program limits count = .ended ending

namespace Turn

variable {program : Program} {limits : Limits} {turn : Turn} {ending : Ending}

/-- A run ends as it does after the next step. -/
theorem endsAs_step_iff :
    (turn.step program limits).turn.EndsAs program limits ending ↔
      turn.EndsAs program limits ending := by
  constructor
  · rintro ⟨count, ended⟩
    exact ⟨count + 1, ended⟩
  · rintro ⟨count, ended⟩
    cases count with
    | zero =>
      cases ended
      exact ⟨0, rfl⟩
    | succ count => exact ⟨count, ended⟩

/-- A run ends as it does after any number of steps. -/
theorem endsAs_advance_iff (count : Nat) :
    (turn.advance program limits count).EndsAs program limits ending ↔
      turn.EndsAs program limits ending := by
  induction count generalizing turn with
  | zero => rfl
  | succ count ih => exact ih.trans endsAs_step_iff

/-- Inside what waits for it a block comes to the end that it comes to by itself, and the
run goes on from there. -/
theorem endsAs_within_iff {outer : List Suspension} :
    (turn.within outer).EndsAs program limits ending ↔
      ∃ inner, turn.EndsAs program limits inner ∧
        (inner.handOver outer).EndsAs program limits ending := by
  constructor
  · rintro ⟨count, reaches⟩
    induction count generalizing turn with
    | zero =>
      cases turn with
      | ongoing activity => cases reaches
      | ended inner => exact ⟨inner, ⟨0, rfl⟩, ⟨0, reaches⟩⟩
    | succ count ih =>
      cases turn with
      | ended inner => exact ⟨inner, ⟨0, rfl⟩, ⟨count + 1, reaches⟩⟩
      | ongoing activity =>
        rw [advance, step_within] at reaches
        obtain ⟨inner, ends, handedOver⟩ := ih reaches
        exact ⟨inner, endsAs_step_iff.mp ends, handedOver⟩
  · rintro ⟨inner, ⟨count, ended⟩, handedOver⟩
    obtain ⟨length, -, reaches⟩ := advance_within ended
    rw [← endsAs_advance_iff length, reaches outer]
    exact handedOver

/-- When a run ends, the same run with an empty frame around its first block ends too, with
the empty frame still there. -/
theorem Interposed.exists_endsAs {first second : Turn} (interposed : first.Interposed second)
    (ends : first.EndsAs program limits ending) :
    ∃ (result : Except Fault Flow) (machine : Machine) (frame : Frame) (around : Scopes),
      ending = ⟨result, machine, around.inside frame⟩ ∧
        second.EndsAs program limits ⟨result, machine, around.inherit.inside frame⟩ := by
  obtain ⟨count, ended⟩ := ends
  have reached := interposed.advance program limits count
  rw [ended] at reached
  generalize other : second.advance program limits count = secondReached at reached
  cases reached with
  | ended result machine frame around =>
    exact ⟨result, machine, frame, around, rfl, ⟨count, other⟩⟩

/-- When the run with the empty frame ends, so does the run without it. -/
theorem Interposed.exists_endsAs_without {first second : Turn}
    (interposed : first.Interposed second) (ends : second.EndsAs program limits ending) :
    ∃ (result : Except Fault Flow) (machine : Machine) (frame : Frame) (around : Scopes),
      ending = ⟨result, machine, around.inherit.inside frame⟩ ∧
        first.EndsAs program limits ⟨result, machine, around.inside frame⟩ := by
  obtain ⟨count, ended⟩ := ends
  have reached := interposed.advance program limits count
  rw [ended] at reached
  generalize other : first.advance program limits count = firstReached at reached
  cases reached with
  | ended result machine frame around =>
    exact ⟨result, machine, frame, around, rfl, ⟨count, other⟩⟩

/-- A block that another block consists of, and that therefore has an empty frame around
it, leaves the same to what comes after both. -/
theorem endsAs_handOver_iff (result : Except Fault Flow) (machine : Machine) (frame : Frame)
    (around : Scopes) (after : Block) (outer : List Suspension) :
    ((⟨result, machine, around.inherit.inside frame⟩ : Ending).handOver
          (.branch [] :: .branch after :: outer)).EndsAs program limits ending ↔
      ((⟨result, machine, around.inside frame⟩ : Ending).handOver
          (.branch after :: outer)).EndsAs program limits ending := by
  -- only a block that is completed takes a step to leave the one around it
  cases result with
  | error fault => rfl
  | ok flow =>
    cases flow with
    | completed => exact endsAs_step_iff.symm
    | stopped => rfl
    | halted code => rfl

/-- A block comes to the same end when it is all of a block around it. -/
theorem endsAs_only_block_iff (machine : Machine) (scopes : Scopes) (body after : Block)
    (outer : List Suspension) :
    (ongoing ⟨machine, scopes.inherit.inherit, body, .branch [] :: .branch after :: outer⟩).EndsAs
        program limits ending ↔
      (ongoing ⟨machine, scopes.inherit, body, .branch after :: outer⟩).EndsAs
        program limits ending := by
  have interposed : Turn.Interposed (.ongoing ⟨machine, scopes.inherit, body, []⟩)
      (.ongoing ⟨machine, scopes.inherit.inherit, body, []⟩) :=
    .ongoing (.here .empty scopes)
  have inOne : ongoing ⟨machine, scopes.inherit, body, .branch after :: outer⟩ =
      (ongoing ⟨machine, scopes.inherit, body, []⟩).within (.branch after :: outer) := rfl
  have inBoth : ongoing ⟨machine, scopes.inherit.inherit, body,
        .branch [] :: .branch after :: outer⟩ =
      (ongoing ⟨machine, scopes.inherit.inherit, body, []⟩).within
        (.branch [] :: .branch after :: outer) := rfl
  rw [inOne, inBoth, endsAs_within_iff, endsAs_within_iff]
  constructor
  · rintro ⟨inner, ends, handedOver⟩
    obtain ⟨result, reached, frame, around, rfl, without⟩ := interposed.exists_endsAs_without ends
    exact ⟨_, without, (endsAs_handOver_iff ..).mp handedOver⟩
  · rintro ⟨inner, ends, handedOver⟩
    obtain ⟨result, reached, frame, around, rfl, nested⟩ := interposed.exists_endsAs ends
    exact ⟨_, nested, (endsAs_handOver_iff ..).mpr handedOver⟩

/-- Giving up a block that is all of a block around it leaves the scopes around both. -/
theorem finish_only_block (result : Except Fault Flow) (machine : Machine) (scopes : Scopes)
    (after : Block) (outer : List Suspension) :
    finish result machine scopes.inherit (.branch after :: outer) =
      finish result machine scopes outer :=
  rfl

/-- The branches of a conditional and its last block come to the same end from inside a
block that consists of the conditional. -/
theorem endsAs_choose_only_iff (machine : Machine) (scopes : Scopes) (otherwise : Option Block)
    (after : Block) (outer : List Suspension) (branches : List Branch) :
    (Step.choose machine scopes.inherit otherwise [] (.branch after :: outer) branches).turn.EndsAs
        program limits ending ↔
      (Step.choose machine scopes otherwise after outer branches).turn.EndsAs
        program limits ending := by
  induction branches with
  | nil =>
    cases otherwise with
    | none => exact endsAs_step_iff.symm
    | some body => exact endsAs_only_block_iff machine scopes body after outer
  | cons branch rest ih =>
    obtain ⟨condition, body⟩ := branch
    have value : scopes.inherit.evaluate condition = scopes.evaluate condition :=
      Scopes.evaluate_eq_of_find?_eq (Scopes.find?_inside .empty scopes) condition
    simp only [Step.choose, value]
    split
    · rw [finish_only_block]
    · split
      · exact endsAs_only_block_iff machine scopes body after outer
      · exact ih

/-! ## Chains and their nested forms -/

/-- A conditional comes to the same end as the one with its first branch only whose last
block is a conditional with the other branches and the last block. -/
theorem endsAs_nested_iff (machine : Machine) (scopes : Scopes) (condition : Operand)
    (body : Block) (rest : List Branch) (otherwise : Option Block) (after : Block)
    (outer : List Suspension) :
    (ongoing ⟨machine, scopes,
        .conditional [⟨condition, body⟩] (some [.conditional rest otherwise]) :: after,
        outer⟩).EndsAs program limits ending ↔
      (ongoing ⟨machine, scopes, .conditional (⟨condition, body⟩ :: rest) otherwise :: after,
        outer⟩).EndsAs program limits ending := by
  refine endsAs_step_iff.symm.trans (Iff.trans ?_ endsAs_step_iff)
  simp only [step, Activity.step, Step.announce, Step.perform, Step.choose]
  split
  · rfl
  · split
    · rfl
    · exact endsAs_step_iff.symm.trans (endsAs_choose_only_iff ..)

/-- A chain of conditions and its nested form come to the same end: with the same result
and scopes and the same machine, so with the same stack, heap and output, and neither ends
when the other does not. For any code, one more empty scope around a block makes no
difference to the end. What comes after and what waits may be anything. -/
theorem conditional_nested (program : Program) (limits : Limits) (machine : Machine)
    (scopes : Scopes) (after : Block) (outer : List Suspension) :
    (∀ condition body rest otherwise ending,
      (ongoing ⟨machine, scopes, .conditional (⟨condition, body⟩ :: rest) otherwise :: after,
          outer⟩).EndsAs program limits ending ↔
        (ongoing ⟨machine, scopes,
          .conditional [⟨condition, body⟩] (some [.conditional rest otherwise]) :: after,
          outer⟩).EndsAs program limits ending) ∧
      ∀ code ending,
        (ongoing ⟨machine, scopes.inherit, code, .branch after :: outer⟩).EndsAs
            program limits ending ↔
          (ongoing ⟨machine, scopes.inherit.inherit, code,
            .branch [] :: .branch after :: outer⟩).EndsAs program limits ending := by
  constructor
  · intro condition body rest otherwise ending
    exact (endsAs_nested_iff machine scopes condition body rest otherwise after outer).symm
  · intro code ending
    exact (endsAs_only_block_iff machine scopes code after outer).symm

end Turn

end StackScript
