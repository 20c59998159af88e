import StackScript.Proofs.Run.ControlFlow

/-!
# Limited output

Nothing that a run computes depends on its output. So a run whose output is
limited is the run whose output is not, as long as what is printed fits, and
ends at the first line that does not fit. It has then printed the first bytes
of what the other run prints: the cut may fall inside a line, and inside a
character.
-/

namespace StackScript

namespace Output

/-- The output with the same past and a sink of this capacity. -/
def withCapacity (capacity : Option Nat) (output : Output) : Output :=
  { output with sink := .ofCapacity capacity }

variable (output : Output) (line : ByteArray)

/-- The endless sink takes every line. -/
theorem refuse?_endless (endless : output.sink = .endless) : output.refuse? line = none := by
  rw [refuse?, endless]
  rfl

theorem bytes_write_endless (endless : output.sink = .endless) :
    (output.write line).bytes = output.bytes ++ line.data.toList := by
  simp only [bytes, write, taken, refuse?_endless output line endless,
    ByteArray.toList_data_append]

/-- A bounded sink refuses a line that does not fit. -/
theorem refuse?_bounded (capacity : Nat) :
    (output.withCapacity (some capacity)).refuse? line =
      if output.bytes.length + line.size ≤ capacity ∨ line.size = 0 then none
      else some ⟨capacity - output.bytes.length, "sink full"⟩ := by
  have size : output.written.size = output.bytes.length := rfl
  simp only [refuse?, withCapacity, Sink.ofCapacity, Sink.bounded, size]
  congr 1
  rw [eq_iff_iff]
  omega

theorem bytes_write_bounded (capacity : Nat) :
    ((output.withCapacity (some capacity)).write line).bytes =
      output.bytes ++ line.data.toList.take (capacity - output.bytes.length) := by
  have size : line.size = line.data.toList.length := rfl
  have bytesEq : ((output.withCapacity (some capacity)).write line).bytes =
      output.bytes ++ ((output.withCapacity (some capacity)).taken line).data.toList :=
    ByteArray.toList_data_append
  rw [bytesEq, taken, refuse?_bounded]
  congr 1
  by_cases fits : output.bytes.length + line.size ≤ capacity ∨ line.size = 0
  · rw [if_pos fits, List.take_of_length_le (by omega)]
  · simp only [if_neg fits, ByteArray.data_extract, Array.toList_extract,
      List.extract_eq_take_drop, Nat.sub_zero, List.drop_zero]

variable {output} {capacity : Nat}

/-- A limited output holds the first bytes of what an unlimited one holds. -/
theorem bytes_write_bounded_eq_take (endless : output.sink = .endless)
    (within : output.bytes.length ≤ capacity) :
    ((output.withCapacity (some capacity)).write line).bytes =
      (output.write line).bytes.take capacity := by
  rw [bytes_write_bounded, bytes_write_endless output line endless, List.take_append,
    List.take_of_length_le within]

/-- It takes the whole line if the bytes are no more than it may hold. -/
theorem refuse?_bounded_eq (endless : output.sink = .endless)
    (within : output.bytes.length ≤ capacity) :
    (output.withCapacity (some capacity)).refuse? line =
      if (output.write line).bytes.length ≤ capacity then none
      else some ⟨capacity - output.bytes.length, "sink full"⟩ := by
  rw [refuse?_bounded, bytes_write_endless output line endless, List.length_append]
  have size : line.size = line.data.toList.length := rfl
  congr 1
  rw [eq_iff_iff]
  omega

/-- Outputs are the same if their bytes, lines and sinks are. -/
theorem eq_of_bytes_eq {first second : Output} (bytes : first.bytes = second.bytes)
    (given : first.given = second.given) (sink : first.sink = second.sink) : first = second := by
  obtain ⟨⟨⟨firstWritten⟩⟩, firstGiven, firstSink⟩ := first
  obtain ⟨⟨⟨secondWritten⟩⟩, secondGiven, secondSink⟩ := second
  cases given
  cases sink
  cases bytes
  rfl

end Output

/-! ## Instructions -/

namespace Machine

/-- The machine with a sink of this capacity. -/
def withCapacity (capacity : Option Nat) (machine : Machine) : Machine :=
  { machine with output := machine.output.withCapacity capacity }

/-- Neither calls nor the stack notice the capacity. -/
theorem unnoticed_withCapacity (capacity : Option Nat) : Unnoticed (withCapacity capacity) := by
  constructor <;> intros <;> rfl

variable {machine : Machine} {capacity : Nat}

/-- Printing to a limited output does the same if the line fits. If it does not,
it fails with the first bytes of what would have been written. -/
theorem print_limited (endless : machine.output.sink = .endless)
    (within : machine.output.bytes.length ≤ capacity) (scopes : Scopes) (source : Operand) :
    ((machine.print scopes source).machine.output.bytes.length ≤ capacity ∧
      (machine.withCapacity (some capacity)).print scopes source =
        (machine.print scopes source).mapMachine (withCapacity (some capacity))) ∨
    (capacity < (machine.print scopes source).machine.output.bytes.length ∧
      ((machine.withCapacity (some capacity)).print scopes source).fault =
        some (.output "sink full") ∧
      ((machine.withCapacity (some capacity)).print scopes source).machine.output.bytes =
        (machine.print scopes source).machine.output.bytes.take capacity) := by
  simp only [print]
  cases scopes.evaluate source with
  | error fault => exact .inl ⟨within, rfl⟩
  | ok value =>
    have taken := Output.bytes_write_bounded_eq_take (printedLine value) endless within
    have refusal := Output.refuse?_bounded_eq (printedLine value) endless within
    by_cases fits : (machine.output.write (printedLine value)).bytes.length ≤ capacity
    · left
      constructor
      · exact fits
      · have same : (machine.output.withCapacity (some capacity)).write (printedLine value) =
            (machine.output.write (printedLine value)).withCapacity (some capacity) :=
          Output.eq_of_bytes_eq (taken.trans (List.take_of_length_le fits)) rfl rfl
        rw [if_pos fits] at refusal
        simp only [withCapacity, refusal, Output.refuse?_endless _ _ endless, same]
        rfl
    · right
      rw [if_neg fits] at refusal
      refine ⟨Nat.lt_of_not_le fits, ?_, taken⟩
      simp only [withCapacity, refusal]
      rfl

theorem sink_print (scopes : Scopes) (source : Operand) :
    (machine.print scopes source).machine.output.sink = machine.output.sink := by
  simp only [print]
  cases scopes.evaluate source <;> rfl

end Machine

/-! ## Two runs -/

/-- A run with unlimited output, and the run that is limited to this many bytes:
the same run while the bytes fit, and else a run that has ended because its
output is full. -/
inductive Turn.CutAt (capacity : Nat) : Turn → Turn → Prop
  | same {free : Turn} (endless : free.machine.output.sink = .endless)
      (within : free.machine.output.bytes.length ≤ capacity) :
      CutAt capacity free (free.mapMachine (Machine.withCapacity (some capacity)))
  | full {free : Turn} {ending : Ending} (beyond : capacity < free.machine.output.bytes.length)
      (result : ending.result = .error (.output "sink full"))
      (taken : ending.machine.output.bytes = free.machine.output.bytes.take capacity) :
      CutAt capacity free (.ended ending)

section Runs

variable {program : Program} {limits : Limits} {capacity : Nat}

/-- A step that does the same on both machines and prints nothing keeps the two
runs the same. -/
theorem Turn.CutAt.of_silent {machine : Machine} (endless : machine.output.sink = .endless)
    (within : machine.output.bytes.length ≤ capacity) {free limited : Turn}
    (silent : free.machine.output = machine.output)
    (same : limited = free.mapMachine (Machine.withCapacity (some capacity))) :
    CutAt capacity free limited := by
  rw [same]
  rw [← silent] at endless within
  exact .same endless within

/-- Printing keeps the runs the same or ends the limited one. -/
theorem Step.cutAt_settle_print {machine : Machine} (endless : machine.output.sink = .endless)
    (within : machine.output.bytes.length ≤ capacity) (scopes : Scopes) (source : Operand)
    (after : Block) (outer : List Suspension) :
    (settle (machine.print scopes source) after outer).turn.CutAt capacity
      (settle ((machine.withCapacity (some capacity)).print scopes source) after outer).turn := by
  rcases Machine.print_limited endless within scopes source with
    ⟨fits, same⟩ | ⟨beyond, fault, taken⟩
  · rw [same, settle_change (Machine.unnoticed_withCapacity _)]
    apply Turn.CutAt.same
    · rw [view_settle Machine.apart_output, Machine.sink_print, endless]
    · rwa [view_settle Machine.apart_output]
  · generalize (machine.withCapacity (some capacity)).print scopes source = limited at fault taken
    obtain ⟨reached, left, events, found⟩ := limited
    cases fault
    apply Turn.CutAt.full
    · rwa [view_settle Machine.apart_output]
    · rfl
    · rw [view_settle Machine.apart_output, ← taken]
      exact congrArg Output.bytes (Suspension.view_abandon Machine.apart_output reached left outer)

/-- Every step keeps the two runs together or ends the limited one. -/
theorem Turn.cutAt_step {free limited : Turn} (cut : free.CutAt capacity limited) :
    (free.step program limits).turn.CutAt capacity (limited.step program limits).turn := by
  have unnoticed := Machine.unnoticed_withCapacity (some capacity)
  cases cut with
  | full beyond result taken =>
    obtain ⟨rest, grown⟩ := free.bytes_prefix_step program limits
    apply CutAt.full
    · rw [← grown, List.length_append]
      exact Nat.lt_add_right _ beyond
    · exact result
    · rw [taken, ← grown, List.take_append_of_le_length (Nat.le_of_lt beyond)]
  | same endless within =>
    cases free with
    | ended ending => exact .same endless within
    | ongoing activity =>
      obtain ⟨machine, scopes, code, outer⟩ := activity
      cases code with
      | nil =>
        exact .of_silent endless within
          (Step.view_resume Machine.apart_output machine scopes outer)
          (Step.resume_change unnoticed machine scopes outer)
      | cons instruction after =>
        by_cases prints : ∃ source, instruction = .print source
        · obtain ⟨source, rfl⟩ := prints
          exact Step.cutAt_settle_print endless within scopes source after outer
        · have silent : ∀ source, instruction ≠ .print source := not_exists.mp prints
          apply CutAt.of_silent endless within
          · exact Step.output_perform program limits machine scopes after outer silent
          · apply Step.perform_change unnoticed
            · intro pops
              rfl
            · intro source isPrint
              exact absurd isPrint (silent source)
            · intro isStore
              rfl
            · intro isLoad
              rfl

namespace Request

variable (request : Request) (program : Program) (limits : Limits) {machine : Machine}
  (scopes : Scopes)

/-- The runs that a machine without and one with a capacity begin. -/
theorem cutAt_run (within : machine.output.bytes.length ≤ capacity) (count : Nat) :
    (request.run program limits (machine.withCapacity none) scopes count).CutAt capacity
      (request.run program limits (machine.withCapacity (some capacity)) scopes count) := by
  have unnoticed := Machine.unnoticed_withCapacity (some capacity)
  apply Turn.advance_lockstep (Turn.CutAt capacity)
  · have endless : (machine.withCapacity none).output.sink = .endless := rfl
    apply Turn.CutAt.of_silent endless within
    · exact output_start ..
    · cases request with
      | execute | invoke => exact Step.invoke_change unnoticed (machine.withCapacity none) ..
      | executeBlock body => rfl
  · intro free limited cut
    exact Turn.cutAt_step cut

/-- A limited output cuts a run at its capacity and nowhere else. If the run with
unlimited output ends with no more bytes than the capacity, the limited run ends
with the same result, stack, heap, scopes and bytes. If it has printed more, even
if it does not end, the limited run has ended because its output is full, with
the first bytes of what the other has printed. -/
theorem run_limited_output (within : machine.output.bytes.length ≤ capacity) (count : Nat) :
    (∀ ending,
      (request.run program limits (machine.withCapacity none) scopes count).ending? =
        some ending →
      ending.machine.output.bytes.length ≤ capacity →
      (request.run program limits (machine.withCapacity (some capacity)) scopes count).ending? =
        some { ending with machine := ending.machine.withCapacity (some capacity) }) ∧
    (capacity < (request.run program limits (machine.withCapacity none) scopes
        count).machine.output.bytes.length →
      ∃ ending,
        (request.run program limits (machine.withCapacity (some capacity)) scopes count).ending? =
          some ending ∧
        ending.result = .error (.output "sink full") ∧
        ending.machine.output.bytes =
          (request.run program limits (machine.withCapacity none) scopes
            count).machine.output.bytes.take capacity) := by
  have cut := request.cutAt_run program limits scopes within count
  generalize request.run program limits (machine.withCapacity none) scopes count = free at cut
  generalize request.run program limits (machine.withCapacity (some capacity)) scopes count =
    limited at cut
  constructor
  · intro ending ended fits
    cases Turn.ending?_eq_some_iff.mp ended
    cases cut with
    | same => rfl
    | full beyond => exact absurd fits (Nat.not_le_of_lt beyond)
  · intro beyond
    cases cut with
    | same endless within => exact absurd within (Nat.not_le_of_lt beyond)
    | full beyond result taken => exact ⟨_, rfl, result, taken⟩

end Request

end Runs

/-- A program that prints a letter of two bytes. -/
def Program.accented : Program where
  subroutines := [⟨entryPoint, [.print (.text "é")]⟩]
  sorted := List.pairwise_singleton _ _
  definesEntryPoint := ⟨_, List.mem_singleton_self _, rfl⟩

/-- With room for three bytes it prints its line and ends as it would without a
limit; with room for one byte it is cut inside the letter. -/
theorem Request.accented_under_limited_output :
    (Machine.initial (.empty none)).output.bytes.length ≤ 1 ∧
    (∃ ending,
      (execute.run .accented .default (.initial (.empty (some 3))) .initial 3).ending? =
        some ending ∧
      ending.result = .ok .completed ∧ ending.machine.output.bytes = [195, 169, 10]) ∧
    ∃ ending,
      (execute.run .accented .default (.initial (.empty (some 1))) .initial 3).ending? =
        some ending ∧
      ending.result = .error (.output "sink full") ∧ ending.machine.output.bytes = [195] := by
  let unprinted : Machine := .initial (.empty none)
  have within (capacity : Nat) : unprinted.output.bytes.length ≤ capacity := Nat.zero_le _
  have roomy := run_limited_output execute .accented .default .initial (within 3) 3
  have tight := run_limited_output execute .accented .default .initial (within 1) 3
  constructor
  · exact within 1
  · constructor
    · exact ⟨_, roomy.1 _ rfl (by decide), rfl, rfl⟩
    · exact tight.2 (by decide)

end StackScript
