import StackScript.Activity

/-!
# Runs

A `Request` is one of the three ways of using a machine from outside. The
lemmas say what holds of every run: steps may be counted in parts, a run that
has ended stays as it is, and bytes once written stay written, since only
`print` touches the output and only at its end.
-/

namespace StackScript

/-- What a machine may be asked to run. -/
inductive Request where
  /-- The program's entry point. -/
  | execute
  /-- One of the program's subroutines. -/
  | invoke (name : String)
  /-- A block, in the scopes given. -/
  | executeBlock (body : Block)

/-- The beginning of what is asked for. -/
def Request.start (request : Request) (program : Program) (limits : Limits) (machine : Machine)
    (scopes : Scopes) : Step :=
  match request with
  | .execute => machine.invoke program limits scopes entryPoint
  | .invoke name => machine.invoke program limits scopes name
  | .executeBlock body => machine.execute scopes body

/-- What is asked for after this many steps. -/
def Request.run (request : Request) (program : Program) (limits : Limits) (machine : Machine)
    (scopes : Scopes) (count : Nat) : Turn :=
  (request.start program limits machine scopes).turn.advance program limits count

theorem Ending.isAborted_iff {ending : Ending} :
    ending.isAborted = true ↔ ending.result = .error .capacityOverflow := by
  rw [isAborted]
  split <;> simp_all

/-! ## Counting steps -/

namespace Turn

variable {program : Program} {limits : Limits}

theorem ending?_eq_some_iff {turn : Turn} {ending : Ending} :
    turn.ending? = some ending ↔ turn = .ended ending := by
  cases turn <;> simp [ending?]

/-- A run that has ended stays as it is. -/
@[simp]
theorem advance_ended (ending : Ending) (count : Nat) :
    advance program limits count (.ended ending) = .ended ending := by
  induction count with
  | zero => rfl
  | succ count ih => exact ih

/-- Steps may be counted in two parts. -/
theorem advance_add (turn : Turn) (first second : Nat) :
    advance program limits (first + second) turn =
      advance program limits second (advance program limits first turn) := by
  induction first generalizing turn with
  | zero => rw [Nat.zero_add]; rfl
  | succ first ih =>
    rw [Nat.succ_add]
    exact ih (turn.step program limits).turn

/-- What every step keeps is kept by every run. -/
theorem advance_induction (holds : Turn → Prop) {turn : Turn} (atFirst : holds turn)
    (step : ∀ turn, holds turn → holds (turn.step program limits).turn) (count : Nat) :
    holds (advance program limits count turn) := by
  induction count generalizing turn with
  | zero => exact atFirst
  | succ count ih => exact ih (step turn atFirst)

/-- What every two steps keep between two runs is kept between the runs. -/
theorem advance_lockstep {otherLimits : Limits} (related : Turn → Turn → Prop)
    {first second : Turn} (atFirst : related first second)
    (step : ∀ first second, related first second →
      related (first.step program limits).turn (second.step program otherLimits).turn)
    (count : Nat) :
    related (advance program limits count first) (advance program otherLimits count second) := by
  induction count generalizing first second with
  | zero => exact atFirst
  | succ count ih => exact ih (step first second atFirst)

end Turn

/-! ## Active calls -/

/-- The scopes that wait for calls to return, the innermost first: one chain for
each active call. -/
def Suspension.callers : List Suspension → List Scopes
  | [] => []
  | .branch _ :: outer => callers outer
  | .loop _ _ _ :: outer => callers outer
  | .call _ caller _ :: outer => caller :: callers outer

/-- Giving up what waits ends the calls and leaves the rest of the machine alone. -/
theorem Suspension.machine_abandon (machine : Machine) (scopes : Scopes)
    (outer : List Suspension) :
    (abandon machine scopes outer).1 =
      { machine with depth := machine.depth - (callers outer).length } := by
  induction outer generalizing machine scopes with
  | nil => rfl
  | cons suspension outer ih =>
    cases suspension with
    | branch | loop => exact ih machine scopes.leave
    | call name caller after =>
      rw [abandon, ih, callers, List.length_cons, Nat.add_comm, Nat.sub_add_eq]

/-! ## What is left of the machine -/

/-- A view of the machine that shows neither its depth nor its stack. -/
structure Machine.Apart {α : Type} (view : Machine → α) : Prop where
  withDepth : ∀ machine depth, view { machine with depth := depth } = view machine
  withStack : ∀ machine stack, view { machine with stack := stack } = view machine

theorem Machine.apart_output : Apart output :=
  ⟨fun _ _ => rfl, fun _ _ => rfl⟩

theorem Machine.apart_heap : Apart heap :=
  ⟨fun _ _ => rfl, fun _ _ => rfl⟩

/-- Whether an instruction touches more of the machine than its depth and its
stack. -/
def Instruction.reachesOut : Instruction → Bool
  | .print _ => true
  | .store => true
  | _ => false

section Apart

variable {α : Type} {view : Machine → α} (apart : Machine.Apart view) (program : Program)
  (limits : Limits) (machine : Machine) (scopes : Scopes) (after : Block)
  (outer : List Suspension)

include apart

/-- Giving up what waits leaves the rest of the machine alone. -/
theorem Suspension.view_abandon :
    view (abandon machine scopes outer).1 = view machine := by
  induction outer generalizing machine scopes with
  | nil => rfl
  | cons suspension outer ih =>
    cases suspension with
    | branch | loop => exact ih machine scopes.leave
    | call name caller after => rw [abandon, ih, apart.withDepth]

/-- So does ending a run. -/
theorem Turn.view_finish (result : Except Fault Flow) :
    view (Turn.finish result machine scopes outer).machine = view machine :=
  Suspension.view_abandon apart machine scopes outer

namespace Step

theorem view_stop : view (stop machine scopes outer).turn.machine = view machine := by
  induction outer generalizing scopes with
  | nil => rfl
  | cons suspension outer ih =>
    cases suspension with
    | branch | loop => exact ih scopes.leave
    | call => exact apart.withDepth ..

theorem view_iterate (condition : Operand) (body : Block) :
    view (iterate machine scopes condition body after outer).turn.machine = view machine := by
  simp only [iterate]
  split
  · exact Turn.view_finish apart ..
  · split <;> rfl

theorem view_choose (otherwise : Option Block) (branches : List Branch) :
    view (choose machine scopes otherwise after outer branches).turn.machine = view machine := by
  induction branches with
  | nil => cases otherwise <;> rfl
  | cons branch rest ih =>
    obtain ⟨condition, body⟩ := branch
    simp only [choose]
    split
    · exact Turn.view_finish apart ..
    · split
      · rfl
      · exact ih

theorem view_invoke (name : String) :
    view (invoke program limits machine scopes name after outer).turn.machine = view machine := by
  simp only [invoke]
  split
  · exact Turn.view_finish apart ..
  · split
    · exact Turn.view_finish apart ..
    · exact apart.withDepth ..

theorem view_exit (code : Operand) :
    view (exit machine scopes code outer).turn.machine = view machine := by
  simp only [exit]
  split <;> exact Turn.view_finish apart ..

theorem view_settle (effect : Effect) :
    view (settle effect after outer).turn.machine = view effect.machine := by
  obtain ⟨machine, scopes, events, fault⟩ := effect
  cases fault with
  | none => rfl
  | some fault => exact Turn.view_finish apart ..

theorem view_resume : view (resume machine scopes outer).turn.machine = view machine := by
  cases outer with
  | nil => rfl
  | cons suspension outer =>
    cases suspension with
    | branch => rfl
    | call => exact apart.withDepth ..
    | loop condition body after => exact view_iterate apart ..

end Step

namespace Machine

theorem view_push (source : Operand) :
    view (machine.push scopes source).machine = view machine := by
  simp only [push]
  split
  · exact apart.withStack ..
  · rfl

theorem view_pop (target : String) :
    view (machine.pop scopes target).machine = view machine := by
  simp only [pop]
  split
  · exact apart.withStack ..
  · rfl

omit apart in
theorem view_update (target : String) (change : Value → Except Fault Value) :
    view (machine.update scopes target change).machine = view machine := by
  simp only [update]
  split
  · rfl
  · split <;> rfl

theorem view_updateWithPopped (op : Mnemonic) (target : String)
    (combine : Value → Value → Except Fault Value) :
    view (machine.updateWithPopped scopes op target combine).machine = view machine := by
  simp only [updateWithPopped]
  split
  · exact (view_update ..).trans (apart.withStack ..)
  · rfl

theorem view_bitwise (op : BitwiseOp) (target : String) :
    view (machine.bitwise scopes op target).machine = view machine := by
  cases op with
  | and | or | xor => exact view_updateWithPopped apart ..
  | negate | not => exact view_update ..

end Machine

/-- Only printing and storing touch more of the machine than its depth and its
stack. -/
theorem Step.view_perform {instruction : Instruction} (within : instruction.reachesOut = false) :
    view (perform program limits machine scopes after outer instruction).turn.machine =
      view machine := by
  cases instruction with
  | assign source target =>
    rw [perform, view_settle apart, Machine.assign]
    split <;> rfl
  | arithmetic op target =>
    rw [perform, view_settle apart]
    exact Machine.view_updateWithPopped apart ..
  | bitwise op target =>
    rw [perform, view_settle apart]
    exact Machine.view_bitwise apart ..
  | conditional branches otherwise => exact view_choose apart ..
  | loop condition body => exact view_iterate apart ..
  | push source =>
    rw [perform, view_settle apart]
    exact Machine.view_push apart ..
  | pop target =>
    rw [perform, view_settle apart]
    exact Machine.view_pop apart ..
  | print source => cases within
  | exit code => exact view_exit apart ..
  | stop => exact view_stop apart ..
  | store => cases within
  | load =>
    rw [perform, view_settle apart]
    exact apart.withStack ..
  | invoke name => exact view_invoke apart ..

/-- To begin touches no more. -/
theorem Request.view_start (request : Request) :
    view (request.start program limits machine scopes).turn.machine = view machine := by
  cases request with
  | execute | invoke => exact Step.view_invoke apart ..
  | executeBlock body => rfl

end Apart

/-! ## Written bytes stay written -/

/-- The bytes written so far. -/
def Output.bytes (output : Output) : List UInt8 :=
  output.written.data.toList

/-- Writing keeps what was written. -/
theorem Output.bytes_prefix_write (output : Output) (bytes : ByteArray) :
    output.bytes <+: (output.write bytes).bytes := by
  simp only [Output.bytes, Output.write, ByteArray.toList_data_append]
  exact List.prefix_append _ _

/-- Printing is the one instruction that writes. -/
theorem Machine.bytes_prefix_print (machine : Machine) (scopes : Scopes) (source : Operand) :
    machine.output.bytes <+: (machine.print scopes source).machine.output.bytes := by
  simp only [print]
  split
  · exact List.prefix_refl _
  · exact Output.bytes_prefix_write ..

/-- An instruction that prints nothing leaves the output alone. -/
theorem Step.output_perform (program : Program) (limits : Limits) (machine : Machine)
    (scopes : Scopes) (after : Block) (outer : List Suspension) {instruction : Instruction}
    (silent : ∀ source, instruction ≠ .print source) :
    (perform program limits machine scopes after outer instruction).turn.machine.output =
      machine.output := by
  cases instruction with
  | print source => exact absurd rfl (silent source)
  | store => exact view_settle Machine.apart_output ..
  | _ => exact view_perform Machine.apart_output _ _ _ _ _ _ rfl

/-- An instruction keeps what was written. -/
theorem Step.bytes_prefix_perform (program : Program) (limits : Limits) (machine : Machine)
    (scopes : Scopes) (after : Block) (outer : List Suspension) (instruction : Instruction) :
    machine.output.bytes <+: (perform program limits machine scopes after outer
      instruction).turn.machine.output.bytes := by
  by_cases prints : ∃ source, instruction = .print source
  · obtain ⟨source, rfl⟩ := prints
    rw [perform, view_settle Machine.apart_output]
    exact machine.bytes_prefix_print scopes source
  · have kept := output_perform program limits machine scopes after outer (not_exists.mp prints)
    exact kept ▸ List.prefix_refl _

/-- Every step keeps what was written. -/
theorem Turn.bytes_prefix_step (program : Program) (limits : Limits) (turn : Turn) :
    turn.machine.output.bytes <+: (turn.step program limits).turn.machine.output.bytes := by
  cases turn with
  | ended ending => exact List.prefix_refl _
  | ongoing activity =>
    obtain ⟨machine, scopes, code, outer⟩ := activity
    cases code with
    | nil =>
      have kept : (Step.resume machine scopes outer).turn.machine.output = machine.output :=
        Step.view_resume Machine.apart_output ..
      exact kept ▸ List.prefix_refl _
    | cons instruction after => exact Step.bytes_prefix_perform ..

/-- Every run keeps what was written. -/
theorem Turn.bytes_prefix_advance (program : Program) (limits : Limits) (count : Nat)
    (turn : Turn) :
    turn.machine.output.bytes <+: (turn.advance program limits count).machine.output.bytes := by
  let holds (reached : Turn) : Prop := turn.machine.output.bytes <+: reached.machine.output.bytes
  have atFirst : holds turn := List.prefix_refl _
  apply advance_induction holds atFirst
  intro reached kept
  exact kept.trans (bytes_prefix_step program limits reached)

namespace Request

variable (request : Request) (program : Program) (limits : Limits) (machine : Machine)
  (scopes : Scopes)

/-- To begin prints nothing. -/
@[simp]
theorem output_start :
    (request.start program limits machine scopes).turn.machine.output = machine.output :=
  view_start Machine.apart_output program limits machine scopes request

/-- What is printed is added to what the machine has printed before. -/
theorem bytes_prefix_run (count : Nat) :
    machine.output.bytes <+:
      (request.run program limits machine scopes count).machine.output.bytes := by
  have kept := (request.start program limits machine scopes).turn.bytes_prefix_advance
    program limits count
  rwa [output_start] at kept

/-- A run goes on from where it is. -/
theorem run_add (first second : Nat) :
    request.run program limits machine scopes (first + second) =
      (request.run program limits machine scopes first).advance program limits second :=
  Turn.advance_add ..

end Request

end StackScript
