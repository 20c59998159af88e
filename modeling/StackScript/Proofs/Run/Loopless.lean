import Mathlib.Order.Monotone.Basic
import StackScript.Proofs.Run.CallDepth
import StackScript.Proofs.Run.Code
import StackScript.Proofs.Run.Events
import StackScript.Proofs.Run.Faults

/-!
# Runs without loops

Without loops every run ends, however the subroutines call one another. It ends by
returning, unless its limits let it ask for more than memory can give and it is aborted.
Each instruction that is still to come is charged with the most instructions that it can
lead to: itself, and, if calls are still allowed, all instructions of a subroutine at
the price of one call fewer. What is pending at these prices falls with every
instruction that a run comes to, since a call is refused before its subroutine is
entered if the limit is met.
-/

namespace StackScript

/-- The instruction is not a loop itself. -/
def Instruction.NotLoop : Instruction → Prop
  | .loop _ _ => False
  | _ => True

/-! ## Sizes -/

mutual

/-- The number of instructions in an instruction, itself included. -/
def Instruction.size : Instruction → Nat
  | .conditional branches none => Branch.sizeOfAll branches + 1
  | .conditional branches (some otherwise) =>
    Branch.sizeOfAll branches + Instruction.sizeOfAll otherwise + 1
  | .loop _ body => Instruction.sizeOfAll body + 1
  | _ => 1

/-- The number of instructions in these, themselves included. -/
def Instruction.sizeOfAll : List Instruction → Nat
  | [] => 0
  | first :: rest => first.size + Instruction.sizeOfAll rest

/-- The number of instructions in these branches. -/
def Branch.sizeOfAll : List Branch → Nat
  | [] => 0
  | ⟨_, body⟩ :: rest => Instruction.sizeOfAll body + Branch.sizeOfAll rest

end

/-- The number of instructions in a block, at every depth. -/
def Block.size (block : Block) : Nat :=
  Instruction.sizeOfAll block

@[simp]
theorem Block.size_nil : Block.size [] = 0 :=
  rfl

@[simp]
theorem Block.size_cons (first : Instruction) (rest : Block) :
    Block.size (first :: rest) = first.size + Block.size rest :=
  rfl

theorem Branch.size_le_of_mem {branches : List Branch} {body : Block}
    (mem : body ∈ branches.map Branch.body) : body.size ≤ Branch.sizeOfAll branches := by
  induction branches with
  | nil => cases mem
  | cons branch rest ih =>
    obtain ⟨condition, first⟩ := branch
    rcases List.mem_cons.mp mem with rfl | later
    · exact Nat.le_add_right ..
    · exact (ih later).trans (Nat.le_add_left ..)

/-- An instruction is one more than any of the blocks that it holds. -/
theorem Instruction.size_lt_of_mem_blocks {instruction : Instruction} {block : Block}
    (held : block ∈ instruction.blocks) : block.size < instruction.size := by
  cases instruction with
  | conditional branches otherwise =>
    rcases List.mem_append.mp held with inBranch | isOtherwise
    · have smaller := Branch.size_le_of_mem inBranch
      cases otherwise <;> simp only [size] <;> omega
    · obtain rfl : otherwise = some block := Option.mem_toList.mp isOtherwise
      simp only [size, Block.size]
      omega
  | loop condition body =>
    obtain rfl := List.mem_singleton.mp held
    exact Nat.lt_succ_self _
  | _ => cases held

theorem Instruction.size_pos (instruction : Instruction) : 0 < instruction.size := by
  cases instruction with
  | conditional branches otherwise => cases otherwise <;> exact Nat.succ_pos _
  | _ => exact Nat.succ_pos _

/-- The number of instructions in these subroutines. -/
def Subroutine.sizeOfAll : List Subroutine → Nat
  | [] => 0
  | first :: rest => first.body.size + sizeOfAll rest

theorem Subroutine.size_le_of_mem {subroutines : List Subroutine} {subroutine : Subroutine}
    (mem : subroutine ∈ subroutines) : subroutine.body.size ≤ sizeOfAll subroutines := by
  induction subroutines with
  | nil => cases mem
  | cons first rest ih =>
    rcases List.mem_cons.mp mem with rfl | later
    · exact Nat.le_add_right ..
    · exact (ih later).trans (Nat.le_add_left ..)

namespace Program

/-- The number of instructions in all subroutines, at every depth. -/
def instructionCount (program : Program) : Nat :=
  Subroutine.sizeOfAll program.subroutines

theorem size_le_of_body?_eq_some {program : Program} {name : String} {body : Block}
    (found : program.body? name = some body) : body.size ≤ program.instructionCount := by
  obtain ⟨subroutine, first, rfl⟩ := Option.map_eq_some_iff.mp found
  exact Subroutine.size_le_of_mem (List.mem_of_find?_eq_some first)

/-- The most instructions that one instruction leads to, itself included, with so many
further calls allowed. -/
def instructionCost (program : Program) : Nat → Nat
  | 0 => 1
  | calls + 1 => program.instructionCount * program.instructionCost calls + 1

theorem instructionCost_pos (program : Program) (calls : Nat) :
    0 < program.instructionCost calls := by
  cases calls <;> exact Nat.succ_pos _

theorem instructionCost_mono (program : Program) : Monotone program.instructionCost := by
  apply monotone_nat_of_le_succ
  intro calls
  induction calls with
  | zero => exact program.instructionCost_pos 1
  | succ calls ih => exact Nat.succ_le_succ (Nat.mul_le_mul_left _ ih)

/-- What an instruction costs with so many calls active. -/
def costAt (program : Program) (limits : Limits) (depth : Nat) : Nat :=
  program.instructionCost (limits.maxCallDepth - depth)

/-- A call that is allowed costs as much as the subroutine with one more call active,
and one. -/
theorem costAt_of_lt (program : Program) {limits : Limits} {depth : Nat}
    (below : depth < limits.maxCallDepth) :
    program.costAt limits depth =
      program.instructionCount * program.costAt limits (depth + 1) + 1 := by
  have oneMore : limits.maxCallDepth - depth = limits.maxCallDepth - (depth + 1) + 1 := by omega
  rw [costAt, oneMore]
  rfl

end Program

/-! ## What is pending -/

/-- What waits costs, with so many calls active. -/
def Suspension.pending (program : Program) (limits : Limits) : Nat → List Suspension → Nat
  | _, [] => 0
  | depth, .branch after :: outer =>
    after.size * program.costAt limits depth + pending program limits depth outer
  | depth, .loop _ _ _ :: outer => pending program limits depth outer
  | depth, .call _ _ after :: outer =>
    after.size * program.costAt limits (depth - 1) + pending program limits (depth - 1) outer

/-- What the rest of a block costs and what waits for it, with so many calls active. -/
def Block.pending (program : Program) (limits : Limits) (depth : Nat) (code : Block)
    (outer : List Suspension) : Nat :=
  code.size * program.costAt limits depth + Suspension.pending program limits depth outer

/-- An instruction and what comes after it are paid for separately. -/
theorem Block.pending_cons (program : Program) (limits : Limits) (depth : Nat)
    (first : Instruction) (rest : Block) (outer : List Suspension) :
    Block.pending program limits depth (first :: rest) outer =
      first.size * program.costAt limits depth + rest.pending program limits depth outer := by
  rw [pending, size_cons, Nat.add_mul, Nat.add_assoc]
  rfl

/-- An instruction that is still to come costs something. -/
theorem Block.pending_cons_pos (program : Program) (limits : Limits) (depth : Nat)
    (first : Instruction) (rest : Block) (outer : List Suspension) :
    0 < Block.pending program limits depth (first :: rest) outer := by
  have price : 0 < first.size * program.costAt limits depth :=
    Nat.mul_pos first.size_pos (program.instructionCost_pos _)
  rw [pending_cons]
  omega

namespace Turn

/-- What a run costs from now on. -/
def pending (program : Program) (limits : Limits) : Turn → Nat
  | .ongoing ⟨machine, _, code, outer⟩ => code.pending program limits machine.depth outer
  | .ended _ => 0

/-- The number of blocks that a run has to end. -/
def openBlocks : Turn → Nat
  | .ongoing activity => activity.suspended.length + 1
  | .ended _ => 0

section Ongoing

variable (program : Program) (limits : Limits) (machine : Machine) (scopes : Scopes)
  (code : Block) (outer : List Suspension)

@[simp]
theorem pending_ongoing :
    (ongoing ⟨machine, scopes, code, outer⟩).pending program limits =
      code.pending program limits machine.depth outer :=
  rfl

@[simp]
theorem openBlocks_ongoing :
    (ongoing ⟨machine, scopes, code, outer⟩).openBlocks = outer.length + 1 :=
  rfl

end Ongoing

/-- A run costs no more than this from now on, and has no more blocks to end. -/
structure Costs (program : Program) (limits : Limits) (turn : Turn) (price blocks : Nat) :
    Prop where
  price : turn.pending program limits ≤ price
  blocks : turn.openBlocks ≤ blocks

theorem costs_ended (program : Program) (limits : Limits) (ending : Ending)
    (price blocks : Nat) : (ended ending).Costs program limits price blocks :=
  ⟨Nat.zero_le _, Nat.zero_le _⟩

theorem Costs.mono {program : Program} {limits : Limits} {turn : Turn}
    {price blocks higher more : Nat} (costs : turn.Costs program limits price blocks)
    (priceLe : price ≤ higher) (blocksLe : blocks ≤ more) :
    turn.Costs program limits higher more :=
  ⟨costs.price.trans priceLe, costs.blocks.trans blocksLe⟩

end Turn

namespace Step

variable (program : Program) (limits : Limits) (machine : Machine) (scopes : Scopes)
  (after : Block) (outer : List Suspension)

theorem costs_settle {effect : Effect} (kept : effect.machine.depth = machine.depth) :
    (settle effect after outer).turn.Costs program limits
      (after.pending program limits machine.depth outer) (outer.length + 1) := by
  obtain ⟨reached, left, events, fault⟩ := effect
  cases fault with
  | none =>
    rw [← kept]
    exact ⟨le_rfl, le_rfl⟩
  | some fault => exact Turn.costs_ended ..

theorem costs_choose (otherwise : Option Block) (branches : List Branch) :
    (choose machine scopes otherwise after outer branches).turn.Costs program limits
      (((Instruction.conditional branches otherwise).size - 1) *
        program.costAt limits machine.depth +
          after.pending program limits machine.depth outer) (outer.length + 2) := by
  rcases choose_cases machine scopes after outer otherwise branches with
    ⟨body, held, entered⟩ | past | ⟨fault, ended⟩
  · rw [entered]
    have smaller := Nat.le_pred_of_lt (Instruction.size_lt_of_mem_blocks held)
    exact ⟨Nat.add_le_add_right (Nat.mul_le_mul_right _ smaller) _, le_rfl⟩
  · rw [past]
    exact ⟨Nat.le_add_left .., Nat.le_succ _⟩
  · rw [ended]
    exact Turn.costs_ended ..

/-- A call is refused, or its subroutine costs less than the call. -/
theorem costs_invoke (name : String) :
    (invoke program limits machine scopes name after outer).turn.Costs program limits
      (program.costAt limits machine.depth - 1 +
        after.pending program limits machine.depth outer) (outer.length + 2) := by
  simp only [invoke]
  split
  · exact Turn.costs_ended ..
  · split
    · exact Turn.costs_ended ..
    · rename_i body found shallow
      have cost := program.costAt_of_lt (Nat.lt_of_not_le shallow)
      have smaller := Program.size_le_of_body?_eq_some found
      constructor
      · rw [cost]
        exact Nat.add_le_add_right (Nat.mul_le_mul_right _ smaller) _
      · exact le_rfl

theorem costs_stop :
    (stop machine scopes outer).turn.Costs program limits
      (Suspension.pending program limits machine.depth outer) (outer.length + 1) := by
  induction outer generalizing scopes with
  | nil => exact Turn.costs_ended ..
  | cons suspension outer ih =>
    cases suspension with
    | branch after => exact (ih scopes.leave).mono (Nat.le_add_left ..) (Nat.le_succ _)
    | loop condition body after => exact (ih scopes.leave).mono le_rfl (Nat.le_succ _)
    | call name caller after => exact ⟨le_rfl, Nat.le_succ _⟩

/-- Every instruction but a loop leads to less than it costs. -/
theorem costs_perform {instruction : Instruction} (isPlain : instruction.NotLoop) :
    (perform program limits machine scopes after outer instruction).turn.Costs program limits
      (Block.pending program limits machine.depth (instruction :: after) outer - 1)
      (outer.length + 2) := by
  have costPos : 0 < program.costAt limits machine.depth := program.instructionCost_pos _
  have price : instruction.size * program.costAt limits machine.depth =
      (instruction.size - 1) * program.costAt limits machine.depth +
        program.costAt limits machine.depth := by
    rw [← Nat.succ_mul, Nat.succ_eq_add_one, Nat.sub_add_cancel instruction.size_pos]
  rw [Block.pending_cons, price]
  cases has : machine.effect? scopes limits instruction with
  | some effect =>
    rw [perform_of_effect? program after outer has]
    have kept := (machine.keepsCalls_of_effect? scopes has).depth
    apply (costs_settle program limits machine after outer kept).mono
    · omega
    · exact Nat.le_succ _
  | none =>
    cases instruction with
    | loop => cases isPlain
    | conditional branches otherwise =>
      apply (costs_choose program limits machine scopes after outer otherwise branches).mono
      · omega
      · exact le_rfl
    | invoke name =>
      apply (costs_invoke program limits machine scopes after outer name).mono
      · omega
      · exact le_rfl
    | stop =>
      apply (costs_stop program limits machine scopes outer).mono
      · rw [Block.pending]
        omega
      · exact Nat.le_succ _
    | exit code =>
      simp only [perform, exit]
      split <;> exact Turn.costs_ended ..
    | _ => cases has

/-- The end of a block costs nothing, and leaves one block fewer to end. -/
theorem costs_resume
    (waiting : Suspension.Throughout Instruction.NotLoop outer) :
    (resume machine scopes outer).turn.Costs program limits
      (Suspension.pending program limits machine.depth outer) outer.length := by
  cases outer with
  | nil => exact Turn.costs_ended ..
  | cons suspension outer =>
    cases suspension with
    | branch after => exact ⟨le_rfl, le_rfl⟩
    | call name caller after => exact ⟨le_rfl, le_rfl⟩
    | loop condition body after =>
      have again := (Suspension.throughout_cons_iff.mp waiting).1 _ List.mem_cons_self
      cases (Block.throughout_cons_iff.mp again).1

end Step

/-! ## Runs -/

theorem Reports.countP_isDispatch {limits : Limits} {machine : Machine} {calls : List String}
    {turn : Turn} {events : List Event} (reports : Reports limits machine calls turn events) :
    events.countP Event.isDispatch = 0 := by
  rw [List.countP_eq_zero]
  intro event mem
  rw [reports.isDispatch_eq_false mem]
  exact Bool.false_ne_true

namespace Turn

variable (program : Program) (limits : Limits)

/-- Every instruction that a run comes to has been charged before. -/
theorem dispatches_add_pending_step_le {turn : Turn}
    (ahead : turn.Throughout Instruction.NotLoop) :
    (turn.step program limits).events.countP Event.isDispatch +
      (turn.step program limits).turn.pending program limits ≤ turn.pending program limits := by
  cases turn with
  | ended ending => exact Nat.zero_le _
  | ongoing activity =>
    obtain ⟨machine, scopes, code, outer⟩ := activity
    cases code with
    | nil =>
      have noDispatch := (Step.reports_resume limits machine scopes outer).countP_isDispatch
      have costs := (Step.costs_resume program limits machine scopes outer ahead.2).price
      rw [step, Activity.step, noDispatch, pending_ongoing, Block.pending, Block.size_nil]
      omega
    | cons instruction after =>
      have isPlain := (Block.throughout_cons_iff.mp ahead.1).1
      have noDispatch := (Step.reports_perform program limits machine scopes after outer
        instruction).countP_isDispatch
      have costs := (Step.costs_perform program limits machine scopes after outer isPlain).price
      have charged := Block.pending_cons_pos program limits machine.depth instruction after outer
      simp only [step, Activity.step, Step.events_announce, Step.turn_announce, List.countP_cons,
        noDispatch, Event.isDispatch, if_true, pending_ongoing]
      omega

/-- What is left to do: to run what is pending, and to end what is open. A block is
opened by an instruction only, so the instruction is counted twice. -/
def effort (program : Program) (limits : Limits) (turn : Turn) : Nat :=
  2 * turn.pending program limits + turn.openBlocks

theorem effort_step_lt {activity : Activity}
    (ahead : (ongoing activity).Throughout Instruction.NotLoop) :
    (activity.step program limits).turn.effort program limits <
      (ongoing activity).effort program limits := by
  obtain ⟨machine, scopes, code, outer⟩ := activity
  cases code with
  | nil =>
    obtain ⟨price, blocks⟩ := Step.costs_resume program limits machine scopes outer ahead.2
    simp only [Activity.step, effort, openBlocks_ongoing, pending_ongoing, Block.pending]
    omega
  | cons instruction after =>
    have isPlain := (Block.throughout_cons_iff.mp ahead.1).1
    have charged := Block.pending_cons_pos program limits machine.depth instruction after outer
    obtain ⟨price, blocks⟩ :=
      Step.costs_perform program limits machine scopes after outer isPlain
    simp only [Activity.step, Step.turn_announce, effort, openBlocks_ongoing, pending_ongoing]
    omega

/-- A run without loops ends. -/
theorem exists_advance_eq_ended
    (supplies : program.Supplies Instruction.NotLoop) {turn : Turn}
    (ahead : turn.Throughout Instruction.NotLoop) :
    ∃ count ending, turn.advance program limits count = .ended ending := by
  cases turn with
  | ended ending => exact ⟨0, ending, rfl⟩
  | ongoing activity =>
    have decreases := effort_step_lt program limits ahead
    have aheadNext := throughout_step limits supplies ahead
    obtain ⟨count, ending, ended⟩ := exists_advance_eq_ended supplies aheadNext
    exact ⟨count + 1, ending, ended⟩
termination_by turn.effort program limits

end Turn

namespace Request

/-- The number of instructions that are asked for: those of a given block, or one
call. -/
def size : Request → Nat
  | .executeBlock body => body.size
  | .execute => 1
  | .invoke _ => 1

variable {program : Program} {request : Request}

/-- At first a run costs no more than what is asked for, at the highest price. -/
theorem pending_start_le (limits : Limits) (machine : Machine) (scopes : Scopes) :
    (request.start program limits machine scopes).turn.pending program limits ≤
      program.instructionCost limits.maxCallDepth * request.size := by
  have highest : program.costAt limits machine.depth ≤
      program.instructionCost limits.maxCallDepth :=
    program.instructionCost_mono (Nat.sub_le ..)
  have called (name : String) :
      (machine.invoke program limits scopes name).turn.pending program limits ≤
        program.instructionCost limits.maxCallDepth * 1 := by
    have price := (Step.costs_invoke program limits machine scopes [] [] name).price
    simp only [Block.pending, Block.size_nil, Suspension.pending, Nat.zero_mul] at price
    rw [Machine.invoke]
    omega
  cases request with
  | executeBlock body =>
    rw [Nat.mul_comm]
    exact Nat.mul_le_mul_left _ highest
  | execute => exact called entryPoint
  | invoke name => exact called name

theorem countP_isDispatch_events_start (limits : Limits) (machine : Machine) (scopes : Scopes) :
    (request.start program limits machine scopes).events.countP Event.isDispatch = 0 := by
  cases request with
  | execute | invoke name => exact (Step.reports_invoke ..).countP_isDispatch
  | executeBlock body => rfl

variable (loopless : program.Throughout Instruction.NotLoop)
  (given : Block.Throughout Instruction.NotLoop request.given)

include loopless given

theorem throughout_run (limits : Limits) (machine : Machine) (scopes : Scopes) (count : Nat) :
    (request.run program limits machine scopes count).Throughout Instruction.NotLoop :=
  Turn.advance_induction _ (throughout_start limits machine scopes loopless given)
    (fun _ => Turn.throughout_step limits loopless.supplies) count

/-- What a run has come to and what is pending was charged at its beginning. -/
theorem dispatches_add_pending_le (limits : Limits) (machine : Machine) (scopes : Scopes)
    (count : Nat) :
    (request.events program limits machine scopes count).countP Event.isDispatch +
      (request.run program limits machine scopes count).pending program limits ≤
        program.instructionCost limits.maxCallDepth * request.size := by
  induction count with
  | zero =>
    rw [events_zero, countP_isDispatch_events_start, Nat.zero_add]
    exact pending_start_le limits machine scopes
  | succ count ih =>
    have paid := Turn.dispatches_add_pending_step_le program limits
      (throughout_run loopless given limits machine scopes count)
    rw [events_succ, List.countP_append, run_succ]
    omega

/-- Without loops every run ends, and comes to no more instructions than the number of
those it is asked for times a number that depends on the program and the allowed depth
of calls alone. It returns if the limits are such that memory can be asked for what they
allow. -/
theorem loopless_run_ends (limits : Limits) (machine : Machine) (scopes : Scopes) :
    (∃ count ending, request.run program limits machine scopes count = .ended ending ∧
      (limits.Allocatable → ending.isAborted = false)) ∧
    ∀ count, (request.events program limits machine scopes count).countP Event.isDispatch ≤
      program.instructionCost limits.maxCallDepth * request.size := by
  constructor
  · obtain ⟨count, ending, ended⟩ := Turn.exists_advance_eq_ended program limits
      loopless.supplies (throughout_start limits machine scopes loopless given)
    exact ⟨count, ending, ended, fun allocatable => isAborted_eq_false allocatable ended⟩
  · intro count
    have paid := dispatches_add_pending_le loopless given limits machine scopes count
    omega

end Request

/-- The program that calls itself has no loop. With two calls allowed one instruction
leads to seven at most, and its run comes to four and returns. -/
theorem Request.recurring_run_ends :
    Program.recurring.Throughout Instruction.NotLoop ∧
    Program.recurring.instructionCost 2 = 7 ∧
    (execute.events .recurring ⟨2, 8, 8⟩ (.initial (.empty none)) .initial 4).countP
      Event.isDispatch = 4 ∧
    (execute.events .recurring ⟨2, 8, 8⟩ (.initial (.empty none)) .initial 4).countP
      Event.isDispatch ≤ 7 * execute.size ∧
    ∃ count ending,
      execute.run .recurring ⟨2, 8, 8⟩ (.initial (.empty none)) .initial count =
        .ended ending ∧ ending.isAborted = false := by
  have loopless : Program.recurring.Throughout Instruction.NotLoop := by
    simp [Program.Throughout, Program.recurring, Instruction.NotLoop, Instruction.blocks]
  have given : Block.Throughout Instruction.NotLoop execute.given :=
    Block.throughout_nil
  have runEnds := loopless_run_ends loopless given ⟨2, 8, 8⟩ (.initial (.empty none)) .initial
  obtain ⟨⟨count, ending, ended, returns⟩, atMost⟩ := runEnds
  exact ⟨loopless, rfl, rfl, atMost 4, count, ending, ended, returns (by decide)⟩

/-- A program without loops that stores at an address that no heap reaches. -/
def Program.storingFar : Program where
  subroutines :=
    [⟨entryPoint, [.push (.integer 0), .push (.integer 4611686018427387904), .store]⟩]
  sorted := List.pairwise_singleton _ _
  definesEntryPoint := ⟨_, List.mem_singleton_self _, rfl⟩

/-- Under the greatest limit that a word holds its run does not return. -/
theorem Request.storingFar_aborted :
    Program.storingFar.Throughout Instruction.NotLoop ∧
    ∃ ending, execute.run .storingFar ⟨1024, 18446744073709551615, 1 <<< 26⟩
        (.initial (.empty none)) .initial 3 = .ended ending ∧
      ending.isAborted = true := by
  constructor
  · simp [Program.Throughout, Program.storingFar, Instruction.NotLoop, Instruction.blocks]
  · exact ⟨_, rfl, rfl⟩

end StackScript
