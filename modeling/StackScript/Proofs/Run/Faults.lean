import StackScript.Proofs.Faults
import StackScript.Proofs.Run.Code
import StackScript.Proofs.Run.ScopeChain

/-!
# Why a run fails

A fault goes out of all blocks and calls unchanged, and nothing of the machine but
the number of active calls changes on its way out. So the fault that a run ends with
is that of an instruction of the program, and what was true of the machine when that
instruction failed is true of the machine that the run leaves.
-/

namespace StackScript

/-- If the run has failed, then as this instruction fails. -/
def Turn.FailsAs (program : Program) (limits : Limits) (machine : Machine) (scopes : Scopes)
    (instruction : Instruction) (turn : Turn) : Prop :=
  ∀ ending fault, turn = .ended ending → ending.result = .error fault →
    Fails program limits machine scopes instruction fault ending.machine

/-! ## Steps -/

section Steps

variable {program : Program} {limits : Limits} {machine : Machine} {scopes : Scopes}
  {instruction : Instruction}

theorem Turn.failsAs_ongoing (activity : Activity) :
    (Turn.ongoing activity).FailsAs program limits machine scopes instruction := by
  intro ending fault ended
  cases ended

/-- A fault goes out of all that waits. -/
theorem Turn.failsAs_finish {fault : Fault} {left : Machine} (found : Scopes)
    (outer : List Suspension)
    (fails : Fails program limits machine scopes instruction fault left) :
    (Turn.finish (.error fault) left found outer).FailsAs program limits machine scopes
      instruction := by
  rintro ending thrown ⟨⟩ ⟨⟩
  rw [Suspension.machine_abandon]
  exact fails.withDepth _

namespace Step

variable (after : Block) (outer : List Suspension)

theorem failsAs_settle {effect : Effect}
    (fails : ∀ {fault}, effect.fault = some fault →
      Fails program limits machine scopes instruction fault effect.machine) :
    (settle effect after outer).turn.FailsAs program limits machine scopes instruction := by
  obtain ⟨reached, left, events, fault⟩ := effect
  cases fault with
  | none => exact Turn.failsAs_ongoing _
  | some fault => exact Turn.failsAs_finish left outer (fails rfl)

theorem failsAs_iterate (condition : Operand) (body : Block) (around : Scopes) :
    (iterate machine around condition body after outer).turn.FailsAs program limits machine
      scopes (.loop condition body) := by
  simp only [iterate]
  split
  · rename_i fault evaluated
    exact Turn.failsAs_finish _ _ (Machine.fails_of_evaluate List.mem_cons_self evaluated)
  · split <;> exact Turn.failsAs_ongoing _

theorem failsAs_choose (otherwise : Option Block) {branches : List Branch}
    (reads : ∀ condition ∈ branches.map Branch.condition, condition ∈ instruction.operands) :
    (choose machine scopes otherwise after outer branches).turn.FailsAs program limits machine
      scopes instruction := by
  induction branches with
  | nil => cases otherwise <;> exact Turn.failsAs_ongoing _
  | cons branch rest ih =>
    obtain ⟨condition, body⟩ := branch
    obtain ⟨readsFirst, readsRest⟩ := List.forall_mem_cons.mp reads
    simp only [choose]
    split
    · rename_i fault evaluated
      exact Turn.failsAs_finish _ _ (Machine.fails_of_evaluate readsFirst evaluated)
    · split
      · exact Turn.failsAs_ongoing _
      · exact ih readsRest

theorem failsAs_invoke (name : String) :
    (invoke program limits machine scopes name after outer).turn.FailsAs program limits machine
      scopes (.invoke name) := by
  simp only [invoke]
  split
  · rename_i undefined
    exact Turn.failsAs_finish _ _ (.undefined undefined)
  · split
    · exact Turn.failsAs_finish _ _ .depth
    · exact Turn.failsAs_ongoing _

theorem failsAs_exit (code : Operand) :
    (exit machine scopes code outer).turn.FailsAs program limits machine scopes
      (.exit code) := by
  simp only [exit]
  split
  · rename_i fault evaluated
    exact Turn.failsAs_finish _ _ (Machine.fails_of_evaluate List.mem_cons_self evaluated)
  · rintro ending fault ⟨⟩ ⟨⟩

theorem failsAs_stop (within : Scopes) :
    (stop machine within outer).turn.FailsAs program limits machine scopes .stop := by
  induction outer generalizing within with
  | nil => rintro ending fault ⟨⟩ ⟨⟩
  | cons suspension outer ih =>
    cases suspension with
    | branch | loop => exact ih within.leave
    | call => exact Turn.failsAs_ongoing _

theorem failsAs_perform (instruction : Instruction) :
    (perform program limits machine scopes after outer instruction).turn.FailsAs program limits
      machine scopes instruction := by
  cases instruction with
  | assign => exact failsAs_settle after outer Machine.fails_assign
  | arithmetic => exact failsAs_settle after outer Machine.fails_arithmetic
  | bitwise => exact failsAs_settle after outer Machine.fails_bitwise
  | push => exact failsAs_settle after outer Machine.fails_push
  | pop => exact failsAs_settle after outer Machine.fails_pop
  | print => exact failsAs_settle after outer Machine.fails_print
  | store => exact failsAs_settle after outer Machine.fails_store
  | load => exact failsAs_settle after outer Machine.fails_load
  | conditional branches otherwise => exact failsAs_choose after outer otherwise fun _ => id
  | loop condition body => exact failsAs_iterate after outer condition body scopes
  | exit code => exact failsAs_exit outer code
  | stop => exact failsAs_stop outer scopes
  | invoke name => exact failsAs_invoke after outer name

end Step

end Steps

/-- A step that fails does so as an instruction that the run has before it. -/
theorem Activity.exists_fails {program : Program} {limits : Limits} {allowed : Instruction → Prop}
    {activity : Activity} {ending : Ending} {fault : Fault}
    (before : (Turn.ongoing activity).Throughout allowed)
    (ended : (activity.step program limits).turn = .ended ending)
    (failed : ending.result = .error fault) :
    ∃ instruction, allowed instruction ∧
      Fails program limits activity.machine activity.scopes instruction fault ending.machine := by
  obtain ⟨machine, scopes, code, outer⟩ := activity
  cases code with
  | cons instruction after =>
    have own := (Block.throughout_cons_iff.mp before.1).1
    exact ⟨instruction, own, Step.failsAs_perform after outer instruction _ _ ended failed⟩
  | nil =>
    -- Only a loop that reads its condition once more can fail at the end of a block.
    cases outer with
    | nil =>
      cases ended
      cases failed
    | cons suspension outer =>
      cases suspension with
      | branch after | call name caller after => cases ended
      | loop condition body after =>
        have waiting := (Suspension.throughout_cons_iff.mp before.2).1 _ List.mem_cons_self
        have own := (Block.throughout_cons_iff.mp waiting).1
        exact ⟨.loop condition body, own,
          Step.failsAs_iterate after outer condition body scopes.leave _ _ ended failed⟩

/-! ## Justified faults -/

/-- What a fault says of the program and of the machine that the run leaves. -/
def Fault.Justified (program : Program) (limits : Limits) (machine : Machine) : Fault → Prop
  | .unboundName name =>
    ∃ instruction, program.Contains instruction ∧
      (.identifier name ∈ instruction.operands ∨ instruction.updated? = some name)
  | .unknownSubroutine name => program.Contains (.invoke name) ∧ program.body? name = none
  | .invalidAddress address =>
    ∀ n, address = .integer n → n < 0 ∨ machine.heap.size ≤ n.toInt.toNat
  | .heapLimit address limit => limit = limits.maxHeapCells ∧ (limit : Int) ≤ address.toInt
  | .divisionByZero target => program.Contains (.arithmetic .divide target)
  | .stackUnderflow op =>
    machine.stack = #[] ∧
      op ∈ [.pop, .add, .subtract, .multiply, .divide, .and, .or, .xor]
  | .typeMismatch op left right =>
    (∃ arithmetic : ArithmeticOp, op = arithmetic.mnemonic ∧
      arithmetic.isDefinedOn left right = false) ∨
    ∃ bitwise : BitwiseOp, bitwise.popsOperand = true ∧ op = bitwise.mnemonic ∧
      ¬ (left = .integer ∧ right = .integer)
  | .unsupportedOperand op kind => op = .negate ∧ kind ≠ .integer
  | .stringLimit op limit => (op = .add ∨ op = .multiply) ∧ limit = limits.maxStringBytes
  | .callDepth limit => limit = limits.maxCallDepth
  | .output reason =>
    machine.output.Refused reason ∧ ∀ capacity, machine.output.sink = .bounded capacity →
      reason = "sink full" ∧ capacity ≤ machine.output.written.size
  | .capacityOverflow =>
    (∃ op target, (op = .add ∨ op = .multiply) ∧ program.Contains (.arithmetic op target) ∧
      maxAllocation < limits.maxStringBytes) ∨
    program.Contains .store ∧ Heap.maxCells < limits.maxHeapCells

section Justified

variable {program : Program} {limits : Limits} {machine left : Machine} {scopes : Scopes}
  {fault : Fault}

/-- A cell within the limit is out of reach only under a limit that is more than memory can
be asked for. -/
theorem Heap.Refuses.justified {heap : Heap} {address : Value}
    (contained : program.Contains .store)
    (refuses : Heap.Refuses limits.maxHeapCells heap.reach address fault) :
    fault.Justified program limits left := by
  cases refuses with
  | invalid notNatural =>
    intro n isInteger
    exact .inl (Int64.lt_iff_toInt_lt.mpr (notNatural n isInteger))
  | beyond tooLarge => exact ⟨rfl, tooLarge⟩
  | aborted names within outOfReach =>
    have reaches : Heap.maxCells ≤ heap.reach := Nat.le_max_right ..
    exact .inr ⟨contained, by omega⟩

theorem Fault.justified_of_loadAddress {address : Value}
    (failed : left.heap.loadAddress address = .error fault) :
    fault.Justified program limits left := by
  cases address with
  | integer n =>
    simp only [Heap.loadAddress] at failed
    split at failed
    · cases failed
    · rename_i outside
      cases failed
      rintro found ⟨⟩
      rcases Decidable.not_and_iff_or_not.mp outside with negative | beyond
      · exact .inl (Int64.not_le.mp negative)
      · exact .inr (Nat.le_of_not_lt beyond)
  | float | text | empty =>
    cases failed
    rintro n ⟨⟩

/-- An instruction of the program fails with a justified fault. -/
theorem Fails.justified {instruction : Instruction} (contained : program.Contains instruction)
    (fails : Fails program limits machine scopes instruction fault left) :
    fault.Justified program limits left := by
  cases fails with
  | unbound reads => exact ⟨instruction, contained, reads⟩
  | underflow pops empty =>
    refine ⟨empty, ?_⟩
    cases instruction with
    | arithmetic op target => cases op <;> simp [Instruction.mnemonic, ArithmeticOp.mnemonic]
    | bitwise op target =>
      cases op with
      | and | or | xor => simp [Instruction.mnemonic, BitwiseOp.mnemonic]
      | negate | not => cases pops
    | pop target => simp [Instruction.mnemonic]
    | _ => cases pops
  | @arithmetic op target value operand fault left found top refuses =>
    cases refuses with
    | zeroDivisor => exact contained
    | tooLong makesText fromText =>
      refine ⟨?_, rfl⟩
      rcases makesText with rfl | rfl
      · exact .inl rfl
      · exact .inr rfl
    | aborted makesText fromText large => exact .inl ⟨op, target, makesText, contained, large⟩
    | kinds undefined => exact .inl ⟨op, rfl, undefined⟩
  | @pair op target value operand left pops found top kinds =>
    exact .inr ⟨op, pops, rfl, kinds⟩
  | complement found kind => exact ⟨rfl, kind⟩
  | store mem refuses => exact refuses.justified contained
  | load mem failed => exact Fault.justified_of_loadAddress failed
  | output refused => exact ⟨refused, fun _ => refused.full⟩
  | undefined undefined => exact ⟨contained, undefined⟩
  | depth => exact rfl

end Justified

/-! ## Runs -/

/-- The entry point is defined, so a run of the program begins with a fault only if
too many calls are active already. -/
theorem Request.eq_callDepth_of_start_execute {program : Program} {limits : Limits}
    {machine : Machine} {scopes : Scopes} {ending : Ending} {fault : Fault}
    (ended : (Request.execute.start program limits machine scopes).turn = .ended ending)
    (failed : ending.result = .error fault) : fault = .callDepth limits.maxCallDepth := by
  obtain ⟨body, defined⟩ := Option.isSome_iff_exists.mp program.isSome_body?_entryPoint
  simp only [start, Machine.invoke, Step.invoke, defined] at ended
  split at ended
  · cases ended
    cases failed
    rfl
  · cases ended

/-- A run comes only to instructions of its program, and if it has failed, then for a
reason that can be seen in the program and in the machine. -/
structure Turn.Explained (program : Program) (limits : Limits) (turn : Turn) : Prop where
  code : turn.Throughout program.Contains
  justified : ∀ ending fault, turn = .ended ending → ending.result = .error fault →
    fault.Justified program limits ending.machine

theorem Turn.explained_step {program : Program} {limits : Limits} {turn : Turn}
    (before : turn.Explained program limits) :
    (turn.step program limits).turn.Explained program limits where
  code := throughout_step limits program.throughout_contains.supplies before.code
  justified ending fault ended failed := by
    cases turn with
    | ended ending => exact before.justified _ fault ended failed
    | ongoing activity =>
      obtain ⟨instruction, contained, fails⟩ := activity.exists_fails before.code ended failed
      exact fails.justified contained

namespace Request

variable {program : Program} {limits : Limits} {machine : Machine} {scopes : Scopes}

/-- Whatever fault a run of a program ends with, the program and the machine that the
run leaves show the reason. -/
theorem fault_justified {count : Nat} {ending : Ending} {fault : Fault}
    (ended : (Request.execute.run program limits machine scopes count).ending? = some ending)
    (failed : ending.result = .error fault) : fault.Justified program limits ending.machine := by
  have atFirst :
      (Request.execute.start program limits machine scopes).turn.Explained program limits := by
    refine ⟨throughout_start limits machine scopes program.throughout_contains
      Block.throughout_nil, ?_⟩
    intro ending fault ended failed
    rw [eq_callDepth_of_start_execute ended failed]
    exact rfl
  have explained := Turn.advance_induction (Turn.Explained program limits) atFirst
    (fun _ => Turn.explained_step) count
  exact explained.justified ending fault (Turn.ending?_eq_some_iff.mp ended) failed

end Request

/-- A program that stores a number at address 2, and in a branch loads from the
address 5. -/
def Program.loadingBeyond : Program where
  subroutines := [⟨entryPoint, [.push (.integer 7), .push (.integer 2), .store,
    .push (.integer 5), .conditional [⟨.integer 1, [.load]⟩] none]⟩]
  sorted := List.pairwise_singleton _ _
  definesEntryPoint := ⟨_, List.mem_singleton_self _, rfl⟩

/-- Its run fails, and the address is beyond the three cells of the heap that it
leaves. -/
theorem Request.loadingBeyond_justified :
    ∃ ending : Ending,
      (Request.execute.run .loadingBeyond .default (.initial (.empty none)) .initial 6).ending? =
        some ending ∧
      ending.result = .error (.invalidAddress (.integer 5)) ∧
      ending.machine.heap.size = 3 ∧
      ∀ n, Value.integer 5 = .integer n → n < 0 ∨ 3 ≤ n.toInt.toNat := by
  have ended : (Request.execute.run .loadingBeyond .default (.initial (.empty none)) .initial
    6).ending? = some _ := rfl
  exact ⟨_, ended, rfl, rfl, fault_justified ended rfl⟩

/-! ## Runs that are aborted -/

/-- The limits allow no heap and no text that memory cannot be asked for. -/
def Limits.Allocatable (limits : Limits) : Prop :=
  limits.maxHeapCells ≤ Heap.maxCells ∧ limits.maxStringBytes ≤ maxAllocation

instance (limits : Limits) : Decidable limits.Allocatable :=
  inferInstanceAs (Decidable (_ ∧ _))

section Aborted

variable {program : Program} {limits : Limits} {machine left : Machine} {scopes : Scopes}

/-- Under such limits no instruction aborts the run. -/
theorem Limits.Allocatable.ne_capacityOverflow (allocatable : limits.Allocatable)
    {instruction : Instruction} {fault : Fault}
    (fails : Fails program limits machine scopes instruction fault left) :
    fault ≠ .capacityOverflow := by
  rintro rfl
  obtain ⟨heap, texts⟩ := allocatable
  cases fails with
  | arithmetic found top refuses =>
    cases refuses with
    | aborted makesText fromText large => exact absurd large (Nat.not_lt.mpr texts)
  | store mem refuses =>
    cases refuses with
    | aborted names within outOfReach =>
      have reaches : Heap.maxCells ≤ machine.heap.reach := Nat.le_max_right ..
      omega
  | load mem failed => cases Heap.eq_invalidAddress_of_loadAddress failed

/-- The run has not been aborted. -/
def Turn.Returns (turn : Turn) : Prop :=
  ∀ ending, turn = .ended ending → ending.result ≠ .error .capacityOverflow

theorem Turn.returns_step (allocatable : limits.Allocatable) {turn : Turn}
    (before : turn.Returns) : (turn.step program limits).turn.Returns := by
  intro ending ended failed
  cases turn with
  | ended found => exact before _ ended failed
  | ongoing activity =>
    have anyCode : (Turn.ongoing activity).Throughout fun _ => True :=
      ⟨fun _ _ => trivial, fun _ _ _ _ _ _ => trivial⟩
    obtain ⟨instruction, -, fails⟩ := activity.exists_fails anyCode ended failed
    exact allocatable.ne_capacityOverflow fails rfl

/-- To begin aborts nothing. -/
theorem Request.returns_start (request : Request) :
    (request.start program limits machine scopes).turn.Returns := by
  have called (name : String) : (machine.invoke program limits scopes name).turn.Returns := by
    intro ending ended failed
    simp only [Machine.invoke, Step.invoke] at ended
    split at ended
    · cases ended
      cases failed
    · split at ended
      · cases ended
        cases failed
      · cases ended
  cases request with
  | execute => exact called entryPoint
  | invoke name => exact called name
  | executeBlock body =>
    intro ending ended
    cases ended

/-- No run is aborted under limits that memory can be asked for. -/
theorem Request.isAborted_eq_false (allocatable : limits.Allocatable) {request : Request}
    {count : Nat} {ending : Ending}
    (ended : request.run program limits machine scopes count = .ended ending) :
    ending.isAborted = false := by
  have returns : (request.run program limits machine scopes count).Returns :=
    Turn.advance_induction _ request.returns_start (fun _ => Turn.returns_step allocatable) count
  exact Bool.eq_false_iff.mpr fun aborted =>
    returns ending ended (Ending.isAborted_iff.mp aborted)

end Aborted

/-- The limits that are not given are such limits. -/
example : Limits.default.Allocatable := by
  decide

end StackScript
