import StackScript.Proofs.Block
import StackScript.Proofs.Heap
import StackScript.Proofs.Operation
import StackScript.Proofs.Run.ControlFlow

/-!
# How instructions fail

`Fails` lists the ways in which an instruction fails, each with its fault and with
what is known then: the values that an operation does not combine, the address that
names no cell, the stack that is empty. It is shown here for every instruction
without blocks and calls that it fails in no other way.
-/

namespace StackScript

/-! ## Variables -/

namespace Scopes

variable {scopes : Scopes} {fault : Fault}

theorem resolve_eq_ok_iff {name : String} {value : Value} :
    scopes.resolve name = .ok value ↔ scopes.find? name = some value := by
  simp only [resolve]
  split <;> simp_all

theorem eq_unboundName_of_resolve {name : String} (failed : scopes.resolve name = .error fault) :
    fault = .unboundName name := by
  simp only [resolve] at failed
  split at failed
  · cases failed
  · cases failed
    rfl

/-- Only reading a variable fails. -/
theorem exists_identifier_of_evaluate {source : Operand}
    (failed : scopes.evaluate source = .error fault) :
    ∃ name, source = .identifier name ∧ fault = .unboundName name := by
  cases source with
  | integer | float | text => cases failed
  | identifier name => exact ⟨name, rfl, eq_unboundName_of_resolve failed⟩

end Scopes

/-! ## Instructions -/

/-- The variable that an instruction changes by its value. -/
def Instruction.updated? : Instruction → Option String
  | .arithmetic _ target => some target
  | .bitwise _ target => some target
  | _ => none

/-- The last line was refused for this reason. -/
def Output.Refused (output : Output) (reason : String) : Prop :=
  ∃ (before : Output) (line : ByteArray) (refusal : Refusal),
    before.refuse? line = some refusal ∧ refusal.reason = reason ∧ output = before.write line

/-- A bounded sink that has refused a line gives one reason, and is full. -/
theorem Output.Refused.full {output : Output} {reason : String} {capacity : Nat}
    (refused : output.Refused reason) (isBounded : output.sink = .bounded capacity) :
    reason = "sink full" ∧ capacity ≤ output.written.size := by
  obtain ⟨⟨written, given, sink⟩, line, refusal, refuses, rfl, rfl⟩ := refused
  obtain rfl : sink = .bounded capacity := isBounded
  simp only [write, taken, refuses, ByteArray.size_append, ByteArray.size_extract]
  simp only [refuse?, Sink.bounded] at refuses
  split at refuses
  · cases refuses
  · cases refuses
    refine ⟨rfl, ?_⟩
    dsimp only
    omega

/-- The ways in which an instruction fails on a machine in these scopes, with the
machine that it leaves. -/
inductive Fails (program : Program) (limits : Limits) (machine : Machine) (scopes : Scopes) :
    Instruction → Fault → Machine → Prop
  | unbound {instruction : Instruction} {name : String} {left : Machine}
      (reads : .identifier name ∈ instruction.operands ∨ instruction.updated? = some name) :
      Fails program limits machine scopes instruction (.unboundName name) left
  | underflow {instruction : Instruction} {left : Machine} (pops : instruction.pops = true)
      (empty : left.stack = #[]) :
      Fails program limits machine scopes instruction (.stackUnderflow instruction.mnemonic) left
  | arithmetic {op : ArithmeticOp} {target : String} {value operand : Value} {fault : Fault}
      {left : Machine} (found : scopes.find? target = some value)
      (top : machine.top? = some operand)
      (refuses : op.Refuses limits.maxStringBytes target value operand fault) :
      Fails program limits machine scopes (.arithmetic op target) fault left
  | pair {op : BitwiseOp} {target : String} {value operand : Value} {left : Machine}
      (pops : op.popsOperand = true) (found : scopes.find? target = some value)
      (top : machine.top? = some operand)
      (kinds : ¬ (value.kind = .integer ∧ operand.kind = .integer)) :
      Fails program limits machine scopes (.bitwise op target)
        (.typeMismatch op.mnemonic value.kind operand.kind) left
  | complement {target : String} {value : Value} {left : Machine}
      (found : scopes.find? target = some value) (kind : value.kind ≠ .integer) :
      Fails program limits machine scopes (.bitwise .negate target)
        (.unsupportedOperand .negate value.kind) left
  | store {address : Value} {fault : Fault} {left : Machine} (mem : address ∈ machine.stack)
      (refuses : Heap.Refuses limits.maxHeapCells machine.heap.reach address fault) :
      Fails program limits machine scopes .store fault left
  | load {address : Value} {fault : Fault} {left : Machine} (mem : address ∈ machine.stack)
      (failed : left.heap.loadAddress address = .error fault) :
      Fails program limits machine scopes .load fault left
  | output {source : Operand} {reason : String} {left : Machine}
      (refused : left.output.Refused reason) :
      Fails program limits machine scopes (.print source) (.output reason) left
  | undefined {name : String} {left : Machine} (undefined : program.body? name = none) :
      Fails program limits machine scopes (.invoke name) (.unknownSubroutine name) left
  | depth {name : String} {left : Machine} :
      Fails program limits machine scopes (.invoke name) (.callDepth limits.maxCallDepth) left

/-- The number of active calls has no part in it. -/
theorem Fails.withDepth {program : Program} {limits : Limits} {machine left : Machine}
    {scopes : Scopes} {instruction : Instruction} {fault : Fault}
    (fails : Fails program limits machine scopes instruction fault left) (depth : Nat) :
    Fails program limits machine scopes instruction fault { left with depth := depth } := by
  cases fails with
  | unbound reads => exact .unbound reads
  | underflow pops empty => exact .underflow pops empty
  | arithmetic found top refuses => exact .arithmetic found top refuses
  | pair pops found top kinds => exact .pair pops found top kinds
  | complement found kind => exact .complement found kind
  | store mem refuses => exact .store mem refuses
  | load mem failed => exact .load mem failed
  | output refused => exact .output refused
  | undefined undefined => exact .undefined undefined
  | depth => exact .depth

namespace Machine

variable {program : Program} {limits : Limits} {machine : Machine} {scopes : Scopes}
  {fault : Fault}

/-- An operand of an instruction fails as a variable that it reads. -/
theorem fails_of_evaluate {instruction : Instruction} {source : Operand} {left : Machine}
    {within : Scopes} (mem : source ∈ instruction.operands)
    (failed : within.evaluate source = .error fault) :
    Fails program limits machine scopes instruction fault left := by
  obtain ⟨name, rfl, rfl⟩ := Scopes.exists_identifier_of_evaluate failed
  exact .unbound (.inl mem)

theorem fails_assign {source : Operand} {target : String}
    (failed : (machine.assign scopes source target).fault = some fault) :
    Fails program limits machine scopes (.assign source target) fault
      (machine.assign scopes source target).machine := by
  simp only [assign] at failed
  split at failed
  · cases failed
  · rename_i found evaluated
    cases failed
    exact fails_of_evaluate List.mem_cons_self evaluated

theorem fails_push {source : Operand}
    (failed : (machine.push scopes source).fault = some fault) :
    Fails program limits machine scopes (.push source) fault
      (machine.push scopes source).machine := by
  simp only [push] at failed
  split at failed
  · cases failed
  · rename_i found evaluated
    cases failed
    exact fails_of_evaluate List.mem_cons_self evaluated

theorem stack_eq_empty_of_top? (empty : machine.top? = none) : machine.stack = #[] :=
  Array.back?_eq_none_iff.mp empty

theorem fails_pop {target : String} (failed : (machine.pop scopes target).fault = some fault) :
    Fails program limits machine scopes (.pop target) fault
      (machine.pop scopes target).machine := by
  cases top : machine.top? with
  | some value =>
    simp only [pop, top] at failed
    cases failed
  | none =>
    simp only [pop, top] at failed ⊢
    cases failed
    exact .underflow rfl (stack_eq_empty_of_top? top)

/-- A changed variable is not bound, or its value refuses the change. -/
theorem of_fault_update {target : String} {change : Value → Except Fault Value}
    (failed : (machine.update scopes target change).fault = some fault) :
    fault = .unboundName target ∨
      ∃ value, scopes.find? target = some value ∧ change value = .error fault := by
  simp only [update] at failed
  split at failed
  · rename_i found resolved
    cases failed
    exact .inl (Scopes.eq_unboundName_of_resolve resolved)
  · rename_i value resolved
    split at failed
    · rename_i found refused
      cases failed
      exact .inr ⟨value, Scopes.resolve_eq_ok_iff.mp resolved, refused⟩
    · cases failed

/-- With a popped value it may also be that there is none. -/
theorem fails_updateWithPopped {instruction : Instruction} {target : String}
    {combine : Value → Value → Except Fault Value} (pops : instruction.pops = true)
    (updates : instruction.updated? = some target)
    (combines : ∀ {value operand : Value} {left : Machine}, scopes.find? target = some value →
      machine.top? = some operand → combine value operand = .error fault →
        Fails program limits machine scopes instruction fault left)
    (failed : (machine.updateWithPopped scopes instruction.mnemonic target combine).fault =
      some fault) :
    Fails program limits machine scopes instruction fault
      (machine.updateWithPopped scopes instruction.mnemonic target combine).machine := by
  cases top : machine.top? with
  | none =>
    simp only [updateWithPopped, top] at failed ⊢
    cases failed
    exact .underflow pops (stack_eq_empty_of_top? top)
  | some operand =>
    simp only [updateWithPopped, top] at failed
    rcases of_fault_update failed with rfl | ⟨value, found, refused⟩
    · exact .unbound (.inr updates)
    · exact combines found top refused

theorem fails_arithmetic {op : ArithmeticOp} {target : String}
    (failed : (machine.arithmetic scopes limits op target).fault = some fault) :
    Fails program limits machine scopes (.arithmetic op target) fault
      (machine.arithmetic scopes limits op target).machine := by
  refine fails_updateWithPopped rfl rfl ?_ failed
  intro value operand left found top refused
  exact .arithmetic found top (ArithmeticOp.refuses_of_apply refused)

theorem fails_bitwise {op : BitwiseOp} {target : String}
    (failed : (machine.bitwise scopes op target).fault = some fault) :
    Fails program limits machine scopes (.bitwise op target) fault
      (machine.bitwise scopes op target).machine := by
  cases op with
  | and | or | xor =>
    refine fails_updateWithPopped rfl rfl ?_ failed
    intro value operand left found top refused
    obtain ⟨kinds, rfl⟩ := BitwiseOp.eq_typeMismatch_of_onPair refused
    exact .pair rfl found top kinds
  | negate =>
    rcases of_fault_update failed with rfl | ⟨value, found, refused⟩
    · exact .unbound (.inr rfl)
    · obtain ⟨kind, rfl⟩ := BitwiseOp.eq_unsupportedOperand_of_complement refused
      exact .complement found kind
  | not =>
    simp only [bitwise] at failed
    rcases of_fault_update failed with rfl | ⟨value, found, refused⟩
    · exact .unbound (.inr rfl)
    · cases refused

theorem fails_print {source : Operand}
    (failed : (machine.print scopes source).fault = some fault) :
    Fails program limits machine scopes (.print source) fault
      (machine.print scopes source).machine := by
  cases evaluated : scopes.evaluate source with
  | error found =>
    simp only [print, evaluated] at failed
    cases failed
    exact fails_of_evaluate List.mem_cons_self evaluated
  | ok value =>
    simp only [print, evaluated] at failed ⊢
    obtain ⟨refusal, refuses, rfl⟩ := Option.map_eq_some_iff.mp failed
    exact .output ⟨_, _, refusal, refuses, rfl, rfl⟩

theorem fails_store (failed : (machine.store scopes limits).fault = some fault) :
    Fails program limits machine scopes .store fault (machine.store scopes limits).machine := by
  obtain ⟨address, mem, refuses⟩ := Heap.exists_refuses_of_fault_storePairs failed
  exact .store (Array.mem_def.mpr (List.mem_reverse.mp mem)) refuses

theorem fails_load (failed : (machine.load scopes).fault = some fault) :
    Fails program limits machine scopes .load fault (machine.load scopes).machine := by
  obtain ⟨address, mem, isBad⟩ := Heap.exists_loadAddress_of_fault_loadAll failed
  exact .load (Array.mem_def.mpr mem) isBad

end Machine

end StackScript
