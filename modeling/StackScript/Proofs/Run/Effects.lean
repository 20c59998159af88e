import StackScript.Proofs.Run

/-!
# Instructions by themselves

Most instructions hold no block, call nothing and leave nothing. Such an instruction is
one effect on the machine and the scopes, and the run goes on after it or fails. The
effect opens and closes no call, and the growth of the heap is all that it reports.
-/

namespace StackScript

/-- The heap has grown. -/
def Event.isGrowth : Event → Bool
  | .heapGrown _ _ => true
  | _ => false

/-- The effect of an instruction that is nothing but an effect. -/
def Machine.effect? (machine : Machine) (scopes : Scopes) (limits : Limits) :
    Instruction → Option Effect
  | .assign source target => some (machine.assign scopes source target)
  | .arithmetic op target => some (machine.arithmetic scopes limits op target)
  | .bitwise op target => some (machine.bitwise scopes op target)
  | .push source => some (machine.push scopes source)
  | .pop target => some (machine.pop scopes target)
  | .print source => some (machine.print scopes source)
  | .store => some (machine.store scopes limits)
  | .load => some (machine.load scopes)
  | _ => none

theorem Step.perform_of_effect? (program : Program) {limits : Limits} {machine : Machine}
    {scopes : Scopes} (after : Block) (outer : List Suspension) {instruction : Instruction}
    {effect : Effect} (has : machine.effect? scopes limits instruction = some effect) :
    perform program limits machine scopes after outer instruction =
      settle effect after outer := by
  cases instruction <;> cases has <;> rfl

/-- As many calls are active as before, and nothing is reported but growth. -/
structure Effect.KeepsCalls (effect : Effect) (machine : Machine) : Prop where
  depth : effect.machine.depth = machine.depth
  growth : ∀ event ∈ effect.events, event.isGrowth = true

/-- An effect that reports nothing. -/
theorem Effect.KeepsCalls.of_silent {machine : Machine} {effect : Effect}
    (depth : effect.machine.depth = machine.depth) (silent : effect.events = []) :
    effect.KeepsCalls machine := by
  constructor
  · exact depth
  · intro event mem
    rw [silent] at mem
    cases mem

open Effect

namespace Machine

variable (machine : Machine) (scopes : Scopes)

theorem keepsCalls_assign (source : Operand) (target : String) :
    (machine.assign scopes source target).KeepsCalls machine := by
  simp only [assign]
  split <;> exact .of_silent rfl rfl

theorem keepsCalls_push (source : Operand) : (machine.push scopes source).KeepsCalls machine := by
  simp only [push]
  split <;> exact .of_silent rfl rfl

theorem keepsCalls_pop (target : String) : (machine.pop scopes target).KeepsCalls machine := by
  simp only [pop]
  split <;> exact .of_silent rfl rfl

theorem keepsCalls_print (source : Operand) :
    (machine.print scopes source).KeepsCalls machine := by
  simp only [print]
  split <;> exact .of_silent rfl rfl

theorem keepsCalls_update (target : String) (change : Value → Except Fault Value) :
    (machine.update scopes target change).KeepsCalls machine := by
  simp only [update]
  split
  · exact .of_silent rfl rfl
  · split <;> exact .of_silent rfl rfl

theorem keepsCalls_updateWithPopped (op : Mnemonic) (target : String)
    (combine : Value → Value → Except Fault Value) :
    (machine.updateWithPopped scopes op target combine).KeepsCalls machine := by
  simp only [updateWithPopped]
  split
  · obtain ⟨depth, growth⟩ := machine.dropTop.keepsCalls_update scopes target _
    exact ⟨depth, growth⟩
  · exact .of_silent rfl rfl

theorem keepsCalls_bitwise (op : BitwiseOp) (target : String) :
    (machine.bitwise scopes op target).KeepsCalls machine := by
  cases op with
  | and | or | xor => exact keepsCalls_updateWithPopped ..
  | negate => exact keepsCalls_update ..
  | not =>
    exact machine.keepsCalls_update scopes target fun value => .ok (BitwiseOp.logicalNot value)

theorem keepsCalls_store (limits : Limits) :
    (machine.store scopes limits).KeepsCalls machine := by
  constructor
  · rfl
  · simp only [store, List.mem_map]
    rintro event ⟨growth, mem, rfl⟩
    rfl

theorem keepsCalls_of_effect? {limits : Limits} {instruction : Instruction} {effect : Effect}
    (has : machine.effect? scopes limits instruction = some effect) :
    effect.KeepsCalls machine := by
  cases instruction <;> cases has
  case assign => exact keepsCalls_assign ..
  case arithmetic => exact keepsCalls_updateWithPopped ..
  case bitwise => exact keepsCalls_bitwise ..
  case push => exact keepsCalls_push ..
  case pop => exact keepsCalls_pop ..
  case print => exact keepsCalls_print ..
  case store => exact keepsCalls_store ..
  case load => exact .of_silent rfl rfl

end Machine

end StackScript
