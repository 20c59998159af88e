import StackScript.Proofs.Block
import StackScript.Proofs.Heap
import StackScript.Machine

/-!
# Properties of all values

A value comes from a literal, from an operation, or from a cell that was never
written. A property that the operations keep can therefore only come to fail through
a literal or through `load`: an instruction whose own literals have it, and which is
no `load` unless `empty` has it, leaves it true of every value on the stack, in the
heap and in the scopes.
-/

namespace StackScript

/-- The value of a literal. -/
def Operand.literal? : Operand → Option Value
  | .integer n => some (.integer n)
  | .float x => some (.float x)
  | .text s => some (.text s)
  | .identifier _ => none

/-- A property of values that no operation takes away. -/
structure Value.Kept (limits : Limits) (holds : Value → Prop) : Prop where
  integer : ∀ n, holds (.integer n)
  arithmetic : ∀ {op : ArithmeticOp} {target : String} {left right result : Value},
    holds left → holds right →
      op.apply limits.maxStringBytes target left right = .ok result → holds result

/-- The values that an instruction brings in have a property. -/
structure Instruction.Introduces (holds : Value → Prop) (instruction : Instruction) : Prop where
  literal : ∀ operand ∈ instruction.operands, ∀ value,
    operand.literal? = some value → holds value
  empty : instruction = .load → holds .empty

/-! ## Scopes -/

/-- Every value that a frame binds has a property. -/
def Frame.AllValues (holds : Value → Prop) (frame : Frame) : Prop :=
  ∀ name value, frame.get? name = some value → holds value

/-- Every value that a chain of scopes binds has a property. -/
def Scopes.AllValues (holds : Value → Prop) (scopes : Scopes) : Prop :=
  ∀ frame ∈ scopes.frames, frame.AllValues holds

variable {holds : Value → Prop}

namespace Frame

theorem allValues_empty : empty.AllValues holds := by
  intro name value bound
  cases bound

theorem AllValues.set {frame : Frame} (all : frame.AllValues holds) {value : Value}
    (new : holds value) (name : String) : (frame.set name value).AllValues holds := by
  intro other found bound
  rw [get?_set] at bound
  split at bound
  · cases bound
    exact new
  · exact all other found bound

end Frame

namespace Scopes

theorem allValues_initial : initial.AllValues holds := by
  intro frame mem
  rw [List.mem_singleton.mp mem]
  exact Frame.allValues_empty

/-- An overwritten value is one of the frames' values, as are all others. -/
theorem allValues_of_overwrite? {name : String} {value : Value} {frames written : List Frame}
    (all : ∀ frame ∈ frames, frame.AllValues holds) (new : holds value)
    (overwritten : overwrite? name value frames = some written) :
    ∀ frame ∈ written, frame.AllValues holds := by
  induction frames generalizing written with
  | nil => cases overwritten
  | cons first rest ih =>
    obtain ⟨ofFirst, ofRest⟩ := List.forall_mem_cons.mp all
    simp only [overwrite?] at overwritten
    split at overwritten
    · cases overwritten
      exact List.forall_mem_cons.mpr ⟨ofFirst.set new name, ofRest⟩
    · obtain ⟨writtenRest, restOverwritten, rfl⟩ := Option.map_eq_some_iff.mp overwritten
      exact List.forall_mem_cons.mpr ⟨ofFirst, ih ofRest restOverwritten⟩

namespace AllValues

variable {scopes : Scopes} (all : scopes.AllValues holds)

include all

theorem inherit : scopes.inherit.AllValues holds :=
  List.forall_mem_cons.mpr ⟨Frame.allValues_empty, all⟩

theorem leave : scopes.leave.AllValues holds := by
  obtain ⟨innermost, outer⟩ := scopes
  cases outer with
  | nil => exact all
  | cons enclosing rest => exact (List.forall_mem_cons.mp all).2

theorem assign {value : Value} (new : holds value) (name : String) :
    (scopes.assign name value).AllValues holds := by
  obtain ⟨innermost, outer⟩ := List.forall_mem_cons.mp all
  simp only [Scopes.assign]
  split
  · exact List.forall_mem_cons.mpr ⟨innermost.set new name, outer⟩
  · split
    · rename_i written overwritten
      exact List.forall_mem_cons.mpr ⟨innermost, allValues_of_overwrite? outer new overwritten⟩
    · exact List.forall_mem_cons.mpr ⟨innermost.set new name, outer⟩

theorem of_find? {name : String} {value : Value} (found : scopes.find? name = some value) :
    holds value := by
  obtain ⟨frame, mem, bound⟩ := List.exists_of_findSome?_eq_some found
  exact all frame mem name value bound

theorem of_resolve {name : String} {value : Value} (resolved : scopes.resolve name = .ok value) :
    holds value := by
  simp only [resolve] at resolved
  split at resolved
  · rename_i found isFound
    cases resolved
    exact all.of_find? isFound
  · cases resolved

/-- An operand is a literal or the value of a variable. -/
theorem of_evaluate {source : Operand}
    (literal : ∀ value, source.literal? = some value → holds value) {value : Value}
    (evaluated : scopes.evaluate source = .ok value) : holds value := by
  cases source with
  | integer | float | text =>
    cases evaluated
    exact literal _ rfl
  | identifier name => exact all.of_resolve evaluated

end AllValues

end Scopes

/-! ## The heap -/

namespace Heap

/-- Every value in a written cell has a property. -/
def AllValues (holds : Value → Prop) (heap : Heap) : Prop :=
  ∀ address value, heap.get? address = some value → holds value

theorem AllValues.writeAll {heap : Heap} (all : heap.AllValues holds)
    {writes : List (Nat × Value)} (new : ∀ write ∈ writes, holds write.2) :
    (heap.writeAll writes).AllValues holds := by
  induction writes generalizing heap with
  | nil => exact all
  | cons write rest ih =>
    obtain ⟨ofWrite, ofRest⟩ := List.forall_mem_cons.mp new
    apply ih _ ofRest
    intro address value bound
    rw [get?_write] at bound
    split at bound
    · cases bound
      exact ofWrite
    · exact all address value bound

/-- What is stored was on the stack. -/
theorem mem_of_mem_writes {bound : Nat} {stack : List Value} {write : Nat × Value}
    (mem : write ∈ writes bound stack) : write.2 ∈ stack := by
  fun_induction writes bound stack with
  | case1 => cases mem
  | case2 address value rest index found ih =>
    rcases List.mem_cons.mp mem with rfl | mem
    · exact List.mem_cons_of_mem _ List.mem_cons_self
    · exact List.mem_cons_of_mem _ (List.mem_cons_of_mem _ (ih mem))
  | case3 => cases mem

/-- What is left of the stack was on the stack. -/
theorem mem_of_mem_rest_storePairs {limit : Nat} {heap : Heap} {growth : List (Nat × Nat)}
    {stack : List Value} {value : Value} (mem : value ∈ (heap.storePairs limit growth stack).rest) :
    value ∈ stack := by
  fun_induction storePairs limit heap growth stack with
  | case1 | case3 => exact List.mem_cons_of_mem _ (List.mem_cons_of_mem _ mem)
  | case2 heap growth address stored rest index found size longer within ih =>
    exact List.mem_cons_of_mem _ (List.mem_cons_of_mem _ (ih mem))
  | case4 => exact mem

theorem AllValues.read {heap : Heap} (all : heap.AllValues holds) (empty : holds .empty)
    (address : Nat) : holds (heap.read address) := by
  rw [Heap.read]
  cases found : heap.get? address with
  | none => exact empty
  | some value => exact all address value found

/-- What is loaded was in the heap, or comes from a cell that was never written. -/
theorem AllValues.loadAll {heap : Heap} (all : heap.AllValues holds) (empty : holds .empty)
    {loaded : Array Value} (before : ∀ value ∈ loaded, holds value) (stack : List Value) :
    ∀ value ∈ (heap.loadAll loaded stack).1, holds value := by
  fun_induction Heap.loadAll heap loaded stack with
  | case1 => exact before
  | case2 loaded address rest index found ih =>
    apply ih
    intro value mem
    rcases Array.mem_push.mp mem with mem | rfl
    · exact before value mem
    · exact all.read empty index
  | case3 => exact before

end Heap

/-! ## Operations -/

namespace Value.Kept

variable {limits : Limits} (kept : Kept limits holds)

include kept

theorem onPair {op : BitwiseOp} {combine : Int64 → Int64 → Int64} {left right result : Value}
    (combined : op.onPair combine left right = .ok result) : holds result := by
  simp only [BitwiseOp.onPair] at combined
  split at combined
  · cases combined
    exact kept.integer _
  · cases combined

theorem complement {value result : Value} (changed : BitwiseOp.complement value = .ok result) :
    holds result := by
  cases value with
  | integer n =>
    cases changed
    exact kept.integer _
  | float | text | empty => cases changed

theorem logicalNot {value : Value} (old : holds value) : holds (BitwiseOp.logicalNot value) := by
  simp only [BitwiseOp.logicalNot]
  split
  · exact kept.integer 0
  · exact old

end Value.Kept

/-! ## Instructions -/

/-- Every value on the stack and in the heap has a property. -/
structure Machine.AllValues (holds : Value → Prop) (machine : Machine) : Prop where
  stack : ∀ value ∈ machine.stack, holds value
  heap : machine.heap.AllValues holds

/-- Every value that an instruction leaves behind has a property. -/
structure Effect.AllValues (holds : Value → Prop) (effect : Effect) : Prop where
  machine : effect.machine.AllValues holds
  scopes : effect.scopes.AllValues holds

namespace Machine

variable {machine : Machine} {scopes : Scopes}

namespace AllValues

theorem push (all : machine.AllValues holds) {value : Value} (new : holds value) :
    AllValues holds { machine with stack := machine.stack.push value } where
  stack found mem := by
    rcases Array.mem_push.mp mem with mem | rfl
    · exact all.stack found mem
    · exact new
  heap := all.heap

theorem dropTop (all : machine.AllValues holds) : machine.dropTop.AllValues holds where
  stack value mem := by
    have inPopped : value ∈ machine.stack.toList.dropLast := by
      rwa [← Array.toList_pop, ← Array.mem_def]
    exact all.stack value (Array.mem_def.mpr ((List.dropLast_sublist _).subset inPopped))
  heap := all.heap

theorem of_top? (all : machine.AllValues holds) {value : Value}
    (top : machine.top? = some value) : holds value :=
  all.stack value (Array.mem_of_back? top)

end AllValues

variable (ofMachine : machine.AllValues holds) (ofScopes : scopes.AllValues holds)

include ofMachine ofScopes

theorem allValues_update {target : String} {change : Value → Except Fault Value}
    (keeps : ∀ value result, holds value → change value = .ok result → holds result) :
    (machine.update scopes target change).AllValues holds := by
  simp only [update]
  split
  · exact ⟨ofMachine, ofScopes⟩
  · rename_i value resolved
    split
    · exact ⟨ofMachine, ofScopes⟩
    · rename_i result changed
      exact ⟨ofMachine, ofScopes.assign (keeps value result (ofScopes.of_resolve resolved) changed)
        target⟩

theorem allValues_updateWithPopped {op : Mnemonic} {target : String}
    {combine : Value → Value → Except Fault Value}
    (keeps : ∀ value operand result, holds value → holds operand →
      combine value operand = .ok result → holds result) :
    (machine.updateWithPopped scopes op target combine).AllValues holds := by
  simp only [updateWithPopped]
  split
  · rename_i operand top
    apply allValues_update ofMachine.dropTop ofScopes
    intro value result old combined
    exact keeps value operand result old (ofMachine.of_top? top) combined
  · exact ⟨ofMachine, ofScopes⟩

theorem allValues_pop (target : String) : (machine.pop scopes target).AllValues holds := by
  simp only [pop]
  split
  · rename_i value top
    exact ⟨ofMachine.dropTop, ofScopes.assign (ofMachine.of_top? top) target⟩
  · exact ⟨ofMachine, ofScopes⟩

theorem allValues_store (limits : Limits) : (machine.store scopes limits).AllValues holds := by
  have onStack (value : Value) (mem : value ∈ machine.stack.toList.reverse) : holds value :=
    ofMachine.stack value (Array.mem_def.mpr (List.mem_reverse.mp mem))
  refine ⟨⟨?_, ?_⟩, ofScopes⟩
  · intro value mem
    apply onStack value
    apply Heap.mem_of_mem_rest_storePairs
    exact List.mem_reverse.mp (List.mem_toArray.mp mem)
  · have stored : (machine.store scopes limits).machine.heap = machine.heap.writeAll
        (Heap.writes (machine.heap.storable limits.maxHeapCells) machine.stack.toList.reverse) :=
      Heap.heap_storePairs ..
    rw [stored]
    apply ofMachine.heap.writeAll
    intro write mem
    exact onStack write.2 (Heap.mem_of_mem_writes mem)

theorem allValues_load (empty : holds .empty) : (machine.load scopes).AllValues holds := by
  refine ⟨⟨?_, ofMachine.heap⟩, ofScopes⟩
  exact ofMachine.heap.loadAll empty (by simp) machine.stack.toList

section

variable {source : Operand} (literal : ∀ value, source.literal? = some value → holds value)

include literal

theorem allValues_assign (target : String) :
    (machine.assign scopes source target).AllValues holds := by
  simp only [assign]
  split
  · rename_i value evaluated
    exact ⟨ofMachine, ofScopes.assign (ofScopes.of_evaluate literal evaluated) target⟩
  · exact ⟨ofMachine, ofScopes⟩

theorem allValues_push : (machine.push scopes source).AllValues holds := by
  simp only [push]
  split
  · rename_i value evaluated
    exact ⟨ofMachine.push (ofScopes.of_evaluate literal evaluated), ofScopes⟩
  · exact ⟨ofMachine, ofScopes⟩

end

theorem allValues_print (source : Operand) :
    (machine.print scopes source).AllValues holds := by
  simp only [print]
  split
  · exact ⟨ofMachine, ofScopes⟩
  · exact ⟨⟨ofMachine.stack, ofMachine.heap⟩, ofScopes⟩

variable {limits : Limits} (kept : Value.Kept limits holds)

include kept

theorem allValues_arithmetic (op : ArithmeticOp) (target : String) :
    (machine.arithmetic scopes limits op target).AllValues holds := by
  apply allValues_updateWithPopped ofMachine ofScopes
  intro value operand result old popped combined
  exact kept.arithmetic old popped combined

theorem allValues_bitwise (op : BitwiseOp) (target : String) :
    (machine.bitwise scopes op target).AllValues holds := by
  cases op with
  | and | or | xor =>
    apply allValues_updateWithPopped ofMachine ofScopes
    intro value operand result old popped combined
    exact kept.onPair combined
  | negate =>
    apply allValues_update ofMachine ofScopes
    intro value result old changed
    exact kept.complement changed
  | not =>
    simp only [bitwise]
    apply allValues_update ofMachine ofScopes
    rintro value result old ⟨⟩
    exact kept.logicalNot old

end Machine

end StackScript
