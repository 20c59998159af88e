import StackScript.Machine
import StackScript.Proofs.Heap

/-!
# Renaming variables

A name is only ever compared with other names. So rename the variables of a
chain of scopes in a way that keeps different names apart changes nothing but the
names: an instruction finds the same values under the new names, and names the
new ones when it fails.
-/

namespace StackScript

/-- New names for variables, different ones for different names. -/
structure Renaming where
  map : String → String
  injective : Function.Injective map

namespace Renaming

instance : CoeFun Renaming fun _ => String → String :=
  ⟨map⟩

/-- Every name as it is. -/
def same : Renaming :=
  ⟨id, fun _ _ equal => equal⟩

/-- New names are equal if the names are. -/
@[simp]
theorem beq_apply (rename : Renaming) (first second : String) :
    (rename first == rename second) = (first == second) := by
  rw [Bool.eq_iff_iff, beq_iff_eq, beq_iff_eq]
  exact rename.injective.eq_iff

end Renaming

/-- A fault with its variable renamed, if it names one. -/
def Fault.renamed (rename : Renaming) : Fault → Fault
  | .unboundName name => .unboundName (rename name)
  | .divisionByZero target => .divisionByZero (rename target)
  | fault => fault

/-- An operand with its variable renamed, if it is one. -/
def Operand.renamed (rename : Renaming) : Operand → Operand
  | .identifier name => .identifier (rename name)
  | operand => operand

/-! ## Scopes -/

namespace Frame

variable (rename : Renaming)

/-- The frame with its names renamed. -/
def renamed (frame : Frame) : Frame :=
  ⟨frame.entries.map fun (name, value) => (rename name, value)⟩

theorem get?_renamed (frame : Frame) (name : String) :
    (frame.renamed rename).get? (rename name) = frame.get? name := by
  obtain ⟨entries⟩ := frame
  simp only [renamed, get?]
  induction entries with
  | nil => rfl
  | cons entry rest ih =>
    obtain ⟨first, value⟩ := entry
    simp only [List.map_cons, List.lookup_cons, Renaming.beq_apply, ih]

theorem binds_renamed (frame : Frame) (name : String) :
    (frame.renamed rename).binds (rename name) = frame.binds name := by
  rw [binds, get?_renamed, binds]

theorem set_renamed (frame : Frame) (name : String) (value : Value) :
    (frame.renamed rename).set (rename name) value =
      (frame.set name value).renamed rename := by
  obtain ⟨entries⟩ := frame
  simp only [renamed, set, mk.injEq]
  induction entries with
  | nil => rfl
  | cons entry rest ih =>
    simp only [List.map_cons, setEntry, Renaming.beq_apply, ih]
    split <;> rfl

end Frame

namespace Scopes

variable (rename : Renaming) (scopes : Scopes)

/-- The chain with the names of every frame renamed. -/
def renamed : Scopes :=
  ⟨scopes.innermost.renamed rename, scopes.outer.map (Frame.renamed rename)⟩

theorem renamed_same : scopes.renamed .same = scopes := by
  have unchanged : Frame.renamed .same = id := by
    funext frame
    simp [Frame.renamed, Renaming.same]
  simp [renamed, unchanged]

theorem leave_renamed : (scopes.renamed rename).leave = scopes.leave.renamed rename := by
  obtain ⟨innermost, outer⟩ := scopes
  cases outer <;> rfl

theorem find?_renamed (name : String) :
    (scopes.renamed rename).find? (rename name) = scopes.find? name := by
  have frames : (scopes.renamed rename).frames = scopes.frames.map (Frame.renamed rename) :=
    rfl
  simp only [find?, frames, List.findSome?_map, Function.comp_def, Frame.get?_renamed]

/-- A new name has the value of the old one, or is unbound as the old one is. -/
theorem resolve_renamed (name : String) :
    (scopes.renamed rename).resolve (rename name) =
      (scopes.resolve name).mapError (Fault.renamed rename) := by
  simp only [resolve, find?_renamed]
  cases scopes.find? name <;> rfl

theorem evaluate_renamed (operand : Operand) :
    (scopes.renamed rename).evaluate (operand.renamed rename) =
      (scopes.evaluate operand).mapError (Fault.renamed rename) := by
  cases operand with
  | identifier name => exact resolve_renamed rename scopes name
  | integer | float | text => rfl

theorem overwrite?_renamed (name : String) (value : Value) (frames : List Frame) :
    overwrite? (rename name) value (frames.map (Frame.renamed rename)) =
      (overwrite? name value frames).map (List.map (Frame.renamed rename)) := by
  induction frames with
  | nil => rfl
  | cons frame rest ih =>
    simp only [List.map_cons, overwrite?, Frame.binds_renamed, Frame.set_renamed, ih]
    split
    · rfl
    · simp only [Option.map_map, Function.comp_def, List.map_cons]

/-- A new name is written in the frame in which the old one would be. -/
theorem assign_renamed (name : String) (value : Value) :
    (scopes.renamed rename).assign (rename name) value =
      (scopes.assign name value).renamed rename := by
  have locally : (scopes.renamed rename).bindsLocally (rename name) = scopes.bindsLocally name :=
    Frame.binds_renamed ..
  by_cases bound : scopes.bindsLocally name = true
  · rw [assign, assign, locally, if_pos bound, if_pos bound]
    simp only [renamed, Frame.set_renamed]
  · rw [assign, assign, locally, if_neg bound, if_neg bound]
    simp only [renamed, Frame.set_renamed, overwrite?_renamed]
    cases overwrite? name value scopes.outer <;> rfl

end Scopes

/-! ## Operations -/

namespace ArithmeticOp

variable (rename : Renaming) (op : ArithmeticOp) (limit : Nat) (target : String)

theorem joinTexts_renamed (s t : String) :
    joinTexts limit s t = (joinTexts limit s t).mapError (Fault.renamed rename) := by
  simp only [joinTexts]
  split
  · rfl
  · split <;> rfl

theorem repeatWithin_renamed (s : String) (n : Int64) :
    repeatWithin limit s n = (repeatWithin limit s n).mapError (Fault.renamed rename) := by
  simp only [repeatWithin]
  split
  · rfl
  · split <;> rfl

theorem onIntegers_renamed (a b : Int64) :
    op.onIntegers (rename target) a b =
      (op.onIntegers target a b).mapError (Fault.renamed rename) := by
  cases op with
  | add | subtract | multiply => rfl
  | divide =>
    simp only [onIntegers]
    split <;> rfl

theorem onFloats_renamed (x y : Binary64) :
    op.onFloats (rename target) x y =
      (op.onFloats target x y).mapError (Fault.renamed rename) := by
  cases op with
  | add | subtract | multiply => rfl
  | divide =>
    simp only [onFloats]
    split <;> rfl

/-- Of all faults of arithmetic only division by zero names a variable. -/
theorem apply_renamed (left right : Value) :
    op.apply limit (rename target) left right =
      (op.apply limit target left right).mapError (Fault.renamed rename) := by
  cases op with
  | add =>
    cases left with
    | text s =>
      cases right with
      | text t => exact joinTexts_renamed rename limit s t
      | integer | float | empty => rfl
    | integer | float | empty => cases right <;> rfl
  | subtract => cases left <;> cases right <;> rfl
  | multiply =>
    cases left with
    | text s =>
      cases right with
      | integer n => exact repeatWithin_renamed rename limit s n
      | float | text | empty => rfl
    | integer n =>
      cases right with
      | text s => exact repeatWithin_renamed rename limit s n
      | integer | float | empty => rfl
    | float | empty => cases right <;> rfl
  | divide =>
    cases left with
    | integer a =>
      cases right with
      | integer b => exact onIntegers_renamed rename .divide target a b
      | float y => exact onFloats_renamed rename .divide target _ y
      | text | empty => rfl
    | float x =>
      cases right with
      | integer | float => exact onFloats_renamed rename .divide target x _
      | text | empty => rfl
    | text | empty => cases right <;> rfl

end ArithmeticOp

theorem BitwiseOp.onPair_renamed (rename : Renaming) (op : BitwiseOp)
    (combine : Int64 → Int64 → Int64) (left right : Value) :
    op.onPair combine left right =
      (op.onPair combine left right).mapError (Fault.renamed rename) := by
  cases left <;> cases right <;> rfl

theorem BitwiseOp.complement_renamed (rename : Renaming) (value : Value) :
    complement value = (complement value).mapError (Fault.renamed rename) := by
  cases value <;> rfl

namespace Heap

variable (rename : Renaming)

/-- A fault of storing names no variable. -/
theorem Refuses.renamed_eq {limit reach : Nat} {address : Value} {fault : Fault}
    (refuses : Refuses limit reach address fault) : fault.renamed rename = fault := by
  cases refuses <;> rfl

theorem fault_storePairs_renamed (limit : Nat) (heap : Heap) (growth : List (Nat × Nat))
    (stack : List Value) :
    (heap.storePairs limit growth stack).fault =
      (heap.storePairs limit growth stack).fault.map (Fault.renamed rename) := by
  cases failed : (heap.storePairs limit growth stack).fault with
  | none => rfl
  | some fault =>
    obtain ⟨address, mem, refuses⟩ := exists_refuses_of_fault_storePairs failed
    exact congrArg some (refuses.renamed_eq rename).symm

theorem fault_loadAll_renamed (heap : Heap) (loaded : Array Value) (stack : List Value) :
    (heap.loadAll loaded stack).2 =
      (heap.loadAll loaded stack).2.map (Fault.renamed rename) := by
  cases failed : (heap.loadAll loaded stack).2 with
  | none => rfl
  | some fault =>
    obtain ⟨address, mem, bad⟩ := exists_loadAddress_of_fault_loadAll failed
    rw [eq_invalidAddress_of_loadAddress bad]
    rfl

end Heap

/-! ## Instructions -/

/-- What an instruction leaves behind, with its variables renamed. -/
def Effect.renamed (rename : Renaming) (effect : Effect) : Effect :=
  { effect with
    scopes := effect.scopes.renamed rename
    fault := effect.fault.map (Fault.renamed rename) }

namespace Machine

variable (rename : Renaming) (machine : Machine) (scopes : Scopes)

theorem assign_renamed (source : Operand) (target : String) :
    machine.assign (scopes.renamed rename) (source.renamed rename) (rename target) =
      (machine.assign scopes source target).renamed rename := by
  simp only [assign, Scopes.evaluate_renamed, Scopes.assign_renamed]
  cases scopes.evaluate source <;> rfl

theorem push_renamed (source : Operand) :
    machine.push (scopes.renamed rename) (source.renamed rename) =
      (machine.push scopes source).renamed rename := by
  simp only [push, Scopes.evaluate_renamed]
  cases scopes.evaluate source <;> rfl

theorem pop_renamed (target : String) :
    machine.pop (scopes.renamed rename) (rename target) =
      (machine.pop scopes target).renamed rename := by
  simp only [pop, Scopes.assign_renamed]
  cases machine.top? <;> rfl

theorem print_renamed (source : Operand) :
    machine.print (scopes.renamed rename) (source.renamed rename) =
      (machine.print scopes source).renamed rename := by
  simp only [print, Scopes.evaluate_renamed]
  cases scopes.evaluate source with
  | error fault => rfl
  | ok value =>
    have printed : (Except.ok value).mapError (Fault.renamed rename) = .ok value := rfl
    simp only [printed]
    cases machine.output.refuse? (printedLine value) <;> rfl

/-- A variable changes in the same way if the changing functions fail with the
same faults, renamed. -/
theorem update_renamed (target : String) {change changeRenamed : Value → Except Fault Value}
    (same : ∀ value, changeRenamed value = (change value).mapError (Fault.renamed rename)) :
    machine.update (scopes.renamed rename) (rename target) changeRenamed =
      (machine.update scopes target change).renamed rename := by
  simp only [update, Scopes.resolve_renamed, Scopes.assign_renamed]
  cases scopes.resolve target with
  | error fault => rfl
  | ok value =>
    have found : (Except.ok value).mapError (Fault.renamed rename) = .ok value := rfl
    simp only [found, same]
    cases change value <;> rfl

theorem updateWithPopped_renamed (op : Mnemonic) (target : String)
    {combine combineRenamed : Value → Value → Except Fault Value}
    (same : ∀ value operand, combineRenamed value operand =
      (combine value operand).mapError (Fault.renamed rename)) :
    machine.updateWithPopped (scopes.renamed rename) op (rename target) combineRenamed =
      (machine.updateWithPopped scopes op target combine).renamed rename := by
  simp only [updateWithPopped]
  cases machine.top? with
  | none => rfl
  | some operand =>
    exact machine.dropTop.update_renamed rename scopes target fun value => same value operand

theorem arithmetic_renamed (limits : Limits) (op : ArithmeticOp) (target : String) :
    machine.arithmetic (scopes.renamed rename) limits op (rename target) =
      (machine.arithmetic scopes limits op target).renamed rename :=
  machine.updateWithPopped_renamed rename scopes op.mnemonic target
    (op.apply_renamed rename limits.maxStringBytes target)

theorem bitwise_renamed (op : BitwiseOp) (target : String) :
    machine.bitwise (scopes.renamed rename) op (rename target) =
      (machine.bitwise scopes op target).renamed rename := by
  cases op with
  | and | or | xor =>
    exact machine.updateWithPopped_renamed rename scopes _ target
      (BitwiseOp.onPair_renamed rename _ _)
  | negate =>
    exact machine.update_renamed rename scopes target (BitwiseOp.complement_renamed rename)
  | not =>
    simp only [bitwise]
    apply update_renamed
    intro value
    rfl

theorem store_renamed (limits : Limits) :
    machine.store (scopes.renamed rename) limits =
      (machine.store scopes limits).renamed rename := by
  obtain ⟨stack, heap, depth, output⟩ := machine
  simp only [store, Effect.renamed, ← Heap.fault_storePairs_renamed]

theorem load_renamed :
    machine.load (scopes.renamed rename) = (machine.load scopes).renamed rename := by
  obtain ⟨stack, heap, depth, output⟩ := machine
  simp only [load, Effect.renamed, ← Heap.fault_loadAll_renamed]

end Machine

end StackScript
