import StackScript.Instruction

/-!
# Events

What a run reports of itself, besides its output, in the order in which it
happens.
-/

namespace StackScript

/-- Something that happened in a run. -/
inductive Event where
  /-- A subroutine was called; `depth` counts the active calls, this one included. -/
  | invoked (name : String) (depth : Nat)
  /-- A call returned. -/
  | returned (name : String)
  /-- An instruction is about to run on a stack of this height. -/
  | dispatched (op : Mnemonic) (height : Nat)
  /-- The heap grew from one size to another. -/
  | heapGrown (before after : Nat)
  /-- The run is ended by a value. -/
  | halted (code : Value)
  deriving DecidableEq

end StackScript
