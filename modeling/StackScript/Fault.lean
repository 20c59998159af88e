import StackScript.Instruction

/-!
# Faults

The reasons for which a run fails. A run ends at its first fault. The wording
is in `Fault.message` alone.
-/

namespace StackScript

/-- The bytes that memory can be asked for at once, at the most: the greatest signed word. -/
def maxAllocation : Nat :=
  0x7fffffffffffffff

/-- Why a run failed. -/
inductive Fault where
  /-- No scope binds the name. -/
  | unboundName (name : String)
  /-- The program does not define the called subroutine. -/
  | unknownSubroutine (name : String)
  /-- The value is no address that can be stored to or loaded from. -/
  | invalidAddress (address : Value)
  /-- The address lies beyond the cells that the heap may have. -/
  | heapLimit (address : Int64) (limit : Nat)
  /-- The variable was to be divided by zero. -/
  | divisionByZero (target : String)
  /-- The instruction needed a value from an empty stack. -/
  | stackUnderflow (op : Mnemonic)
  /-- The operation does not combine these kinds. -/
  | typeMismatch (op : Mnemonic) (left right : Kind)
  /-- The operation does not apply to this kind. -/
  | unsupportedOperand (op : Mnemonic) (kind : Kind)
  /-- The text would have more bytes than allowed. -/
  | stringLimit (op : Mnemonic) (limit : Nat)
  /-- There would be more calls inside each other than allowed. -/
  | callDepth (limit : Nat)
  /-- The output did not take all of a line. -/
  | output (reason : String)
  /-- More than `maxAllocation` would have been asked for. No run returns this as its
  error: the run is aborted, and nothing is seen of it but what it has printed. -/
  | capacityOverflow
  deriving DecidableEq

/-- The text of a fault. -/
def Fault.message : Fault → String
  | .unboundName name => "unbound name '" ++ name ++ "'"
  | .unknownSubroutine name => "no subroutine called '" ++ name ++ "'"
  | .invalidAddress address => "invalid memory address " ++ address.display
  | .heapLimit address limit =>
    "address " ++ toString address.toInt ++ " exceeds heap limit of " ++ toString limit ++ " cells"
  | .divisionByZero target => "division by zero in 'divide " ++ target ++ "'"
  | .stackUnderflow op => "stack underflow in '" ++ op.text ++ "'"
  | .typeMismatch op left right =>
    "unsupported operand kinds for '" ++ op.text ++ "': " ++ left.name ++ " and " ++ right.name
  | .unsupportedOperand op kind =>
    "unsupported operand kind for '" ++ op.text ++ "': " ++ kind.name
  | .stringLimit op limit =>
    "string result of '" ++ op.text ++ "' exceeds limit of " ++ toString limit ++ " bytes"
  | .callDepth limit => "call depth exceeded limit " ++ toString limit
  | .output reason => "cannot write output: " ++ reason
  | .capacityOverflow => "capacity overflow"

end StackScript
