import StackScript.Value

/-!
# Instructions

The tree that a source text spells and that a run walks. A block is a list of
instructions; a conditional and a loop hold blocks of their own. Source text
only gives trees with at least one branch in each conditional, but every tree
has a meaning.
-/

namespace StackScript

/-- What an instruction reads: a literal, or the variable of that name. -/
inductive Operand where
  | integer (n : Int64)
  | float (x : Binary64)
  | text (s : String)
  | identifier (name : String)
  deriving DecidableEq, Inhabited

/-- Arithmetic of a variable with the top of the stack. -/
inductive ArithmeticOp where
  | add
  | subtract
  | multiply
  /-- Division rounds down. -/
  | divide
  deriving DecidableEq

/-- Bitwise and logical operations on a variable. -/
inductive BitwiseOp where
  | and
  | or
  | xor
  /-- Complement of every bit. -/
  | negate
  /-- Zero in place of a true value; a false value stays as it is. -/
  | not
  deriving DecidableEq

/-- Whether the second operand comes from the stack. -/
def BitwiseOp.popsOperand : BitwiseOp → Bool
  | .and | .or | .xor => true
  | .negate | .not => false

mutual

/-- One instruction. -/
inductive Instruction where
  /-- Write the operand's value to a variable. -/
  | assign (source : Operand) (target : String)
  /-- Combine a variable with the popped top of the stack. -/
  | arithmetic (op : ArithmeticOp) (target : String)
  /-- Change a variable bit by bit or by its truth. -/
  | bitwise (op : BitwiseOp) (target : String)
  /-- Run the first branch whose condition is true, else the last block. -/
  | conditional (branches : List Branch) (otherwise : Option (List Instruction))
  /-- Run the body as long as the condition is true. -/
  | loop (condition : Operand) (body : List Instruction)
  | push (source : Operand)
  | pop (target : String)
  | print (source : Operand)
  /-- End the whole run with this value. -/
  | exit (code : Operand)
  /-- Return from the subroutine. -/
  | stop
  /-- Move all pairs of value and address from the stack to the heap. -/
  | store
  /-- Replace every address on the stack by what its cell holds. -/
  | load
  /-- Call a subroutine. -/
  | invoke (name : String)

/-- A condition and the block that it guards. -/
structure Branch where
  condition : Operand
  body : List Instruction

end

instance : Inhabited Instruction := ⟨.stop⟩

/-- Instructions that run one after the other. -/
abbrev Block := List Instruction

/-- The names of the instructions in messages and logs. -/
inductive Mnemonic where
  | assign
  | add
  | subtract
  | multiply
  | divide
  | and
  | or
  | xor
  | negate
  | not
  | conditional
  | loop
  | push
  | pop
  | print
  | exit
  | stop
  | store
  | load
  | invoke
  deriving DecidableEq

/-- The word for an instruction. -/
def Mnemonic.text : Mnemonic → String
  | .assign => "assign"
  | .add => "add"
  | .subtract => "subtract"
  | .multiply => "multiply"
  | .divide => "divide"
  | .and => "and"
  | .or => "or"
  | .xor => "xor"
  | .negate => "negate"
  | .not => "not"
  | .conditional => "if"
  | .loop => "while"
  | .push => "push"
  | .pop => "pop"
  | .print => "print"
  | .exit => "exit"
  | .stop => "stop"
  | .store => "store"
  | .load => "load"
  | .invoke => "invoke"

/-- The name of an arithmetic operation. -/
def ArithmeticOp.mnemonic : ArithmeticOp → Mnemonic
  | .add => .add
  | .subtract => .subtract
  | .multiply => .multiply
  | .divide => .divide

/-- The name of a bitwise operation. -/
def BitwiseOp.mnemonic : BitwiseOp → Mnemonic
  | .and => .and
  | .or => .or
  | .xor => .xor
  | .negate => .negate
  | .not => .not

/-- The name of an instruction. -/
def Instruction.mnemonic : Instruction → Mnemonic
  | .assign .. => .assign
  | .arithmetic op _ => op.mnemonic
  | .bitwise op _ => op.mnemonic
  | .conditional .. => .conditional
  | .loop .. => .loop
  | .push _ => .push
  | .pop _ => .pop
  | .print _ => .print
  | .exit _ => .exit
  | .stop => .stop
  | .store => .store
  | .load => .load
  | .invoke _ => .invoke

end StackScript
