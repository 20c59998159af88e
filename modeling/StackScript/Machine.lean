import StackScript.Scopes
import StackScript.Operation
import StackScript.Heap
import StackScript.Output
import StackScript.Event

/-!
# The machine

The stack, the heap and the output are shared by all calls of a run. This
module says what each instruction without blocks and calls does to them and to
the scopes of its block. An instruction that fails keeps what it did before: a
popped operand stays popped, and stored pairs stay stored.
-/

namespace StackScript

/-- The limits of a run. -/
structure Limits where
  /-- Calls that may be active at once, the entry point's included. -/
  maxCallDepth : Nat
  /-- Cells that the heap may grow to. -/
  maxHeapCells : Nat
  /-- Bytes of a text that arithmetic may make. -/
  maxStringBytes : Nat
  deriving DecidableEq

/-- The limits of a run for which none are given. -/
def Limits.default : Limits where
  maxCallDepth := 1024
  maxHeapCells := 1 <<< 24
  maxStringBytes := 1 <<< 26

/-- What all calls share. -/
structure Machine where
  /-- The value stack, its top last. -/
  stack : Array Value
  heap : Heap
  /-- The number of active calls. -/
  depth : Nat
  output : Output

/-- What an instruction leaves behind. -/
structure Effect where
  machine : Machine
  scopes : Scopes
  events : List Event
  fault : Option Fault

namespace Machine

/-- A machine on which nothing has run. -/
def initial (output : Output) : Machine where
  stack := #[]
  heap := .empty
  depth := 0
  output := output

/-- The top of the stack. -/
def top? (machine : Machine) : Option Value :=
  machine.stack.back?

/-- The machine without the top of its stack. -/
def dropTop (machine : Machine) : Machine :=
  { machine with stack := machine.stack.pop }

/-- The bytes that printing a value writes. -/
def printedLine (value : Value) : ByteArray :=
  (value.display ++ "\n").toUTF8

/-! ## Instructions -/

/-- Writes an operand's value to a variable. -/
def assign (machine : Machine) (scopes : Scopes) (source : Operand) (target : String) : Effect :=
  match scopes.evaluate source with
  | .ok value => ⟨machine, scopes.assign target value, [], none⟩
  | .error fault => ⟨machine, scopes, [], some fault⟩

/-- Pushes an operand's value. -/
def push (machine : Machine) (scopes : Scopes) (source : Operand) : Effect :=
  match scopes.evaluate source with
  | .ok value => ⟨{ machine with stack := machine.stack.push value }, scopes, [], none⟩
  | .error fault => ⟨machine, scopes, [], some fault⟩

/-- Pops a value into a variable. -/
def pop (machine : Machine) (scopes : Scopes) (target : String) : Effect :=
  match machine.top? with
  | some value => ⟨machine.dropTop, scopes.assign target value, [], none⟩
  | none => ⟨machine, scopes, [], some (.stackUnderflow .pop)⟩

/-- Changes a variable by a function of its value. -/
def update (machine : Machine) (scopes : Scopes) (target : String)
    (change : Value → Except Fault Value) : Effect :=
  match scopes.resolve target with
  | .error fault => ⟨machine, scopes, [], some fault⟩
  | .ok value =>
    match change value with
    | .error fault => ⟨machine, scopes, [], some fault⟩
    | .ok result => ⟨machine, scopes.assign target result, [], none⟩

/-- Changes a variable by a function of its value and of a value that is popped
before the variable is looked up. -/
def updateWithPopped (machine : Machine) (scopes : Scopes) (op : Mnemonic) (target : String)
    (combine : Value → Value → Except Fault Value) : Effect :=
  match machine.top? with
  | some operand => machine.dropTop.update scopes target fun value => combine value operand
  | none => ⟨machine, scopes, [], some (.stackUnderflow op)⟩

/-- Combines a variable with the top of the stack. -/
def arithmetic (machine : Machine) (scopes : Scopes) (limits : Limits) (op : ArithmeticOp)
    (target : String) : Effect :=
  machine.updateWithPopped scopes op.mnemonic target (op.apply limits.maxStringBytes target)

/-- Changes the bits or the truth of a variable. -/
def bitwise (machine : Machine) (scopes : Scopes) (op : BitwiseOp) (target : String) : Effect :=
  match op with
  | .and => machine.updateWithPopped scopes .and target (op.onPair (· &&& ·))
  | .or => machine.updateWithPopped scopes .or target (op.onPair (· ||| ·))
  | .xor => machine.updateWithPopped scopes .xor target (op.onPair (· ^^^ ·))
  | .negate => machine.update scopes target BitwiseOp.complement
  | .not => machine.update scopes target fun value => .ok (BitwiseOp.logicalNot value)

/-- Prints an operand's value on a line of its own; the fault gives the reason of the
sink that refuses the line. -/
def print (machine : Machine) (scopes : Scopes) (source : Operand) : Effect :=
  match scopes.evaluate source with
  | .error fault => ⟨machine, scopes, [], some fault⟩
  | .ok value =>
    let line := printedLine value
    let refusal := machine.output.refuse? line
    ⟨{ machine with output := machine.output.write line }, scopes, [],
      refusal.map fun refusal => .output refusal.reason⟩

/-- Stores all pairs of the stack. -/
def store (machine : Machine) (scopes : Scopes) (limits : Limits) : Effect :=
  match machine with
  | ⟨stack, heap, depth, output⟩ =>
    let stored := heap.storePairs limits.maxHeapCells [] stack.toList.reverse
    ⟨⟨stored.rest.reverse.toArray, stored.heap, depth, output⟩, scopes,
      stored.growth.map fun (before, after) => .heapGrown before after, stored.fault⟩

/-- Replaces the addresses on the stack by what their cells hold. -/
def load (machine : Machine) (scopes : Scopes) : Effect :=
  match machine with
  | ⟨stack, heap, depth, output⟩ =>
    let (loaded, fault) := heap.loadAll #[] stack.toList
    ⟨⟨loaded, heap, depth, output⟩, scopes, [], fault⟩

end Machine

end StackScript
