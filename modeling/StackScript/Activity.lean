import StackScript.Machine
import StackScript.Program

/-!
# Running

A run is a sequence of steps on an `Activity`: the rest of the block that is
being run, and the blocks, loops and calls that wait for it. One step runs one
instruction or ends one block. Nothing bounds the number of steps of a loop, so
a run is only ever looked at after so many steps; `Turn.ending?` gives what it
has ended with by then.

Every way out of a block closes the scopes that were opened inside it, and
every way out of a call gives back the caller's scopes.
-/

namespace StackScript

/-- How a block ended. -/
inductive Flow where
  /-- Its last instruction was run. -/
  | completed
  /-- It was left by `stop`, outside of any call that `stop` would return from. -/
  | stopped
  /-- The run was ended by this value. -/
  | halted (code : Value)
  deriving DecidableEq

/-- What waits for the current block. -/
inductive Suspension where
  /-- The rest of the block around a branch. -/
  | branch (after : Block)
  /-- A loop whose body is being run, and the rest of the block around it. -/
  | loop (condition : Operand) (body : Block) (after : Block)
  /-- A call of `name`, with the caller's scopes and the rest of its block. -/
  | call (name : String) (caller : Scopes) (after : Block)

/-- A run in progress. -/
structure Activity where
  machine : Machine
  /-- The scopes of the current call. -/
  scopes : Scopes
  /-- The rest of the current block. -/
  code : Block
  /-- What waits, the innermost first. -/
  suspended : List Suspension

/-- What a run leaves behind. -/
structure Ending where
  result : Except Fault Flow
  machine : Machine
  scopes : Scopes

/-- Whether the run was aborted. Then it returns no result, and its machine cannot be
used again. -/
def Ending.isAborted (ending : Ending) : Bool :=
  match ending.result with
  | .error .capacityOverflow => true
  | _ => false

/-- A run after a number of steps. -/
inductive Turn where
  | ongoing (activity : Activity)
  | ended (ending : Ending)

/-- A step's outcome and what it reports. -/
structure Step where
  turn : Turn
  events : List Event

/-! ## Leaving blocks and calls -/

/-- Gives up everything that waits: closes the scopes of blocks and ends the
calls. -/
def Suspension.abandon (machine : Machine) (scopes : Scopes) :
    List Suspension → Machine × Scopes
  | [] => (machine, scopes)
  | .branch _ :: outer => abandon machine scopes.leave outer
  | .loop _ _ _ :: outer => abandon machine scopes.leave outer
  | .call _ caller _ :: outer =>
    abandon { machine with depth := machine.depth - 1 } caller outer

/-- Ends a run with a result, giving up everything that waits. -/
def Turn.finish (result : Except Fault Flow) (machine : Machine) (scopes : Scopes)
    (suspended : List Suspension) : Turn :=
  let (machine, scopes) := Suspension.abandon machine scopes suspended
  .ended ⟨result, machine, scopes⟩

namespace Step

/-- Goes on with the rest of the caller's block. -/
def returnTo (machine : Machine) (name : String) (caller : Scopes) (after : Block)
    (outer : List Suspension) : Step :=
  ⟨.ongoing ⟨{ machine with depth := machine.depth - 1 }, caller, after, outer⟩,
    [.returned name]⟩

/-- Leaves blocks up to the nearest call and returns from it; without a call
the run ends. -/
def stop (machine : Machine) (scopes : Scopes) : List Suspension → Step
  | [] => ⟨.ended ⟨.ok .stopped, machine, scopes⟩, []⟩
  | .branch _ :: outer => stop machine scopes.leave outer
  | .loop _ _ _ :: outer => stop machine scopes.leave outer
  | .call name caller after :: outer => .returnTo machine name caller after outer

/-- Tests the condition of a loop, in the scopes around the loop, and opens a
scope for its body or goes on after it. -/
def iterate (machine : Machine) (scopes : Scopes) (condition : Operand) (body after : Block)
    (outer : List Suspension) : Step :=
  match scopes.evaluate condition with
  | .error fault => ⟨.finish (.error fault) machine scopes outer, []⟩
  | .ok value =>
    if value.isTruthy then
      ⟨.ongoing ⟨machine, scopes.inherit, body, .loop condition body after :: outer⟩, []⟩
    else ⟨.ongoing ⟨machine, scopes, after, outer⟩, []⟩

/-- Opens a scope for the block of the first branch whose condition is true, or
for the last block, or goes on after the conditional. -/
def choose (machine : Machine) (scopes : Scopes) (otherwise : Option Block) (after : Block)
    (outer : List Suspension) : List Branch → Step
  | [] =>
    match otherwise with
    | some body => ⟨.ongoing ⟨machine, scopes.inherit, body, .branch after :: outer⟩, []⟩
    | none => ⟨.ongoing ⟨machine, scopes, after, outer⟩, []⟩
  | ⟨condition, body⟩ :: rest =>
    match scopes.evaluate condition with
    | .error fault => ⟨.finish (.error fault) machine scopes outer, []⟩
    | .ok value =>
      if value.isTruthy then
        ⟨.ongoing ⟨machine, scopes.inherit, body, .branch after :: outer⟩, []⟩
      else choose machine scopes otherwise after outer rest

/-- Calls a subroutine with fresh scopes. An unknown name is reported before
the depth of the calls. -/
def invoke (program : Program) (limits : Limits) (machine : Machine) (scopes : Scopes)
    (name : String) (after : Block) (outer : List Suspension) : Step :=
  match program.body? name with
  | none => ⟨.finish (.error (.unknownSubroutine name)) machine scopes outer, []⟩
  | some body =>
    if limits.maxCallDepth ≤ machine.depth then
      ⟨.finish (.error (.callDepth limits.maxCallDepth)) machine scopes outer, []⟩
    else
      ⟨.ongoing ⟨{ machine with depth := machine.depth + 1 }, .initial, body,
          .call name scopes after :: outer⟩,
        [.invoked name (machine.depth + 1)]⟩

/-- Ends the whole run with an operand's value. -/
def exit (machine : Machine) (scopes : Scopes) (code : Operand) (outer : List Suspension) : Step :=
  match scopes.evaluate code with
  | .error fault => ⟨.finish (.error fault) machine scopes outer, []⟩
  | .ok value => ⟨.finish (.ok (.halted value)) machine scopes outer, [.halted value]⟩

/-- Goes on after an instruction, or ends the run with its fault. -/
def settle (effect : Effect) (after : Block) (outer : List Suspension) : Step :=
  match effect with
  | ⟨machine, scopes, events, none⟩ => ⟨.ongoing ⟨machine, scopes, after, outer⟩, events⟩
  | ⟨machine, scopes, events, some fault⟩ =>
    ⟨.finish (.error fault) machine scopes outer, events⟩

/-- Reports an event before the others. -/
def announce (event : Event) (step : Step) : Step :=
  ⟨step.turn, event :: step.events⟩

/-- Runs one instruction. -/
def perform (program : Program) (limits : Limits) (machine : Machine) (scopes : Scopes)
    (after : Block) (outer : List Suspension) : Instruction → Step
  | .assign source target => settle (machine.assign scopes source target) after outer
  | .arithmetic op target => settle (machine.arithmetic scopes limits op target) after outer
  | .bitwise op target => settle (machine.bitwise scopes op target) after outer
  | .conditional branches otherwise => choose machine scopes otherwise after outer branches
  | .loop condition body => iterate machine scopes condition body after outer
  | .push source => settle (machine.push scopes source) after outer
  | .pop target => settle (machine.pop scopes target) after outer
  | .print source => settle (machine.print scopes source) after outer
  | .exit code => exit machine scopes code outer
  | .stop => stop machine scopes outer
  | .store => settle (machine.store scopes limits) after outer
  | .load => settle (machine.load scopes) after outer
  | .invoke name => invoke program limits machine scopes name after outer

/-- Goes on with what waits for a block that has ended. -/
def resume (machine : Machine) (scopes : Scopes) : List Suspension → Step
  | [] => ⟨.ended ⟨.ok .completed, machine, scopes⟩, []⟩
  | .branch after :: outer => ⟨.ongoing ⟨machine, scopes.leave, after, outer⟩, []⟩
  | .loop condition body after :: outer =>
    iterate machine scopes.leave condition body after outer
  | .call name caller after :: outer => .returnTo machine name caller after outer

end Step

/-! ## Steps -/

/-- The next step of a run in progress. -/
def Activity.step (program : Program) (limits : Limits) (activity : Activity) : Step :=
  match activity with
  | ⟨machine, scopes, [], suspended⟩ => .resume machine scopes suspended
  | ⟨machine, scopes, instruction :: after, suspended⟩ =>
    let height := machine.stack.size
    .announce (.dispatched instruction.mnemonic height)
      (.perform program limits machine scopes after suspended instruction)

namespace Turn

/-- The next step; a run that has ended stays as it is. -/
def step (program : Program) (limits : Limits) : Turn → Step
  | .ongoing activity => activity.step program limits
  | .ended ending => ⟨.ended ending, []⟩

/-- A run after this many further steps. -/
def advance (program : Program) (limits : Limits) : Nat → Turn → Turn
  | 0, turn => turn
  | count + 1, turn => advance program limits count (turn.step program limits).turn

/-- The events of this many further steps, in order. -/
def trace (program : Program) (limits : Limits) : Nat → Turn → List Event
  | 0, _ => []
  | count + 1, turn =>
    let step := turn.step program limits
    step.events ++ trace program limits count step.turn

/-- The machine as it is after the steps so far. -/
def machine : Turn → Machine
  | .ongoing activity => activity.machine
  | .ended ending => ending.machine

/-- What a run has ended with, if it has ended. -/
def ending? : Turn → Option Ending
  | .ongoing _ => none
  | .ended ending => some ending

end Turn

/-! ## Beginning a run -/

namespace Machine

/-- Runs a block in these scopes. -/
def execute (machine : Machine) (scopes : Scopes) (block : Block) : Step :=
  ⟨.ongoing ⟨machine, scopes, block, []⟩, []⟩

/-- Calls a subroutine from outside the program; the scopes are those that the
call leaves as they are. -/
def invoke (program : Program) (limits : Limits) (machine : Machine) (scopes : Scopes)
    (name : String) : Step :=
  .invoke program limits machine scopes name [] []

end Machine

/-- Runs a program from its entry point on a new machine. -/
def Program.start (program : Program) (limits : Limits) (output : Output) : Step :=
  (Machine.initial output).invoke program limits .initial entryPoint

/-! ## Results -/

/-- How a program's run ended. -/
inductive Exit where
  /-- The entry point returned. -/
  | completed
  /-- An `exit` ended the run with this value. -/
  | halted (code : Value)
  deriving DecidableEq

/-- The exit that a flow of the entry point means. -/
def Flow.exit : Flow → Exit
  | .completed => .completed
  | .stopped => .completed
  | .halted code => .halted code

/-- The status of an exit: the low thirty-two bits of an integer, and one for
any other value. -/
def Exit.status : Exit → Int32
  | .completed => 0
  | .halted (.integer n) => n.toInt32
  | .halted _ => 1

end StackScript
