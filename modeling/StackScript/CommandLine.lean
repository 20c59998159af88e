import StackScript.Parsing
import StackScript.Activity
import StackScript.Listing
import StackScript.Log

/-!
# The command line

What the program does with its arguments, as data: a command is read from the
arguments alone; with the content of its file it becomes a job, which is
either over with a report or a run that goes on step by step. Nothing here
reads a file or writes to a stream.
-/

namespace StackScript.CommandLine

/-! ## Options of a run -/

/-- The flag that sets a limit. -/
inductive Flag where
  | maxCallDepth
  | maxHeapCells
  | maxStringBytes
  deriving DecidableEq

namespace Flag

/-- The spelling of a flag. -/
def text : Flag → String
  | .maxCallDepth => "--max-call-depth"
  | .maxHeapCells => "--max-heap-cells"
  | .maxStringBytes => "--max-string-bytes"

/-- The flag that an argument spells. -/
def ofText? (argument : String) : Option Flag :=
  [maxCallDepth, maxHeapCells, maxStringBytes].find? fun flag => flag.text == argument

/-- The limits with one of them set. -/
def set (limits : Limits) (n : Nat) : Flag → Limits
  | .maxCallDepth => { limits with maxCallDepth := n }
  | .maxHeapCells => { limits with maxHeapCells := n }
  | .maxStringBytes => { limits with maxStringBytes := n }

end Flag

/-- Why the options of a run are refused. -/
inductive OptionError where
  | unknown (argument : String)
  | missingValue (flag : Flag)
  | invalidValue (flag : Flag) (value : String)
  deriving DecidableEq

/-- The text of an option error. -/
def OptionError.message : OptionError → String
  | .unknown argument => "error: unknown option '" ++ argument ++ "'"
  | .missingValue flag => "error: " ++ flag.text ++ " requires a value"
  | .invalidValue flag value =>
    "error: " ++ flag.text ++ " expects a non-negative integer, got '" ++ value ++ "'"

/-- The number that the value of an option spells: decimal digits, after a plus
sign if there is one, below two to the sixty-fourth. -/
def limitOfText? (value : String) : Option Nat :=
  let digits :=
    match value.toList with
    | '+' :: digits => digits
    | digits => digits
  if Token.isDigits digits && Token.natOfDigits digits < UInt64.size then
    some (Token.natOfDigits digits)
  else none

/-- Reads options in pairs of a flag and a value, from left to right; of two
values for one flag the last counts. -/
def readOptions (limits : Limits) : List String → Except OptionError Limits
  | [] => .ok limits
  | [argument] =>
    match Flag.ofText? argument with
    | none => .error (.unknown argument)
    | some flag => .error (.missingValue flag)
  | argument :: value :: rest =>
    match Flag.ofText? argument with
    | none => .error (.unknown argument)
    | some flag =>
      match limitOfText? value with
      | none => .error (.invalidValue flag value)
      | some n => readOptions (flag.set limits n) rest

/-! ## Reports -/

/-- What is written to the error stream. -/
inductive Message where
  | line (text : String)
  | record (record : Log.Record)
  deriving DecidableEq

/-- A message as a line, without its end. -/
def Message.text : Message → String
  | .line shown => shown
  | .record logged => logged.line

/-- What a job leaves that is over: its status and the two streams. -/
structure Report where
  status : UInt8
  output : ByteArray
  messages : List Message

/-- The text of the error stream. -/
def Report.errorText (report : Report) : String :=
  String.join (report.messages.map fun message => message.text ++ "\n")

/-- How to use the program. -/
def usage : List String :=
  ["Usage: imperivm <command> [args]",
    "       imperivm <input.imp>",
    "",
    "Commands:",
    "  run <input.imp> [options]   Parse and execute a program",
    "  check <input.imp>           Parse a program and report its subroutines",
    "  parse <input.imp>           Print the parsed instruction tree",
    "",
    "Run options:",
    "  --max-call-depth N          Nested subroutine call limit (default 1024)",
    "  --max-heap-cells N          Heap size limit (default 16777216)",
    "  --max-string-bytes N        Longest string add/multiply may build (default 67108864)",
    "",
    "Set RUST_LOG=imperivm_vm=trace to log every executed instruction."]

/-- A report that only says something on the error stream. -/
def Report.saying (status : UInt8) (lines : List String) : Report :=
  ⟨status, .empty, lines.map .line⟩

/-! ## Commands -/

/-- What the arguments ask for. -/
inductive Command where
  /-- Run the program in a file. -/
  | run (path : String) (limits : Limits)
  /-- Say what the program in a file defines. -/
  | check (path : String)
  /-- Write out the tree of the program in a file. -/
  | parse (path : String)
  deriving DecidableEq

/-- The file that a command needs. -/
def Command.path : Command → String
  | .run path _ => path
  | .check path => path
  | .parse path => path

/-- The report of a command without its file. -/
def missingFile (command usage : String) : Report :=
  .saying 1 ["error: " ++ command ++ " requires an input file", "Usage: imperivm " ++ usage]

/-- The command to run a file; its options are read before the file is. -/
def readRun : List String → Except Report Command
  | [] =>
    .error (missingFile "run"
      "run <input.imp> [--max-call-depth N] [--max-heap-cells N] [--max-string-bytes N]")
  | path :: options =>
    match readOptions .default options with
    | .error error => .error (.saying 1 [error.message])
    | .ok limits => .ok (.run path limits)

/-- The command that the arguments give, or the report that they end with. An
argument that is no command is the file to run, unless it begins with a dash. -/
def readCommand : List String → Except Report Command
  | [] => .error (.saying 1 usage)
  | first :: rest =>
    if first = "run" then readRun rest
    else if first = "check" then
      match rest with
      | [] => .error (missingFile "check" "check <input.imp>")
      | path :: _ => .ok (.check path)
    else if first = "parse" then
      match rest with
      | [] => .error (missingFile "parse" "parse <input.imp>")
      | path :: _ => .ok (.parse path)
    else if first = "--help" ∨ first = "-h" ∨ first = "help" then .error (.saying 0 usage)
    else if first.toList.head? = some '-' then
      .error (.saying 1 (["error: unknown option '" ++ first ++ "'", ""] ++ usage))
    else readRun (first :: rest)

/-! ## Jobs -/

/-- Why a file has no text. -/
inductive ReadError where
  | missing
  | notUtf8
  | failed (reason : String)
  deriving DecidableEq

/-- The text of a read error. -/
def ReadError.message : ReadError → String
  | .missing => "No such file or directory (os error 2)"
  | .notUtf8 => "stream did not contain valid UTF-8"
  | .failed reason => reason

/-- A command at work. -/
inductive Job where
  | finished (report : Report)
  /-- The run was aborted. What the runtime then says on the error stream is not
  reported. -/
  | aborted (report : Report)
  /-- A run in progress, with the messages so far, latest first. -/
  | running (program : Program) (limits : Limits) (turn : Turn) (messages : List Message)

/-- The messages for what a run reports, behind those so far, latest first. -/
def tell (filter : Log.Filter) (messages : List Message) (events : List Event) : List Message :=
  events.foldl
    (fun messages event =>
      match filter.eventRecord? event with
      | some record => .record record :: messages
      | none => messages)
    messages

/-- The messages with a record behind them, if the filter shows it. -/
def note (filter : Log.Filter) (messages : List Message) (record : Log.Record) : List Message :=
  match filter.record? record with
  | some record => .record record :: messages
  | none => messages

/-- The exit status of a run's exit. -/
def exitStatus (exit : Exit) : UInt8 :=
  UInt8.ofNat (exit.status.toInt % 256).toNat

/-- The status of a run that is aborted. -/
def abortStatus : UInt8 :=
  101

/-- The report of a run that has ended. -/
def reportEnding (filter : Log.Filter) (messages : List Message) (ending : Ending) : Report :=
  let output := ending.machine.output.written
  match ending.result with
  | .error .capacityOverflow => ⟨abortStatus, output, messages.reverse⟩
  | .error fault =>
    ⟨3, output, (.line ("runtime error: " ++ fault.message) :: messages).reverse⟩
  | .ok flow =>
    match flow.exit with
    | .completed => ⟨0, output, messages.reverse⟩
    | .halted code =>
      let messages := note filter messages (.programHalted code)
      let messages :=
        match code with
        | .integer _ => messages
        | code => .line ("exit: " ++ code.display) :: messages
      ⟨exitStatus (.halted code), output, messages.reverse⟩

/-- What a job becomes whose run has ended. -/
def Job.ofEnding (filter : Log.Filter) (messages : List Message) (ending : Ending) : Job :=
  let report := reportEnding filter messages ending
  if ending.isAborted then .aborted report else .finished report

/-- What `check` prints about a program. -/
def checkText (path : String) (program : Program) : String :=
  "OK: " ++ path ++ " (" ++ toString program.size ++ " subroutines)\n" ++
    String.join (program.subroutines.map fun subroutine =>
      "  " ++ subroutine.name ++ ": " ++ toString subroutine.body.length ++ " instructions\n")

/-- What `parse` prints about a program. -/
def listingText (program : Program) : String :=
  String.join (program.subroutines.map fun subroutine =>
    subroutine.name ++ " " ++ Block.listing subroutine.body ++ "\n")

/-- Begins a command's work on a program. -/
def Command.apply (filter : Log.Filter) (messages : List Message) (program : Program) :
    Command → Job
  | .run _ limits =>
    let step := program.start limits (.empty none)
    .running program limits step.turn (tell filter messages step.events)
  | .check path => .finished ⟨0, (checkText path program).toUTF8, messages.reverse⟩
  | .parse _ => .finished ⟨0, (listingText program).toUTF8, messages.reverse⟩

/-- The report of a file that holds no program. -/
def refuse (status : UInt8) (path : String) (messages : List Message) (reason : String) :
    Job :=
  .finished ⟨status, .empty, (.line ("error: " ++ path ++ ": " ++ reason) :: messages).reverse⟩

/-- Begins a command's work on the content of its file. -/
def Command.start (command : Command) (filter : Log.Filter) (content : Except ReadError String) :
    Job :=
  match content with
  | .error error =>
    .finished (.saying 1 ["error: cannot read '" ++ command.path ++ "': " ++ error.message])
  | .ok text =>
    match Source.lexemes text with
    | .error error => refuse 1 command.path [] error.message
    | .ok lexemes =>
      match Subroutine.ofLexemes lexemes with
      | .error error => refuse 1 command.path [] error.message
      | .ok subroutines =>
        let messages := note filter [] (.parsed subroutines.length lexemes.length)
        match Program.ofSubroutines subroutines with
        | .error error => refuse 2 command.path messages error.message
        | .ok program => command.apply filter messages program

namespace Job

/-- The next step of a job. -/
def step (filter : Log.Filter) : Job → Job
  | .finished report => .finished report
  | .aborted report => .aborted report
  | .running _ _ (.ended ending) messages => .ofEnding filter messages ending
  | .running program limits (.ongoing activity) messages =>
    match activity.step program limits with
    | ⟨turn, events⟩ => .running program limits turn (tell filter messages events)

/-- A job after this many further steps. -/
def advance (filter : Log.Filter) : Nat → Job → Job
  | 0, job => job
  | count + 1, job => advance filter count (job.step filter)

end Job

/-- The job of the arguments; `read` gives the content of a file. -/
def start (filter : Log.Filter) (read : String → Except ReadError String)
    (arguments : List String) : Job :=
  match readCommand arguments with
  | .error report => .finished report
  | .ok command => command.start filter (read command.path)

end StackScript.CommandLine
