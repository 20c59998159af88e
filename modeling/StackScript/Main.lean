import StackScript.CommandLine

/-!
# The program

Reads the arguments, the file and the environment, and writes the streams of
the job that `CommandLine.start` gives. A run may go on for ever, so what it
prints is written as it is printed.
-/

open StackScript

/-- The text of a file, or why there is none. -/
def readSource (path : String) : IO (Except CommandLine.ReadError String) := do
  match ← (IO.FS.readBinFile path).toBaseIO with
  | .ok bytes =>
    match String.fromUTF8? bytes with
    | some text => return .ok text
    | none => return .error .notUtf8
  | .error (.noFileOrDirectory ..) => return .error .missing
  | .error error => return .error (.failed (toString error))

/-- Writes messages to the error stream, the earliest first. -/
def writeMessages (messages : List CommandLine.Message) : IO Unit :=
  messages.forM fun message => IO.eprintln message.text

/-- Writes the bytes behind the first `shown` to the output stream. -/
def writeBytes (shown : Nat) (bytes : ByteArray) : IO Unit := do
  if shown < bytes.size then
    (← IO.getStdout).write (bytes.extract shown bytes.size)

/-- Writes the rest of a report. -/
def close (shown : Nat) (report : CommandLine.Report) : IO UInt32 := do
  writeBytes shown report.output
  writeMessages report.messages
  return report.status.toUInt32

/-- Follows a job to its end; `shown` bytes of its output are written already. -/
partial def follow (filter : Log.Filter) (shown : Nat) : CommandLine.Job → IO UInt32
  | .finished report => close shown report
  | .aborted report => close shown report
  | .running program limits turn messages => do
    writeMessages messages.reverse
    let size := turn.machine.output.written.size
    writeBytes shown turn.machine.output.written
    follow filter size (CommandLine.Job.step filter (.running program limits turn []))

def main (arguments : List String) : IO UInt32 := do
  let filter :=
    match ← IO.getEnv "RUST_LOG" with
    | some text => Log.Filter.ofText text
    | none => .silent
  match CommandLine.readCommand arguments with
  | .error report => follow filter 0 (.finished report)
  | .ok command => follow filter 0 (command.start filter (← readSource command.path))
