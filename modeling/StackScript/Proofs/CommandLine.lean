import Mathlib.Data.List.Basic
import StackScript.CommandLine
import StackScript.Proofs.Run

/-!
# Running a file from the command line

The command to run a file goes through the options, the text and the program, in this
order, and then runs the program. The first of these to fail decides the exit status and
the one line on the error stream. `Leaves` lists what a command can leave behind; the
command leaves it if and only if it ends. It is aborted if and only if its run is.
-/

namespace StackScript

/-- The run of the program on a new machine, with an output that takes everything, ends
with this result and has printed this. -/
def Program.RunsTo (program : Program) (limits : Limits) (result : Except Fault Exit)
    (printed : ByteArray) : Prop :=
  ∃ count ending,
    (program.start limits (.empty none)).turn.advance program limits count = .ended ending ∧
    ending.result.map Flow.exit = result ∧ ending.machine.output.written = printed

namespace CommandLine

/-! ## Arguments -/

/-- The argument is neither a command nor an option, and so names a file to run. -/
def NamesFile (argument : String) : Prop :=
  argument ∉ ["run", "check", "parse", "--help", "-h", "help"] ∧
    argument.toList.head? ≠ some '-'

theorem readCommand_run (arguments : List String) :
    readCommand ("run" :: arguments) = readRun arguments := by
  simp [readCommand]

theorem readCommand_of_namesFile {path : String} (isFile : NamesFile path)
    (options : List String) : readCommand (path :: options) = readRun (path :: options) := by
  obtain ⟨noCommand, noOption⟩ := isFile
  simp only [List.mem_cons, List.not_mem_nil, or_false, not_or] at noCommand
  simp [readCommand, noCommand, noOption]

/-! ## Jobs -/

namespace Job

/-- Whether a job is no longer running. -/
def isOver : Job → Bool
  | .running .. => false
  | _ => true

/-- A job that is over stays as it is. -/
theorem advance_of_isOver {job : Job} (isOver : job.isOver = true) (filter : Log.Filter)
    (count : Nat) : job.advance filter count = job := by
  induction count with
  | zero => rfl
  | succ count ih =>
    cases job with
    | finished report | aborted report => exact ih
    | running => cases isOver

theorem isOver_ofEnding (filter : Log.Filter) (messages : List Message) (ending : Ending) :
    (ofEnding filter messages ending).isOver = true := by
  rw [ofEnding]
  split <;> rfl

/-- Messages may be told in two parts. -/
theorem tell_append (filter : Log.Filter) (messages : List Message) (first second : List Event) :
    tell filter messages (first ++ second) = tell filter (tell filter messages first) second :=
  List.foldl_append

variable {filter : Log.Filter} {program : Program} {limits : Limits}

/-- While its run goes on, a job takes the steps of the run and tells their events. -/
theorem step_running (activity : Activity) (messages : List Message) :
    step filter (.running program limits (.ongoing activity) messages) =
      .running program limits (activity.step program limits).turn
        (tell filter messages (activity.step program limits).events) :=
  rfl

theorem tell_trace_succ (activity : Activity) (messages : List Message) (count : Nat) :
    tell filter messages ((Turn.ongoing activity).trace program limits (count + 1)) =
      tell filter (tell filter messages (activity.step program limits).events)
        ((activity.step program limits).turn.trace program limits count) :=
  tell_append ..

/-- Once its run has ended, a job is over in the way of the ending. -/
theorem exists_advance_eq_ofEnding {turn : Turn} {messages : List Message} {count : Nat}
    {ending : Ending} (ended : turn.advance program limits count = .ended ending) :
    ∃ steps, advance filter (steps + 1) (.running program limits turn messages) =
      ofEnding filter (tell filter messages (turn.trace program limits steps)) ending := by
  induction count generalizing turn messages with
  | zero =>
    cases ended
    exact ⟨0, rfl⟩
  | succ count ih =>
    cases turn with
    | ended found =>
      obtain rfl : found = ending := Turn.ended.inj ((Turn.advance_ended found _).symm.trans ended)
      exact ⟨0, rfl⟩
    | ongoing activity =>
      have endedNext : (activity.step program limits).turn.advance program limits count =
          .ended ending := ended
      obtain ⟨steps, finished⟩ := ih endedNext
      refine ⟨steps + 1, ?_⟩
      rw [advance, step_running, tell_trace_succ]
      exact finished

/-- A job that runs a program is over only once the run has ended. -/
theorem exists_ending_of_advance {turn : Turn} {messages : List Message} {count : Nat} {job : Job}
    (reached : advance filter count (.running program limits turn messages) = job)
    (isOver : job.isOver = true) :
    ∃ steps ending, turn.advance program limits steps = .ended ending ∧
      job = ofEnding filter (tell filter messages (turn.trace program limits steps)) ending := by
  induction count generalizing turn messages with
  | zero =>
    cases reached
    cases isOver
  | succ count ih =>
    cases turn with
    | ended ending =>
      refine ⟨0, ending, rfl, ?_⟩
      exact reached.symm.trans (advance_of_isOver (isOver_ofEnding filter messages ending) ..)
    | ongoing activity =>
      rw [advance, step_running] at reached
      obtain ⟨steps, ending, ended, jobEq⟩ := ih reached
      refine ⟨steps + 1, ending, ended, ?_⟩
      rw [tell_trace_succ]
      exact jobEq

/-- The job ends, and leaves this status and these streams. -/
def EndsWith (filter : Log.Filter) (job : Job) (status : UInt8) (output : ByteArray)
    (errors : String) : Prop :=
  ∃ count report, job.advance filter count = .finished report ∧
    report.status = status ∧ report.output = output ∧ report.errorText = errors

/-- The job is aborted, and leaves this status and these streams. -/
def AbortsWith (filter : Log.Filter) (job : Job) (status : UInt8) (output : ByteArray)
    (errors : String) : Prop :=
  ∃ count report, job.advance filter count = .aborted report ∧
    report.status = status ∧ report.output = output ∧ report.errorText = errors

theorem endsWith_finished_iff {report : Report} {status : UInt8} {output : ByteArray}
    {errors : String} :
    (Job.finished report).EndsWith filter status output errors ↔
      report.status = status ∧ report.output = output ∧ report.errorText = errors := by
  constructor
  · rintro ⟨count, found, finished, left⟩
    rw [advance_of_isOver rfl] at finished
    cases finished
    exact left
  · intro left
    exact ⟨0, report, rfl, left⟩

theorem not_abortsWith_finished (report : Report) (status : UInt8) (output : ByteArray)
    (errors : String) : ¬ (Job.finished report).AbortsWith filter status output errors := by
  rintro ⟨count, found, aborted, left⟩
  rw [advance_of_isOver rfl] at aborted
  cases aborted

end Job

/-! ## Without a log -/

/-- Without a filter no event is told. -/
@[simp]
theorem tell_silent (messages : List Message) (events : List Event) :
    tell .silent messages events = messages := by
  induction events with
  | nil => rfl
  | cons event events ih => exact ih

@[simp]
theorem note_silent (messages : List Message) (record : Log.Record) :
    note .silent messages record = messages :=
  rfl

/-- A report of one line. -/
theorem errorText_line (status : UInt8) (output : ByteArray) (text : String) :
    (Report.mk status output [.line text]).errorText = text ++ "\n" := by
  simp [Report.errorText, Message.text, String.join]

/-- The status of a run that an integer ends is this integer modulo 256. -/
theorem toNat_exitStatus (n : Int64) :
    ((exitStatus (.halted (.integer n))).toNat : Int) = n.toInt % 256 := by
  have low : n.toInt32.toInt % 256 = n.toInt % 256 := by
    rw [Int64.toInt_toInt32, Int.bmod_def]
    split <;> omega
  rw [exitStatus, Exit.status, low, UInt8.toNat_ofNat']
  omega

/-! ## What a command leaves -/

/-- The status and the error stream for the result of a run, unless it is aborted. -/
inductive ExitsWith : Except Fault Exit → UInt8 → String → Prop
  | failed {fault : Fault} (returned : fault ≠ .capacityOverflow) :
      ExitsWith (.error fault) 3 ("runtime error: " ++ fault.message ++ "\n")
  | completed : ExitsWith (.ok .completed) 0 ""
  /-- By an integer, modulo 256. -/
  | integer (n : Int64) {status : UInt8} (reduced : (status.toNat : Int) = n.toInt % 256) :
      ExitsWith (.ok (.halted (.integer n))) status ""
  /-- By any other value. -/
  | value {code : Value} (other : ∀ n, code ≠ .integer n) :
      ExitsWith (.ok (.halted code)) 1 ("exit: " ++ code.display ++ "\n")

/-- The result of a run decides both. -/
theorem ExitsWith.unique {result : Except Fault Exit} {status other : UInt8}
    {errors others : String} (first : ExitsWith result status errors)
    (second : ExitsWith result other others) : status = other ∧ errors = others := by
  cases first with
  | failed | completed =>
    cases second
    exact ⟨rfl, rfl⟩
  | integer n reduced =>
    cases second with
    | integer _ reducedOther =>
      have same : (status.toNat : Int) = other.toNat := reduced.trans reducedOther.symm
      exact ⟨UInt8.toNat_inj.mp (Int.ofNat.inj same), rfl⟩
    | value isOther => exact absurd rfl (isOther n)
  | value isOther =>
    cases second with
    | integer n => exact absurd rfl (isOther n)
    | value => exact ⟨rfl, rfl⟩

/-- The report of a run gives what its result exits with. -/
theorem exitsWith_reportEnding {ending : Ending} (returned : ¬ ending.isAborted = true) :
    ExitsWith (ending.result.map Flow.exit) (reportEnding .silent [] ending).status
      (reportEnding .silent [] ending).errorText := by
  obtain ⟨result, machine, scopes⟩ := ending
  cases result with
  | error fault =>
    have line := errorText_line 3 machine.output.written ("runtime error: " ++ fault.message)
    cases fault with
    | capacityOverflow => exact absurd rfl returned
    | _ => exact line ▸ .failed nofun
  | ok flow =>
    cases flow with
    | completed | stopped => exact .completed
    | halted code =>
      have line := errorText_line 1 machine.output.written ("exit: " ++ code.display)
      cases code with
      | integer n => exact .integer n (toNat_exitStatus n)
      | float | text | empty => exact line ▸ .value nofun

theorem output_reportEnding (filter : Log.Filter) (messages : List Message) (ending : Ending) :
    (reportEnding filter messages ending).output = ending.machine.output.written := by
  obtain ⟨result, machine, scopes⟩ := ending
  cases result with
  | error fault => cases fault <;> rfl
  | ok flow => cases flow <;> rfl

section Run

variable {program : Program} {limits : Limits} {status : UInt8} {output : ByteArray}
  {errors : String}

/-- A job that runs a program ends with what the run exits with. -/
theorem Job.endsWith_running_iff :
    (Job.running program limits (program.start limits (.empty none)).turn []).EndsWith .silent
        status output errors ↔
      ∃ result, program.RunsTo limits result output ∧ ExitsWith result status errors := by
  constructor
  · rintro ⟨count, report, finished, rfl, rfl, rfl⟩
    obtain ⟨steps, ending, ended, jobEq⟩ := exists_ending_of_advance finished rfl
    rw [tell_silent, ofEnding] at jobEq
    split at jobEq
    · cases jobEq
    · rename_i returned
      cases jobEq
      rw [output_reportEnding]
      exact ⟨_, ⟨steps, ending, ended, rfl, rfl⟩, exitsWith_reportEnding returned⟩
  · rintro ⟨result, ⟨count, ending, ended, rfl, rfl⟩, exits⟩
    have returned : ¬ ending.isAborted = true := by
      intro aborted
      rw [Ending.isAborted_iff.mp aborted] at exits
      cases exits with
      | failed returned => exact returned rfl
    obtain ⟨steps, finished⟩ := @exists_advance_eq_ofEnding .silent program limits _ [] count
      ending ended
    rw [tell_silent, ofEnding, if_neg returned] at finished
    obtain ⟨statusEq, errorsEq⟩ := (exitsWith_reportEnding returned).unique exits
    exact ⟨steps + 1, _, finished, statusEq, output_reportEnding _ _ ending, errorsEq⟩

/-- It is aborted if the run is. -/
theorem Job.abortsWith_running_iff :
    (Job.running program limits (program.start limits (.empty none)).turn []).AbortsWith .silent
        status output errors ↔
      status = 101 ∧ errors = "" ∧ program.RunsTo limits (.error .capacityOverflow) output := by
  constructor
  · rintro ⟨count, report, reached, rfl, rfl, rfl⟩
    obtain ⟨steps, ending, ended, jobEq⟩ := exists_ending_of_advance reached rfl
    rw [tell_silent, ofEnding] at jobEq
    split at jobEq
    · rename_i aborted
      cases jobEq
      have result := Ending.isAborted_iff.mp aborted
      rw [output_reportEnding]
      refine ⟨?_, ?_, steps, ending, ended, ?_, rfl⟩
      · rw [reportEnding, result]
        rfl
      · rw [reportEnding, result]
        rfl
      · rw [result]
        rfl
    · cases jobEq
  · rintro ⟨rfl, rfl, count, ending, ended, failed, rfl⟩
    obtain ⟨steps, reached⟩ := @exists_advance_eq_ofEnding .silent program limits _ [] count
      ending ended
    obtain ⟨result, machine, scopes⟩ := ending
    cases result with
    | ok flow => cases failed
    | error fault =>
      cases failed
      rw [tell_silent] at reached
      exact ⟨steps + 1, _, reached, rfl, rfl, rfl⟩

end Run

/-- What the command to run a file of this text with these options can leave: a status,
the printed bytes and the error stream. -/
inductive Leaves (path text : String) (options : List String) :
    UInt8 → ByteArray → String → Prop
  | option {error : OptionError} (refused : readOptions .default options = .error error) :
      Leaves path text options 1 .empty (error.message ++ "\n")
  | grammar {limits : Limits} {error : SyntaxError}
      (accepted : readOptions .default options = .ok limits)
      (refused : Program.ofText text = .error (.grammar error)) :
      Leaves path text options 1 .empty ("error: " ++ path ++ ": " ++ error.message ++ "\n")
  | definitions {limits : Limits} {error : ProgramError}
      (accepted : readOptions .default options = .ok limits)
      (refused : Program.ofText text = .error (.definitions error)) :
      Leaves path text options 2 .empty ("error: " ++ path ++ ": " ++ error.message ++ "\n")
  | run {limits : Limits} {program : Program} {result : Except Fault Exit}
      {printed : ByteArray} {status : UInt8} {errors : String}
      (accepted : readOptions .default options = .ok limits)
      (spelled : Program.ofText text = .ok program)
      (runs : program.RunsTo limits result printed) (exits : ExitsWith result status errors) :
      Leaves path text options status printed errors

/-- What it leaves when it is aborted, besides what the runtime then says: the status for
this, the printed bytes and nothing on the error stream. -/
inductive Aborts (text : String) (options : List String) : UInt8 → ByteArray → String → Prop
  | run {limits : Limits} {program : Program} {printed : ByteArray}
      (accepted : readOptions .default options = .ok limits)
      (spelled : Program.ofText text = .ok program)
      (runs : program.RunsTo limits (.error .capacityOverflow) printed) :
      Aborts text options 101 printed ""

section Leaves

variable {path text : String} {options : List String} {status : UInt8} {output : ByteArray}
  {errors : String}

/-- Refused options alone decide what is left. -/
theorem leaves_iff_of_option {error : OptionError}
    (refused : readOptions .default options = .error error) :
    Leaves path text options status output errors ↔
      1 = status ∧ ByteArray.empty = output ∧ error.message ++ "\n" = errors := by
  constructor
  · intro leaves
    cases leaves with
    | option found =>
      cases refused.symm.trans found
      exact ⟨rfl, rfl, rfl⟩
    | grammar accepted | definitions accepted | run accepted =>
      cases refused.symm.trans accepted
  · rintro ⟨rfl, rfl, rfl⟩
    exact .option refused

variable {limits : Limits} (accepted : readOptions .default options = .ok limits)

include accepted

/-- With other options the text is next. -/
theorem leaves_iff_of_grammar {error : SyntaxError}
    (refused : Program.ofText text = .error (.grammar error)) :
    Leaves path text options status output errors ↔
      1 = status ∧ ByteArray.empty = output ∧
        "error: " ++ path ++ ": " ++ error.message ++ "\n" = errors := by
  constructor
  · intro leaves
    cases leaves with
    | option found => cases accepted.symm.trans found
    | grammar _ found =>
      cases refused.symm.trans found
      exact ⟨rfl, rfl, rfl⟩
    | definitions _ found => cases refused.symm.trans found
    | run _ spelled => cases refused.symm.trans spelled
  · rintro ⟨rfl, rfl, rfl⟩
    exact .grammar accepted refused

theorem leaves_iff_of_definitions {error : ProgramError}
    (refused : Program.ofText text = .error (.definitions error)) :
    Leaves path text options status output errors ↔
      2 = status ∧ ByteArray.empty = output ∧
        "error: " ++ path ++ ": " ++ error.message ++ "\n" = errors := by
  constructor
  · intro leaves
    cases leaves with
    | option found => cases accepted.symm.trans found
    | grammar _ found => cases refused.symm.trans found
    | definitions _ found =>
      cases refused.symm.trans found
      exact ⟨rfl, rfl, rfl⟩
    | run _ spelled => cases refused.symm.trans spelled
  · rintro ⟨rfl, rfl, rfl⟩
    exact .definitions accepted refused

/-- If nothing is refused, the run decides. -/
theorem leaves_iff_of_program {program : Program} (spelled : Program.ofText text = .ok program) :
    Leaves path text options status output errors ↔
      ∃ result, program.RunsTo limits result output ∧ ExitsWith result status errors := by
  constructor
  · intro leaves
    cases leaves with
    | option found => cases accepted.symm.trans found
    | grammar _ found | definitions _ found => cases spelled.symm.trans found
    | run found reads runs exits =>
      cases accepted.symm.trans found
      cases spelled.symm.trans reads
      exact ⟨_, runs, exits⟩
  · rintro ⟨result, runs, exits⟩
    exact .run accepted spelled runs exits

theorem aborts_iff_of_program {program : Program} (spelled : Program.ofText text = .ok program) :
    Aborts text options status output errors ↔
      status = 101 ∧ errors = "" ∧ program.RunsTo limits (.error .capacityOverflow) output := by
  constructor
  · intro aborts
    cases aborts with
    | run found reads runs =>
      cases accepted.symm.trans found
      cases spelled.symm.trans reads
      exact ⟨rfl, rfl, runs⟩
  · rintro ⟨rfl, rfl, runs⟩
    exact .run accepted spelled runs

end Leaves

/-- On the text of its file a command refuses the text or the program, or begins with
the program. -/
theorem Command.start_text (command : Command) (text : String) :
    command.start .silent (.ok text) =
      match Program.ofText text with
      | .error (.grammar error) => refuse 1 command.path [] error.message
      | .error (.definitions error) => refuse 2 command.path [] error.message
      | .ok program => command.apply .silent [] program := by
  simp only [Command.start, Program.ofText, Source.subroutines]
  cases Source.lexemes text with
  | error error => rfl
  | ok lexemes =>
    simp only [bind, Except.bind]
    cases Subroutine.ofLexemes lexemes with
    | error error => rfl
    | ok subroutines =>
      simp only [note_silent]
      cases Program.ofSubroutines subroutines <;> rfl

theorem Command.apply_run (path : String) (limits : Limits) (program : Program) :
    (Command.run path limits).apply .silent [] program =
      .running program limits (program.start limits (.empty none)).turn [] := by
  rw [apply, tell_silent]

/-- The options are read before the file is. -/
theorem start_namesFile (filter : Log.Filter) {path : String} (isFile : NamesFile path)
    (options : List String) (read : String → Except ReadError String) :
    start filter read (path :: options) =
      match readOptions .default options with
      | .error error => .finished (.saying 1 [error.message])
      | .ok limits => (Command.run path limits).start filter (read path) := by
  rw [start, readCommand_of_namesFile isFile, readRun]
  cases readOptions .default options <;> rfl

theorem endsWith_refuse_iff {path reason errors : String} {refused status : UInt8}
    {output : ByteArray} :
    (refuse refused path [] reason).EndsWith .silent status output errors ↔
      refused = status ∧ ByteArray.empty = output ∧
        "error: " ++ path ++ ": " ++ reason ++ "\n" = errors := by
  rw [refuse, Job.endsWith_finished_iff, List.reverse_singleton, errorText_line]

section File

variable {path text : String} (isFile : NamesFile path)
  {read : String → Except ReadError String} (content : read path = .ok text)
  (options : List String) (status : UInt8) (output : ByteArray) (errors : String)

include isFile content

theorem endsWith_start_iff :
    (start .silent read (path :: options)).EndsWith .silent status output errors ↔
      Leaves path text options status output errors := by
  rw [start_namesFile _ isFile, content]
  cases read : readOptions .default options with
  | error error =>
    rw [leaves_iff_of_option read, Job.endsWith_finished_iff, Report.saying, List.map_singleton,
      errorText_line]
  | ok limits =>
    simp only [Command.start_text]
    cases parsed : Program.ofText text with
    | error error =>
      cases error with
      | grammar error =>
        rw [leaves_iff_of_grammar read parsed]
        exact endsWith_refuse_iff
      | definitions error =>
        rw [leaves_iff_of_definitions read parsed]
        exact endsWith_refuse_iff
    | ok program =>
      rw [leaves_iff_of_program read parsed, ← Job.endsWith_running_iff, ← Command.apply_run]

theorem abortsWith_start_iff :
    (start .silent read (path :: options)).AbortsWith .silent status output errors ↔
      Aborts text options status output errors := by
  rw [start_namesFile _ isFile, content]
  cases read : readOptions .default options with
  | error error =>
    refine iff_of_false (Job.not_abortsWith_finished _ _ _ _) ?_
    rintro ⟨accepted⟩
    cases read.symm.trans accepted
  | ok limits =>
    simp only [Command.start_text]
    cases parsed : Program.ofText text with
    | error error =>
      have notAborted : ¬ Aborts text options status output errors := by
        rintro ⟨_, spelled⟩
        cases parsed.symm.trans spelled
      cases error <;> exact iff_of_false (Job.not_abortsWith_finished _ _ _ _) notAborted
    | ok program =>
      rw [aborts_iff_of_program read parsed, ← Job.abortsWith_running_iff, ← Command.apply_run]

end File

/-- Without a log the command to run a file may be left out before the file. Options
that are refused are refused whatever the file holds. The command ends if and only if
the options, the text or the program are refused or the run returns, and it then leaves
what is said by `Leaves`. It is aborted if and only if none of them is refused and the run
is aborted, with what is said by `Aborts`. -/
theorem run_file {path text : String} (isFile : NamesFile path)
    {read : String → Except ReadError String} (content : read path = .ok text)
    (options : List String) :
    start .silent read ("run" :: path :: options) = start .silent read (path :: options) ∧
    (∀ error, readOptions .default options = .error error →
      ∀ other, start .silent other (path :: options) = start .silent read (path :: options)) ∧
    (∀ status output errors,
      (start .silent read (path :: options)).EndsWith .silent status output errors ↔
        Leaves path text options status output errors) ∧
    ∀ status output errors,
      (start .silent read (path :: options)).AbortsWith .silent status output errors ↔
        Aborts text options status output errors := by
  refine ⟨?_, ?_, endsWith_start_iff isFile content options,
    abortsWith_start_iff isFile content options⟩
  · rw [start, start, readCommand_run, readCommand_of_namesFile isFile]
  · intro error refused other
    rw [start_namesFile _ isFile, start_namesFile _ isFile, refused]

/-- A text whose run is ended by a negative integer. -/
def halting : String :=
  "main do\nexit -1\nend\n"

/-- The program that it spells. -/
def haltingProgram : Program where
  subroutines := [⟨entryPoint, [.exit (.integer (-1))]⟩]
  sorted := List.pairwise_singleton _ _
  definesEntryPoint := ⟨_, List.mem_singleton_self _, rfl⟩

theorem ofText_halting : Program.ofText halting = .ok haltingProgram := by
  have lexed : Source.lexemes halting = .ok [⟨.identifier entryPoint, 1⟩, ⟨.keyword .doWord, 1⟩,
      ⟨.lineBreak, 1⟩, ⟨.keyword .exit, 2⟩, ⟨.integer (-1), 2⟩, ⟨.lineBreak, 2⟩,
      ⟨.keyword .endWord, 3⟩] := by
    decide +kernel
  rw [Program.ofText, Source.subroutines, lexed]
  rfl

/-- A text whose run asks for more than there can be, if the limit on texts lets it. -/
def repeating : String :=
  "main do\nassign \"ab\" s\npush 4611686018427387904\nmultiply s\nend\n"

/-- The program that it spells. -/
def repeatingProgram : Program where
  subroutines := [⟨entryPoint, [.assign (.text "ab") "s",
    .push (.integer 4611686018427387904), .arithmetic .multiply "s"]⟩]
  sorted := List.pairwise_singleton _ _
  definesEntryPoint := ⟨_, List.mem_singleton_self _, rfl⟩

theorem ofText_repeating : Program.ofText repeating = .ok repeatingProgram := by
  have lexed : Source.lexemes repeating = .ok [⟨.identifier entryPoint, 1⟩,
      ⟨.keyword .doWord, 1⟩, ⟨.lineBreak, 1⟩, ⟨.keyword .assign, 2⟩, ⟨.text "ab", 2⟩,
      ⟨.identifier "s", 2⟩, ⟨.lineBreak, 2⟩, ⟨.keyword .push, 3⟩,
      ⟨.integer 4611686018427387904, 3⟩, ⟨.lineBreak, 3⟩, ⟨.keyword .multiply, 4⟩,
      ⟨.identifier "s", 4⟩, ⟨.lineBreak, 4⟩, ⟨.keyword .endWord, 5⟩] := by
    decide +kernel
  rw [Program.ofText, Source.subroutines, lexed]
  rfl

/-- The command leaves the status 255 and nothing else for a program that halts with -1.
With an option that has no value it does not come to the text. Under the greatest limit on
texts that a word holds the other program is aborted. -/
theorem run_halting :
    NamesFile "prog.imp" ∧
    (start .silent (fun _ => .ok halting) ["run", "prog.imp"]).EndsWith .silent 255 .empty "" ∧
    (start .silent (fun _ => .ok halting) ["prog.imp", "--max-heap-cells"]).EndsWith .silent 1
      .empty "error: --max-heap-cells requires a value\n" ∧
    (start .silent (fun _ => .ok repeating)
      ["prog.imp", "--max-string-bytes", "18446744073709551615"]).AbortsWith .silent 101
      .empty "" := by
  have isFile : NamesFile "prog.imp" := by
    simp [NamesFile]
  let read (text : String) : String → Except ReadError String := fun _ => .ok text
  have content (text : String) : read text "prog.imp" = .ok text := rfl
  refine ⟨isFile, ?_, ?_, ?_⟩
  · have runs : haltingProgram.RunsTo .default (.ok (.halted (.integer (-1)))) .empty :=
      ⟨1, _, rfl, rfl, rfl⟩
    have exits : ExitsWith (.ok (.halted (.integer (-1)))) 255 "" := .integer (-1) (by decide)
    obtain ⟨same, -, leaves, -⟩ := run_file isFile (content halting) []
    rw [same]
    exact (leaves 255 .empty "").mpr (.run rfl ofText_halting runs exits)
  · have refused : readOptions .default ["--max-heap-cells"] =
        .error (.missingValue .maxHeapCells) := by
      rfl
    obtain ⟨-, -, leaves, -⟩ := run_file isFile (content halting) ["--max-heap-cells"]
    exact (leaves ..).mpr (.option refused)
  · let limits : Limits := { Limits.default with maxStringBytes := 18446744073709551615 }
    have accepted :
        readOptions .default ["--max-string-bytes", "18446744073709551615"] = .ok limits := by
      decide +kernel
    have runs : repeatingProgram.RunsTo limits (.error .capacityOverflow) .empty :=
      ⟨3, _, rfl, rfl, rfl⟩
    obtain ⟨-, -, -, aborts⟩ := run_file isFile (content repeating)
      ["--max-string-bytes", "18446744073709551615"]
    exact (aborts 101 .empty "").mpr (.run accepted ofText_repeating runs)

end CommandLine

end StackScript
