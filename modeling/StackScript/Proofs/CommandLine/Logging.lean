import StackScript.Proofs.CommandLine

/-!
# The log and the rest

A filter decides which records are shown, and nothing else. With its records taken out,
a job under a filter is after every number of steps the job without one: it runs the
same program in the same state, or it has finished or been aborted with the same status, the
same output and the same other lines on the error stream, in the same order.
-/

namespace StackScript.CommandLine

/-- Whether a message is a record of the log. -/
def Message.isRecord : Message → Bool
  | .line _ => false
  | .record _ => true

/-- The messages that are no records of the log, in their order. -/
def withoutRecords (messages : List Message) : List Message :=
  messages.filter fun message => !message.isRecord

/-- The report with the records of the log deleted from its error stream. -/
def Report.withoutRecords (report : Report) : Report :=
  { report with messages := CommandLine.withoutRecords report.messages }

/-- The job with the records of the log deleted from its messages. -/
def Job.withoutRecords : Job → Job
  | .finished report => .finished report.withoutRecords
  | .aborted report => .aborted report.withoutRecords
  | .running program limits turn messages =>
    .running program limits turn (CommandLine.withoutRecords messages)

variable (filter : Log.Filter)

/-! ## Records -/

/-- Events are told in records alone. -/
theorem withoutRecords_tell (messages : List Message) (events : List Event) :
    withoutRecords (tell filter messages events) = withoutRecords messages := by
  induction events generalizing messages with
  | nil => rfl
  | cons event events ih =>
    have first : withoutRecords (tell filter messages [event]) = withoutRecords messages := by
      simp only [tell, List.foldl_cons, List.foldl_nil]
      cases filter.eventRecord? event <;> rfl
    calc
      withoutRecords (tell filter messages (event :: events)) =
          withoutRecords (tell filter (tell filter messages [event]) events) := rfl
      _ = withoutRecords (tell filter messages [event]) := ih _
      _ = withoutRecords messages := first

theorem withoutRecords_note (messages : List Message) (record : Log.Record) :
    withoutRecords (note filter messages record) = withoutRecords messages := by
  rw [note]
  cases filter.record? record <;> rfl

theorem withoutRecords_reverse (messages : List Message) :
    withoutRecords messages.reverse = (withoutRecords messages).reverse :=
  List.filter_reverse

theorem withoutRecords_line (text : String) (messages : List Message) :
    withoutRecords (.line text :: messages) = .line text :: withoutRecords messages :=
  rfl

/-- The report of a run says the same besides its records. -/
theorem withoutRecords_reportEnding (messages : List Message) (ending : Ending) :
    (reportEnding filter messages ending).withoutRecords =
      reportEnding .silent (withoutRecords messages) ending := by
  obtain ⟨result, machine, scopes⟩ := ending
  cases result with
  | error fault =>
    cases fault <;>
      simp only [reportEnding, Report.withoutRecords, withoutRecords_reverse, withoutRecords_line]
  | ok flow =>
    cases flow with
    | completed | stopped =>
      simp only [reportEnding, Flow.exit, Report.withoutRecords, withoutRecords_reverse]
    | halted code =>
      cases code with
      | integer n =>
        simp only [reportEnding, Flow.exit, Report.withoutRecords, withoutRecords_reverse,
          withoutRecords_note, note_silent]
      | float | text | empty =>
        simp only [reportEnding, Flow.exit, Report.withoutRecords, withoutRecords_reverse,
          withoutRecords_line, withoutRecords_note, note_silent]

/-! ## Jobs -/

theorem Job.withoutRecords_ofEnding (messages : List Message) (ending : Ending) :
    (ofEnding filter messages ending).withoutRecords =
      ofEnding .silent (CommandLine.withoutRecords messages) ending := by
  have same := withoutRecords_reportEnding filter messages ending
  simp only [ofEnding]
  split
  · exact congrArg Job.aborted same
  · exact congrArg Job.finished same

/-- One step of a job does the same besides its records. -/
theorem Job.withoutRecords_step (job : Job) :
    (job.step filter).withoutRecords = job.withoutRecords.step .silent := by
  cases job with
  | finished report | aborted report => rfl
  | running program limits turn messages =>
    cases turn with
    | ended ending => exact withoutRecords_ofEnding filter messages ending
    | ongoing activity =>
      simp only [withoutRecords, step_running, withoutRecords_tell, tell_silent]

/-- So do all its steps. -/
theorem Job.withoutRecords_advance (job : Job) (count : Nat) :
    (job.advance filter count).withoutRecords = job.withoutRecords.advance .silent count := by
  induction count generalizing job with
  | zero => rfl
  | succ count ih => rw [advance, advance, ih, withoutRecords_step]

/-- A command begins in the same way besides its records. -/
theorem Command.withoutRecords_apply (messages : List Message) (program : Program)
    (command : Command) :
    (command.apply filter messages program).withoutRecords =
      command.apply .silent (withoutRecords messages) program := by
  cases command with
  | run path limits =>
    simp only [apply, Job.withoutRecords, withoutRecords_tell, tell_silent]
  | check path | parse path =>
    simp only [apply, Job.withoutRecords, Report.withoutRecords, withoutRecords_reverse]

theorem withoutRecords_refuse (status : UInt8) (path : String) (messages : List Message)
    (reason : String) :
    (refuse status path messages reason).withoutRecords =
      refuse status path (withoutRecords messages) reason := by
  simp only [refuse, Job.withoutRecords, Report.withoutRecords, withoutRecords_reverse,
    withoutRecords_line]

/-- Lines that are said without a log hold no records. -/
theorem withoutRecords_saying (status : UInt8) (lines : List String) :
    (Report.saying status lines).withoutRecords = .saying status lines := by
  have same : CommandLine.withoutRecords (lines.map .line) = lines.map .line := by
    rw [CommandLine.withoutRecords, List.filter_eq_self, List.forall_mem_map]
    exact fun _ _ => rfl
  rw [Report.saying, Report.withoutRecords, same]

theorem Command.withoutRecords_start (command : Command) (content : Except ReadError String) :
    (command.start filter content).withoutRecords = command.start .silent content := by
  have noted (record : Log.Record) : withoutRecords (note filter [] record) = [] :=
    withoutRecords_note filter [] record
  cases content with
  | error error => exact congrArg Job.finished (withoutRecords_saying ..)
  | ok text =>
    simp only [start, note_silent]
    cases Source.lexemes text with
    | error error => exact withoutRecords_refuse ..
    | ok lexemes =>
      dsimp only
      cases Subroutine.ofLexemes lexemes with
      | error error => exact withoutRecords_refuse ..
      | ok subroutines =>
        dsimp only
        cases Program.ofSubroutines subroutines with
        | error error => rw [withoutRecords_refuse, noted]
        | ok program => rw [withoutRecords_apply, noted]

/-- A command line that names no job only says something on the error stream. -/
theorem exists_saying_of_readRun {arguments : List String} {report : Report}
    (refused : readRun arguments = .error report) :
    ∃ status lines, report = .saying status lines := by
  cases arguments with
  | nil =>
    cases refused
    exact ⟨_, _, rfl⟩
  | cons path options =>
    rw [readRun] at refused
    cases read : readOptions .default options with
    | error error =>
      rw [read] at refused
      cases refused
      exact ⟨_, _, rfl⟩
    | ok limits =>
      rw [read] at refused
      cases refused

theorem exists_saying_of_readCommand {arguments : List String} {report : Report}
    (refused : readCommand arguments = .error report) :
    ∃ status lines, report = .saying status lines := by
  cases arguments with
  | nil =>
    cases refused
    exact ⟨_, _, rfl⟩
  | cons first rest =>
    simp only [readCommand] at refused
    split at refused
    · exact exists_saying_of_readRun refused
    split at refused
    · cases rest <;> cases refused
      exact ⟨_, _, rfl⟩
    split at refused
    · cases rest <;> cases refused
      exact ⟨_, _, rfl⟩
    split at refused
    · cases refused
      exact ⟨_, _, rfl⟩
    split at refused
    · cases refused
      exact ⟨_, _, rfl⟩
    · exact exists_saying_of_readRun refused

/-- The job of the arguments is the same besides its records. -/
theorem withoutRecords_start (read : String → Except ReadError String) (arguments : List String) :
    (start filter read arguments).withoutRecords = start .silent read arguments := by
  rw [start, start]
  cases refused : readCommand arguments with
  | error report =>
    obtain ⟨status, lines, rfl⟩ := exists_saying_of_readCommand refused
    exact congrArg Job.finished (withoutRecords_saying status lines)
  | ok command => exact Command.withoutRecords_start filter command _

/-- A log changes nothing of what the arguments ask for. After every number of steps the
job, its records deleted, is the job without a log; so both print the same bytes as long as
they run. The job without a log ends with a status, an output and a text on the error
stream if and only if the other ends with this status, this output and a report whose error
stream has this text once the records are deleted. -/
theorem start_under_filter (read : String → Except ReadError String) (arguments : List String) :
    (∀ count, ((start filter read arguments).advance filter count).withoutRecords =
      (start .silent read arguments).advance .silent count) ∧
    ∀ status output errors,
      (start .silent read arguments).EndsWith .silent status output errors ↔
        ∃ count report, (start filter read arguments).advance filter count = .finished report ∧
          report.status = status ∧ report.output = output ∧
          report.withoutRecords.errorText = errors := by
  have same (count : Nat) : ((start filter read arguments).advance filter count).withoutRecords =
      (start .silent read arguments).advance .silent count := by
    rw [Job.withoutRecords_advance, withoutRecords_start]
  refine ⟨same, ?_⟩
  intro status output errors
  constructor
  · rintro ⟨count, report, finished, rfl, rfl, rfl⟩
    rw [← same] at finished
    cases reached : (start filter read arguments).advance filter count with
    | running | aborted =>
      rw [reached] at finished
      cases finished
    | finished logged =>
      rw [reached] at finished
      cases finished
      exact ⟨count, logged, reached, rfl, rfl, rfl⟩
  · rintro ⟨count, logged, reached, rfl, rfl, rfl⟩
    refine ⟨count, logged.withoutRecords, ?_, rfl, rfl, rfl⟩
    rw [← same, reached]
    rfl

end StackScript.CommandLine
