import StackScript.Event
import StackScript.Text.Quoted

/-!
# Logs

Records of what a run does, and the filter that decides which are shown. A
filter is a list of directives, each a level for the targets that begin with a
text; the directive with the longest text decides, and a directive replaces an
earlier one for the same text. The empty filter shows errors only.
-/

namespace StackScript.Log

/-- How detailed a record is, or a filter allows records to be. -/
inductive Level where
  | off
  | error
  | warn
  | info
  | debug
  | trace
  deriving DecidableEq

namespace Level

/-- The detail of a level: more detailed levels are greater. -/
def detail : Level → Nat
  | .off => 0
  | .error => 1
  | .warn => 2
  | .info => 3
  | .debug => 4
  | .trace => 5

/-- The name of a level at the start of a line. -/
def name : Level → String
  | .off => "OFF"
  | .error => "ERROR"
  | .warn => "WARN"
  | .info => "INFO"
  | .debug => "DEBUG"
  | .trace => "TRACE"

/-- All levels. -/
def all : List Level :=
  [.off, .error, .warn, .info, .debug, .trace]

/-- The level that a word names in any letter case. -/
def ofName? (word : String) : Option Level :=
  all.find? fun level => level.name == word.map Char.toUpper

end Level

/-- A line of the log. -/
structure Record where
  level : Level
  /-- The part of the program that speaks. -/
  target : String
  /-- What happened, with its details. -/
  text : String
  deriving DecidableEq

namespace Record

/-- A record as a line, without its end. -/
def line (record : Record) : String :=
  record.level.name ++ " " ++ record.target ++ ": " ++ record.text

/-- The record of a text that was parsed. -/
def parsed (subroutines tokens : Nat) : Record where
  level := .debug
  target := "imperivm_parser"
  text := "parsed subroutines=" ++ toString subroutines ++ " tokens=" ++ toString tokens

/-- The record of a run that was ended by a value. -/
def programHalted (code : Value) : Record where
  level := .debug
  target := "imperivm::commands"
  text := "program halted code=" ++ code.display

end Record

/-- The level of an event of a run. -/
def eventLevel : Event → Level
  | .invoked _ _ => .debug
  | .returned _ => .debug
  | .dispatched _ _ => .trace
  | .heapGrown _ _ => .trace
  | .halted _ => .debug

/-- The target of the events of a run. -/
def eventTarget : String :=
  "imperivm_vm::execute"

/-- What the log says about an event of a run. -/
def eventText : Event → String
  | .invoked name depth =>
    "invoke subroutine=" ++ Text.quote name ++ " depth=" ++ toString depth
  | .returned name => "return subroutine=" ++ Text.quote name
  | .dispatched op height =>
    "dispatch op=" ++ Text.quote op.text ++ " stack=" ++ toString height
  | .heapGrown before after =>
    "grow heap from=" ++ toString before ++ " to=" ++ toString after
  | .halted code => "halt code=" ++ code.display

/-- A level for the targets that begin with a text. -/
structure Directive where
  target : String
  level : Level
  deriving DecidableEq

/-- The directives of a filter, in order. -/
structure Filter where
  directives : List Directive
  deriving DecidableEq

namespace Directive

/-- A directive is `level`, `target=level` or `target`; a target alone shows
everything, and a level alone is for every target. -/
def ofText? (text : String) : Option Directive :=
  let target := text.toList.takeWhile (· != '=')
  match text.toList.dropWhile (· != '=') with
  | [] =>
    match Level.ofName? text with
    | some level => some ⟨"", level⟩
    | none => if text = "" then none else some ⟨text, .trace⟩
  | _ :: word =>
    (Level.ofName? (String.ofList word)).map fun level => ⟨String.ofList target, level⟩

/-- Whether the directive is about a target. -/
def covers (directive : Directive) (target : String) : Bool :=
  directive.target.toList.isPrefixOf target.toList

end Directive

namespace Filter

/-- Shows nothing. -/
def silent : Filter :=
  ⟨[]⟩

/-- The filter that a text spells, its directives separated by commas. -/
def ofText (text : String) : Filter :=
  let pieces := (text.toList.splitOn ',').map String.ofList
  match pieces.filterMap Directive.ofText? with
  | [] => ⟨[⟨"", .error⟩]⟩
  | directives => ⟨directives⟩

/-- Of the directives about a target the one with the longest text, and of
several such the last. -/
def decisive? (filter : Filter) (target : String) : Option Directive :=
  (filter.directives.filter (·.covers target)).foldl
    (fun best directive =>
      match best with
      | none => some directive
      | some chosen =>
        if chosen.target.length ≤ directive.target.length then some directive else some chosen)
    none

/-- Whether records of this level from this target are shown. -/
def shows (filter : Filter) (level : Level) (target : String) : Bool :=
  match filter.decisive? target with
  | none => false
  | some directive => level.detail ≤ directive.level.detail

/-- A record, if it is shown. -/
def record? (filter : Filter) (record : Record) : Option Record :=
  if filter.shows record.level record.target then some record else none

/-- The record of an event of a run, if it is shown. -/
def eventRecord? (filter : Filter) (event : Event) : Option Record :=
  if filter.shows (eventLevel event) eventTarget then
    some ⟨eventLevel event, eventTarget, eventText event⟩
  else none

end Filter

end StackScript.Log
