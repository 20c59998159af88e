import StackScript.Token
import StackScript.Program

/-!
# Errors of source text

The first thing that is wrong with a text, as its cause. The wording is in
`SyntaxError.message` alone.
-/

namespace StackScript

/-- What the grammar allows next at the place of an error. -/
inductive Expectation where
  | subroutineName
  | subroutineEnd
  | blockOpening
  | instruction
  | instructionEnd
  | value
  | variableName
  deriving DecidableEq

/-- An expectation in words. -/
def Expectation.text : Expectation → String
  | .subroutineName => "subroutine name"
  | .subroutineEnd => "end of line after 'end'"
  | .blockOpening => "'begin' or 'do'"
  | .instruction => "an instruction"
  | .instructionEnd => "end of line or 'end'"
  | .value => "a value"
  | .variableName => "a variable name"

/-- Why a text has no tree. -/
inductive SyntaxError where
  /-- No token starts with this character. -/
  | invalidCharacter (line : Nat) (c : Char)
  /-- A number is misspelt or too large. -/
  | invalidNumber (line : Nat) (spelling : String)
  /-- The quote opened on this line is not closed. -/
  | unterminatedString (line : Nat)
  /-- A token stands where another one has to. -/
  | unexpectedToken (line : Nat) (found : Token) (expected : Expectation)
  /-- The text ends too early. -/
  | unexpectedEnd (line : Nat) (expected : Expectation)
  /-- A block would be one too many inside each other. -/
  | nestingTooDeep (line : Nat) (limit : Nat)
  deriving DecidableEq

namespace SyntaxError

/-- The line that the error names. -/
def line : SyntaxError → Nat
  | .invalidCharacter line _ => line
  | .invalidNumber line _ => line
  | .unterminatedString line => line
  | .unexpectedToken line _ _ => line
  | .unexpectedEnd line _ => line
  | .nestingTooDeep line _ => line

/-- What is wrong, without the line. -/
def complaint : SyntaxError → String
  | .invalidCharacter _ c => "unexpected character '" ++ String.singleton c ++ "'"
  | .invalidNumber _ spelling => "invalid number '" ++ spelling ++ "'"
  | .unterminatedString _ => "unterminated string"
  | .unexpectedToken _ found expected =>
    "expected " ++ expected.text ++ ", found " ++ found.describe
  | .unexpectedEnd _ expected => "expected " ++ expected.text ++ ", found end of input"
  | .nestingTooDeep _ limit => "blocks nested deeper than " ++ toString limit ++ " levels"

/-- The text of a syntax error. -/
def message (error : SyntaxError) : String :=
  "line " ++ toString error.line ++ ": " ++ error.complaint

end SyntaxError

/-- Why a text is no program. -/
inductive SourceError where
  /-- The text has no tree. -/
  | grammar (error : SyntaxError)
  /-- The definitions do not make a program. -/
  | definitions (error : ProgramError)
  deriving DecidableEq

/-- The text of an error of source text. -/
def SourceError.message : SourceError → String
  | .grammar error => error.message
  | .definitions error => error.message

end StackScript
