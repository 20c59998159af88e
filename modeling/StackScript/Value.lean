import StackScript.Binary64.Text

/-!
# Values

What a variable, a stack place or a heap cell holds. A program's literals
cannot spell `empty`: it is what a heap cell that was never stored to reads as.
Equality is equality of constructors and contents, floats by their bits.
-/

namespace StackScript

/-- A value of a running program. -/
inductive Value where
  | integer (n : Int64)
  | float (x : Binary64)
  | text (s : String)
  | empty
  deriving DecidableEq, Inhabited

/-- The four kinds of value. -/
inductive Kind where
  | integer
  | float
  | string
  | empty
  deriving DecidableEq

/-- The word for a kind in messages. -/
def Kind.name : Kind → String
  | .integer => "integer"
  | .float => "float"
  | .string => "string"
  | .empty => "empty"

namespace Value

/-- The kind of a value. -/
def kind : Value → Kind
  | .integer _ => .integer
  | .float _ => .float
  | .text _ => .string
  | .empty => .empty

/-- What a condition takes for true: every number but the zeros, every text but
the empty one. A NaN is true. -/
def isTruthy : Value → Bool
  | .integer n => n != 0
  | .float x => !x.isZero
  | .text s => s != ""
  | .empty => false

/-- The number of an integer value. -/
def integer? : Value → Option Int64
  | .integer n => some n
  | _ => none

/-- Printed floats have a signed exponent of at least two digits. -/
def floatStyle : FloatStyle where
  signedExponent := true
  exponentWidth := 2
  nan := "nan"

/-- The text that `print` writes: a text is written as it is, without quotes. -/
def display : Value → String
  | .integer n => toString n.toInt
  | .float x => x.text floatStyle
  | .text s => s
  | .empty => "None"

end Value

end StackScript
