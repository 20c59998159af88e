import StackScript.Keyword
import StackScript.Binary64.Text

/-!
# Tokens

What the source text is made of once its comments are cut. A line break is a
token, because it separates instructions.
-/

namespace StackScript

/-- A token, with what its spelling stands for. -/
inductive Token where
  | keyword (word : Keyword)
  | identifier (name : String)
  | integer (n : Int64)
  | float (x : Binary64)
  /-- A quoted text: what stands between the quotes, escapes as they are written. -/
  | text (s : String)
  | lineBreak
  deriving DecidableEq

/-- A token and the line of its first character, counted from one. -/
structure Lexeme where
  token : Token
  line : Nat
  deriving DecidableEq

namespace Token

/-- Floats in messages and listings have a bare exponent. -/
def floatStyle : FloatStyle where
  signedExponent := false
  exponentWidth := 1
  nan := "NaN"

/-- A token as error messages name it. -/
def describe : Token → String
  | .keyword word => "'" ++ word.text ++ "'"
  | .identifier name => "'" ++ name ++ "'"
  | .integer n => toString n.toInt
  | .float x => x.text floatStyle
  | .text s => "\"" ++ s ++ "\""
  | .lineBreak => "end of line"

/-- The line feeds inside a token's spelling. -/
def lineFeeds : Token → Nat
  | .text s => s.toList.count '\n'
  | .lineBreak => 1
  | _ => 0

end Token

end StackScript
