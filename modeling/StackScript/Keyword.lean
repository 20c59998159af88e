/-!
# Keywords

The reserved words of the source text: the seven that shape blocks, then the
names of the instructions. Letter case does not matter, and only ASCII letters
have a case here.
-/

namespace StackScript

/-- A reserved word. -/
inductive Keyword where
  | beginWord
  | doWord
  | endWord
  | ifWord
  | elifWord
  | elseWord
  | whileWord
  | stop
  | push
  | pop
  | assign
  | add
  | subtract
  | multiply
  | divide
  | and
  | or
  | xor
  | negate
  | not
  | print
  | exit
  | store
  | load
  deriving DecidableEq

namespace Keyword

/-- Every keyword, in the order in which the language lists them. -/
def all : List Keyword :=
  [.beginWord, .doWord, .endWord, .stop, .ifWord, .elifWord, .elseWord, .whileWord, .push, .pop,
    .assign, .add, .subtract, .multiply, .divide, .and, .or, .xor, .negate, .not, .print, .exit,
    .store, .load]

/-- The spelling of a keyword in small letters. -/
def text : Keyword → String
  | .beginWord => "begin"
  | .doWord => "do"
  | .endWord => "end"
  | .ifWord => "if"
  | .elifWord => "elif"
  | .elseWord => "else"
  | .whileWord => "while"
  | .stop => "stop"
  | .push => "push"
  | .pop => "pop"
  | .assign => "assign"
  | .add => "add"
  | .subtract => "subtract"
  | .multiply => "multiply"
  | .divide => "divide"
  | .and => "and"
  | .or => "or"
  | .xor => "xor"
  | .negate => "negate"
  | .not => "not"
  | .print => "print"
  | .exit => "exit"
  | .store => "store"
  | .load => "load"

/-- The keyword that a whole word spells up to the case of its letters. -/
def ofWord? (word : String) : Option Keyword :=
  all.find? fun keyword => keyword.text == word.map Char.toLower

/-- The two words that open a block. -/
def opensBlock : Keyword → Bool
  | .beginWord | .doWord => true
  | _ => false

/-- Every keyword is listed. -/
theorem mem_all (keyword : Keyword) : keyword ∈ all := by
  cases keyword <;> decide

end Keyword

end StackScript
