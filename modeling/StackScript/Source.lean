/-!
# Source text

A comment runs from the first `#` of a line to the end of the line, also where
the `#` stands between quotes. A line ends with a line feed or with a carriage
return and a line feed; a carriage return that no line feed follows belongs to
its line. Cutting the comments keeps every line in its place and drops the end
of the last line.
-/

namespace StackScript.Source

/-- A line without the carriage return before its line feed. -/
def dropReturn (line : List Char) : List Char :=
  if line.getLast? = some '\r' then line.dropLast else line

/-- The lines of a text, without their ends. What follows the last line feed is
a line only if it is not empty. -/
def lines : List Char → List (List Char)
  | [] => []
  | c :: rest =>
    let line := (c :: rest).takeWhile (· != '\n')
    match _ : (c :: rest).dropWhile (· != '\n') with
    | [] => [line]
    | _ :: after => dropReturn line :: lines after
termination_by text => text.length
decreasing_by
  rename_i following
  have le := (List.dropWhile_suffix (l := c :: rest) (· != '\n')).length_le
  rw [following] at le
  simp only [List.length_cons] at le ⊢
  omega

/-- A line up to its first `#`. -/
def cutComment (line : List Char) : List Char :=
  line.takeWhile (· != '#')

/-- The text with its comments cut, line by line. -/
def stripComments (text : List Char) : List Char :=
  ['\n'].intercalate ((lines text).map cutComment)

end StackScript.Source
