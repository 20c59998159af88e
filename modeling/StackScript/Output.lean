/-!
# Output

Printed lines are given to a sink, which may refuse one: it has then taken a part
of it, or nothing, and gives a reason. What it does with a line can depend on
everything that it was given before.
-/

namespace StackScript

/-- The answer of a sink that does not take all of a line. -/
structure Refusal where
  /-- The bytes of the line that it has taken by then. -/
  taken : Nat
  reason : String

/-- What printed lines are given to. Its state is what it has been through: the
lines that it was given before, latest first, and the bytes that it has taken. -/
structure Sink where
  /-- Its answer to a line, unless it takes all of it. -/
  refuse? : (given : List ByteArray) → (written line : ByteArray) → Option Refusal

namespace Sink

/-- The sink that takes every line. -/
def endless : Sink where
  refuse? _ _ _ := none

/-- The sink that takes this many bytes in all. It takes what still fits, even part
of a character, and refuses the rest. -/
def bounded (capacity : Nat) : Sink where
  refuse? _ written line :=
    let room := capacity - written.size
    if line.size ≤ room then none else some ⟨room, "sink full"⟩

/-- The sink that is bounded if a capacity is given. -/
def ofCapacity : Option Nat → Sink
  | none => endless
  | some capacity => bounded capacity

end Sink

/-- A sink and what it has been through. -/
structure Output where
  /-- The bytes that it has taken. -/
  written : ByteArray
  /-- The lines that it was given, latest first. -/
  given : List ByteArray
  sink : Sink

namespace Output

/-- An output that nothing has been written to. -/
def empty (capacity : Option Nat) : Output :=
  ⟨.empty, [], .ofCapacity capacity⟩

/-- The answer to a line, unless all of it is taken. -/
def refuse? (output : Output) (line : ByteArray) : Option Refusal :=
  output.sink.refuse? output.given output.written line

/-- The bytes that are taken of a line. -/
def taken (output : Output) (line : ByteArray) : ByteArray :=
  match output.refuse? line with
  | none => line
  | some refusal => line.extract 0 refusal.taken

/-- Gives a line to the sink. -/
def write (output : Output) (line : ByteArray) : Output :=
  { output with written := output.written ++ output.taken line, given := line :: output.given }

end Output

end StackScript
