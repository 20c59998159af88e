import StackScript.Fault

/-!
# Scopes

Each call has a chain of frames: one for the subroutine's block and one for
every branch or loop body that is being run inside it. A name is looked up from
the innermost frame outwards. Writing changes the nearest frame that binds the
name, and only a name that no frame binds is created, in the innermost one; so
a name is never bound twice in a chain that began empty.
-/

namespace StackScript

/-- The names that one block binds, with their values. -/
structure Frame where
  entries : List (String × Value)
  deriving DecidableEq

namespace Frame

/-- A frame that binds nothing. -/
def empty : Frame :=
  ⟨[]⟩

/-- The value bound to a name. -/
def get? (frame : Frame) (name : String) : Option Value :=
  frame.entries.lookup name

/-- Whether the frame binds a name. -/
def binds (frame : Frame) (name : String) : Bool :=
  (frame.get? name).isSome

/-- Replaces the entry of a name, or appends one. -/
def setEntry (name : String) (value : Value) : List (String × Value) → List (String × Value)
  | [] => [(name, value)]
  | (other, old) :: rest =>
    if name == other then (other, value) :: rest else (other, old) :: setEntry name value rest

/-- Binds a name to a value. -/
def set (frame : Frame) (name : String) (value : Value) : Frame :=
  ⟨setEntry name value frame.entries⟩

@[simp]
theorem get?_empty (name : String) : empty.get? name = none :=
  rfl

/-- After writing a name it has the written value, and every other name has the
value it had. -/
theorem get?_set (frame : Frame) (name other : String) (value : Value) :
    (frame.set name value).get? other = if other = name then some value else frame.get? other := by
  obtain ⟨entries⟩ := frame
  simp only [get?, set]
  induction entries with
  | nil =>
    by_cases otherEq : other = name
    · simp [setEntry, otherEq]
    · have different : (other == name) = false := by simpa using otherEq
      simp [setEntry, List.lookup_cons, different, otherEq]
  | cons entry rest ih =>
    obtain ⟨first, old⟩ := entry
    by_cases nameEq : name = first
    · subst nameEq
      by_cases otherEq : other = name
      · simp [setEntry, otherEq]
      · have different : (other == name) = false := by simpa using otherEq
        simp [setEntry, List.lookup_cons, different, otherEq]
    · have notFirst : (name == first) = false := by simpa using nameEq
      by_cases otherEq : other = first
      · subst otherEq
        simp [setEntry, notFirst, Ne.symm nameEq]
      · have different : (other == first) = false := by simpa using otherEq
        simp [setEntry, List.lookup_cons, notFirst, different, ih]

end Frame

/-- A chain of frames, never empty. -/
structure Scopes where
  innermost : Frame
  /-- The enclosing frames, the nearest one first. -/
  outer : List Frame
  deriving DecidableEq

namespace Scopes

/-- The chain of a call that has just begun. -/
def initial : Scopes :=
  ⟨.empty, []⟩

/-- The frames from the innermost one outwards. -/
def frames (scopes : Scopes) : List Frame :=
  scopes.innermost :: scopes.outer

/-- The number of frames. -/
def depth (scopes : Scopes) : Nat :=
  scopes.outer.length + 1

/-- The value of a name in the nearest frame that binds it. -/
def find? (scopes : Scopes) (name : String) : Option Value :=
  scopes.frames.findSome? fun frame => frame.get? name

/-- The value of a name, or the fault of reading it. -/
def resolve (scopes : Scopes) (name : String) : Except Fault Value :=
  match scopes.find? name with
  | some value => .ok value
  | none => .error (.unboundName name)

/-- Whether the innermost frame itself binds a name. -/
def bindsLocally (scopes : Scopes) (name : String) : Bool :=
  scopes.innermost.binds name

/-- Writes a name in the nearest frame that binds it, if one does. -/
def overwrite? (name : String) (value : Value) : List Frame → Option (List Frame)
  | [] => none
  | frame :: rest =>
    if frame.binds name then some (frame.set name value :: rest)
    else (overwrite? name value rest).map (frame :: ·)

/-- Writes a name in the nearest frame that binds it, or else creates it in the
innermost one. -/
def assign (scopes : Scopes) (name : String) (value : Value) : Scopes :=
  if scopes.bindsLocally name then ⟨scopes.innermost.set name value, scopes.outer⟩
  else
    match overwrite? name value scopes.outer with
    | some outer => ⟨scopes.innermost, outer⟩
    | none => ⟨scopes.innermost.set name value, scopes.outer⟩

/-- Opens an empty frame inside the chain. -/
def inherit (scopes : Scopes) : Scopes :=
  ⟨.empty, scopes.innermost :: scopes.outer⟩

/-- Drops the innermost frame with all that it binds; the last frame stays. -/
def leave (scopes : Scopes) : Scopes :=
  match scopes.outer with
  | [] => scopes
  | enclosing :: rest => ⟨enclosing, rest⟩

/-- A frame that was opened and closed leaves no trace. -/
@[simp]
theorem leave_inherit (scopes : Scopes) : scopes.inherit.leave = scopes :=
  rfl

@[simp]
theorem depth_inherit (scopes : Scopes) : scopes.inherit.depth = scopes.depth + 1 :=
  rfl

/-- The value of an operand: a literal is its own value. -/
def evaluate (scopes : Scopes) : Operand → Except Fault Value
  | .integer n => .ok (.integer n)
  | .float x => .ok (.float x)
  | .text s => .ok (.text s)
  | .identifier name => scopes.resolve name

end Scopes

end StackScript
