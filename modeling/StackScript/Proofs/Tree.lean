import StackScript.Proofs.Block
import StackScript.Proofs.Lexis

/-!
# Well-formed trees

What is true of every tree that a text spells, said of the tree alone: its names
and literals can be written, its conditionals have branches, and its blocks nest
within the limit.
-/

namespace StackScript

/-- The token that writes an operand. -/
def Operand.token : Operand → Token
  | .integer n => .integer n
  | .float x => .float x
  | .text s => .text s
  | .identifier name => .identifier name

/-- A token that can stand in a text without comments. -/
def Token.WellFormed : Token → Prop
  | .identifier name => IsName name
  | .float x => x.isNaN = false
  | .text s => Quotable s.toList ∧ '#' ∉ s.toList
  | .keyword _ | .integer _ | .lineBreak => True

namespace Instruction

/-- The literals and names that stand in an instruction itself and not in the
blocks that it holds. -/
def leaves : Instruction → List Token
  | .assign source target => [source.token, .identifier target]
  | .arithmetic _ target => [.identifier target]
  | .bitwise _ target => [.identifier target]
  | .conditional branches _ => branches.map fun branch => branch.condition.token
  | .loop condition _ => [condition.token]
  | .push source => [source.token]
  | .pop target => [.identifier target]
  | .print source => [source.token]
  | .exit code => [code.token]
  | .stop => []
  | .store => []
  | .load => []
  | .invoke name => [.identifier name]

/-- A conditional has a branch. -/
def HasBranch : Instruction → Prop
  | .conditional branches _ => branches ≠ []
  | _ => True

/-- The instruction has a branch if it is a conditional, and its own literals and
names are allowed. -/
def ConsistsOf (allowed : Token → Prop) (instruction : Instruction) : Prop :=
  instruction.HasBranch ∧ ∀ leaf ∈ instruction.leaves, allowed leaf

end Instruction

/-- The name of the subroutine is allowed, and so is everything in its body. -/
def Subroutine.ConsistsOf (allowed : Token → Prop) (subroutine : Subroutine) : Prop :=
  allowed (.identifier subroutine.name) ∧
    subroutine.body.Throughout (Instruction.ConsistsOf allowed)

/-! ## Nesting -/

mutual

/-- The most blocks that stand inside one another in an instruction. -/
def Instruction.nesting : Instruction → Nat
  | .conditional branches none => Branch.nestingOfAll branches
  | .conditional branches (some otherwise) =>
    max (Branch.nestingOfAll branches) (Instruction.nestingOfAll otherwise + 1)
  | .loop _ body => Instruction.nestingOfAll body + 1
  | _ => 0

/-- The most blocks that stand inside one another in any of these instructions. -/
def Instruction.nestingOfAll : List Instruction → Nat
  | [] => 0
  | first :: rest => max first.nesting (Instruction.nestingOfAll rest)

/-- The most blocks that stand inside one another in any of these branches. -/
def Branch.nestingOfAll : List Branch → Nat
  | [] => 0
  | ⟨_, body⟩ :: rest => max (Instruction.nestingOfAll body + 1) (Branch.nestingOfAll rest)

end

/-- The most blocks that stand inside one another from this one on, itself
included. -/
def Block.nesting (block : Block) : Nat :=
  Instruction.nestingOfAll block + 1

/-- The most blocks that stand inside one another in any of these subroutines. -/
def Subroutine.nestingOfAll : List Subroutine → Nat
  | [] => 0
  | first :: rest => max first.body.nesting (nestingOfAll rest)

@[simp]
theorem Instruction.nestingOfAll_append (first second : List Instruction) :
    nestingOfAll (first ++ second) = max (nestingOfAll first) (nestingOfAll second) := by
  induction first with
  | nil => simp [nestingOfAll]
  | cons instruction rest ih => simp [nestingOfAll, ih, Nat.max_assoc]

@[simp]
theorem Branch.nestingOfAll_append (first second : List Branch) :
    nestingOfAll (first ++ second) = max (nestingOfAll first) (nestingOfAll second) := by
  induction first with
  | nil => simp [nestingOfAll]
  | cons branch rest ih =>
    obtain ⟨condition, body⟩ := branch
    simp [nestingOfAll, ih, Nat.max_assoc]

@[simp]
theorem Subroutine.nestingOfAll_append (first second : List Subroutine) :
    nestingOfAll (first ++ second) = max (nestingOfAll first) (nestingOfAll second) := by
  induction first with
  | nil => simp [nestingOfAll]
  | cons subroutine rest ih => simp [nestingOfAll, ih, Nat.max_assoc]

theorem Subroutine.nestingOfAll_le_iff {subroutines : List Subroutine} {limit : Nat} :
    nestingOfAll subroutines ≤ limit ↔
      ∀ subroutine ∈ subroutines, subroutine.body.nesting ≤ limit := by
  induction subroutines with
  | nil => simp [nestingOfAll]
  | cons first rest ih => rw [nestingOfAll, Nat.max_le, ih, List.forall_mem_cons]

/-! ## Subroutines -/

/-- Names and literals can be written, conditionals have branches, and no more
than 512 blocks nest, the body included. -/
structure Subroutine.WellFormed (subroutine : Subroutine) : Prop where
  consists : subroutine.ConsistsOf Token.WellFormed
  nesting : subroutine.body.nesting ≤ 512

/-- No literal of the subroutine is a float. -/
def Subroutine.FloatFree (subroutine : Subroutine) : Prop :=
  subroutine.body.Throughout fun instruction => ∀ x, .float x ∉ instruction.leaves

end StackScript
