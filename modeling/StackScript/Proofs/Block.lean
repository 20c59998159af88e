import StackScript.Program

/-!
# The instructions of a block

An instruction stands within a block if it is one of the block's own, or stands
within a block that one of them holds. What is asked of every instruction of a
program, at whatever depth, is said with `Throughout`.
-/

namespace StackScript

/-- The blocks that an instruction holds, in the order of the text. -/
def Instruction.blocks : Instruction → List Block
  | .conditional branches otherwise => branches.map Branch.body ++ otherwise.toList
  | .loop _ body => [body]
  | _ => []

/-- The operands of an instruction itself, without those in the blocks that it
holds. -/
def Instruction.operands : Instruction → List Operand
  | .assign source _ => [source]
  | .conditional branches _ => branches.map Branch.condition
  | .loop condition _ => [condition]
  | .push source => [source]
  | .print source => [source]
  | .exit code => [code]
  | _ => []

/-- The instruction stands in the block, at any depth. -/
inductive Instruction.Within (instruction : Instruction) : Block → Prop
  | here {block : Block} (mem : instruction ∈ block) : Within instruction block
  | inside {block inner : Block} {outer : Instruction} (mem : outer ∈ block)
      (held : inner ∈ outer.blocks) (within : Within instruction inner) :
      Within instruction block

/-- What an instruction holds is smaller than itself. -/
theorem Instruction.sizeOf_lt_of_mem_blocks {outer inner : Instruction} {block : Block}
    (held : block ∈ outer.blocks) (mem : inner ∈ block) : sizeOf inner < sizeOf outer := by
  cases outer with
  | conditional branches otherwise =>
    rw [Instruction.conditional.sizeOf_spec]
    rcases List.mem_append.mp held with inBranch | isOtherwise
    · obtain ⟨⟨condition, body⟩, isBranch, rfl⟩ := List.mem_map.mp inBranch
      have branchSmaller := List.sizeOf_lt_of_mem isBranch
      have smaller : sizeOf inner < sizeOf body := List.sizeOf_lt_of_mem mem
      rw [Branch.mk.sizeOf_spec] at branchSmaller
      omega
    · obtain rfl : otherwise = some block := Option.mem_toList.mp isOtherwise
      have smaller := List.sizeOf_lt_of_mem mem
      rw [Option.some.sizeOf_spec]
      omega
  | loop condition body =>
    obtain rfl := List.mem_singleton.mp held
    have smaller := List.sizeOf_lt_of_mem mem
    rw [Instruction.loop.sizeOf_spec]
    omega
  | _ => cases held

/-- What holds of an instruction as soon as it holds of all instructions in the
blocks that it holds, holds of every instruction. -/
theorem Instruction.induction_on_blocks {holds : Instruction → Prop}
    (step : ∀ outer : Instruction,
      (∀ block ∈ outer.blocks, ∀ inner ∈ block, holds inner) → holds outer)
    (instruction : Instruction) : holds instruction := by
  apply step
  intro block held inner mem
  exact induction_on_blocks step inner
termination_by sizeOf instruction
decreasing_by exact sizeOf_lt_of_mem_blocks held mem

namespace Block

/-- Every instruction of the block is allowed, at every depth. -/
def Throughout (allowed : Instruction → Prop) (block : Block) : Prop :=
  ∀ instruction : Instruction, instruction.Within block → allowed instruction

variable {allowed : Instruction → Prop}

@[simp]
theorem throughout_nil : Throughout allowed [] := by
  intro instruction within
  cases within with
  | here mem | inside mem => cases mem

/-- What is asked of a block is asked of its first instruction, of the blocks
that this one holds, and of the rest. -/
@[simp]
theorem throughout_cons_iff {first : Instruction} {rest : Block} :
    Throughout allowed (first :: rest) ↔
      allowed first ∧ (∀ inner ∈ first.blocks, Throughout allowed inner) ∧
        Throughout allowed rest := by
  constructor
  · intro all
    refine ⟨all first (.here List.mem_cons_self), ?_, ?_⟩
    · intro inner held instruction within
      exact all instruction (.inside List.mem_cons_self held within)
    · intro instruction within
      cases within with
      | here mem => exact all instruction (.here (List.mem_cons_of_mem first mem))
      | inside mem held within =>
        exact all instruction (.inside (List.mem_cons_of_mem first mem) held within)
  · rintro ⟨atFirst, inside, after⟩ instruction within
    cases within with
    | here mem =>
      rcases List.mem_cons.mp mem with rfl | mem
      · exact atFirst
      · exact after instruction (.here mem)
    | inside mem held within =>
      rcases List.mem_cons.mp mem with rfl | mem
      · exact inside _ held instruction within
      · exact after instruction (.inside mem held within)

@[simp]
theorem throughout_append_iff {first second : Block} :
    Throughout allowed (first ++ second) ↔
      Throughout allowed first ∧ Throughout allowed second := by
  induction first with
  | nil => simp
  | cons instruction rest ih => simp [ih, and_assoc]

/-- So it is in each of its instructions by itself. -/
theorem Throughout.singleton_of_mem {block : Block} (all : block.Throughout allowed)
    {instruction : Instruction} (mem : instruction ∈ block) :
    Throughout allowed [instruction] := by
  intro other within
  cases within with
  | here isOther =>
    obtain rfl := List.mem_singleton.mp isOther
    exact all other (.here mem)
  | inside isOuter held within =>
    obtain rfl := List.mem_singleton.mp isOuter
    exact all other (.inside mem held within)

end Block

/-- Every instruction of the program is allowed, at every depth. -/
def Program.Throughout (allowed : Instruction → Prop) (program : Program) : Prop :=
  ∀ subroutine ∈ program.subroutines, Block.Throughout allowed subroutine.body

/-- So it is in the block of every name. -/
theorem Program.Throughout.of_body?_eq_some {allowed : Instruction → Prop} {program : Program}
    (all : program.Throughout allowed) {name : String} {body : Block}
    (found : program.body? name = some body) : Block.Throughout allowed body := by
  obtain ⟨subroutine, first, rfl⟩ := Option.map_eq_some_iff.mp found
  exact all subroutine (List.mem_of_find?_eq_some first)

/-- The instruction stands in the program, at any depth. -/
def Program.Contains (program : Program) (instruction : Instruction) : Prop :=
  ∃ subroutine ∈ program.subroutines, instruction.Within subroutine.body

/-- A program is made of the instructions that stand in it. -/
theorem Program.throughout_contains (program : Program) : program.Throughout program.Contains :=
  fun subroutine mem _ within => ⟨subroutine, mem, within⟩

end StackScript
