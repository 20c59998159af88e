import StackScript.Proofs.Run.Translation

/-!
# Code that is never reached

A `stop` or an `exit` is the last instruction of its block that is run, whether
it succeeds or not. Trimming a program removes what stands behind one in the same
block, at every depth. A trimmed program runs step by step as it did before, so
programs that are the same when trimmed cannot be told apart.
-/

namespace StackScript

/-- Whether an instruction never goes on with the one behind it. -/
def Instruction.endsBlock : Instruction → Bool
  | .exit _ => true
  | .stop => true
  | _ => false

/-! ## Trimming -/

mutual

/-- The instruction with its blocks trimmed. -/
def Instruction.trimmed : Instruction → Instruction
  | .conditional branches none => .conditional (Branch.trimmedAll branches) none
  | .conditional branches (some otherwise) =>
    .conditional (Branch.trimmedAll branches) (some (Instruction.trimmedAll otherwise))
  | .loop condition body => .loop condition (Instruction.trimmedAll body)
  | instruction => instruction

/-- Instructions up to the first one that ends the block, each trimmed. -/
def Instruction.trimmedAll : List Instruction → List Instruction
  | [] => []
  | first :: rest => first.trimmed :: if first.endsBlock then [] else Instruction.trimmedAll rest

/-- The branches with their blocks trimmed. -/
def Branch.trimmedAll : List Branch → List Branch
  | [] => []
  | ⟨condition, body⟩ :: rest =>
    ⟨condition, Instruction.trimmedAll body⟩ :: Branch.trimmedAll rest

end

/-- The block without what stands behind a `stop` or an `exit`, at every
depth. -/
def Block.trimmed (block : Block) : Block :=
  Instruction.trimmedAll block

/-- Whatever stands behind an instruction that ends the block is trimmed. -/
theorem Block.trimmed_append_of_endsBlock {last : Instruction} (ends : last.endsBlock = true)
    (before after : Block) :
    Block.trimmed (before ++ last :: after) = Block.trimmed (before ++ [last]) := by
  induction before with
  | nil => simp [trimmed, Instruction.trimmedAll, ends]
  | cons first rest ih =>
    simp only [trimmed, List.cons_append, Instruction.trimmedAll] at ih ⊢
    rw [ih]

/-- Trimming leaves all that code can see as it is. -/
def Translation.trimming : Translation where
  operand := id
  block := Block.trimmed
  scopes := id
  fault := id
  block_nil := rfl
  scopes_initial := rfl
  scopes_inherit _ := rfl
  scopes_leave _ := rfl
  evaluate before source := by
    change before.evaluate source = _
    cases before.evaluate source <;> rfl
  fault_unknownSubroutine _ := rfl
  fault_callDepth _ := rfl

/-- The program with the bodies of its subroutines trimmed. -/
def Program.trimmed (program : Program) : Program :=
  program.translated fun _ => .trimming

theorem Program.body?_trimmed (program : Program) (name : String) :
    program.trimmed.body? name = (program.body? name).map Block.trimmed :=
  program.body?_translated (fun _ => .trimming) name

/-! ## Runs -/

theorem Branch.trimmedAll_eq_map (branches : List Branch) :
    trimmedAll branches = branches.map Translation.trimming.branch := by
  induction branches with
  | nil => rfl
  | cons branch rest ih =>
    obtain ⟨condition, body⟩ := branch
    rw [trimmedAll, ih]
    rfl

theorem Block.trimmed_cons_conditional (branches : List Branch) (otherwise : Option Block)
    (after : Block) :
    trimmed (.conditional branches otherwise :: after) =
      .conditional (branches.map Translation.trimming.branch) (otherwise.map trimmed) ::
        trimmed after := by
  rw [← Branch.trimmedAll_eq_map]
  cases otherwise <;> rfl

theorem Effect.translated_trimming (effect : Effect) : effect.translated .trimming = effect := by
  obtain ⟨machine, scopes, events, fault⟩ := effect
  cases fault <;> rfl

/-- A trimmed instruction does what it did. What stands behind it is there unless
it ends the block, and then it is not looked at. -/
theorem Translation.faithful_trimming (program : Program) (limits : Limits) :
    Faithful (fun _ => trimming) program limits := by
  intro machine scopes instruction after outer
  cases instruction with
  | conditional branches otherwise =>
    have trimmed : (inside (fun _ => trimming) outer).block
        (.conditional branches otherwise :: after) = _ :=
      Block.trimmed_cons_conditional branches otherwise after
    rw [trimmed]
    exact Step.choose_translated (fun _ => trimming) machine scopes outer after otherwise branches
  | loop condition body =>
    exact Step.iterate_translated (fun _ => trimming) machine scopes outer after condition body
  | exit code => exact Step.exit_translated (fun _ => trimming) machine scopes outer code
  | stop => exact Step.stop_translated (fun _ => trimming) _ machine scopes outer
  | invoke name =>
    exact Step.invoke_translated (fun _ => trimming) machine scopes outer after program limits name
  | _ =>
    exact Step.settle_translated (fun _ => trimming) outer after
      (Effect.translated_trimming _).symm

theorem Ending.translated_trimming :
    Ending.translated (fun _ => .trimming) .trimming = id := by
  funext ending
  obtain ⟨result, machine, scopes⟩ := ending
  cases result <;> rfl

namespace Request

variable (limits : Limits) (machine : Machine) (scopes : Scopes)

/-- Trimming a program changes nothing about how it ends. -/
theorem ending?_execute_trimmed (program : Program) (count : Nat) :
    (execute.run program.trimmed limits machine scopes count).ending? =
      (execute.run program limits machine scopes count).ending? := by
  have translated := run_translated (Translation.faithful_trimming program limits) execute machine
    scopes count
  refine (congrArg Turn.ending? translated).trans ?_
  rw [Turn.ending?_translated, Ending.translated_trimming, Option.map_id_apply]

/-- Nothing behind a `stop` or an `exit` in the same block can matter. Of two
programs that are the same when trimmed, one has ended after so many steps if the
other has, and with the same result, stack, heap, output and scopes. -/
theorem ending?_execute_of_trimmed_eq {first second : Program}
    (same : first.trimmed = second.trimmed) (count : Nat) :
    (execute.run first limits machine scopes count).ending? =
      (execute.run second limits machine scopes count).ending? := by
  rw [← ending?_execute_trimmed, same, ending?_execute_trimmed]

end Request

/-- A program whose entry point halts within a loop, with this block behind the
`exit`. -/
def Program.haltingBefore (unreached : Block) : Program where
  subroutines := [⟨entryPoint, [.loop (.integer 1) (.exit (.integer 3) :: unreached)]⟩]
  sorted := List.pairwise_singleton _ _
  definesEntryPoint := ⟨_, List.mem_singleton_self _, rfl⟩

/-- It halts alike whether or not a call of an unknown subroutine stands there. -/
theorem Request.ending?_haltingBefore :
    (Program.haltingBefore [.invoke "f"]).trimmed = (Program.haltingBefore []).trimmed ∧
    (execute.run (.haltingBefore [.invoke "f"]) .default (.initial (.empty none)) .initial
        2).ending? =
      (execute.run (.haltingBefore []) .default (.initial (.empty none)) .initial 2).ending? ∧
    ∃ ending,
      (execute.run (.haltingBefore []) .default (.initial (.empty none)) .initial 2).ending? =
        some ending ∧
      ending.result = .ok (.halted (.integer 3)) :=
  ⟨rfl, ending?_execute_of_trimmed_eq .default (.initial (.empty none)) .initial rfl 2,
    _, rfl, rfl⟩

end StackScript
