import StackScript.Proofs.Renaming
import StackScript.Proofs.Run.Translation

/-!
# Programs with other variables

The variables of each subroutine of a program are renamed in a way of their own;
the names of the subroutines stay. Since a call sees no variable of its caller,
the renamed program runs step by step as the program does, and a fault names the
new variable of the subroutine that it comes from.
-/

namespace StackScript

/-! ## Code -/

mutual

/-- The instruction with its variables renamed, at every depth. -/
def Instruction.renamed (rename : Renaming) : Instruction → Instruction
  | .assign source target => .assign (source.renamed rename) (rename target)
  | .arithmetic op target => .arithmetic op (rename target)
  | .bitwise op target => .bitwise op (rename target)
  | .conditional branches none => .conditional (Branch.renamedAll rename branches) none
  | .conditional branches (some otherwise) =>
    .conditional (Branch.renamedAll rename branches)
      (some (Instruction.renamedAll rename otherwise))
  | .loop condition body =>
    .loop (condition.renamed rename) (Instruction.renamedAll rename body)
  | .push source => .push (source.renamed rename)
  | .pop target => .pop (rename target)
  | .print source => .print (source.renamed rename)
  | .exit code => .exit (code.renamed rename)
  | .stop => .stop
  | .store => .store
  | .load => .load
  | .invoke name => .invoke name

/-- The instructions with their variables renamed. -/
def Instruction.renamedAll (rename : Renaming) : List Instruction → List Instruction
  | [] => []
  | first :: rest => first.renamed rename :: Instruction.renamedAll rename rest

/-- The branches with their variables renamed. -/
def Branch.renamedAll (rename : Renaming) : List Branch → List Branch
  | [] => []
  | ⟨condition, body⟩ :: rest =>
    ⟨condition.renamed rename, Instruction.renamedAll rename body⟩ :: Branch.renamedAll rename rest

end

/-- The block with its variables renamed, at every depth. -/
def Block.renamed (rename : Renaming) (block : Block) : Block :=
  Instruction.renamedAll rename block

/-- Renaming the variables of a subroutine. -/
def Translation.ofRenaming (rename : Renaming) : Translation where
  operand := Operand.renamed rename
  block := Block.renamed rename
  scopes := Scopes.renamed rename
  fault := Fault.renamed rename
  block_nil := rfl
  scopes_initial := rfl
  scopes_inherit _ := rfl
  scopes_leave before := (before.leave_renamed rename).symm
  evaluate before source := before.evaluate_renamed rename source
  fault_unknownSubroutine _ := rfl
  fault_callDepth _ := rfl

theorem Branch.renamedAll_eq_map (rename : Renaming) (branches : List Branch) :
    renamedAll rename branches = branches.map (Translation.ofRenaming rename).branch := by
  induction branches with
  | nil => rfl
  | cons branch rest ih =>
    obtain ⟨condition, body⟩ := branch
    rw [renamedAll, ih]
    rfl

theorem Block.renamed_cons_conditional (rename : Renaming) (branches : List Branch)
    (otherwise : Option Block) (after : Block) :
    renamed rename (.conditional branches otherwise :: after) =
      .conditional (branches.map (Translation.ofRenaming rename).branch)
        (otherwise.map (renamed rename)) :: renamed rename after := by
  rw [← Branch.renamedAll_eq_map]
  cases otherwise <;> rfl

/-- A renamed instruction does the same to the renamed variables. -/
theorem Translation.faithful_ofRenaming (renamings : Option String → Renaming) (program : Program)
    (limits : Limits) :
    Faithful (fun subroutine? => ofRenaming (renamings subroutine?)) program limits := by
  intro machine scopes instruction after outer
  have settled {effect effectOfRenamed : Effect}
      (same : effectOfRenamed = effect.renamed (renamings (Suspension.subroutine? outer))) :=
    Step.settle_translated (fun subroutine? => ofRenaming (renamings subroutine?)) outer after same
  cases instruction with
  | assign source target => exact settled (machine.assign_renamed _ scopes source target)
  | arithmetic op target => exact settled (machine.arithmetic_renamed _ scopes limits op target)
  | bitwise op target => exact settled (machine.bitwise_renamed _ scopes op target)
  | conditional branches otherwise =>
    have renamed : (inside (fun subroutine? => ofRenaming (renamings subroutine?)) outer).block
        (.conditional branches otherwise :: after) = _ :=
      Block.renamed_cons_conditional _ branches otherwise after
    rw [renamed]
    exact Step.choose_translated _ machine scopes outer after otherwise branches
  | loop condition body =>
    exact Step.iterate_translated _ machine scopes outer after condition body
  | push source => exact settled (machine.push_renamed _ scopes source)
  | pop target => exact settled (machine.pop_renamed _ scopes target)
  | print source => exact settled (machine.print_renamed _ scopes source)
  | exit code => exact Step.exit_translated _ machine scopes outer code
  | stop => exact Step.stop_translated _ _ machine scopes outer
  | store => exact settled (machine.store_renamed _ scopes limits)
  | load => exact settled (machine.load_renamed _ scopes)
  | invoke name => exact Step.invoke_translated _ machine scopes outer after program limits name

/-! ## Runs -/

/-- The renaming of a subroutine's code, where code from outside of the program is
left alone. -/
def Renaming.ofCode (renamings : String → Renaming) : Option String → Renaming
  | none => .same
  | some name => renamings name

/-- The program with the variables of each subroutine renamed in its own way, and
the names of the subroutines left alone. -/
def Program.renamed (renamings : String → Renaming) (program : Program) : Program :=
  program.translated fun subroutine? => .ofRenaming (Renaming.ofCode renamings subroutine?)

theorem Program.body?_renamed (renamings : String → Renaming) (program : Program) (name : String) :
    (program.renamed renamings).body? name =
      (program.body? name).map (Block.renamed (renamings name)) :=
  program.body?_translated _ name

/-- What a run leaves behind, with the variable renamed that its fault names. -/
def Ending.renamed (rename : Renaming) (ending : Ending) : Ending :=
  { ending with result := ending.result.mapError (Fault.renamed rename) }

/-- Only the identity of a variable within its subroutine matters. The renamed
program has ended after so many steps if the program has, with the same result,
stack, heap, output and scopes, but that a fault names the new variable of the
subroutine whose code has failed. -/
theorem Request.ending?_execute_renamed (renamings : String → Renaming) (program : Program)
    (limits : Limits) (machine : Machine) (scopes : Scopes) (count : Nat) :
    (execute.run (program.renamed renamings) limits machine scopes count).ending? =
      (execute.run program limits machine scopes count).ending?.map
        (Ending.renamed (Renaming.ofCode renamings
          (execute.endsIn? program limits machine scopes count))) := by
  have faithful := Translation.faithful_ofRenaming (Renaming.ofCode renamings) program limits
  have translated := congrArg Turn.ending? (run_translated faithful execute machine scopes count)
  have outside : (Translation.ofRenaming (Renaming.ofCode renamings none)).scopes scopes = scopes :=
    scopes.renamed_same
  have ending (rename : Renaming) :
      Ending.translated (fun subroutine? => .ofRenaming (Renaming.ofCode renamings subroutine?))
        (.ofRenaming rename) = Ending.renamed rename := by
    funext ending
    exact congrArg (Ending.mk _ _) ending.scopes.renamed_same
  rw [outside, Turn.ending?_translated, ending] at translated
  exact translated

/-- Every name with an underscore in front of it. -/
def Renaming.underscored : Renaming where
  map name := "_" ++ name
  injective first second equal := by simpa using equal

/-- A program whose entry point binds a variable and calls a subroutine that would
read it. -/
def Program.outOfScope : Program where
  subroutines := [⟨"f", [.print (.identifier "x")]⟩,
    ⟨entryPoint, [.assign (.integer 1) "x", .invoke "f"]⟩]
  sorted := by decide
  definesEntryPoint := ⟨_, List.mem_cons_of_mem _ (List.mem_singleton_self _), rfl⟩

/-- The fault names the variable of the subroutine that has been called. -/
theorem Request.outOfScope_renamed :
    (execute.run (Program.outOfScope.renamed fun name =>
        if name = "f" then .underscored else .same) .default (.initial (.empty none)) .initial
        3).ending?.map Ending.result = some (.error (.unboundName "_x")) := by
  rw [ending?_execute_renamed]
  rfl

end StackScript
