import StackScript.Proofs.Block
import StackScript.Proofs.Run.Nested
import StackScript.Proofs.Scopes

/-!
# The chain of scopes in a run

A branch or a loop body runs in a frame of its own, which is dropped by every
way out of it, and a call runs in a chain of its own, the caller's being kept
beside it. So whatever a block does, and however it ends, the frames around it
bind what they bound, and its own frame has grown by the variables alone that
the block itself assigns or pops.

`Moves` says once what a step can do to scopes and suspensions; both invariants
of this module are read off it.
-/

namespace StackScript

open Scopes (Grown)

/-- The variable that an instruction creates in the frame of its own block, if
no frame binds it. -/
def Instruction.created? : Instruction → Option String
  | .assign _ target => some target
  | .pop target => some target
  | _ => none

/-- The targets of the assignments and pops that stand in a block itself, not
inside its branches and loops. -/
def directTargets (code : Block) : List String :=
  code.filterMap Instruction.created?

theorem directTargets_append_singleton (code : Block) (instruction : Instruction) :
    directTargets (code ++ [instruction]) =
      directTargets code ++ instruction.created?.toList := by
  rw [directTargets, directTargets, List.filterMap_append]
  cases created : instruction.created? <;> simp [created]

/-! ## Giving up what waits -/

/-- What waits for a branch or a loop body, with the rest of the block around. -/
inductive Suspension.Encloses : Suspension → Block → Prop where
  | branch (after : Block) : Encloses (.branch after) after
  | loop (condition : Operand) (body after : Block) : Encloses (.loop condition body after) after

/-- The scopes that are left when all that waits is given up. -/
def Scopes.unwind (scopes : Scopes) : List Suspension → Scopes
  | [] => scopes
  | .branch _ :: outer => unwind scopes.leave outer
  | .loop _ _ _ :: outer => unwind scopes.leave outer
  | .call _ caller _ :: outer => unwind caller outer

@[simp]
theorem Suspension.scopes_abandon (machine : Machine) (scopes : Scopes)
    (outer : List Suspension) : (abandon machine scopes outer).2 = scopes.unwind outer := by
  induction outer generalizing machine scopes with
  | nil => rfl
  | cons suspension outer ih => cases suspension <;> exact ih ..

/-- A block that is given up drops its frame. -/
theorem Suspension.Encloses.unwind_cons {waiting : Suspension} {after : Block}
    (encloses : waiting.Encloses after) (scopes : Scopes) (outer : List Suspension) :
    scopes.unwind (waiting :: outer) = scopes.leave.unwind outer := by
  cases encloses <;> rfl

/-- A call that is given up gives the caller's scopes to what waits for it. -/
@[simp]
theorem Scopes.unwind_append_call (scopes caller : Scopes) (name : String) (after : Block)
    (inner outer : List Suspension) :
    scopes.unwind (inner ++ .call name caller after :: outer) = caller.unwind outer := by
  induction inner generalizing scopes with
  | nil => rfl
  | cons suspension inner ih => cases suspension <;> exact ih _

/-! ## One step -/

/-- The condition of a loop that waits has a value in these scopes. -/
def Suspension.ReadsIn (scopes : Scopes) : Suspension → Prop
  | .loop condition _ _ => scopes.Reads condition
  | _ => True

/-- What one step can do to the scopes and to what waits, with this code left. -/
inductive Moves (scopes : Scopes) : Block → List Suspension → Turn → Prop where
  /-- Past an instruction that opens nothing. -/
  | next {instruction : Instruction} {after : Block} {outer : List Suspension}
      {machine : Machine} {grown : Scopes}
      (writes : Grown scopes instruction.created?.toList grown) :
      Moves scopes (instruction :: after) outer (.ongoing ⟨machine, grown, after, outer⟩)
  /-- Into a branch or a loop body. -/
  | enter {instruction : Instruction} {after body : Block} {outer : List Suspension}
      {machine : Machine} {waiting : Suspension} (encloses : waiting.Encloses after)
      (reads : waiting.ReadsIn scopes) (opens : instruction.created? = none) :
      Moves scopes (instruction :: after) outer
        (.ongoing ⟨machine, scopes.inherit, body, waiting :: outer⟩)
  /-- Out of a branch or a loop body. -/
  | leave {after : Block} {outer : List Suspension} {machine : Machine} {waiting : Suspension}
      (encloses : waiting.Encloses after) :
      Moves scopes [] (waiting :: outer) (.ongoing ⟨machine, scopes.leave, after, outer⟩)
  /-- Into a loop body once more. -/
  | again {after body : Block} {outer : List Suspension} {machine : Machine}
      {waiting : Suspension} (encloses : waiting.Encloses after)
      (reads : waiting.ReadsIn scopes.leave) :
      Moves scopes [] (waiting :: outer)
        (.ongoing ⟨machine, scopes.leave.inherit, body, waiting :: outer⟩)
  /-- Into a subroutine. -/
  | call {name : String} {after body : Block} {outer : List Suspension} {machine : Machine} :
      Moves scopes (.invoke name :: after) outer
        (.ongoing ⟨machine, .initial, body, .call name scopes after :: outer⟩)
  /-- Out of a subroutine, through all blocks that wait inside it. -/
  | return {code : Block} {inner outer : List Suspension} {name : String} {caller : Scopes}
      {after : Block} {machine : Machine}
      (blocks : ∀ waiting ∈ inner, ∃ around, waiting.Encloses around) :
      Moves scopes code (inner ++ .call name caller after :: outer)
        (.ongoing ⟨machine, caller, after, outer⟩)
  /-- Out of everything. -/
  | finish {code : Block} {outer : List Suspension} {ending : Ending}
      (unwound : ending.scopes = scopes.unwind outer)
      (completes : ending.result = .ok .completed → code = [] ∧ outer = []) :
      Moves scopes code outer (.ended ending)

/-- An instruction writes at most the variable that it creates; one that fails
writes nothing. -/
structure Effect.Writes (effect : Effect) (scopes : Scopes) (created : Option String) :
    Prop where
  grown : effect.fault = none → Grown scopes created.toList effect.scopes
  kept : ∀ fault, effect.fault = some fault → effect.scopes = scopes

theorem Effect.Writes.of_success {scopes grown : Scopes} {created : Option String}
    (writes : Grown scopes created.toList grown) (machine : Machine) (events : List Event) :
    Writes ⟨machine, grown, events, none⟩ scopes created where
  grown _ := writes
  kept _ failed := nomatch failed

theorem Effect.Writes.of_failure (scopes : Scopes) (created : Option String) (machine : Machine)
    (events : List Event) (fault : Fault) :
    Writes ⟨machine, scopes, events, some fault⟩ scopes created where
  grown succeeded := nomatch succeeded
  kept _ _ := rfl

/-- An instruction that leaves the scopes alone. -/
theorem Effect.Writes.of_same {effect : Effect} {scopes : Scopes}
    (same : effect.scopes = scopes) : effect.Writes scopes none where
  grown _ := same ▸ Grown.refl _
  kept _ _ := same

open Effect

namespace Machine

variable (machine : Machine) (scopes : Scopes)

theorem writes_assign (source : Operand) (target : String) :
    (machine.assign scopes source target).Writes scopes (some target) := by
  simp only [assign]
  split
  · exact Writes.of_success (Grown.assign ..) _ _
  · exact Writes.of_failure ..

theorem writes_pop (target : String) :
    (machine.pop scopes target).Writes scopes (some target) := by
  simp only [pop]
  split
  · exact Writes.of_success (Grown.assign ..) _ _
  · exact Writes.of_failure ..

theorem writes_push (source : Operand) : (machine.push scopes source).Writes scopes none := by
  simp only [push]
  split <;> exact Writes.of_same rfl

theorem writes_print (source : Operand) : (machine.print scopes source).Writes scopes none := by
  simp only [print]
  split <;> exact Writes.of_same rfl

/-- A changed variable was bound before. -/
theorem writes_update (target : String) (change : Value → Except Fault Value) :
    (machine.update scopes target change).Writes scopes none := by
  simp only [update, Scopes.resolve]
  cases found : scopes.find? target with
  | none => exact Writes.of_same rfl
  | some value =>
    have bound := Scopes.binds_of_find?_eq_some found
    cases changed : change value with
    | error fault =>
      simp only [changed]
      exact Writes.of_same rfl
    | ok result =>
      simp only [changed]
      exact Writes.of_success (Grown.assign_of_binds bound result) _ _

theorem writes_updateWithPopped (op : Mnemonic) (target : String)
    (combine : Value → Value → Except Fault Value) :
    (machine.updateWithPopped scopes op target combine).Writes scopes none := by
  simp only [updateWithPopped]
  split
  · exact writes_update ..
  · exact Writes.of_same rfl

theorem writes_bitwise (op : BitwiseOp) (target : String) :
    (machine.bitwise scopes op target).Writes scopes none := by
  cases op with
  | and | or | xor => exact writes_updateWithPopped ..
  | negate => exact writes_update ..
  | not => exact machine.writes_update scopes target fun value => .ok (BitwiseOp.logicalNot value)

end Machine

/-! ### Inversion -/

theorem Suspension.noBlocks : ∀ waiting ∈ [], ∃ around, Encloses waiting around := by
  simp

/-- Where `stop` ends: at the nearest caller, through all blocks that wait
inside it, or with the run. -/
inductive Stops (scopes : Scopes) : List Suspension → Turn → Prop where
  | back {inner outer : List Suspension} {name : String} {caller : Scopes} {after : Block}
      {machine : Machine} (blocks : ∀ waiting ∈ inner, ∃ around, waiting.Encloses around) :
      Stops scopes (inner ++ .call name caller after :: outer)
        (.ongoing ⟨machine, caller, after, outer⟩)
  | ended {outer : List Suspension} {machine : Machine} :
      Stops scopes outer (.ended ⟨.ok .stopped, machine, scopes.unwind outer⟩)

/-- Through one more block. -/
theorem Stops.past {scopes : Scopes} {after : Block} {waiting : Suspension}
    {outer : List Suspension} {turn : Turn} (stops : Stops scopes.leave outer turn)
    (encloses : waiting.Encloses after) : Stops scopes (waiting :: outer) turn := by
  cases stops with
  | @back inner outer name caller after machine blocks =>
    have allBlocks : ∀ block ∈ waiting :: inner, ∃ around, block.Encloses around :=
      List.forall_mem_cons.mpr ⟨⟨_, encloses⟩, blocks⟩
    exact .back allBlocks
  | ended =>
    rw [← encloses.unwind_cons]
    exact .ended

theorem Stops.moves {scopes : Scopes} {outer : List Suspension} {turn : Turn}
    (stops : Stops scopes outer turn) (code : Block) : Moves scopes code outer turn := by
  cases stops with
  | back blocks => exact .return blocks
  | ended => exact .finish rfl nofun

namespace Step

open Suspension

variable (program : Program) (limits : Limits) (machine : Machine) (scopes : Scopes)
  (after : Block) (outer : List Suspension)

/-- A fault gives up all that waits. -/
theorem moves_fault (code : Block) (fault : Fault) :
    Moves scopes code outer (.finish (.error fault) machine scopes outer) :=
  .finish (Suspension.scopes_abandon machine scopes outer) nofun

/-- So does `exit`. -/
theorem moves_halted (code : Block) (value : Value) :
    Moves scopes code outer (.finish (.ok (.halted value)) machine scopes outer) :=
  .finish (Suspension.scopes_abandon machine scopes outer) nofun

theorem moves_settle {instruction : Instruction} {effect : Effect}
    (writes : effect.Writes scopes instruction.created?) :
    Moves scopes (instruction :: after) outer (settle effect after outer).turn := by
  obtain ⟨machine, written, events, fault⟩ := effect
  cases fault with
  | none => exact .next (writes.grown rfl)
  | some fault =>
    have kept : written = scopes := writes.kept fault rfl
    rw [kept]
    exact moves_fault machine scopes outer _ fault

/-- A loop goes into its body or past it, or ends the run for its condition. -/
theorem iterate_cases (condition : Operand) (body : Block) :
    (scopes.Reads condition ∧ (iterate machine scopes condition body after outer).turn =
        .ongoing ⟨machine, scopes.inherit, body, .loop condition body after :: outer⟩) ∨
      (iterate machine scopes condition body after outer).turn =
        .ongoing ⟨machine, scopes, after, outer⟩ ∨
      ∃ fault, scopes.evaluate condition = .error fault ∧
        (iterate machine scopes condition body after outer).turn =
          .finish (.error fault) machine scopes outer := by
  simp only [iterate]
  split
  · rename_i fault failed
    exact .inr (.inr ⟨fault, failed, rfl⟩)
  · rename_i value evaluated
    split
    · exact .inl ⟨⟨value, evaluated⟩, rfl⟩
    · exact .inr (.inl rfl)

/-- A conditional goes into one of its blocks or past all of them, or ends the
run for a condition. -/
theorem choose_cases (otherwise : Option Block) (branches : List Branch) :
    (∃ body ∈ (Instruction.conditional branches otherwise).blocks,
      (choose machine scopes otherwise after outer branches).turn =
        .ongoing ⟨machine, scopes.inherit, body, .branch after :: outer⟩) ∨
      (choose machine scopes otherwise after outer branches).turn =
        .ongoing ⟨machine, scopes, after, outer⟩ ∨
      ∃ fault, (choose machine scopes otherwise after outer branches).turn =
        .finish (.error fault) machine scopes outer := by
  induction branches with
  | nil =>
    cases otherwise with
    | none => exact .inr (.inl rfl)
    | some body => exact .inl ⟨body, List.mem_singleton_self body, rfl⟩
  | cons branch rest ih =>
    obtain ⟨condition, body⟩ := branch
    simp only [choose]
    split
    · rename_i fault failed
      exact .inr (.inr ⟨fault, rfl⟩)
    · split
      · exact .inl ⟨body, List.mem_cons_self, rfl⟩
      · rcases ih with ⟨chosen, held, entered⟩ | past | failed
        · exact .inl ⟨chosen, List.mem_cons_of_mem _ held, entered⟩
        · exact .inr (.inl past)
        · exact .inr (.inr failed)

/-- A call keeps the scopes that it is made in, or ends the run. -/
theorem invoke_cases (name : String) :
    (∃ body, (invoke program limits machine scopes name after outer).turn =
        .ongoing ⟨{ machine with depth := machine.depth + 1 }, .initial, body,
          .call name scopes after :: outer⟩) ∨
      ∃ fault, (invoke program limits machine scopes name after outer).turn =
        .finish (.error fault) machine scopes outer := by
  simp only [invoke]
  split
  · exact .inr ⟨_, rfl⟩
  · split
    · exact .inr ⟨_, rfl⟩
    · rename_i body found shallow
      exact .inl ⟨body, rfl⟩

theorem stops : Stops scopes outer (stop machine scopes outer).turn := by
  induction outer generalizing scopes with
  | nil => exact .ended
  | cons suspension outer ih =>
    cases suspension with
    | branch after => exact (ih scopes.leave).past (.branch after)
    | loop condition body after => exact (ih scopes.leave).past (.loop condition body after)
    | call name caller after => exact .back noBlocks

theorem moves_perform (instruction : Instruction) :
    Moves scopes (instruction :: after) outer
      (perform program limits machine scopes after outer instruction).turn := by
  cases instruction with
  | assign source target => exact moves_settle _ _ _ (machine.writes_assign scopes source target)
  | pop target => exact moves_settle _ _ _ (machine.writes_pop scopes target)
  | push source => exact moves_settle _ _ _ (machine.writes_push scopes source)
  | print source => exact moves_settle _ _ _ (machine.writes_print scopes source)
  | arithmetic op target =>
    exact moves_settle _ _ _ (machine.writes_updateWithPopped scopes op.mnemonic target _)
  | bitwise op target => exact moves_settle _ _ _ (machine.writes_bitwise scopes op target)
  | store | load => exact moves_settle _ _ _ (.of_same rfl)
  | exit code =>
    simp only [perform, exit]
    split
    · exact moves_fault ..
    · exact moves_halted ..
  | conditional branches otherwise =>
    rcases choose_cases machine scopes after outer otherwise branches with
      ⟨body, held, entered⟩ | past | ⟨fault, ended⟩
    · rw [perform, entered]
      exact .enter (.branch after) trivial rfl
    · rw [perform, past]
      exact .next (.refl scopes)
    · rw [perform, ended]
      exact moves_fault ..
  | loop condition body =>
    rcases iterate_cases machine scopes after outer condition body with
      ⟨reads, entered⟩ | past | ⟨fault, failed, ended⟩
    · rw [perform, entered]
      exact .enter (.loop condition body after) reads rfl
    · rw [perform, past]
      exact .next (.refl scopes)
    · rw [perform, ended]
      exact moves_fault ..
  | stop => exact (stops machine scopes outer).moves (.stop :: after)
  | invoke name =>
    rcases invoke_cases program limits machine scopes after outer name with
      ⟨body, called⟩ | ⟨fault, ended⟩
    · rw [perform, called]
      exact .call
    · rw [perform, ended]
      exact moves_fault ..

theorem moves_resume : Moves scopes [] outer (resume machine scopes outer).turn := by
  cases outer with
  | nil => exact .finish rfl fun _ => ⟨rfl, rfl⟩
  | cons suspension outer =>
    cases suspension with
    | branch after => exact .leave (.branch after)
    | call name caller after => exact .return noBlocks
    | loop condition body after =>
      rcases iterate_cases machine scopes.leave after outer condition body with
        ⟨reads, entered⟩ | past | ⟨fault, failed, ended⟩
      · rw [resume, entered]
        exact .again (.loop condition body after) reads
      · rw [resume, past]
        exact .leave (.loop condition body after)
      · rw [resume, ended]
        exact .finish (Suspension.scopes_abandon machine scopes.leave outer) nofun

end Step

/-- Every step moves in one of these ways. -/
theorem Activity.moves (program : Program) (limits : Limits) (activity : Activity) :
    Moves activity.scopes activity.code activity.suspended
      (activity.step program limits).turn := by
  obtain ⟨machine, scopes, code, outer⟩ := activity
  cases code with
  | nil => exact Step.moves_resume machine scopes outer
  | cons instruction after =>
    exact Step.moves_perform program limits machine scopes after outer instruction

/-! ## The chain beneath what waits -/

/-- A block begun in the scopes `before` has been run up to `rest`, in scopes
that have grown by what the finished part writes itself. -/
def Progress (before : Scopes) (block : Block) (scopes : Scopes) (rest : Block) : Prop :=
  ∃ done, block = done ++ rest ∧ Grown before (directTargets done) scopes

/-- The scopes under all that waits, with the rest of the block that they belong
to, are those of a block in progress. -/
def ProgressBeneath (before : Scopes) (block : Block) : Scopes → Block → List Suspension → Prop
  | scopes, rest, [] => Progress before block scopes rest
  | scopes, _, .branch after :: outer =>
    scopes.outer ≠ [] ∧ ProgressBeneath before block scopes.leave after outer
  | scopes, _, .loop _ _ after :: outer =>
    scopes.outer ≠ [] ∧ ProgressBeneath before block scopes.leave after outer
  | _, _, .call _ caller after :: outer => ProgressBeneath before block caller after outer

namespace Progress

variable {before scopes grown : Scopes} {block rest : Block} {instruction : Instruction}

/-- Past one more instruction. -/
theorem next (progress : Progress before block scopes (instruction :: rest))
    (writes : Grown scopes instruction.created?.toList grown) :
    Progress before block grown rest := by
  obtain ⟨done, rfl, sinceBefore⟩ := progress
  refine ⟨done ++ [instruction], by simp, ?_⟩
  rw [directTargets_append_singleton]
  exact sinceBefore.trans writes

/-- Growth by nothing goes unnoticed. -/
theorem same (progress : Progress before block scopes rest) (same : Grown scopes [] grown) :
    Progress before block grown rest := by
  obtain ⟨done, rfl, sinceBefore⟩ := progress
  have sinceBefore := sinceBefore.trans same
  rw [List.append_nil] at sinceBefore
  exact ⟨done, rfl, sinceBefore⟩

end Progress

namespace ProgressBeneath

variable {before scopes grown : Scopes} {block code after rest : Block}
  {outer : List Suspension} {waiting : Suspension} {instruction : Instruction}

/-- Beneath a branch or a loop body there is an enclosing frame. -/
theorem cons_iff (encloses : waiting.Encloses after) :
    ProgressBeneath before block scopes code (waiting :: outer) ↔
      scopes.outer ≠ [] ∧ ProgressBeneath before block scopes.leave after outer := by
  cases encloses <;> rfl

/-- Growth by nothing goes unnoticed, at any depth. -/
theorem same (beneath : ProgressBeneath before block scopes code outer)
    (same : Grown scopes [] grown) : ProgressBeneath before block grown code outer := by
  induction outer generalizing scopes grown code with
  | nil => exact Progress.same beneath same
  | cons waiting outer ih =>
    cases waiting with
    | branch after | loop condition body after =>
      obtain ⟨enclosed, beneath⟩ := beneath
      obtain ⟨stillEnclosed, sameLeft⟩ := same.leave enclosed
      exact ⟨stillEnclosed, ih beneath sameLeft⟩
    | call name caller after => exact beneath

/-- Past one more instruction. What it writes inside a waiting block is gone
with the frame of that block. -/
theorem next (beneath : ProgressBeneath before block scopes (instruction :: rest) outer)
    (writes : Grown scopes instruction.created?.toList grown) :
    ProgressBeneath before block grown rest outer := by
  cases outer with
  | nil => exact Progress.next beneath writes
  | cons waiting outer =>
    cases waiting with
    | branch after | loop condition body after =>
      obtain ⟨enclosed, beneath⟩ := beneath
      obtain ⟨stillEnclosed, sameLeft⟩ := writes.leave enclosed
      exact ⟨stillEnclosed, beneath.same sameLeft⟩
    | call name caller after => exact beneath

/-- Out of a call, through the blocks that wait inside it. -/
theorem of_append_call {name : String} {caller : Scopes} {inner : List Suspension}
    (beneath : ProgressBeneath before block scopes code
      (inner ++ .call name caller after :: outer)) :
    ProgressBeneath before block caller after outer := by
  induction inner generalizing scopes code with
  | nil => exact beneath
  | cons waiting inner ih =>
    cases waiting with
    | branch | loop => exact ih beneath.2
    | call => exact ih beneath

/-- Giving up all that waits leaves the scopes of a block in progress. -/
theorem unwind (beneath : ProgressBeneath before block scopes code outer) :
    ∃ rest, Progress before block (scopes.unwind outer) rest := by
  induction outer generalizing scopes code with
  | nil => exact ⟨code, beneath⟩
  | cons waiting outer ih =>
    cases waiting with
    | branch | loop => exact ih beneath.2
    | call => exact ih beneath

end ProgressBeneath

namespace Turn

/-- A turn of the run of a block that was begun in the scopes `before`: beneath
all that waits, or left at the end, are the scopes of the block in progress. A
run that completes has come to the end of the block. -/
def KeepsChain (before : Scopes) (block : Block) : Turn → Prop
  | .ongoing activity =>
    ProgressBeneath before block activity.scopes activity.code activity.suspended
  | .ended ending =>
    ∃ rest, Progress before block ending.scopes rest ∧
      (ending.result = .ok .completed → rest = [])

variable {program : Program} {limits : Limits} {before : Scopes} {block : Block}

/-- Every move keeps the chain. -/
theorem keepsChain_of_moves {scopes : Scopes} {code : Block} {outer : List Suspension} {turn : Turn}
    (moves : Moves scopes code outer turn)
    (beneath : ProgressBeneath before block scopes code outer) :
    turn.KeepsChain before block := by
  cases moves with
  | next writes => exact beneath.next writes
  | enter encloses reads opens =>
    have past : Grown scopes (Option.toList none) scopes := .refl scopes
    rw [← opens] at past
    exact (ProgressBeneath.cons_iff encloses).mpr ⟨List.cons_ne_nil _ _, beneath.next past⟩
  | leave encloses => exact ((ProgressBeneath.cons_iff encloses).mp beneath).2
  | again encloses reads =>
    have beneathLeft := ((ProgressBeneath.cons_iff encloses).mp beneath).2
    exact (ProgressBeneath.cons_iff encloses).mpr ⟨List.cons_ne_nil _ _, beneathLeft⟩
  | call => exact beneath.next (.refl scopes)
  | «return» blocks => exact beneath.of_append_call
  | @finish code outer ending unwound completes =>
    by_cases completed : ending.result = .ok .completed
    · obtain ⟨rfl, rfl⟩ := completes completed
      rw [Scopes.unwind] at unwound
      refine ⟨[], ?_, fun _ => rfl⟩
      rw [unwound]
      exact beneath
    · obtain ⟨rest, progress⟩ := beneath.unwind
      rw [← unwound] at progress
      exact ⟨rest, progress, fun completes => absurd completes completed⟩

/-- One step keeps the chain. -/
theorem keepsChain_step (turn : Turn) (keeps : turn.KeepsChain before block) :
    (turn.step program limits).turn.KeepsChain before block := by
  cases turn with
  | ended ending => exact keeps
  | ongoing activity => exact keepsChain_of_moves (activity.moves program limits) keeps

/-- So does a run. -/
theorem keepsChain_advance {turn : Turn} (keeps : turn.KeepsChain before block) (count : Nat) :
    (turn.advance program limits count).KeepsChain before block :=
  advance_induction (KeepsChain before block) keeps keepsChain_step count

end Turn

/-! ## Calls -/

namespace Turn

/-- A call, or something inside it, is being run. -/
def Inside (call : Suspension) (outer : List Suspension) (turn : Turn) : Prop :=
  ∃ activity inner, turn = .ongoing activity ∧ activity.suspended = inner ++ call :: outer

variable {program : Program} {limits : Limits} {name : String} {caller : Scopes} {after : Block}
  {outer : List Suspension}

/-- A move inside a call stays inside it, or goes on after the call in the
scopes that the caller had, or ends the run by giving up these scopes. -/
theorem inside_of_moves {scopes : Scopes} {code : Block} {inner : List Suspension} {turn : Turn}
    (moves : Moves scopes code (inner ++ .call name caller after :: outer) turn) :
    turn.Inside (.call name caller after) outer ∨
      (∃ machine, turn = .ongoing ⟨machine, caller, after, outer⟩) ∨
      ∃ ending, turn = .ended ending ∧ ending.scopes = caller.unwind outer := by
  generalize suspendedEq : inner ++ .call name caller after :: outer = suspended at moves
  cases moves with
  | next writes => exact .inl ⟨_, inner, rfl, suspendedEq.symm⟩
  | @enter _ _ _ _ _ waiting encloses reads opens =>
    exact .inl ⟨_, waiting :: inner, rfl, congrArg (waiting :: ·) suspendedEq.symm⟩
  | leave encloses =>
    cases inner with
    | nil =>
      cases suspendedEq
      cases encloses
    | cons waiting inner =>
      cases suspendedEq
      exact .inl ⟨_, inner, rfl, rfl⟩
  | again encloses reads => exact .inl ⟨_, inner, rfl, suspendedEq.symm⟩
  | call => exact .inl ⟨_, _ :: inner, rfl, congrArg (_ :: ·) suspendedEq.symm⟩
  | @«return» code through beyond callee back around machine blocks =>
    -- The nearest call is this one or one inside it, as only blocks lie before it.
    rcases List.append_eq_append_iff.mp suspendedEq with
      ⟨between, rfl, endsEq⟩ | ⟨between, rfl, endsEq⟩
    · cases between with
      | nil =>
        cases endsEq
        exact .inr (.inl ⟨machine, rfl⟩)
      | cons first between =>
        cases endsEq
        obtain ⟨around, encloses⟩ := blocks _ (List.mem_append_right _ List.mem_cons_self)
        cases encloses
    · cases between with
      | nil =>
        cases endsEq
        exact .inr (.inl ⟨machine, rfl⟩)
      | cons first between =>
        cases endsEq
        exact .inl ⟨_, between, rfl, rfl⟩
  | @finish _ _ ending unwound completes =>
    rw [← suspendedEq, Scopes.unwind_append_call] at unwound
    exact .inr (.inr ⟨ending, rfl, unwound⟩)

/-- A run inside a call has after some steps gone on after the call, in the
scopes that the caller had, or ended by giving up these scopes, or is inside the
call still. -/
theorem inside_advance {turn : Turn} (inside : turn.Inside (.call name caller after) outer)
    (count : Nat) :
    (turn.advance program limits count).Inside (.call name caller after) outer ∨
      (∃ passed machine, passed ≤ count ∧
        turn.advance program limits passed = .ongoing ⟨machine, caller, after, outer⟩) ∨
      ∃ ending, turn.advance program limits count = .ended ending ∧
        ending.scopes = caller.unwind outer := by
  induction count generalizing turn with
  | zero => exact .inl inside
  | succ count ih =>
    obtain ⟨activity, inner, rfl, suspendedEq⟩ := inside
    have moves := activity.moves program limits
    rw [suspendedEq] at moves
    rcases inside_of_moves moves with still | ⟨machine, back⟩ | ⟨ending, ended, unwound⟩
    · rcases ih still with inside | ⟨passed, machine, passedLe, back⟩ | ended
      · exact .inl inside
      · exact .inr (.inl ⟨passed + 1, machine, Nat.succ_le_succ passedLe, back⟩)
      · exact .inr (.inr ended)
    · exact .inr (.inl ⟨1, machine, Nat.succ_le_succ (Nat.zero_le count), back⟩)
    · refine .inr (.inr ⟨ending, ?_, unwound⟩)
      exact (congrArg (advance program limits count) ended).trans (advance_ended ending count)

/-- From a call instruction on, a run that has ended has gone on after the call
in the scopes that the call was made in, or has given up these scopes. -/
theorem caller_of_ended {machine : Machine} {count : Nat} {ending : Ending}
    (ended : (Turn.ongoing ⟨machine, caller, .invoke name :: after, outer⟩).advance
      program limits count = .ended ending) :
    (∃ passed returned, 0 < passed ∧ passed ≤ count ∧
      (Turn.ongoing ⟨machine, caller, .invoke name :: after, outer⟩).advance
        program limits passed = .ongoing ⟨returned, caller, after, outer⟩) ∨
      ending.scopes = caller.unwind outer := by
  cases count with
  | zero => cases ended
  | succ count =>
    rcases Step.invoke_cases program limits machine caller after outer name with
      ⟨body, called⟩ | ⟨fault, failed⟩
    · have inside : Turn.Inside (.call name caller after) outer
          (Step.invoke program limits machine caller name after outer).turn :=
        ⟨_, [], called, rfl⟩
      rcases inside_advance inside count with
        ⟨activity, inner, still, suspendedEq⟩ | ⟨passed, returned, passedLe, back⟩ |
          ⟨found, foundEnded, unwound⟩
      · cases ended.symm.trans still
      · exact .inl ⟨passed + 1, returned, Nat.succ_pos passed, Nat.succ_le_succ passedLe, back⟩
      · cases ended.symm.trans foundEnded
        exact .inr unwound
    · have settled := congrArg (Turn.advance program limits count) failed
      cases ended.symm.trans (settled.trans (advance_ended _ count))
      exact .inr (Suspension.scopes_abandon machine caller outer)

end Turn

/-- Once a run has ended, it has gone on after every call instruction that it
came to, in the scopes that the call was made in, unless it ended inside the
call and has given up these scopes. -/
theorem Request.caller_of_ended {request : Request} {program : Program} {limits : Limits}
    {machine reached : Machine} {scopes caller : Scopes} {count earlier : Nat} {ending : Ending}
    {name : String} {after : Block} {outer : List Suspension}
    (ended : request.run program limits machine scopes count = .ended ending)
    (atCall : request.run program limits machine scopes earlier =
      .ongoing ⟨reached, caller, .invoke name :: after, outer⟩) :
    (∃ later returned, earlier < later ∧ later ≤ count ∧
      request.run program limits machine scopes later =
        .ongoing ⟨returned, caller, after, outer⟩) ∨
      ending.scopes = caller.unwind outer := by
  rcases Nat.le_total count earlier with countLe | earlierLe
  · obtain ⟨more, rfl⟩ := Nat.exists_eq_add_of_le countLe
    rw [run_add, ended, Turn.advance_ended] at atCall
    cases atCall
  · obtain ⟨more, rfl⟩ := Nat.exists_eq_add_of_le earlierLe
    rw [run_add, atCall] at ended
    rcases Turn.caller_of_ended ended with ⟨passed, returned, positive, passedLe, back⟩ | unwound
    · left
      refine ⟨earlier + passed, returned, Nat.lt_add_of_pos_right positive, ?_, ?_⟩
      · exact Nat.add_le_add_left passedLe earlier
      · rw [run_add, atCall]
        exact back
    · right
      exact unwound

/-! ## Blocks that have ended -/

/-- What a block that has ended has done to the chain that it was run in. -/
structure Ending.Restores (ending : Ending) (before : Scopes) (block : Block) : Prop where
  /-- The chain has as many frames as before. -/
  depth : ending.scopes.depth = before.depth
  /-- Each enclosing frame binds exactly the names that it bound. -/
  outer : ending.scopes.outer.map Frame.binds = before.outer.map Frame.binds
  /-- The innermost frame still binds the names that it bound. -/
  kept : ∀ name, before.innermost.binds name = true →
    ending.scopes.innermost.binds name = true
  /-- Any other name in it is the target of an assignment or a pop that stands
  in the block itself. -/
  added : ∀ name, ending.scopes.innermost.binds name = true →
    before.innermost.binds name = true ∨ name ∈ directTargets block
  /-- Besides the names that were visible before, those are visible that the
  finished part of the block itself writes, and no name from a branch, a loop
  body or a call. A block that completes is finished as a whole. -/
  visible : ∃ done rest, block = done ++ rest ∧
    (ending.result = .ok .completed → rest = []) ∧
    ∀ name, ending.scopes.binds name = true ↔
      before.binds name = true ∨ name ∈ directTargets done

theorem Turn.KeepsChain.restores {ending : Ending} {before : Scopes} {block : Block}
    (keeps : (Turn.ended ending).KeepsChain before block) : ending.Restores before block := by
  obtain ⟨rest, ⟨done, rfl, grown⟩, completes⟩ := keeps
  constructor
  · exact grown.depth
  · exact grown.outer
  · intro name bound
    exact (grown.innermost name).mpr (.inl bound)
  · intro name bound
    rcases (grown.innermost name).mp bound with bound | ⟨mem, free⟩
    · exact .inl bound
    · rw [directTargets, List.filterMap_append]
      exact .inr (List.mem_append_left _ mem)
  · exact ⟨done, rest, rfl, completes, grown.binds_iff⟩

/-- However a block ends, by its last instruction, by `stop`, by `exit` or by
any fault, it restores the chain of scopes that it was run in. A call inside it
gives back the caller's scopes as they were: the run goes on with them after the
call, or it ends in the call and closes, from them on, the blocks that wait.
Inside any branch, loop or call, with any blocks and callers waiting, the block
comes to the same end. -/
theorem Request.executeBlock_restores_scopes (program : Program) (limits : Limits)
    (machine : Machine) (scopes : Scopes) (block : Block) (count : Nat) {ending : Ending}
    (ended : ((executeBlock block).run program limits machine scopes count).ending? =
      some ending) :
    ending.Restores scopes block ∧
    (∀ earlier reached caller name after outer,
      (executeBlock block).run program limits machine scopes earlier =
        .ongoing ⟨reached, caller, .invoke name :: after, outer⟩ →
      (∃ later returned, earlier < later ∧ later ≤ count ∧
        (executeBlock block).run program limits machine scopes later =
          .ongoing ⟨returned, caller, after, outer⟩) ∨
      ending.scopes = caller.unwind outer) ∧
    ∃ length, length ≤ count ∧ ∀ outer,
      (Turn.ongoing ⟨machine, scopes, block, outer⟩).advance program limits length =
        ending.handOver outer := by
  have reached := Turn.ending?_eq_some_iff.mp ended
  have begun : Turn.KeepsChain scopes block (.ongoing ⟨machine, scopes, block, []⟩) :=
    ⟨[], rfl, .refl scopes⟩
  have keeps : Turn.KeepsChain scopes block
      ((executeBlock block).run program limits machine scopes count) :=
    Turn.keepsChain_advance begun count
  rw [reached] at keeps
  refine ⟨keeps.restores, ?_, Turn.advance_within reached⟩
  intro earlier reachedMachine caller name after outer atCall
  exact caller_of_ended reached atCall

/-- A program whose entry point writes a variable of its own and returns. -/
def Program.returning : Program where
  subroutines := [⟨entryPoint, [.assign (.integer 2) "b", .stop]⟩]
  sorted := List.pairwise_singleton _ _
  definesEntryPoint := ⟨_, List.mem_singleton_self _, rfl⟩

/-- A block that calls a subroutine and then ends the run inside a branch. -/
def exitInBranch : Block :=
  [.assign (.integer 1) "a", .invoke entryPoint,
    .conditional [⟨.identifier "a", [.assign (.integer 3) "c", .exit (.identifier "c")]⟩] none]

/-- Its own variable is all that is left. -/
theorem Request.exitInBranch_restores_scopes :
    ∃ ending : Ending,
      ((executeBlock exitInBranch).run .returning .default (.initial (.empty none)) .initial
        7).ending? = some ending ∧
      ending.result = .ok (.halted (.integer 3)) ∧
      ending.scopes = ⟨⟨[("a", .integer 1)]⟩, []⟩ ∧
      ending.Restores .initial exitInBranch := by
  have restored := executeBlock_restores_scopes .returning .default (.initial (.empty none))
    .initial exitInBranch 7 rfl
  exact ⟨_, rfl, rfl, rfl, restored.1⟩

end StackScript
