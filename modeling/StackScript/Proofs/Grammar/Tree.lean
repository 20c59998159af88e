import Mathlib.Data.List.Basic
import Mathlib.Data.List.Induction
import StackScript.Proofs.Grammar.Derivation
import StackScript.Proofs.Tree

/-!
# Tokens and trees

The tokens that spell a tree are keywords, line breaks and the tree's own names
and literals, and they nest as deep as the tree does. Every tree whose
conditionals have branches is spelled by some tokens.
-/

namespace StackScript.Grammar

/-! ## Names and literals -/

/-- The names and literals of a phrase are allowed, and its conditionals have
branches. -/
def Phrase.ConsistsOf (allowed : Token → Prop) : Phrase → Prop
  | .value operand => allowed operand.token
  | .instruction one => Block.Throughout (Instruction.ConsistsOf allowed) [one]
  | .branches all => (∀ branch ∈ all, allowed branch.condition.token) ∧
      ∀ branch ∈ all, Block.Throughout (Instruction.ConsistsOf allowed) branch.body
  | .sequence all => Block.Throughout (Instruction.ConsistsOf allowed) all
  | .block body => Block.Throughout (Instruction.ConsistsOf allowed) body
  | .subroutine one => one.ConsistsOf allowed
  | .subroutines all => ∀ one ∈ all, one.ConsistsOf allowed
  | .program all => ∀ one ∈ all, one.ConsistsOf allowed

theorem consistsOf_instruction_iff {allowed : Token → Prop} {one : Instruction} :
    (Phrase.instruction one).ConsistsOf allowed ↔
      one.HasBranch ∧ (∀ leaf ∈ one.leaves, allowed leaf) ∧
        ∀ inner ∈ one.blocks, inner.Throughout (Instruction.ConsistsOf allowed) := by
  simp [Phrase.ConsistsOf, Instruction.ConsistsOf, and_assoc]

theorem ne_nil_of_spells_branches {tokens : List Token} {branches : List Branch}
    (spells : Spells tokens (.branches branches)) : branches ≠ [] := by
  cases spells with
  | ifBranch => exact List.cons_ne_nil _ _
  | elifBranch => exact List.append_ne_nil_of_right_ne_nil _ (List.cons_ne_nil _ _)

/-- The tokens of a phrase are allowed exactly if its names and literals are,
where keywords and line breaks are. -/
theorem forall_iff_consistsOf {allowed : Token → Prop} (breaks : allowed .lineBreak)
    (keywords : ∀ word, allowed (.keyword word)) {tokens : List Token} {phrase : Phrase}
    (spells : Spells tokens phrase) : tokens.Forall allowed ↔ phrase.ConsistsOf allowed := by
  have breaksAllowed (count : Nat) : (lineBreaks count).Forall allowed := by
    induction count with
    | zero => trivial
    | succ count ih => exact (List.forall_cons _ _ _).mpr ⟨breaks, ih⟩
  induction spells with
  | integer | float | text | identifier => simp [Phrase.ConsistsOf, Operand.token]
  | assign target value ih =>
    rw [consistsOf_instruction_iff]
    simp [ih, keywords, Phrase.ConsistsOf, Instruction.HasBranch, Instruction.leaves,
      Instruction.blocks]
  | push value ih | print value ih | exit value ih =>
    rw [consistsOf_instruction_iff]
    simp [ih, keywords, Phrase.ConsistsOf, Instruction.HasBranch, Instruction.leaves,
      Instruction.blocks]
  | pop | arithmetic | bitwise | stop | store | load | invoke =>
    rw [consistsOf_instruction_iff]
    simp [keywords, Instruction.HasBranch, Instruction.leaves, Instruction.blocks]
  | loop count value block valueIH blockIH =>
    rw [consistsOf_instruction_iff]
    simp [valueIH, blockIH, breaksAllowed, keywords, Phrase.ConsistsOf, Instruction.HasBranch,
      Instruction.leaves, Instruction.blocks]
  | ifBranch count value block valueIH blockIH =>
    simp [valueIH, blockIH, breaksAllowed, keywords, Phrase.ConsistsOf]
  | elifBranch countBefore count before value block beforeIH valueIH blockIH =>
    simp only [List.forall_append, List.forall_cons, beforeIH, valueIH, blockIH, breaksAllowed,
      keywords, Phrase.ConsistsOf, List.forall_mem_append, List.forall_mem_singleton, true_and,
      and_true]
    rw [and_assoc]
    exact and_and_and_comm
  | conditional branches ih =>
    rw [consistsOf_instruction_iff]
    simp [ih, ne_nil_of_spells_branches branches, Phrase.ConsistsOf, Instruction.HasBranch,
      Instruction.leaves, Instruction.blocks]
  | conditionalElse countBefore count before block beforeIH blockIH =>
    rw [consistsOf_instruction_iff]
    simp [beforeIH, blockIH, breaksAllowed, keywords, ne_nil_of_spells_branches before,
      Phrase.ConsistsOf, Instruction.HasBranch, Instruction.leaves, Instruction.blocks, or_imp,
      forall_and, and_assoc]
  | firstInstruction instruction ih => exact ih
  | nextInstruction count before instruction beforeIH ih =>
    simp [beforeIH, ih, breaksAllowed, Phrase.ConsistsOf]
  | emptyBlock count opens =>
    simp [keywords, breaksAllowed, Phrase.ConsistsOf]
  | block countBefore count opens sequence ih =>
    simp [ih, keywords, breaksAllowed, Phrase.ConsistsOf]
  | subroutine name count block ih =>
    simp [ih, breaksAllowed, Phrase.ConsistsOf, Subroutine.ConsistsOf]
  | firstSubroutine subroutine ih =>
    simp [ih, Phrase.ConsistsOf]
  | nextSubroutine count before subroutine beforeIH ih =>
    simp [beforeIH, ih, breaksAllowed, Phrase.ConsistsOf, or_imp, forall_and]
  | program countBefore count subroutines ih =>
    simp [ih, breaksAllowed, Phrase.ConsistsOf]

/-! ## Nesting -/

/-- The tokens close what they open, and nowhere leave more blocks open than this
number. -/
structure Nests (tokens : List Token) (depth : Nat) : Prop where
  balanced : openBlocks tokens = 0
  within_iff : ∀ limit : Nat, NestsWithin limit tokens ↔ depth ≤ limit

namespace Nests

variable {first second tokens : List Token} {token : Token} {depth other : Nat}

theorem nil : Nests [] 0 := by
  constructor
  · rfl
  · intro limit
    simp [NestsWithin]

/-- What stands before a stretch that is balanced nests apart from it. -/
theorem append (before : Nests first depth) (after : Nests second other) :
    Nests (first ++ second) (max depth other) := by
  constructor
  · rw [openBlocks_append, before.balanced, after.balanced]
    rfl
  · intro limit
    rw [Nat.max_le, ← before.within_iff, ← after.within_iff]
    constructor
    · intro within
      constructor
      · intro beginning isBeginning
        exact within beginning (isBeginning.trans (List.prefix_append first second))
      · intro beginning isBeginning
        have bound :=
          within (first ++ beginning) ((List.prefix_append_right_inj first).mpr isBeginning)
        rwa [openBlocks_append, before.balanced, Int.zero_add] at bound
    · rintro ⟨withinFirst, withinSecond⟩ beginning isBeginning
      rcases List.prefix_or_prefix_of_prefix isBeginning (List.prefix_append first second) with
        inFirst | ⟨rest, rfl⟩
      · exact withinFirst beginning inFirst
      · rw [openBlocks_append, before.balanced, Int.zero_add]
        exact withinSecond rest ((List.prefix_append_right_inj first).mp isBeginning)

/-- A token that neither opens nor closes a block may stand in front. -/
theorem cons (neutral : openBlocks [token] = 0) (after : Nests tokens depth) :
    Nests (token :: tokens) depth := by
  have alone : Nests [token] 0 := by
    constructor
    · exact neutral
    · intro limit
      simp only [Nat.zero_le, iff_true]
      intro beginning isBeginning
      rcases List.prefix_cons_iff.mp isBeginning with rfl | ⟨rest, rfl, isNil⟩
      · simp
      · rw [List.prefix_nil.mp isNil, neutral]
        simp
  simpa using alone.append after

theorem lineBreaks (count : Nat) : Nests (lineBreaks count) 0 := by
  induction count with
  | zero => exact nil
  | succ count ih => exact ih.cons rfl

/-- A block nests one deeper than what stands in it. -/
theorem block {opening : Keyword} (opens : opening = .beginWord ∨ opening = .doWord)
    (inside : Nests tokens depth) :
    Nests (.keyword opening :: tokens ++ [.keyword .endWord]) (depth + 1) := by
  have opensOne : openBlocks [.keyword opening] = 1 := by
    rcases opens with rfl | rfl <;> rfl
  have closesOne : openBlocks [.keyword .endWord] = -1 := rfl
  have balanced : openBlocks (.keyword opening :: tokens ++ [.keyword .endWord]) = 0 := by
    rw [List.cons_append, openBlocks_cons, openBlocks_append, inside.balanced, opensOne, closesOne]
    rfl
  refine ⟨balanced, fun limit => ?_⟩
  constructor
  · intro within
    cases limit with
    | zero =>
      have bound := within [.keyword opening] ⟨_, rfl⟩
      rw [opensOne] at bound
      simp at bound
    | succ limit =>
      apply Nat.succ_le_succ
      rw [← inside.within_iff]
      rintro beginning ⟨rest, rfl⟩
      have bound := within (.keyword opening :: beginning) ⟨rest ++ [.keyword .endWord], by simp⟩
      rw [openBlocks_cons, opensOne] at bound
      push_cast at bound
      omega
  · intro deep beginning isBeginning
    rcases List.prefix_concat_iff.mp isBeginning with rfl | isBeginning
    · rw [balanced]
      exact Int.natCast_nonneg limit
    · rcases List.prefix_cons_iff.mp isBeginning with rfl | ⟨rest, rfl, inTokens⟩
      · exact Int.natCast_nonneg limit
      · have bound := (inside.within_iff depth).mpr (Nat.le_refl depth) rest inTokens
        rw [openBlocks_cons, opensOne]
        omega

end Nests

/-- The most blocks that stand inside one another in a phrase. -/
def Phrase.nesting : Phrase → Nat
  | .value _ => 0
  | .instruction one => one.nesting
  | .branches all => Branch.nestingOfAll all
  | .sequence all => Instruction.nestingOfAll all
  | .block body => Block.nesting body
  | .subroutine one => one.body.nesting
  | .subroutines all => Subroutine.nestingOfAll all
  | .program all => Subroutine.nestingOfAll all

/-- The tokens of a phrase nest as deep as its tree. -/
theorem nests_of_spells {tokens : List Token} {phrase : Phrase} (spells : Spells tokens phrase) :
    Nests tokens phrase.nesting := by
  induction spells with
  | integer | float | text | identifier | stop | store | load | invoke => exact Nests.nil.cons rfl
  | pop => exact Nests.cons rfl (Nests.cons rfl Nests.nil)
  | arithmetic op | bitwise op =>
    apply Nests.cons
    · cases op <;> rfl
    · exact Nests.cons rfl .nil
  | assign target value ih => exact (ih.append (Nests.nil.cons rfl)).cons rfl
  | push value ih | print value ih | exit value ih => exact ih.cons rfl
  | loop count value block valueIH blockIH =>
    simpa [Phrase.nesting, Instruction.nesting, Block.nesting] using
      ((valueIH.cons rfl).append (.lineBreaks count)).append blockIH
  | ifBranch count value block valueIH blockIH =>
    simpa [Phrase.nesting, Branch.nestingOfAll, Block.nesting] using
      ((valueIH.cons rfl).append (.lineBreaks count)).append blockIH
  | elifBranch countBefore count before value block beforeIH valueIH blockIH =>
    have neutral : openBlocks [.keyword .elifWord] = 0 := rfl
    have branch := ((valueIH.cons neutral).append (.lineBreaks count)).append blockIH
    simpa [Phrase.nesting, Branch.nestingOfAll, Block.nesting] using
      (beforeIH.append (.lineBreaks countBefore)).append branch
  | conditional branches ih => exact ih
  | conditionalElse countBefore count before block beforeIH blockIH =>
    simpa [Phrase.nesting, Instruction.nesting, Block.nesting] using
      (beforeIH.append (.lineBreaks countBefore)).append
        (((Nests.lineBreaks count).append blockIH).cons rfl)
  | firstInstruction instruction ih =>
    simpa [Phrase.nesting, Instruction.nestingOfAll] using ih
  | nextInstruction count before instruction beforeIH ih =>
    simpa [Phrase.nesting, Instruction.nestingOfAll] using
      (beforeIH.append (.lineBreaks (count + 1))).append ih
  | emptyBlock count opens => exact (Nests.lineBreaks count).block opens
  | block countBefore count opens sequence ih =>
    simpa [Phrase.nesting, Block.nesting] using
      (((Nests.lineBreaks countBefore).append ih).append (.lineBreaks count)).block opens
  | subroutine name count block ih =>
    simpa [Phrase.nesting] using ((Nests.lineBreaks count).append ih).cons rfl
  | firstSubroutine subroutine ih =>
    simpa [Phrase.nesting, Subroutine.nestingOfAll] using ih
  | nextSubroutine count before subroutine beforeIH ih =>
    simpa [Phrase.nesting, Subroutine.nestingOfAll] using
      (beforeIH.append (.lineBreaks (count + 1))).append ih
  | program countBefore count subroutines ih =>
    simpa [Phrase.nesting] using
      ((Nests.lineBreaks countBefore).append ih).append (.lineBreaks count)

/-! ## Every tree is spelled -/

theorem spells_value (operand : Operand) : Spells [operand.token] (.value operand) := by
  cases operand with
  | integer n => exact .integer n
  | float x => exact .float x
  | text s => exact .text s
  | identifier name => exact .identifier name

/-- Instructions that are spelled are spelled as a block. -/
theorem exists_spells_block {block : Block}
    (each : ∀ instruction ∈ block, ∃ tokens, Spells tokens (.instruction instruction)) :
    ∃ tokens, Spells tokens (.block block) := by
  have ready : ∃ tokens, Ready .sequence block.reverse tokens := by
    induction block using List.reverseRecOn with
    | nil => exact ⟨_, .first 0⟩
    | append_singleton earlier instruction ih =>
      obtain ⟨tokens, spells⟩ := each instruction (by simp)
      obtain ⟨before, ready⟩ := ih fun other mem => each other (List.mem_append_left _ mem)
      rw [List.reverse_concat]
      exact ⟨_, (ready.instruction spells).lineBreaks 0⟩
  obtain ⟨tokens, ready⟩ := ready
  have spells := ready.closes .beginWord (.inl rfl)
  rw [List.reverse_reverse] at spells
  exact ⟨_, spells⟩

/-- Branches whose blocks are spelled are spelled, `if` before the first and `elif`
before the others. -/
theorem exists_spells_branches {branches : List Branch} (nonempty : branches ≠ [])
    (each : ∀ branch ∈ branches, ∃ tokens, Spells tokens (.block branch.body)) :
    ∃ tokens, Spells tokens (.branches branches) := by
  induction branches using List.reverseRecOn with
  | nil => exact absurd rfl nonempty
  | append_singleton earlier branch ih =>
    obtain ⟨condition, body⟩ := branch
    obtain ⟨block, spellsBlock⟩ := each ⟨condition, body⟩ (by simp)
    by_cases isFirst : earlier = []
    · subst isFirst
      exact ⟨_, .ifBranch 0 (spells_value condition) spellsBlock⟩
    · obtain ⟨before, spellsBefore⟩ :=
        ih isFirst fun other mem => each other (List.mem_append_left _ mem)
      exact ⟨_, .elifBranch 0 0 spellsBefore (spells_value condition) spellsBlock⟩

/-- Every instruction is spelled if the conditionals in it have branches. -/
theorem exists_spells_instruction (instruction : Instruction)
    (branched : Block.Throughout Instruction.HasBranch [instruction]) :
    ∃ tokens, Spells tokens (.instruction instruction) := by
  induction instruction using Instruction.induction_on_blocks with
  | step outer ih =>
    obtain ⟨own, inside, -⟩ := Block.throughout_cons_iff.mp branched
    have blocks : ∀ block ∈ outer.blocks, ∃ tokens, Spells tokens (.block block) := by
      intro block held
      apply exists_spells_block
      intro inner mem
      exact ih block held inner mem ((inside block held).singleton_of_mem mem)
    cases outer with
    | assign source target => exact ⟨_, .assign target (spells_value source)⟩
    | arithmetic op target => exact ⟨_, .arithmetic op target⟩
    | bitwise op target => exact ⟨_, .bitwise op target⟩
    | conditional branches otherwise =>
      have each : ∀ branch ∈ branches, ∃ tokens, Spells tokens (.block branch.body) := by
        intro branch mem
        exact blocks branch.body (List.mem_append_left _ (List.mem_map_of_mem mem))
      obtain ⟨before, spellsBefore⟩ := exists_spells_branches own each
      cases otherwise with
      | none => exact ⟨_, .conditional spellsBefore⟩
      | some body =>
        obtain ⟨block, spellsBlock⟩ := blocks body (by simp [Instruction.blocks])
        exact ⟨_, .conditionalElse 0 0 spellsBefore spellsBlock⟩
    | loop condition body =>
      obtain ⟨block, spellsBlock⟩ := blocks body List.mem_cons_self
      exact ⟨_, .loop 0 (spells_value condition) spellsBlock⟩
    | push source => exact ⟨_, .push (spells_value source)⟩
    | pop target => exact ⟨_, .pop target⟩
    | print source => exact ⟨_, .print (spells_value source)⟩
    | exit code => exact ⟨_, .exit (spells_value code)⟩
    | stop => exact ⟨_, .stop⟩
    | store => exact ⟨_, .store⟩
    | load => exact ⟨_, .load⟩
    | invoke name => exact ⟨_, .invoke name⟩

/-- So is every list of subroutines that is not empty. -/
theorem exists_spells_program {subroutines : List Subroutine} (nonempty : subroutines ≠ [])
    (branched : ∀ subroutine ∈ subroutines, subroutine.body.Throughout Instruction.HasBranch) :
    ∃ tokens, Spells tokens (.program subroutines) := by
  have spelled : ∃ tokens, Spells tokens (.subroutines subroutines) := by
    induction subroutines using List.reverseRecOn with
    | nil => exact absurd rfl nonempty
    | append_singleton earlier subroutine ih =>
      obtain ⟨name, body⟩ := subroutine
      have bodyBranched : body.Throughout Instruction.HasBranch := branched ⟨name, body⟩ (by simp)
      obtain ⟨block, spellsBlock⟩ := exists_spells_block fun instruction mem =>
        exists_spells_instruction instruction (bodyBranched.singleton_of_mem mem)
      by_cases isFirst : earlier = []
      · subst isFirst
        exact ⟨_, .firstSubroutine (.subroutine name 0 spellsBlock)⟩
      · obtain ⟨before, spellsBefore⟩ :=
          ih isFirst fun other mem => branched other (List.mem_append_left _ mem)
        exact ⟨_, .nextSubroutine 0 spellsBefore (.subroutine name 0 spellsBlock)⟩
  obtain ⟨tokens, spells⟩ := spelled
  exact ⟨_, .program 0 0 spells⟩

end StackScript.Grammar
