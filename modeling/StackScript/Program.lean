import StackScript.Instruction

/-!
# Programs

A program is a set of subroutines with different names, one of them `main`.
`Program.ofSubroutines` takes the definitions in the order of the text and
keeps them in the order of their names, so that the order of the text is
forgotten. Names are compared by code points, which is also the order of their
UTF-8 bytes.
-/

namespace StackScript

/-- A named block. -/
structure Subroutine where
  name : String
  body : Block
  deriving Inhabited

/-- Why definitions do not make a program. -/
inductive ProgramError where
  /-- A definition repeats the name of an earlier one. -/
  | duplicateSubroutine (name : String)
  /-- Nothing is named `main`. -/
  | missingEntryPoint
  deriving DecidableEq

/-- The text of a program error. -/
def ProgramError.message : ProgramError → String
  | .duplicateSubroutine name => "subroutine '" ++ name ++ "' is defined more than once"
  | .missingEntryPoint => "no 'main' subroutine defined"

/-- The subroutine that a run starts with. -/
def entryPoint : String := "main"

/-- The subroutines of a program in the order of their names. -/
structure Program where
  subroutines : List Subroutine
  /-- Names increase, so no name occurs twice. -/
  sorted : subroutines.Pairwise fun earlier later => earlier.name < later.name
  /-- There is a subroutine to start with. -/
  definesEntryPoint : ∃ subroutine ∈ subroutines, subroutine.name = entryPoint

namespace Subroutine

/-- Inserts a definition before the first one with a greater name. -/
def insertSorted (new : Subroutine) : List Subroutine → List Subroutine
  | [] => [new]
  | first :: rest =>
    if new.name < first.name then new :: first :: rest else first :: insertSorted new rest

/-- Insertion adds the new definition and nothing else. -/
@[simp]
theorem mem_insertSorted {new subroutine : Subroutine} {definitions : List Subroutine} :
    subroutine ∈ insertSorted new definitions ↔
      subroutine = new ∨ subroutine ∈ definitions := by
  induction definitions with
  | nil => simp [insertSorted]
  | cons first rest ih =>
    simp only [insertSorted]
    split
    · simp
    · simp only [List.mem_cons, ih]
      constructor
      · rintro (h | h | h) <;> simp [h]
      · rintro (h | h | h) <;> simp [h]

/-- Inserting a name that is not there yet keeps the order strict. -/
theorem pairwise_insertSorted {new : Subroutine} {definitions : List Subroutine}
    (sorted : definitions.Pairwise fun earlier later => earlier.name < later.name)
    (fresh : ∀ subroutine ∈ definitions, subroutine.name ≠ new.name) :
    (insertSorted new definitions).Pairwise fun earlier later => earlier.name < later.name := by
  induction definitions with
  | nil => simp [insertSorted]
  | cons first rest ih =>
    obtain ⟨firstLess, restSorted⟩ := List.pairwise_cons.mp sorted
    have firstFresh := fresh first (by simp)
    simp only [insertSorted]
    split
    · rename_i newLess
      refine List.pairwise_cons.mpr ⟨?_, sorted⟩
      intro subroutine mem
      rcases List.mem_cons.mp mem with rfl | mem
      · exact newLess
      · exact String.lt_trans newLess (firstLess subroutine mem)
    · rename_i notLess
      refine List.pairwise_cons.mpr ⟨?_, ih restSorted fun s mem => fresh s (by simp [mem])⟩
      intro subroutine mem
      rcases mem_insertSorted.mp mem with rfl | mem
      · apply String.not_le.mp
        intro reverse
        exact firstFresh (String.le_antisymm reverse (String.not_lt.mp notLess)).symm
      · exact firstLess subroutine mem

/-- The definitions in the order of their names. -/
def sort (definitions : List Subroutine) : List Subroutine :=
  definitions.foldr insertSorted []

@[simp]
theorem sort_nil : sort [] = [] :=
  rfl

@[simp]
theorem sort_cons (first : Subroutine) (rest : List Subroutine) :
    sort (first :: rest) = insertSorted first (sort rest) :=
  rfl

/-- Sorting loses nothing and invents nothing. -/
@[simp]
theorem mem_sort {subroutine : Subroutine} {definitions : List Subroutine} :
    subroutine ∈ sort definitions ↔ subroutine ∈ definitions := by
  induction definitions with
  | nil => simp
  | cons first rest ih => simp [ih]

/-- Different names come out in strictly increasing order. -/
theorem pairwise_sort {definitions : List Subroutine}
    (distinct : (definitions.map Subroutine.name).Nodup) :
    (sort definitions).Pairwise fun earlier later => earlier.name < later.name := by
  induction definitions with
  | nil => simp
  | cons first rest ih =>
    obtain ⟨notMem, restDistinct⟩ := List.nodup_cons.mp distinct
    refine pairwise_insertSorted (ih restDistinct) fun subroutine mem nameEq => notMem ?_
    exact nameEq ▸ List.mem_map_of_mem (mem_sort.mp mem)

/-- The first name that repeats an earlier one; `seen` holds the names before
the list. -/
def firstRepeated? (seen : List String) : List Subroutine → Option String
  | [] => none
  | first :: rest =>
    if first.name ∈ seen then some first.name else firstRepeated? (first.name :: seen) rest

/-- No name repeats exactly if the names are different from each other and from
those before. -/
theorem firstRepeated?_eq_none_iff {seen : List String} {definitions : List Subroutine} :
    firstRepeated? seen definitions = none ↔
      (definitions.map Subroutine.name).Nodup ∧
        ∀ subroutine ∈ definitions, subroutine.name ∉ seen := by
  induction definitions generalizing seen with
  | nil => simp [firstRepeated?]
  | cons first rest ih =>
    simp only [firstRepeated?]
    split
    · simp_all
    · rename_i notSeen
      simp only [ih, List.map_cons, List.nodup_cons, List.mem_cons, not_or, List.mem_map]
      constructor
      · rintro ⟨distinct, fresh⟩
        refine ⟨⟨?_, distinct⟩, ?_⟩
        · rintro ⟨subroutine, mem, nameEq⟩
          exact (fresh subroutine mem).1 nameEq
        · rintro subroutine (rfl | mem)
          · exact notSeen
          · exact (fresh subroutine mem).2
      · rintro ⟨⟨notMem, distinct⟩, fresh⟩
        exact ⟨distinct, fun subroutine mem =>
          ⟨fun nameEq => notMem ⟨subroutine, mem, nameEq⟩, fresh subroutine (.inr mem)⟩⟩

end Subroutine

namespace Program

/-- The program of these definitions. A repeated name is reported before a
missing entry point, and of several repetitions the first. -/
def ofSubroutines (definitions : List Subroutine) : Except ProgramError Program :=
  match repeated : Subroutine.firstRepeated? [] definitions with
  | some name => .error (.duplicateSubroutine name)
  | none =>
    if entry : ∃ subroutine ∈ definitions, subroutine.name = entryPoint then
      .ok {
        subroutines := Subroutine.sort definitions
        sorted := Subroutine.pairwise_sort (Subroutine.firstRepeated?_eq_none_iff.mp repeated).1
        definesEntryPoint := by simpa using entry }
    else .error .missingEntryPoint

/-- The block of the subroutine with this name. -/
def body? (program : Program) (name : String) : Option Block :=
  (program.subroutines.find? fun subroutine => subroutine.name == name).map Subroutine.body

/-- A program has a block to start with. -/
theorem isSome_body?_entryPoint (program : Program) : (program.body? entryPoint).isSome := by
  obtain ⟨subroutine, mem, nameEq⟩ := program.definesEntryPoint
  simp only [body?, Option.isSome_map, List.find?_isSome]
  exact ⟨subroutine, mem, by simp [nameEq]⟩

/-- The block that a run starts with. -/
def entry (program : Program) : Block :=
  (program.body? entryPoint).get program.isSome_body?_entryPoint

/-- The number of subroutines. -/
def size (program : Program) : Nat :=
  program.subroutines.length

end Program

end StackScript
