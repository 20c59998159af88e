import Mathlib.Data.List.Nodup
import StackScript.Proofs.Run
import StackScript.Proofs.Text.ByteOrder

/-!
# Programs as sets of definitions

Definitions make a program exactly if their names are different and one is `main`. The
program then has each of them once, in the order of the bytes of their names, and nothing
else, so that the order in which they were given is of no account. If a name repeats, the
first repetition is reported, whatever else is wrong.
-/

namespace StackScript

namespace Subroutine

/-! ## Repeated names -/

/-- The name that is reported belongs to the first definition that repeats one. -/
theorem exists_of_firstRepeated?_eq_some {seen : List String} {definitions : List Subroutine}
    {name : String} (repeated : firstRepeated? seen definitions = some name) :
    ∃ before again after, definitions = before ++ again :: after ∧ again.name = name ∧
      (name ∈ seen ∨ name ∈ before.map Subroutine.name) ∧ firstRepeated? seen before = none := by
  induction definitions generalizing seen with
  | nil => cases repeated
  | cons first rest ih =>
    rw [firstRepeated?] at repeated
    split at repeated
    · rename_i isSeen
      cases repeated
      exact ⟨[], first, rest, rfl, rfl, .inl isSeen, rfl⟩
    · rename_i notSeen
      obtain ⟨before, again, after, rfl, isName, earlier, noneEarlier⟩ := ih repeated
      refine ⟨first :: before, again, after, rfl, isName, ?_, ?_⟩
      · rw [List.map_cons, List.mem_cons]
        rw [List.mem_cons] at earlier
        rcases earlier with (isFirst | isSeen) | isBefore
        · exact .inr (.inl isFirst)
        · exact .inl isSeen
        · exact .inr (.inr isBefore)
      · rwa [firstRepeated?, if_neg notSeen]

/-- If a name repeats, the first definition that repeats one is reported. -/
theorem exists_firstRepeated? {definitions : List Subroutine}
    (repeats : ¬ (definitions.map Subroutine.name).Nodup) :
    ∃ before again after, definitions = before ++ again :: after ∧
      again.name ∈ before.map Subroutine.name ∧ (before.map Subroutine.name).Nodup ∧
      firstRepeated? [] definitions = some again.name := by
  cases repeated : firstRepeated? [] definitions with
  | none => exact absurd (firstRepeated?_eq_none_iff.mp repeated).1 repeats
  | some name =>
    obtain ⟨before, again, after, split, rfl, earlier, noneEarlier⟩ :=
      exists_of_firstRepeated?_eq_some repeated
    have inBefore : again.name ∈ before.map Subroutine.name := by simpa using earlier
    exact ⟨before, again, after, split, inBefore, (firstRepeated?_eq_none_iff.mp noneEarlier).1,
      rfl⟩

theorem firstRepeated?_of_nodup {definitions : List Subroutine}
    (distinct : (definitions.map Subroutine.name).Nodup) :
    firstRepeated? [] definitions = none :=
  firstRepeated?_eq_none_iff.mpr ⟨distinct, fun _ _ => List.not_mem_nil⟩

/-! ## Sorting -/

theorem insertSorted_perm (new : Subroutine) (definitions : List Subroutine) :
    (insertSorted new definitions).Perm (new :: definitions) := by
  induction definitions with
  | nil => rfl
  | cons first rest ih =>
    rw [insertSorted]
    split
    · rfl
    · exact (ih.cons first).trans (.swap new first rest)

/-- Sorting only changes the order. -/
theorem sort_perm (definitions : List Subroutine) : (sort definitions).Perm definitions := by
  induction definitions with
  | nil => rfl
  | cons first rest ih => exact (insertSorted_perm first (sort rest)).trans (ih.cons first)

/-- The same definitions in another order are sorted in the same way. -/
theorem sort_eq_of_perm {definitions others : List Subroutine}
    (distinct : (definitions.map Subroutine.name).Nodup) (perm : others.Perm definitions) :
    sort others = sort definitions := by
  have distinctOthers : (others.map Subroutine.name).Nodup := (perm.map _).nodup_iff.mpr distinct
  have antisymmetric (earlier later : Subroutine) (less : earlier.name < later.name)
      (greater : later.name < earlier.name) : earlier = later :=
    absurd greater (String.lt_asymm less)
  exact List.Perm.eq_of_pairwise (fun earlier later _ _ => antisymmetric earlier later)
    (pairwise_sort distinctOthers) (pairwise_sort distinct)
    ((sort_perm others).trans (perm.trans (sort_perm definitions).symm))

end Subroutine

namespace Program

variable {definitions others : List Subroutine}

/-! ## The program of definitions -/

theorem ofSubroutines_of_repeated {name : String}
    (repeated : Subroutine.firstRepeated? [] definitions = some name) :
    ofSubroutines definitions = .error (.duplicateSubroutine name) := by
  rw [ofSubroutines]
  split
  · rename_i other found
    rw [repeated] at found
    cases found
    rfl
  · rename_i found
    rw [repeated] at found
    cases found

/-- Definitions with different names make a program if one of them is `main`. -/
theorem ofSubroutines_of_nodup (distinct : (definitions.map Subroutine.name).Nodup) :
    ofSubroutines definitions =
      if entry : ∃ subroutine ∈ definitions, subroutine.name = entryPoint then
        .ok ⟨Subroutine.sort definitions, Subroutine.pairwise_sort distinct, by simpa using entry⟩
      else .error .missingEntryPoint := by
  rw [ofSubroutines]
  split
  · rename_i name found
    rw [Subroutine.firstRepeated?_of_nodup distinct] at found
    cases found
  · rfl

/-- The order of definitions with different names is of no account. -/
theorem ofSubroutines_eq_of_perm (distinct : (definitions.map Subroutine.name).Nodup)
    (perm : others.Perm definitions) : ofSubroutines others = ofSubroutines definitions := by
  have distinctOthers : (others.map Subroutine.name).Nodup := (perm.map _).nodup_iff.mpr distinct
  rw [ofSubroutines_of_nodup distinct, ofSubroutines_of_nodup distinctOthers]
  simp only [perm.mem_iff, Subroutine.sort_eq_of_perm distinct perm]

/-! ## What a program has -/

theorem nodup_names (program : Program) : (program.subroutines.map Subroutine.name).Nodup := by
  rw [List.nodup_iff_pairwise_ne, List.pairwise_map]
  exact program.sorted.imp fun less => String.ne_of_lt less

/-- A name leads to a block exactly if the program has the two together. -/
theorem body?_eq_some_iff {program : Program} {name : String} {body : Block} :
    program.body? name = some body ↔ ⟨name, body⟩ ∈ program.subroutines := by
  rw [body?, Option.map_eq_some_iff]
  constructor
  · rintro ⟨⟨found, _⟩, isFound, rfl⟩
    obtain rfl : found = name := by simpa using List.find?_some isFound
    exact List.mem_of_find?_eq_some isFound
  · intro mem
    have isSome : (program.subroutines.find? fun subroutine => subroutine.name == name).isSome := by
      rw [List.find?_isSome]
      exact ⟨_, mem, beq_self_eq_true name⟩
    obtain ⟨found, isFound⟩ := Option.isSome_iff_exists.mp isSome
    have sameName : found.name = name := by simpa using List.find?_some isFound
    have same : found = ⟨name, body⟩ := List.inj_on_of_nodup_map program.nodup_names
      (List.mem_of_find?_eq_some isFound) mem sameName
    exact ⟨found, isFound, by rw [same]⟩

/-- A program has a list of definitions: each of them and no others, in the order of the
bytes of their names. -/
structure Defines (program : Program) (definitions : List Subroutine) : Prop where
  body?_eq : ∀ subroutine ∈ definitions, program.body? subroutine.name = some subroutine.body
  body?_eq_none : ∀ name, name ∉ definitions.map Subroutine.name → program.body? name = none
  size_eq : program.size = definitions.length
  entry_mem : ⟨entryPoint, program.entry⟩ ∈ definitions
  perm : program.subroutines.Perm definitions
  increasing : program.subroutines.Pairwise fun earlier later =>
    utf8Bytes earlier.name < utf8Bytes later.name

/-- A program has all definitions of which its own are a permutation. -/
theorem defines_of_perm {program : Program} (perm : program.subroutines.Perm definitions) :
    program.Defines definitions where
  body?_eq subroutine mem := body?_eq_some_iff.mpr (perm.mem_iff.mpr mem)
  body?_eq_none name notListed := by
    rw [Option.eq_none_iff_forall_ne_some]
    intro body found
    have mem := perm.mem_iff.mp (body?_eq_some_iff.mp found)
    exact notListed (List.mem_map_of_mem (f := Subroutine.name) mem)
  size_eq := perm.length_eq
  entry_mem := perm.mem_iff.mp (body?_eq_some_iff.mp (Option.some_get _).symm)
  perm := perm
  increasing := program.sorted.imp fun less => utf8Bytes_lt less

/-- Definitions are refused with the first that repeats a name, if one does, or else if
none is `main`; otherwise they make a program that has just them. So the order of
definitions with different names is of no account, and neither is it for any run. -/
theorem ofSubroutines_set_of_definitions (definitions : List Subroutine) :
    (¬ (definitions.map Subroutine.name).Nodup →
      ∃ before again after, definitions = before ++ again :: after ∧
        again.name ∈ before.map Subroutine.name ∧ (before.map Subroutine.name).Nodup ∧
        ofSubroutines definitions = .error (.duplicateSubroutine again.name)) ∧
    ((definitions.map Subroutine.name).Nodup →
      (entryPoint ∉ definitions.map Subroutine.name →
        ofSubroutines definitions = .error .missingEntryPoint) ∧
      (entryPoint ∈ definitions.map Subroutine.name →
        ∃ program, ofSubroutines definitions = .ok program ∧ program.Defines definitions) ∧
      ∀ others : List Subroutine, others.Perm definitions →
        ofSubroutines others = ofSubroutines definitions ∧
        ∀ program other, ofSubroutines definitions = .ok program →
          ofSubroutines others = .ok other →
          ∀ (request : Request) (limits : Limits) (machine : Machine) (scopes : Scopes)
              (steps : Nat),
            request.run other limits machine scopes steps =
              request.run program limits machine scopes steps) := by
  constructor
  · intro repeats
    obtain ⟨before, again, after, split, earlier, distinct, repeated⟩ :=
      Subroutine.exists_firstRepeated? repeats
    exact ⟨before, again, after, split, earlier, distinct, ofSubroutines_of_repeated repeated⟩
  · intro distinct
    rw [List.mem_map]
    refine ⟨?_, ?_, ?_⟩
    · intro noEntry
      rw [ofSubroutines_of_nodup distinct, dif_neg noEntry]
    · intro entry
      rw [ofSubroutines_of_nodup distinct, dif_pos entry]
      exact ⟨_, rfl, defines_of_perm (Subroutine.sort_perm definitions)⟩
    · intro others perm
      have same := ofSubroutines_eq_of_perm distinct perm
      refine ⟨same, ?_⟩
      intro program other made madeToo request limits machine scopes steps
      rw [same, made] at madeToo
      cases madeToo
      rfl

/-- Three definitions; the name of the second has a character of three bytes. -/
def threeDefinitions : List Subroutine :=
  [⟨"main", [.invoke "€"]⟩, ⟨"€", [.stop]⟩, ⟨"helper", []⟩]

/-- The second of their names again, and then the first. -/
def repeatedDefinitions : List Subroutine :=
  threeDefinitions ++ [⟨"€", []⟩, ⟨"main", []⟩]

/-- They make the same program in reverse, and are refused with names that repeat. -/
theorem ofSubroutines_threeDefinitions :
    (threeDefinitions.map Subroutine.name).Nodup ∧
    (∃ program, ofSubroutines threeDefinitions = .ok program ∧
      ofSubroutines threeDefinitions.reverse = .ok program ∧ program.body? "€" = some [.stop] ∧
      program.body? "exit" = none ∧ program.entry = [.invoke "€"]) ∧
    ¬ (repeatedDefinitions.map Subroutine.name).Nodup ∧
    ofSubroutines repeatedDefinitions = .error (.duplicateSubroutine "€") := by
  have distinct : (threeDefinitions.map Subroutine.name).Nodup := by decide
  have repeats : ¬ (repeatedDefinitions.map Subroutine.name).Nodup := by decide
  obtain ⟨before, again, after, split, earlier, distinctBefore, refused⟩ :=
    (ofSubroutines_set_of_definitions repeatedDefinitions).1 repeats
  have named : again.name = "€" := by
    -- before the fourth definition no name is there yet, and behind it one is there twice
    rcases before with - | ⟨first, - | ⟨second, - | ⟨third, - | ⟨fourth, before⟩⟩⟩⟩ <;>
      simp only [repeatedDefinitions, threeDefinitions] at split <;> grind
  obtain ⟨-, ofDistinct⟩ := ofSubroutines_set_of_definitions threeDefinitions
  obtain ⟨-, ofEntry, ofPerm⟩ := ofDistinct distinct
  obtain ⟨program, made, defines⟩ := ofEntry (by decide)
  refine ⟨distinct, ⟨program, made, ?_, ?_, ?_, ?_⟩, repeats, ?_⟩
  · rw [(ofPerm _ (List.reverse_perm _)).1, made]
  · exact defines.body?_eq ⟨"€", [.stop]⟩ (by simp [threeDefinitions])
  · exact defines.body?_eq_none "exit" (by decide)
  · have entry := defines.entry_mem
    simpa [threeDefinitions, entryPoint] using entry
  · rw [refused, named]

end Program

end StackScript
