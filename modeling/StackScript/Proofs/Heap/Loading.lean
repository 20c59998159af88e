import Mathlib.Data.List.Find
import StackScript.Proofs.Heap.Storing
import StackScript.Proofs.Run.StraightLine

/-!
# The effect of loading

Loading goes through the stack from the bottom and puts the value of each cell in the
place of its address, up to the first address that is no cell of the heap. Values that
have been stored come back: of several values for one cell, the one that was pushed first.
-/

namespace StackScript

namespace Heap

/-- The address is a cell of the heap. -/
def Reaches (heap : Heap) (address : Value) : Prop :=
  ∃ cell < heap.size, address.Names cell

/-- The value of the cell at an address. A cell that was never written is empty. -/
def Holds (heap : Heap) (address value : Value) : Prop :=
  ∃ cell < heap.size, address.Names cell ∧ value = (heap.get? cell).getD .empty

theorem loadAddress_eq_ok_iff {heap : Heap} {address : Value} {cell : Nat} :
    heap.loadAddress address = .ok cell ↔ cell < heap.size ∧ address.Names cell := by
  cases address with
  | integer n =>
    simp only [loadAddress, Int64.le_iff_toInt_le, Int64.toInt_zero, Value.Names,
      Value.integer.injEq, exists_eq_left']
    split
    · rw [Except.ok.injEq]
      omega
    · simp only [reduceCtorEq, false_iff]
      omega
  | float | text | empty => simp [loadAddress, Value.Names]

/-- An address that is not reached is the fault of loading it. -/
theorem loadAddress_eq_error {heap : Heap} {address : Value} (bad : ¬ heap.Reaches address) :
    heap.loadAddress address = .error (.invalidAddress address) := by
  cases found : heap.loadAddress address with
  | ok cell => exact absurd ⟨cell, loadAddress_eq_ok_iff.mp found⟩ bad
  | error fault => rw [eq_invalidAddress_of_loadAddress found]

/-- Addresses that are reached have values. -/
theorem exists_holds_of_reaches {heap : Heap} {stack : List Value}
    (reached : ∀ address ∈ stack, heap.Reaches address) :
    ∃ values, List.Forall₂ heap.Holds stack values := by
  induction stack with
  | nil => exact ⟨[], .nil⟩
  | cons address rest ih =>
    obtain ⟨⟨cell, inside, names⟩, reachedRest⟩ := List.forall_mem_cons.mp reached
    obtain ⟨values, held⟩ := ih reachedRest
    exact ⟨_ :: values, .cons ⟨cell, inside, names, rfl⟩ held⟩

/-- As long as addresses are reached, loading collects their values. -/
theorem loadAll_append {heap : Heap} {before values : List Value}
    (held : List.Forall₂ heap.Holds before values) (loaded : Array Value) (rest : List Value) :
    heap.loadAll loaded (before ++ rest) = heap.loadAll (loaded ++ values) rest := by
  induction held generalizing loaded with
  | nil => simp
  | @cons address value before values holds _ ih =>
    obtain ⟨cell, inside, names, rfl⟩ := holds
    have found : heap.loadAddress address = .ok cell := loadAddress_eq_ok_iff.mpr ⟨inside, names⟩
    have same : loaded.push (heap.read cell) ++ values = loaded ++ (heap.read cell :: values) := by
      simp
    rw [List.cons_append, loadAll, found]
    exact (ih _).trans (congrArg (heap.loadAll · rest) same)

/-- At first nothing is loaded. -/
theorem loadAll_empty_append {heap : Heap} {before values : List Value}
    (held : List.Forall₂ heap.Holds before values) (rest : List Value) :
    heap.loadAll #[] (before ++ rest) = heap.loadAll values.toArray rest := by
  simpa using loadAll_append held #[] rest

end Heap

/-! ## Loading -/

namespace Machine

variable (machine : Machine) (scopes : Scopes) {before values : List Value}
  (held : List.Forall₂ machine.heap.Holds before values)

include held

/-- If every address is reached, the stack becomes their values. -/
theorem load_of_holds (stack : machine.stack.toList = before) :
    machine.load scopes = ⟨{ machine with stack := values.toArray }, scopes, [], none⟩ := by
  have loaded := Heap.loadAll_empty_append held []
  rw [List.append_nil, ← stack] at loaded
  simp only [load, loaded, Heap.loadAll]

/-- A bad address leaves the values of the addresses below it. -/
theorem load_of_not_reaches {address : Value} {rest : List Value}
    (bad : ¬ machine.heap.Reaches address)
    (stack : machine.stack.toList = before ++ address :: rest) :
    machine.load scopes =
      ⟨{ machine with stack := values.toArray }, scopes, [], some (.invalidAddress address)⟩ := by
  have loaded := Heap.loadAll_empty_append held (address :: rest)
  rw [← stack] at loaded
  simp only [load, loaded, Heap.loadAll, Heap.loadAddress_eq_error bad]

end Machine

/-! ## Reading back -/

/-- The values of a stack on which pairs of a value and an address have been pushed. -/
def Heap.pushed (pairs : List (Value × Int64)) : List Value :=
  pairs.flatMap fun pair => [pair.1, .integer pair.2]

/-- The address is a cell below the bound. -/
def Heap.InRange (bound : Nat) (address : Int64) : Prop :=
  0 ≤ address.toInt ∧ address.toInt < bound

instance (bound : Nat) (address : Int64) : Decidable (Heap.InRange bound address) :=
  inferInstanceAs (Decidable (_ ∧ _))

namespace Heap

/-- The value of the first pair with an address. -/
def firstValue? (pairs : List (Value × Int64)) (address : Int64) : Option Value :=
  (pairs.find? fun pair => pair.2 == address).map Prod.fst

variable {limit bound : Nat} {pairs : List (Value × Int64)}

theorem InRange.names {address : Int64} (inRange : InRange bound address) :
    (Value.integer address).Names address.toInt.toNat :=
  ⟨address, rfl, (Int.toNat_of_nonneg inRange.1).symm⟩

/-- Storing makes a write of each pair, the last one first. -/
theorem storePairs_flatMap {heap : Heap}
    (inRange : ∀ pair ∈ pairs, InRange (heap.storable limit) pair.2)
    (growth : List (Nat × Nat)) :
    ∃ noted, storePairs limit heap growth
        (pairs.flatMap fun pair => [.integer pair.2, pair.1]) =
      ⟨[], heap.writeAll (pairs.map fun pair => (pair.2.toInt.toNat, pair.1)), noted, none⟩ := by
  induction pairs generalizing heap growth with
  | nil => exact ⟨growth.reverse, rfl⟩
  | cons pair rest ih =>
    obtain ⟨first, inRangeRest⟩ := List.forall_mem_cons.mp inRange
    obtain ⟨found, within⟩ := storeAddress_storable_eq_ok_iff.mp
      (storeAddress_eq_ok_iff.mpr ⟨(Int.toNat_lt first.1).mpr first.2, first.names⟩)
    rw [← storable_write within pair.1] at inRangeRest
    obtain ⟨noted, stored⟩ := ih inRangeRest
      (if pair.2.toInt.toNat < heap.size then growth
        else (heap.size, pair.2.toInt.toNat + 1) :: growth)
    refine ⟨noted, ?_⟩
    simp only [List.flatMap_cons, List.cons_append, List.nil_append, storePairs, found, within,
      if_true]
    exact stored

theorem reverse_pushed (pairs : List (Value × Int64)) :
    (pushed pairs).reverse = pairs.reverse.flatMap fun pair => [.integer pair.2, pair.1] :=
  List.reverse_flatMap

/-- The heap after a write of each pair, the last pair first. -/
def writePairs (heap : Heap) (pairs : List (Value × Int64)) : Heap :=
  heap.writeAll (pairs.reverse.map fun pair => (pair.2.toInt.toNat, pair.1))

section

variable (inRange : ∀ pair ∈ pairs, InRange bound pair.2) (heap : Heap)

include inRange

/-- The last write to a cell is the one of the first pair with its address. -/
theorem get?_writePairs {address : Int64} (natural : 0 ≤ address.toInt) :
    (heap.writePairs pairs).get? address.toInt.toNat =
      (firstValue? pairs address).or (heap.get? address.toInt.toNat) := by
  have sameCell (pair : Value × Int64) (mem : pair ∈ pairs) :
      (pair.2.toInt.toNat == address.toInt.toNat) = (pair.2 == address) := by
    have ofPair := (inRange pair mem).1
    rw [Bool.eq_iff_iff, beq_iff_eq, beq_iff_eq, ← Int64.toInt_inj]
    omega
  rw [writePairs, get?_writeAll, List.map_reverse, List.reverse_reverse, List.find?_map,
    Option.map_map, firstValue?, ← List.find?_congr sameCell]
  rfl

/-- Each address of the pairs holds the value of its first pair. -/
theorem exists_firstValue? {address : Int64} (mem : address ∈ pairs.map Prod.snd) :
    ∃ value, firstValue? pairs address = some value ∧
      (heap.writePairs pairs).Holds (.integer address) value := by
  obtain ⟨pair, pairMem, rfl⟩ := List.mem_map.mp mem
  have ofPair := inRange pair pairMem
  have found : (firstValue? pairs pair.2).isSome := by
    rw [firstValue?, Option.isSome_map, List.find?_isSome]
    exact ⟨pair, pairMem, beq_self_eq_true _⟩
  obtain ⟨value, isFirst⟩ := Option.isSome_iff_exists.mp found
  refine ⟨value, isFirst, pair.2.toInt.toNat, ?_, ofPair.names, ?_⟩
  · have isWritten : pair.2.toInt.toNat ∈
        (pairs.reverse.map fun other => (other.2.toInt.toNat, other.1)).map Prod.fst := by
      rw [List.map_map, List.mem_map]
      exact ⟨pair, List.mem_reverse.mpr pairMem, rfl⟩
    exact ((heap.size_writeAll_le_iff _ _).mp (Nat.le_refl _)).2 _ isWritten
  · rw [get?_writePairs inRange heap ofPair.1, isFirst]
    rfl

/-- So do all addresses that are listed, in the order of the list. -/
theorem exists_firstValues {listed : List Int64}
    (fromPairs : ∀ address ∈ listed, address ∈ pairs.map Prod.snd) :
    ∃ values, List.Forall₂ (fun address value => firstValue? pairs address = some value) listed
        values ∧
      List.Forall₂ (heap.writePairs pairs).Holds (listed.map .integer) values := by
  induction listed with
  | nil => exact ⟨[], .nil, .nil⟩
  | cons address rest ih =>
    obtain ⟨fromPair, fromRest⟩ := List.forall_mem_cons.mp fromPairs
    obtain ⟨value, isFirst, holds⟩ := exists_firstValue? inRange heap fromPair
    obtain ⟨values, areFirst, held⟩ := ih fromRest
    exact ⟨value :: values, .cons isFirst areFirst, .cons holds held⟩

end

end Heap

/-- Pushes operands, stores, pushes other operands and loads. -/
def Block.storeAndLoad (sources recalled : List Operand) : Block :=
  sources.map .push ++ .store :: (recalled.map .push ++ [.load])

section

variable {limits : Limits} {pairs : List (Value × Int64)} {machine : Machine} {scopes : Scopes}

/-- A stack of pairs is stored without a rest. -/
theorem Machine.store_of_pushed (machine : Machine) (scopes : Scopes)
    (inRange : ∀ pair ∈ pairs,
      Heap.InRange (machine.heap.storable limits.maxHeapCells) pair.2)
    (stack : machine.stack = (Heap.pushed pairs).toArray) :
    ∃ events, machine.store scopes limits =
      ⟨{ machine with stack := #[], heap := machine.heap.writePairs pairs }, scopes, events,
        none⟩ := by
  have inRangeReverse : ∀ pair ∈ pairs.reverse,
      Heap.InRange (machine.heap.storable limits.maxHeapCells) pair.2 :=
    fun pair mem => inRange pair (List.mem_reverse.mp mem)
  obtain ⟨noted, stored⟩ := Heap.storePairs_flatMap inRangeReverse []
  rw [← Heap.reverse_pushed] at stored
  apply Exists.intro
  simp only [Machine.store, stack, stored, List.reverse_nil]
  rfl

/-- Pairs that are stored on an empty stack are read back at any of their addresses. -/
theorem StraightLine.storeAndLoad
    (inRange : ∀ pair ∈ pairs,
      Heap.InRange (machine.heap.storable limits.maxHeapCells) pair.2) {listed : List Int64}
    (fromPairs : ∀ address ∈ listed, address ∈ pairs.map Prod.snd)
    {sources recalled : List Operand}
    (evaluated : scopes.EvaluatesAll sources (Heap.pushed pairs))
    (evaluatedLater : scopes.EvaluatesAll recalled (listed.map .integer))
    (empty : machine.stack = #[]) :
    ∃ values, List.Forall₂ (fun address value => Heap.firstValue? pairs address = some value)
        listed values ∧
      StraightLine limits machine scopes (Block.storeAndLoad sources recalled)
        { machine with stack := values.toArray, heap := machine.heap.writePairs pairs } scopes := by
  obtain ⟨stack, heap, depth, output⟩ := machine
  obtain rfl : stack = #[] := empty
  obtain ⟨values, areFirst, held⟩ := Heap.exists_firstValues inRange heap fromPairs
  refine ⟨values, areFirst, ?_⟩
  have pushes := straightLine_push limits evaluated #[] heap depth output
  have pushesLater := straightLine_push limits evaluatedLater #[] (heap.writePairs pairs) depth
    output
  simp only [Array.empty_append] at pushes pushesLater
  obtain ⟨events, stored⟩ := Machine.store_of_pushed
    ⟨(Heap.pushed pairs).toArray, heap, depth, output⟩ scopes inRange rfl
  have loaded := Machine.load_of_holds
    ⟨(listed.map .integer).toArray, heap.writePairs pairs, depth, output⟩ scopes held rfl
  have storesAndOn : StraightLine limits ⟨(Heap.pushed pairs).toArray, heap, depth, output⟩ scopes
      (.store :: (recalled.map .push ++ [.load]))
      ⟨values.toArray, heap.writePairs pairs, depth, output⟩ scopes :=
    .cons (congrArg some stored) (pushesLater.append (.cons (congrArg some loaded) (.nil _ _)))
  exact pushes.append storesAndOn

end

namespace Machine

variable (machine : Machine) (scopes : Scopes)

/-- If every address on the stack is reached, `load` succeeds with their values. -/
theorem holds_load (reached : ∀ address ∈ machine.stack, machine.heap.Reaches address) :
    (machine.load scopes).fault = none ∧
      List.Forall₂ machine.heap.Holds machine.stack.toList
        (machine.load scopes).machine.stack.toList := by
  obtain ⟨values, held⟩ := Heap.exists_holds_of_reaches fun address mem =>
    reached address (Array.mem_def.mpr mem)
  rw [machine.load_of_holds scopes held rfl]
  exact ⟨rfl, held⟩

/-- The lowest bad address fails it, with the values of the addresses below. -/
theorem holds_load_of_not_reaches {index : Nat} {address : Value}
    (isAddress : machine.stack[index]? = some address) (bad : ¬ machine.heap.Reaches address)
    (reached : ∀ below < index, ∀ other, machine.stack[below]? = some other →
      machine.heap.Reaches other) :
    (machine.load scopes).fault = some (.invalidAddress address) ∧
      List.Forall₂ machine.heap.Holds (machine.stack.toList.take index)
        (machine.load scopes).machine.stack.toList := by
  rw [← Array.getElem?_toList] at isAddress
  obtain ⟨inside, rfl⟩ := List.getElem?_eq_some_iff.mp isAddress
  have reachedBelow : ∀ other ∈ machine.stack.toList.take index,
      machine.heap.Reaches other := by
    intro other mem
    obtain ⟨below, isBelow, isOther⟩ := List.mem_take_iff_getElem.mp mem
    apply reached below (by omega) other
    rw [← Array.getElem?_toList]
    exact List.getElem?_eq_some_iff.mpr ⟨by omega, isOther⟩
  obtain ⟨values, held⟩ := Heap.exists_holds_of_reaches reachedBelow
  have stack : machine.stack.toList = machine.stack.toList.take index ++
      machine.stack.toList[index] :: machine.stack.toList.drop (index + 1) := by
    rw [← List.drop_eq_getElem_cons inside, List.take_append_drop]
  rw [machine.load_of_not_reaches scopes held bad stack]
  exact ⟨rfl, held⟩

/-- If all values on the stack are addresses of the heap, `load` puts the values of the
cells in their places. Otherwise it fails for the lowest that is none, and leaves the
values of those below it. Nothing else changes. So pairs of a value and the address of a
cell that may be stored to can be read back once they are pushed on an empty stack and
stored: any list of the addresses gives for each the value of its first pair. The cells
that may be stored to are all within the limit, unless the limit is more than memory can
be asked for. -/
theorem load_cells (limits : Limits) :
    ((∀ address ∈ machine.stack, machine.heap.Reaches address) →
      (machine.load scopes).fault = none ∧
      List.Forall₂ machine.heap.Holds machine.stack.toList
        (machine.load scopes).machine.stack.toList) ∧
    (∀ index address, machine.stack[index]? = some address → ¬ machine.heap.Reaches address →
      (∀ below < index, ∀ other, machine.stack[below]? = some other →
        machine.heap.Reaches other) →
      (machine.load scopes).fault = some (.invalidAddress address) ∧
      List.Forall₂ machine.heap.Holds (machine.stack.toList.take index)
        (machine.load scopes).machine.stack.toList) ∧
    (machine.load scopes).machine.heap = machine.heap ∧
    (machine.load scopes).scopes = scopes ∧
    (machine.load scopes).machine.output = machine.output ∧
    (machine.load scopes).machine.depth = machine.depth ∧
    (limits.maxHeapCells ≤ Heap.maxCells →
      machine.heap.storable limits.maxHeapCells = limits.maxHeapCells) ∧
    (∀ (program : Program) (pairs : List (Value × Int64)) (listed : List Int64)
        (sources recalled : List Operand),
      machine.stack = #[] →
      (∀ pair ∈ pairs, Heap.InRange (machine.heap.storable limits.maxHeapCells) pair.2) →
      (∀ address ∈ listed, address ∈ pairs.map Prod.snd) →
      scopes.EvaluatesAll sources (Heap.pushed pairs) →
      scopes.EvaluatesAll recalled (listed.map .integer) →
      ∃ left, (Request.executeBlock (Block.storeAndLoad sources recalled)).run program limits
          machine scopes ((Block.storeAndLoad sources recalled).length + 1) =
            .ended ⟨.ok .completed, left, scopes⟩ ∧
        List.Forall₂ (fun address value => Heap.firstValue? pairs address = some value) listed
          left.stack.toList) := by
  refine ⟨machine.holds_load scopes, ?_, rfl, rfl, rfl, rfl, machine.heap.storable_eq_of_le, ?_⟩
  · intro index address isAddress bad reached
    exact machine.holds_load_of_not_reaches scopes isAddress bad reached
  · intro program pairs listed sources recalled empty inRange fromPairs evaluated evaluatedLater
    obtain ⟨values, areFirst, straight⟩ :=
      StraightLine.storeAndLoad inRange fromPairs evaluated evaluatedLater empty
    exact ⟨_, straight.run_executeBlock program, areFirst⟩

/-- Three addresses, of a cell that was never written, of one that holds a number and of
none. -/
def threeAddresses : Machine where
  stack := #[.integer 1, .integer 0, .integer 2]
  heap := ⟨#[some (.integer 8), none]⟩
  depth := 1
  output := .empty none

/-- The third address is refused behind the values of the first two. On an empty stack, of
three stored pairs the first and the last are read back. -/
theorem load_cells_threeAddresses :
    ((threeAddresses.load .initial).fault = some (.invalidAddress (.integer 2)) ∧
      List.Forall₂ threeAddresses.heap.Holds [.integer 1, .integer 0]
        (threeAddresses.load .initial).machine.stack.toList) ∧
    ∃ left, (Request.executeBlock
            (Block.storeAndLoad ([5, 1, 6, 1, 7, 0].map .integer) ([1, 0, 1].map .integer))).run
          .idle ⟨1, 2, 0⟩ (.initial (.empty none)) .initial 12 =
        .ended ⟨.ok .completed, left, .initial⟩ ∧
      List.Forall₂ (fun address value => Heap.firstValue?
          [(.integer 5, 1), (.integer 6, 1), (.integer 7, 0)] address = some value) [1, 0, 1]
        left.stack.toList := by
  constructor
  · have bad : ¬ threeAddresses.heap.Reaches (.integer 2) := by
      rintro ⟨cell, inside, n, isInteger, isCell⟩
      cases isInteger
      have two : (2 : Int64).toInt = 2 := rfl
      have size : threeAddresses.heap.size = 2 := rfl
      omega
    apply (threeAddresses.load_cells .initial .default).2.1 2 _ rfl bad
    intro below first other isOther
    match below, isOther with
    | 0, rfl => exact ⟨1, by decide, 1, rfl, rfl⟩
    | 1, rfl => exact ⟨0, by decide, 0, rfl, rfl⟩
  · obtain ⟨_, _, _, _, _, _, storable, readBack⟩ :=
      (Machine.initial (.empty none)).load_cells .initial ⟨1, 2, 0⟩
    rw [storable (by decide)] at readBack
    apply readBack _ [(.integer 5, 1), (.integer 6, 1), (.integer 7, 0)] [1, 0, 1] _ _ rfl
    · decide
    · simp
    · exact Scopes.evaluatesAll_integers _ [5, 1, 6, 1, 7, 0]
    · exact Scopes.evaluatesAll_integers _ [1, 0, 1]

/-- Under the greatest limit that a word holds a pair whose address is within the limit is
not read back, as the run is aborted when the pair is stored. -/
theorem load_farPair :
    Heap.InRange 18446744073709551615 4611686018427387904 ∧
    ∃ ending, ((Request.executeBlock (Block.storeAndLoad
          ([7, 4611686018427387904].map .integer) ([4611686018427387904].map .integer))).run
        .idle ⟨1, 18446744073709551615, 0⟩ (.initial (.empty none)) .initial 6).ending? =
          some ending ∧
      ending.isAborted = true := by
  constructor
  · decide
  · exact ⟨_, rfl, rfl⟩

end Machine

end StackScript
