import Mathlib.Order.Bounds.Defs
import StackScript.Machine
import StackScript.Proofs.Heap

/-!
# The effect of storing

The stack is read from its top as pairs of a value and the address above it, and the
pairs are counted from the top. Storing writes the value of each pair at its address,
up to the first address that is no cell within the limit and within reach. A pair
further down was pushed earlier and is written later, so of several pairs with one
address the lowest wins.
-/

namespace StackScript

/-! ## Pairs -/

/-- A value with the address above it. -/
structure Pair where
  value : Value
  address : Value

/-- The pair at an index from the top of the stack. -/
def Machine.pair? (machine : Machine) (index : Nat) : Option Pair :=
  let height := machine.stack.size
  if inside : 2 * index + 1 < height then
    some ⟨machine.stack[height - 2 - 2 * index], machine.stack[height - 1 - 2 * index]⟩
  else none

/-- What the heap of a machine is after its first pairs have been stored. A cell that an
earlier pair names as well holds the value of the latest, and a new cell that no pair
names was never written. -/
structure Machine.Stores (machine : Machine) (count : Nat) (after : Heap) : Prop where
  size : IsGreatest {size | size = machine.heap.size ∨ ∃ index < count, ∃ pair cell,
    machine.pair? index = some pair ∧ pair.address.Names cell ∧ size = cell + 1} after.size
  written : ∀ index < count, ∀ pair cell, machine.pair? index = some pair →
    pair.address.Names cell →
    (∀ later < count, index < later → ∀ other, machine.pair? later = some other →
      ¬ other.address.Names cell) →
    after.get? cell = some pair.value
  kept : ∀ cell, (∀ index < count, ∀ pair, machine.pair? index = some pair →
    ¬ pair.address.Names cell) → after.get? cell = machine.heap.get? cell

namespace Heap

/-- The pair at an index of a stack given top first. -/
def pair? : List Value → Nat → Option Pair
  | address :: value :: _, 0 => some ⟨value, address⟩
  | _ :: _ :: rest, index + 1 => pair? rest index
  | _, _ => none

theorem pair?_eq (stack : List Value) (index : Nat) :
    pair? stack index =
      if inside : 2 * index + 1 < stack.length then
        some ⟨stack[2 * index + 1], stack[2 * index]⟩
      else none := by
  fun_induction pair? stack index with
  | case1 address value rest => simp
  | case2 address value rest index ih =>
    rw [ih]
    by_cases inside : 2 * index + 1 < rest.length
    · rw [dif_pos inside, dif_pos (by simp only [List.length_cons]; omega)]
      rfl
    · rw [dif_neg inside, dif_neg (by simp only [List.length_cons]; omega)]
  | case3 stack index notPair notLater =>
    rw [dif_neg]
    intro inside
    match stack, index, inside with
    | [_], index, inside => simp at inside
    | address :: value :: rest, 0, _ => exact notPair address value rest rfl rfl
    | address :: value :: rest, index + 1, _ => exact notLater address value rest index rfl rfl

end Heap

theorem Machine.pair?_eq (machine : Machine) (index : Nat) :
    machine.pair? index = Heap.pair? machine.stack.toList.reverse index := by
  rw [Heap.pair?_eq, pair?]
  simp only [List.length_reverse, Array.length_toList, List.getElem_reverse, Array.getElem_toList]
  split
  · congr 3
    omega
  · rfl

/-! ## Writes of pairs -/

namespace Heap

/-- These writes are what the first pairs of a stack ask for, in order. -/
def WritesOf (stack : List Value) (writes : List (Nat × Value)) : Prop :=
  ∀ index write, writes[index]? = some write →
    ∃ pair, pair? stack index = some pair ∧ pair.address.Names write.1 ∧ pair.value = write.2

/-- As long as addresses are accepted, storing writes and goes on with the rest, and the
same cells stay within reach. -/
theorem exists_storePairs_eq {limit count : Nat} {stack : List Value} {heap : Heap}
    (accepted : ∀ index < count, ∃ pair, pair? stack index = some pair ∧
      Accepts (heap.storable limit) pair.address) (growth : List (Nat × Nat)) :
    ∃ writes noted, writes.length = count ∧ WritesOf stack writes ∧
      (heap.writeAll writes).reach = heap.reach ∧
      storePairs limit heap growth stack =
        storePairs limit (heap.writeAll writes) noted (stack.drop (2 * count)) := by
  induction count generalizing stack heap growth with
  | zero => exact ⟨[], growth, rfl, nofun, rfl, rfl⟩
  | succ count ih =>
    obtain ⟨pair, first, cell, below, names⟩ := accepted 0 (Nat.succ_pos count)
    match stack, first with
    | address :: value :: rest, rfl =>
      obtain ⟨found, within⟩ := storeAddress_storable_eq_ok_iff.mp
        (storeAddress_eq_ok_iff.mpr ⟨below, names⟩)
      have later : ∀ index < count, ∃ pair, pair? rest index = some pair ∧
          Accepts ((heap.write cell value).storable limit) pair.address := by
        rw [storable_write within]
        exact fun index inside => accepted (index + 1) (Nat.succ_lt_succ inside)
      obtain ⟨writes, noted, length, ofRest, reach, goesOn⟩ := ih later
        (if cell < heap.size then growth else (heap.size, cell + 1) :: growth)
      refine ⟨(cell, value) :: writes, noted, congrArg Nat.succ length, ?_, ?_, ?_⟩
      · intro index write isWrite
        cases index with
        | zero =>
          cases isWrite
          exact ⟨_, rfl, names, rfl⟩
        | succ index => exact ofRest index write isWrite
      · exact reach.trans (reach_write within value)
      · simp only [storePairs, found, within, if_true]
        exact goesOn

theorem storePairs_of_pair?_eq_none {stack : List Value} (short : pair? stack 0 = none)
    (limit : Nat) (heap : Heap) (growth : List (Nat × Nat)) :
    storePairs limit heap growth stack = ⟨stack, heap, growth.reverse, none⟩ := by
  match stack, short with
  | [], _ => rfl
  | [_], _ => rfl

/-- At an address that is not accepted storing stops, with the fault of the address. -/
theorem exists_storePairs_eq_of_not_accepts {limit : Nat} {stack : List Value} {heap : Heap}
    {pair : Pair} (first : pair? stack 0 = some pair)
    (bad : ¬ Accepts (heap.storable limit) pair.address) (growth : List (Nat × Nat)) :
    ∃ fault noted, Refuses limit heap.reach pair.address fault ∧
      storePairs limit heap growth stack = ⟨stack.drop 2, heap, noted, some fault⟩ := by
  match stack, first with
  | address :: value :: rest, rfl =>
    cases found : storeAddress limit address with
    | error fault =>
      refine ⟨fault, growth.reverse, refuses_of_storeAddress found, ?_⟩
      simp only [storePairs, found, List.drop_succ_cons, List.drop_zero]
    | ok cell =>
      have outOfReach : ¬ cell < heap.reach := fun within =>
        bad ⟨cell, storeAddress_eq_ok_iff.mp (storeAddress_storable_eq_ok_iff.mpr ⟨found, within⟩)⟩
      obtain ⟨within, names⟩ := storeAddress_eq_ok_iff.mp found
      refine ⟨_, (if cell < heap.size then growth else (heap.size, cell + 1) :: growth).reverse,
        .aborted names within (Nat.le_of_not_lt outOfReach), ?_⟩
      simp only [storePairs, found, outOfReach, if_false, List.drop_succ_cons, List.drop_zero]

theorem pair?_drop (stack : List Value) (count : Nat) :
    pair? (stack.drop (2 * count)) 0 = pair? stack count := by
  simp only [pair?_eq, List.length_drop, List.getElem_drop]
  by_cases inside : 2 * count + 1 < stack.length
  · rw [dif_pos inside, dif_pos (by omega)]
    rfl
  · rw [dif_neg inside, dif_neg (by omega)]

section WriteAll

variable (heap : Heap)

/-- A written heap is as long as it was, or ends with a written cell. -/
theorem size_writeAll_eq (writes : List (Nat × Value)) :
    (heap.writeAll writes).size = heap.size ∨
      ∃ write ∈ writes, (heap.writeAll writes).size = write.1 + 1 := by
  induction writes generalizing heap with
  | nil => exact .inl rfl
  | cons write rest ih =>
    obtain ⟨cell, value⟩ := write
    rw [writeAll]
    rcases ih (heap.write cell value) with same | ⟨last, mem, ends⟩
    · rw [same, size_write]
      rcases Nat.le_total heap.size (cell + 1) with longer | within
      · exact .inr ⟨_, List.mem_cons_self, Nat.max_eq_right longer⟩
      · exact .inl (Nat.max_eq_left within)
    · exact .inr ⟨last, List.mem_cons_of_mem _ mem, ends⟩

/-- Of several writes to a cell the last counts. -/
theorem get?_writeAll (writes : List (Nat × Value)) (cell : Nat) :
    (heap.writeAll writes).get? cell =
      ((writes.reverse.find? fun write => write.1 == cell).map Prod.snd).or (heap.get? cell) := by
  induction writes generalizing heap with
  | nil => rfl
  | cons write rest ih =>
    obtain ⟨written, value⟩ := write
    rw [writeAll, ih, get?_write, List.reverse_cons, List.find?_append]
    cases rest.reverse.find? fun write => write.1 == cell with
    | some last => rfl
    | none =>
      by_cases same : cell = written
      · simp [same]
      · simp [same, Ne.symm same]

/-- A cell that is not written stays as it is. -/
theorem get?_writeAll_of_forall_ne {writes : List (Nat × Value)} {cell : Nat}
    (others : ∀ write ∈ writes, write.1 ≠ cell) :
    (heap.writeAll writes).get? cell = heap.get? cell := by
  have notFound : (writes.reverse.find? fun write => write.1 == cell) = none := by
    apply List.find?_eq_none.mpr
    intro write mem
    simpa using others write (List.mem_reverse.mp mem)
  rw [get?_writeAll, notFound]
  rfl

end WriteAll

namespace WritesOf

variable {machine : Machine} {writes : List (Nat × Value)}
  (ofPairs : WritesOf machine.stack.toList.reverse writes)

include ofPairs

theorem exists_pair {index : Nat} {write : Nat × Value} (isWrite : writes[index]? = some write) :
    ∃ pair, machine.pair? index = some pair ∧ pair.address.Names write.1 ∧
      pair.value = write.2 := by
  obtain ⟨pair, isPair, names, value⟩ := ofPairs index write isWrite
  exact ⟨pair, (machine.pair?_eq index).trans isPair, names, value⟩

theorem getElem_eq {index : Nat} (inside : index < writes.length) {pair : Pair} {cell : Nat}
    (isPair : machine.pair? index = some pair) (names : pair.address.Names cell) :
    writes[index] = (cell, pair.value) := by
  obtain ⟨found, isFound, namesWritten, value⟩ :=
    ofPairs.exists_pair (List.getElem?_eq_getElem inside)
  rw [isPair] at isFound
  cases isFound
  exact Prod.ext (namesWritten.unique names) value.symm

/-- The writes of the first pairs make the heap that storing these pairs makes. -/
theorem stores : machine.Stores writes.length (machine.heap.writeAll writes) where
  size := by
    constructor
    · rcases machine.heap.size_writeAll_eq writes with same | ⟨write, mem, ends⟩
      · exact .inl same
      · obtain ⟨index, inside, isWrite⟩ := List.getElem_of_mem mem
        obtain ⟨pair, isPair, names, value⟩ :=
          ofPairs.exists_pair (List.getElem?_eq_some_iff.mpr ⟨inside, isWrite⟩)
        exact .inr ⟨index, inside, pair, write.1, isPair, names, ends⟩
    · rintro size (rfl | ⟨index, inside, pair, cell, isPair, names, rfl⟩)
      · exact machine.heap.size_le_size_writeAll writes
      · have mem : cell ∈ writes.map Prod.fst := by
          rw [List.mem_map]
          refine ⟨writes[index], List.getElem_mem inside, ?_⟩
          rw [ofPairs.getElem_eq inside isPair names]
        exact ((machine.heap.size_writeAll_le_iff writes _).mp (Nat.le_refl _)).2 cell mem
  written := by
    intro index inside pair cell isPair names latest
    rw [← List.take_append_drop index writes, writeAll_append, List.drop_eq_getElem_cons inside,
      ofPairs.getElem_eq inside isPair names, writeAll, get?_writeAll_of_forall_ne, get?_write,
      if_pos rfl]
    intro write mem isCell
    obtain ⟨after, isWrite⟩ := List.mem_iff_getElem?.mp mem
    rw [List.getElem?_drop] at isWrite
    obtain ⟨other, isOther, namesOther, -⟩ := ofPairs.exists_pair isWrite
    obtain ⟨within, -⟩ := List.getElem?_eq_some_iff.mp isWrite
    exact latest _ within (by omega) other isOther (isCell ▸ namesOther)
  kept := by
    intro cell unnamed
    apply get?_writeAll_of_forall_ne
    intro write mem isCell
    obtain ⟨index, isWrite⟩ := List.mem_iff_getElem?.mp mem
    obtain ⟨pair, isPair, names, -⟩ := ofPairs.exists_pair isWrite
    obtain ⟨inside, -⟩ := List.getElem?_eq_some_iff.mp isWrite
    exact unnamed index inside pair isPair (isCell ▸ names)

end WritesOf

end Heap

/-! ## Storing -/

namespace Machine

variable (machine : Machine) (scopes : Scopes) (limits : Limits)

/-- What is left of a stack that is given top first lies at the bottom. -/
theorem toArray_reverse_drop (count : Nat) :
    (machine.stack.toList.reverse.drop count).reverse.toArray =
      machine.stack.take (machine.stack.size - count) := by
  rw [List.reverse_drop, List.reverse_reverse, List.length_reverse, Array.length_toList,
    ← List.take_toArray, Array.toArray_toList]

/-- A stack has a pair for every two of its values. -/
theorem pair?_eq_none_iff (index : Nat) :
    machine.pair? index = none ↔ machine.stack.size / 2 ≤ index := by
  simp only [pair?, dite_eq_right_iff, reduceCtorEq, imp_false]
  omega

/-- As long as addresses are accepted, the pairs are stored and the rest is left to do. -/
theorem exists_storePairs_eq {count : Nat} (within : count ≤ machine.stack.size / 2)
    (accepted : ∀ index < count, ∀ pair, machine.pair? index = some pair →
      Heap.Accepts (machine.heap.storable limits.maxHeapCells) pair.address) :
    ∃ heap noted, machine.Stores count heap ∧ heap.reach = machine.heap.reach ∧
      machine.heap.storePairs limits.maxHeapCells [] machine.stack.toList.reverse =
        heap.storePairs limits.maxHeapCells noted
          (machine.stack.toList.reverse.drop (2 * count)) := by
  have first : ∀ index < count, ∃ pair,
      Heap.pair? machine.stack.toList.reverse index = some pair ∧
        Heap.Accepts (machine.heap.storable limits.maxHeapCells) pair.address := by
    intro index inside
    rw [← pair?_eq]
    cases isPair : machine.pair? index with
    | none =>
      have outside := (machine.pair?_eq_none_iff index).mp isPair
      omega
    | some pair => exact ⟨pair, rfl, accepted index inside pair isPair⟩
  obtain ⟨writes, noted, rfl, ofPairs, reach, goesOn⟩ := Heap.exists_storePairs_eq first []
  exact ⟨machine.heap.writeAll writes, noted, ofPairs.stores, reach, goesOn⟩

/-- What storing the pairs leaves of stack and heap is what `store` leaves. -/
theorem store_eq {stored : Heap.Stored}
    (stores : machine.heap.storePairs limits.maxHeapCells [] machine.stack.toList.reverse =
      stored) :
    (machine.store scopes limits).fault = stored.fault ∧
      (machine.store scopes limits).machine.stack = stored.rest.reverse.toArray ∧
      (machine.store scopes limits).machine.heap = stored.heap := by
  subst stores
  exact ⟨rfl, rfl, rfl⟩

/-- If all addresses are cells that may be stored to, `store` empties the stack but for a
value that is left over. Otherwise it stops at the first other address, counted from the
top, and leaves what is below it and its value. The pairs up to there have been stored,
and nothing else has changed. The cells that may be stored to are all within the limit,
unless the limit is more than memory can be asked for; then an address beyond their reach
aborts the run. -/
theorem store_pairs :
    ((∀ index pair, machine.pair? index = some pair →
        Heap.Accepts (machine.heap.storable limits.maxHeapCells) pair.address) →
      (machine.store scopes limits).fault = none ∧
      (machine.store scopes limits).machine.stack =
        machine.stack.take (machine.stack.size % 2) ∧
      machine.Stores (machine.stack.size / 2) (machine.store scopes limits).machine.heap) ∧
    (∀ index pair, machine.pair? index = some pair →
      ¬ Heap.Accepts (machine.heap.storable limits.maxHeapCells) pair.address →
      (∀ earlier < index, ∀ other, machine.pair? earlier = some other →
        Heap.Accepts (machine.heap.storable limits.maxHeapCells) other.address) →
      (∃ fault, (machine.store scopes limits).fault = some fault ∧
        Heap.Refuses limits.maxHeapCells machine.heap.reach pair.address fault) ∧
      (machine.store scopes limits).machine.stack =
        machine.stack.take (machine.stack.size - 2 * (index + 1)) ∧
      machine.Stores index (machine.store scopes limits).machine.heap) ∧
    (limits.maxHeapCells ≤ Heap.maxCells →
      machine.heap.storable limits.maxHeapCells = limits.maxHeapCells) ∧
    (machine.store scopes limits).scopes = scopes ∧
    (machine.store scopes limits).machine.output = machine.output ∧
    (machine.store scopes limits).machine.depth = machine.depth := by
  refine ⟨?_, ?_, machine.heap.storable_eq_of_le, rfl, rfl, rfl⟩
  · intro accepted
    obtain ⟨heap, noted, stores, -, goesOn⟩ := machine.exists_storePairs_eq limits
      (Nat.le_refl _) fun index _ => accepted index
    have short : Heap.pair? (machine.stack.toList.reverse.drop (2 * (machine.stack.size / 2))) 0 =
        none := by
      rw [Heap.pair?_drop, ← pair?_eq]
      exact (machine.pair?_eq_none_iff _).mpr (Nat.le_refl _)
    rw [Heap.storePairs_of_pair?_eq_none short] at goesOn
    obtain ⟨fault, stack, reached⟩ := machine.store_eq scopes limits goesOn
    refine ⟨fault, ?_, reached ▸ stores⟩
    rw [stack, toArray_reverse_drop, Nat.mod_eq_sub]
  · intro index pair isPair bad accepted
    have inside : ¬ machine.stack.size / 2 ≤ index := by
      rw [← pair?_eq_none_iff, isPair]
      exact Option.some_ne_none pair
    obtain ⟨heap, noted, stores, reach, goesOn⟩ :=
      machine.exists_storePairs_eq limits (Nat.le_of_not_le inside) accepted
    have first : Heap.pair? (machine.stack.toList.reverse.drop (2 * index)) 0 = some pair := by
      rw [Heap.pair?_drop, ← pair?_eq, isPair]
    rw [Heap.storable, ← reach] at bad
    obtain ⟨fault, growth, refuses, stops⟩ :=
      Heap.exists_storePairs_eq_of_not_accepts first bad noted
    rw [stops, List.drop_drop] at goesOn
    obtain ⟨failed, stack, reached⟩ := machine.store_eq scopes limits goesOn
    refine ⟨⟨fault, failed, reach ▸ refuses⟩, ?_, reached ▸ stores⟩
    rw [stack, toArray_reverse_drop, Nat.mul_succ]

/-- A value below three pairs, of which the lowest and the highest have one address. -/
def threePairs : Machine where
  stack := #[.integer 5, .integer 30, .integer 1, .integer 10, .integer 3, .integer 20, .integer 1]
  heap := .empty
  depth := 1
  output := .empty none

/-- With four cells all pairs are stored, and the lowest wins. With two cells the second
pair is refused, and only the first has been stored. -/
theorem store_pairs_threePairs :
    ((threePairs.store .initial ⟨1, 4, 0⟩).fault = none ∧
      (threePairs.store .initial ⟨1, 4, 0⟩).machine.stack = #[.integer 5] ∧
      (threePairs.store .initial ⟨1, 4, 0⟩).machine.heap.get? 1 = some (.integer 30)) ∧
    (threePairs.store .initial ⟨1, 2, 0⟩).fault = some (.heapLimit 3 2) ∧
    (threePairs.store .initial ⟨1, 2, 0⟩).machine.stack =
      #[.integer 5, .integer 30, .integer 1] ∧
    (threePairs.store .initial ⟨1, 2, 0⟩).machine.heap.get? 1 = some (.integer 20) := by
  have notMore (index : Nat) : threePairs.pair? (index + 3) = none :=
    (threePairs.pair?_eq_none_iff _).mpr (Nat.le_add_left 3 index)
  constructor
  · obtain ⟨all, -, storable, -⟩ := threePairs.store_pairs .initial ⟨1, 4, 0⟩
    rw [storable (by decide)] at all
    have accepted : ∀ index pair, threePairs.pair? index = some pair →
        Heap.Accepts 4 pair.address := by
      intro index pair isPair
      match index, isPair with
      | 0, rfl => exact ⟨1, by decide, 1, rfl, rfl⟩
      | 1, rfl => exact ⟨3, by decide, 3, rfl, rfl⟩
      | 2, rfl => exact ⟨1, by decide, 1, rfl, rfl⟩
      | index + 3, isPair => cases (notMore index).symm.trans isPair
    obtain ⟨fault, stack, stores⟩ := all accepted
    refine ⟨fault, stack, ?_⟩
    exact stores.written 2 (by decide) _ 1 rfl ⟨1, rfl, rfl⟩ fun later inside above =>
      absurd inside (Nat.not_lt.mpr above)
  · obtain ⟨-, upTo, storable, -⟩ := threePairs.store_pairs .initial ⟨1, 2, 0⟩
    rw [storable (by decide)] at upTo
    have bad : ¬ Heap.Accepts 2 (.integer 3) := by
      rintro ⟨cell, below, n, isInteger, isCell⟩
      cases isInteger
      have three : (3 : Int64).toInt = 3 := rfl
      omega
    have accepted : ∀ earlier < 1, ∀ other, threePairs.pair? earlier = some other →
        Heap.Accepts 2 other.address := by
      intro earlier first other isPair
      obtain rfl := Nat.lt_one_iff.mp first
      cases isPair
      exact ⟨1, by decide, 1, rfl, rfl⟩
    obtain ⟨⟨fault, failed, refuses⟩, stack, stores⟩ :=
      upTo 1 ⟨.integer 10, .integer 3⟩ rfl bad accepted
    have isBeyond : fault = .heapLimit 3 2 := by
      cases refuses with
      | invalid notNatural => exact absurd (notNatural 3 rfl) (by decide)
      | beyond => rfl
      | aborted names within => exact absurd ⟨_, within, names⟩ bad
    refine ⟨isBeyond ▸ failed, stack, ?_⟩
    exact stores.written 0 Nat.one_pos _ 1 rfl ⟨1, rfl, rfl⟩ fun later inside above =>
      absurd inside (Nat.not_lt.mpr above)

/-- A value below an address that no heap reaches. -/
def farPair : Machine where
  stack := #[.integer 0, .integer 4611686018427387904]
  heap := .empty
  depth := 1
  output := .empty none

/-- Under the greatest limit that a word holds the address is a cell within the limit, but
storing does not succeed. -/
theorem store_farPair :
    (∀ index pair, farPair.pair? index = some pair →
      Heap.Accepts 18446744073709551615 pair.address) ∧
    (farPair.store .initial ⟨1, 18446744073709551615, 0⟩).fault = some .capacityOverflow := by
  constructor
  · intro index pair isPair
    match index, isPair with
    | 0, rfl => exact ⟨4611686018427387904, by decide, _, rfl, rfl⟩
  · decide +kernel

end Machine

end StackScript
