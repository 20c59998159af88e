import StackScript.Heap

/-!
# What is stored

Storing a stack of pairs is a list of writes, one after the other, up to the
first address that is no cell within the limit and within reach. A heap that began
without cells is what has been written to it: it ends with the greatest address, and
a cell holds something if its address was written.
-/

namespace StackScript

/-- The value is an integer, and the number of a cell. -/
def Value.Names (value : Value) (cell : Nat) : Prop :=
  ∃ n : Int64, value = .integer n ∧ n.toInt = cell

theorem Value.Names.unique {value : Value} {cell other : Nat} (names : value.Names cell)
    (namesOther : value.Names other) : cell = other := by
  obtain ⟨n, rfl, isCell⟩ := names
  obtain ⟨m, same, isOther⟩ := namesOther
  cases same
  omega

namespace Heap

/-! ## Addresses -/

/-- The address is a cell below the bound. -/
def Accepts (bound : Nat) (address : Value) : Prop :=
  ∃ cell < bound, address.Names cell

/-- The fault of an address that is not stored to: it is no natural number at all, or
beyond the limit, or within the limit but out of reach. -/
inductive Refuses (limit reach : Nat) : Value → Fault → Prop
  | invalid {address : Value} (notNatural : ∀ n : Int64, address = .integer n → n.toInt < 0) :
      Refuses limit reach address (.invalidAddress address)
  | beyond {n : Int64} (tooLarge : (limit : Int) ≤ n.toInt) :
      Refuses limit reach (.integer n) (.heapLimit n limit)
  | aborted {cell : Nat} {address : Value} (names : address.Names cell) (within : cell < limit)
      (outOfReach : reach ≤ cell) : Refuses limit reach address .capacityOverflow

variable {limit reach cell : Nat} {address : Value} {fault : Fault}

theorem storeAddress_eq_ok_iff :
    storeAddress limit address = .ok cell ↔ cell < limit ∧ address.Names cell := by
  cases address with
  | integer n =>
    simp only [storeAddress, Int64.lt_iff_toInt_lt, Int64.toInt_zero, Value.Names,
      Value.integer.injEq, exists_eq_left']
    split
    · simp only [reduceCtorEq, false_iff]
      omega
    · split
      · rw [Except.ok.injEq]
        omega
      · simp only [reduceCtorEq, false_iff]
        omega
  | float | text | empty => simp [storeAddress, Value.Names]

/-- An address that is no cell within the limit is refused. -/
theorem refuses_of_storeAddress (failed : storeAddress limit address = .error fault) :
    Refuses limit reach address fault := by
  cases address with
  | float | text | empty =>
    cases failed
    exact .invalid nofun
  | integer n =>
    simp only [storeAddress, Int64.lt_iff_toInt_lt, Int64.toInt_zero] at failed
    split at failed
    · rename_i negative
      cases failed
      apply Refuses.invalid
      rintro m ⟨⟩
      exact negative
    · split at failed
      · cases failed
      · cases failed
        exact .beyond (by omega)

/-- The cells that may be stored to: those within the limit that the heap has or can be
made to have. -/
def storable (heap : Heap) (limit : Nat) : Nat :=
  min limit heap.reach

/-- Below a limit that memory can be asked for no cell is out of reach. -/
theorem storable_eq_of_le (heap : Heap) (small : limit ≤ maxCells) : heap.storable limit = limit :=
  Nat.min_eq_left (Nat.le_trans small (Nat.le_max_right ..))

theorem storeAddress_storable_eq_ok_iff {heap : Heap} :
    storeAddress (heap.storable limit) address = .ok cell ↔
      storeAddress limit address = .ok cell ∧ cell < heap.reach := by
  rw [storeAddress_eq_ok_iff, storeAddress_eq_ok_iff, storable, Nat.lt_min, and_right_comm]

/-- Writing within reach leaves the same cells within reach. -/
theorem reach_write {heap : Heap} (within : cell < heap.reach) (value : Value) :
    (heap.write cell value).reach = heap.reach := by
  simp only [reach, size_write] at within ⊢
  omega

theorem storable_write {heap : Heap} (within : cell < heap.reach) (value : Value) (limit : Nat) :
    (heap.write cell value).storable limit = heap.storable limit := by
  rw [storable, reach_write within, storable]

/-! ## Writes -/

/-- The writes that storing a stack makes, top first, up to the first address that is no
cell below the bound. -/
def writes (bound : Nat) : List Value → List (Nat × Value)
  | address :: value :: rest =>
    match storeAddress bound address with
    | .error _ => []
    | .ok index => (index, value) :: writes bound rest
  | _ => []

/-- The heap after these writes, the first of them first. -/
def writeAll (heap : Heap) : List (Nat × Value) → Heap
  | [] => heap
  | (address, value) :: rest => writeAll (heap.write address value) rest

theorem writes_of_storeAddress_ne_ok {bound : Nat}
    (bad : ∀ cell, storeAddress bound address ≠ .ok cell) (value : Value) (rest : List Value) :
    writes bound (address :: value :: rest) = [] := by
  rw [writes]
  cases found : storeAddress bound address with
  | error fault => rfl
  | ok cell => exact absurd found (bad cell)

/-! ## Storing and loading -/

/-- Storing makes its writes. -/
theorem heap_storePairs (limit : Nat) (heap : Heap) (growth : List (Nat × Nat))
    (stack : List Value) :
    (heap.storePairs limit growth stack).heap =
      heap.writeAll (writes (heap.storable limit) stack) := by
  fun_induction storePairs limit heap growth stack with
  | case1 heap growth address value rest fault failed =>
    rw [writes_of_storeAddress_ne_ok]
    · rfl
    · intro cell found
      cases failed.symm.trans (storeAddress_storable_eq_ok_iff.mp found).1
  | case2 heap growth address value rest index found size longer within ih =>
    simp only [writes, storeAddress_storable_eq_ok_iff.mpr ⟨found, within⟩, writeAll]
    rw [← storable_write within value]
    exact ih
  | case3 heap growth address value rest index found size longer outOfReach =>
    rw [writes_of_storeAddress_ne_ok]
    · rfl
    · intro cell stored
      obtain ⟨isCell, within⟩ := storeAddress_storable_eq_ok_iff.mp stored
      cases found.symm.trans isCell
      exact outOfReach within
  | case4 heap growth rest short =>
    rw [writes]
    · rfl
    · exact short

/-- Storing fails with the fault of an address on the stack. -/
theorem exists_refuses_of_fault_storePairs {heap : Heap} {growth : List (Nat × Nat)}
    {stack : List Value} (failed : (heap.storePairs limit growth stack).fault = some fault) :
    ∃ address ∈ stack, Refuses limit heap.reach address fault := by
  fun_induction storePairs limit heap growth stack with
  | case1 heap growth address value rest found bad =>
    cases failed
    exact ⟨address, List.mem_cons_self, refuses_of_storeAddress bad⟩
  | case2 heap growth address value rest index found size longer within ih =>
    obtain ⟨bad, mem, isBad⟩ := ih failed
    rw [reach_write within] at isBad
    exact ⟨bad, List.mem_cons_of_mem _ (List.mem_cons_of_mem _ mem), isBad⟩
  | case3 heap growth address value rest index found size longer outOfReach =>
    cases failed
    obtain ⟨within, names⟩ := storeAddress_eq_ok_iff.mp found
    exact ⟨address, List.mem_cons_self, .aborted names within (Nat.le_of_not_lt outOfReach)⟩
  | case4 heap growth rest short => cases failed

theorem eq_invalidAddress_of_loadAddress {heap : Heap}
    (failed : heap.loadAddress address = .error fault) : fault = .invalidAddress address := by
  cases address with
  | float | text | empty =>
    cases failed
    rfl
  | integer n =>
    simp only [loadAddress] at failed
    split at failed
    · cases failed
    · cases failed
      rfl

/-- Loading fails with the fault of an address on the stack. -/
theorem exists_loadAddress_of_fault_loadAll {heap : Heap} {loaded : Array Value}
    {stack : List Value} {fault : Fault} (failed : (heap.loadAll loaded stack).2 = some fault) :
    ∃ address ∈ stack, heap.loadAddress address = .error fault := by
  fun_induction loadAll heap loaded stack with
  | case1 => cases failed
  | case2 loaded address rest index found ih =>
    obtain ⟨bad, mem, isBad⟩ := ih failed
    exact ⟨bad, List.mem_cons_of_mem _ mem, isBad⟩
  | case3 loaded address rest found bad =>
    cases failed
    exact ⟨address, List.mem_cons_self, bad⟩

/-- Every write is below the bound. -/
theorem lt_of_mem_writes {bound : Nat} {stack : List Value} {write : Nat × Value}
    (mem : write ∈ writes bound stack) : write.1 < bound := by
  fun_induction writes bound stack with
  | case1 => cases mem
  | case2 address value rest index found ih =>
    rcases List.mem_cons.mp mem with rfl | mem
    · exact (storeAddress_eq_ok_iff.mp found).1
    · exact ih mem
  | case3 => cases mem

/-! ## Written heaps -/

section WriteAll

variable (heap : Heap)

theorem writeAll_append (first second : List (Nat × Value)) :
    heap.writeAll (first ++ second) = (heap.writeAll first).writeAll second := by
  induction first generalizing heap with
  | nil => rfl
  | cons write rest ih => exact ih _

/-- A written heap reaches as far as it did and as the writes do. -/
theorem size_writeAll_le_iff (writes : List (Nat × Value)) (bound : Nat) :
    (heap.writeAll writes).size ≤ bound ↔
      heap.size ≤ bound ∧ ∀ address ∈ writes.map Prod.fst, address < bound := by
  induction writes generalizing heap with
  | nil => simp [writeAll]
  | cons write rest ih =>
    obtain ⟨address, value⟩ := write
    rw [writeAll, ih, size_write, Nat.max_le, List.map_cons, List.forall_mem_cons, and_assoc]
    rfl

/-- No write makes the heap shorter. -/
theorem size_le_size_writeAll (writes : List (Nat × Value)) :
    heap.size ≤ (heap.writeAll writes).size :=
  ((heap.size_writeAll_le_iff writes _).mp (Nat.le_refl _)).1

/-- A cell holds something afterwards if it did before or has been written. -/
theorem get?_writeAll_ne_none_iff (writes : List (Nat × Value)) (address : Nat) :
    (heap.writeAll writes).get? address ≠ none ↔
      heap.get? address ≠ none ∨ address ∈ writes.map Prod.fst := by
  induction writes generalizing heap with
  | nil => simp [writeAll]
  | cons write rest ih =>
    obtain ⟨written, value⟩ := write
    rw [writeAll, ih, get?_write, List.map_cons, List.mem_cons]
    by_cases isWritten : address = written
    · simp [isWritten]
    · simp [isWritten]

end WriteAll

/-- A heap that began without cells reaches up to the greatest address that has
been written, and no further. -/
theorem size_writeAll_empty (writes : List (Nat × Value)) :
    writes = [] ∧ (empty.writeAll writes).size = 0 ∨
      ∃ greatest ∈ writes.map Prod.fst, (∀ address ∈ writes.map Prod.fst, address ≤ greatest) ∧
        (empty.writeAll writes).size = greatest + 1 := by
  have reaches (bound : Nat) : (empty.writeAll writes).size ≤ bound ↔
      ∀ address ∈ writes.map Prod.fst, address < bound :=
    (size_writeAll_le_iff empty writes bound).trans (and_iff_right (Nat.zero_le bound))
  cases size : (empty.writeAll writes).size with
  | zero =>
    left
    cases writes with
    | nil => exact ⟨rfl, rfl⟩
    | cons write rest =>
      have negative := (reaches 0).mp (Nat.le_of_eq size) write.1 List.mem_cons_self
      exact absurd negative (Nat.not_lt_zero _)
  | succ greatest =>
    right
    have within := (reaches (greatest + 1)).mp (Nat.le_of_eq size)
    have beyond : ¬ ∀ address ∈ writes.map Prod.fst, address < greatest := by
      rw [← reaches, size]
      exact Nat.not_succ_le_self greatest
    obtain ⟨address, mem, reached⟩ : ∃ address ∈ writes.map Prod.fst, greatest ≤ address := by
      simpa using beyond
    obtain rfl : address = greatest := by
      have below := within address mem
      omega
    exact ⟨address, mem, fun other otherMem => Nat.le_of_lt_succ (within other otherMem), rfl⟩

end Heap

end StackScript
