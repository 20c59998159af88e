import StackScript.Fault

/-!
# The heap

Cells numbered from zero. Storing to a cell beyond the end makes the heap just
long enough, and the cells in between are there but never written. Storing
takes the stack from the top in pairs of an address above a value; loading
replaces a whole stack of addresses. Both stop at the first bad address and
keep what was done before it. Storing also stops where the heap cannot be made
long enough.
-/

namespace StackScript

/-- The cells of the heap; a cell that was never written holds nothing. -/
structure Heap where
  cells : Array (Option Value)

namespace Heap

/-- A heap without cells. -/
def empty : Heap :=
  ⟨#[]⟩

/-- The number of cells. -/
def size (heap : Heap) : Nat :=
  heap.cells.size

/-- What was written to a cell last. -/
def get? (heap : Heap) (address : Nat) : Option Value :=
  heap.cells[address]?.join

/-- What a cell reads as: a cell never written is empty. -/
def read (heap : Heap) (address : Nat) : Value :=
  (heap.get? address).getD .empty

/-- The bytes that a cell takes: three words, those of a text. -/
def cellBytes : Nat :=
  24

/-- The cells that memory can be asked for at once, at the most. -/
def maxCells : Nat :=
  maxAllocation / cellBytes

/-- The cells that the heap has or can be made to have. -/
def reach (heap : Heap) : Nat :=
  max heap.size maxCells

/-- Writes a cell within reach, after making the heap long enough for it. -/
def write (heap : Heap) (address : Nat) (value : Value) : Heap :=
  if inside : address < heap.cells.size then ⟨heap.cells.set address (some value) inside⟩
  else
    let gap := Array.replicate (address - heap.cells.size) none
    ⟨(heap.cells ++ gap).push (some value)⟩

/-- A written heap reaches to the written cell and no further than before. -/
theorem size_write (heap : Heap) (address : Nat) (value : Value) :
    (heap.write address value).size = max heap.size (address + 1) := by
  simp only [write, size]
  split
  · simp only [Array.size_set]
    omega
  · simp only [Array.size_push, Array.size_append, Array.size_replicate]
    omega

/-- Writing changes the written cell alone. -/
theorem get?_write (heap : Heap) (address other : Nat) (value : Value) :
    (heap.write address value).get? other =
      if other = address then some value else heap.get? other := by
  simp only [write, get?]
  split
  · rename_i inside
    rw [Array.getElem?_set]
    by_cases otherEq : other = address
    · rw [if_pos otherEq.symm, if_pos otherEq]
      rfl
    · rw [if_neg (Ne.symm otherEq), if_neg otherEq]
  · rename_i outside
    have length :
        (heap.cells ++ Array.replicate (address - heap.cells.size) none).size = address := by
      rw [Array.size_append, Array.size_replicate]
      omega
    rw [Array.getElem?_push, length]
    by_cases otherEq : other = address
    · rw [if_pos otherEq, if_pos otherEq]
      rfl
    · rw [if_neg otherEq, if_neg otherEq, Array.getElem?_append]
      split
      · rfl
      · rename_i beyond
        have missing : heap.cells[other]? = none := Array.getElem?_eq_none (by omega)
        rw [Array.getElem?_replicate, missing]
        split <;> rfl

/-- The written cells with their addresses, in increasing order. -/
def written (heap : Heap) : List (Nat × Value) :=
  (heap.cells.foldl (fun (found, address) cell =>
      (match cell with
        | some value => (address, value) :: found
        | none => found, address + 1)) (([] : List (Nat × Value)), 0)).1.reverse

/-! ## Store -/

/-- The cell that a value names for storing. -/
def storeAddress (limit : Nat) (address : Value) : Except Fault Nat :=
  match address with
  | .integer n =>
    if n < 0 then .error (.invalidAddress address)
    else if n.toInt.toNat < limit then .ok n.toInt.toNat
    else .error (.heapLimit n limit)
  | _ => .error (.invalidAddress address)

/-- What storing leaves behind. -/
structure Stored where
  /-- What is left of the stack, top first. -/
  rest : List Value
  heap : Heap
  /-- The sizes of the heap before and after each time it grew. -/
  growth : List (Nat × Nat)
  fault : Option Fault

/-- Stores pairs from a stack, top first, until a bad address or fewer than two
values are left; `growth` is what has been noted, latest first. That the heap grows
is noted before it does, also if the cell is then out of reach. -/
def storePairs (limit : Nat) (heap : Heap) (growth : List (Nat × Nat)) : List Value → Stored
  | address :: value :: rest =>
    match storeAddress limit address with
    | .error fault => ⟨rest, heap, growth.reverse, some fault⟩
    | .ok index =>
      let size := heap.size
      let growth := if index < size then growth else (size, index + 1) :: growth
      if index < heap.reach then storePairs limit (heap.write index value) growth rest
      else ⟨rest, heap, growth.reverse, some .capacityOverflow⟩
  | rest => ⟨rest, heap, growth.reverse, none⟩

/-! ## Load -/

/-- The cell that a value names for loading. -/
def loadAddress (heap : Heap) (address : Value) : Except Fault Nat :=
  match address with
  | .integer n =>
    if 0 ≤ n ∧ n.toInt.toNat < heap.size then .ok n.toInt.toNat
    else .error (.invalidAddress address)
  | _ => .error (.invalidAddress address)

/-- Reads the cells that a stack names, bottom first, behind what has been
`loaded`. -/
def loadAll (heap : Heap) (loaded : Array Value) : List Value → Array Value × Option Fault
  | [] => (loaded, none)
  | address :: rest =>
    match heap.loadAddress address with
    | .ok index => heap.loadAll (loaded.push (heap.read index)) rest
    | .error fault => (loaded, some fault)

end Heap

end StackScript
