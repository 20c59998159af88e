import StackScript.Proofs.Heap
import StackScript.Proofs.Run

/-!
# Sessions

One machine may be used again and again: each request begins on the machine that
the one before it has left, however that one ended. A session goes from one moment
of such a use to a later one, and lists what is written to the heap in between. The
heap changes by these writes and by nothing else.
-/

namespace StackScript

/-- A machine that nothing has been asked of. -/
def Turn.unused (output : Output) : Turn :=
  .ended ⟨.ok .completed, .initial output, .initial⟩

/-- What the next step of a run writes to the heap. -/
def Turn.writes (limits : Limits) : Turn → List (Nat × Value)
  | .ongoing ⟨machine, _, .store :: _, _⟩ =>
    Heap.writes (machine.heap.storable limits.maxHeapCells) machine.stack.toList.reverse
  | _ => []

/-- A session leads from one turn to another with these writes in between: by
steps, and by requests on the machine of a run that has ended. In fact no request
follows on a run that was aborted; what holds of all these sessions holds of those
that end there. -/
inductive Session (program : Program) (limits : Limits) (first : Turn) :
    List (Nat × Value) → Turn → Prop
  | here : Session program limits first [] first
  | request {written : List (Nat × Value)} {ending : Ending}
      (before : Session program limits first written (.ended ending)) (request : Request)
      (scopes : Scopes) :
      Session program limits first written
        (request.start program limits ending.machine scopes).turn
  | step {written : List (Nat × Value)} {turn : Turn}
      (before : Session program limits first written turn) :
      Session program limits first (written ++ turn.writes limits)
        (turn.step program limits).turn

variable {program : Program} {limits : Limits}

/-! ## The heap -/

/-- What a step writes is below the limit of the heap. -/
theorem Turn.lt_of_mem_writes {turn : Turn} {write : Nat × Value}
    (mem : write ∈ turn.writes limits) : write.1 < limits.maxHeapCells := by
  cases turn with
  | ended ending => cases mem
  | ongoing activity =>
    obtain ⟨machine, scopes, code, outer⟩ := activity
    cases code with
    | nil => cases mem
    | cons instruction after =>
      cases instruction with
      | store => exact (Nat.lt_min.mp (Heap.lt_of_mem_writes mem)).1
      | _ => cases mem

/-- A step changes the heap by its writes. -/
theorem Turn.heap_step (turn : Turn) :
    (turn.step program limits).turn.machine.heap =
      turn.machine.heap.writeAll (turn.writes limits) := by
  cases turn with
  | ended ending => rfl
  | ongoing activity =>
    obtain ⟨machine, scopes, code, outer⟩ := activity
    cases code with
    | nil => exact Step.view_resume Machine.apart_heap machine scopes outer
    | cons instruction after =>
      have settled := Step.view_settle Machine.apart_heap after outer
      cases instruction with
      | print source =>
        refine (settled _).trans ?_
        simp only [Machine.print]
        split <;> rfl
      | store => exact (settled _).trans (Heap.heap_storePairs ..)
      | _ => exact Step.view_perform Machine.apart_heap _ _ _ _ _ _ rfl

/-- A session changes the heap by its writes. -/
theorem Session.heap {first last : Turn} {written : List (Nat × Value)}
    (session : Session program limits first written last) :
    last.machine.heap = first.machine.heap.writeAll written := by
  induction session with
  | here => rfl
  | request before request scopes ih =>
    rw [← ih]
    exact Request.view_start Machine.apart_heap ..
  | step before ih => rw [Turn.heap_step, ih, Heap.writeAll_append]

/-- All of them are below the limit of the heap. -/
theorem Session.lt_of_mem {first last : Turn} {written : List (Nat × Value)}
    (session : Session program limits first written last) {write : Nat × Value}
    (mem : write ∈ written) : write.1 < limits.maxHeapCells := by
  induction session with
  | here => cases mem
  | request before request scopes ih => exact ih mem
  | step before ih =>
    rcases List.mem_append.mp mem with mem | mem
    · exact ih mem
    · exact Turn.lt_of_mem_writes mem

/-- Two sessions after each other are one. -/
theorem Session.trans {first middle last : Turn} {written more : List (Nat × Value)}
    (before : Session program limits first written middle)
    (after : Session program limits middle more last) :
    Session program limits first (written ++ more) last := by
  induction after with
  | here => rwa [List.append_nil]
  | request _ request scopes ih => exact .request ih request scopes
  | step _ ih =>
    rw [← List.append_assoc]
    exact .step ih

/-- At every moment of a session that began with an unused machine the heap is
within its limit, its last cell has been written, and it is without cells or
reaches just up to the greatest address that has been written to. Later it is no
shorter, and a written cell stays written. -/
theorem Session.heap_invariant {output : Output} {early late : Turn}
    {written more : List (Nat × Value)}
    (before : Session program limits (.unused output) written early)
    (between : Session program limits early more late) :
    late.machine.heap.size ≤ limits.maxHeapCells ∧
    (late.machine.heap.size ≠ 0 →
      late.machine.heap.get? (late.machine.heap.size - 1) ≠ none) ∧
    early.machine.heap.size ≤ late.machine.heap.size ∧
    (∀ address, early.machine.heap.get? address ≠ none →
      late.machine.heap.get? address ≠ none) ∧
    (written ++ more = [] ∧ late.machine.heap.size = 0 ∨
      ∃ greatest ∈ (written ++ more).map Prod.fst,
        (∀ address ∈ (written ++ more).map Prod.fst, address ≤ greatest) ∧
        late.machine.heap.size = greatest + 1) := by
  have whole := before.trans between
  have heap : late.machine.heap = Heap.empty.writeAll (written ++ more) := whole.heap
  have reached := Heap.size_writeAll_empty (written ++ more)
  rw [← heap] at reached
  refine ⟨?_, ?_, ?_, ?_, reached⟩
  · rw [heap, Heap.size_writeAll_le_iff]
    constructor
    · exact Nat.zero_le _
    · intro address mem
      obtain ⟨write, writeMem, rfl⟩ := List.mem_map.mp mem
      exact whole.lt_of_mem writeMem
  · intro notEmpty
    rcases reached with ⟨_, size⟩ | ⟨greatest, mem, _, size⟩
    · exact absurd size notEmpty
    · rw [size, Nat.add_sub_cancel, heap, Heap.get?_writeAll_ne_none_iff]
      exact .inr mem
  · rw [between.heap]
    exact Heap.size_le_size_writeAll ..
  · intro address isWritten
    rw [between.heap, Heap.get?_writeAll_ne_none_iff]
    exact .inl isWritten

/-- A program whose entry point stores a number, and then fails to store another at
an address that is a text. -/
def Program.storing : Program where
  subroutines := [⟨entryPoint, [.push (.integer 6), .push (.text "x"), .push (.integer 5),
    .push (.integer 2), .store]⟩]
  sorted := List.pairwise_singleton _ _
  definesEntryPoint := ⟨_, List.mem_singleton_self _, rfl⟩

/-- The heap that the failed store leaves has three cells, of which the last has
been written. -/
theorem Session.storing_halfway :
    ∃ late, Session .storing .default (.unused (.empty none)) [] (.unused (.empty none)) ∧
      Session .storing .default (.unused (.empty none)) [(2, .integer 5)] late ∧
      late.ending?.map Ending.result = some (.error (.invalidAddress (.text "x"))) ∧
      late.machine.heap.size = 3 ∧ late.machine.heap.get? 2 ≠ none := by
  have before : Session .storing .default (.unused (.empty none)) [] (.unused (.empty none)) :=
    .here
  have between : Session .storing .default (.unused (.empty none)) [(2, .integer 5)] _ :=
    .step (.step (.step (.step (.step (.request before .execute .initial)))))
  have invariant := heap_invariant before between
  exact ⟨_, before, between, rfl, rfl, invariant.2.1 (Nat.succ_ne_zero 2)⟩

end StackScript
