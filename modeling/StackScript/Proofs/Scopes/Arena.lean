import StackScript.Proofs.Scopes.FlatTable

/-!
# Scopes in one array

The frames of a call can be kept in one array, the innermost frame last, each
with the index of the frame around it. A name is then searched along these
indices. After any changes the array holds the frames of the chain in the
opposite order, each linked to the one before it, so the search along the links
is the search through the chain.
-/

namespace StackScript

/-- A frame with the index of the frame around it. -/
structure LinkedFrame where
  frame : Frame
  parent : Option Nat

/-- Frames in one array, each linked to one before it. -/
structure ScopeArena where
  frames : Array LinkedFrame
  nonempty : 0 < frames.size
  parent_lt : ∀ {index parent : Nat} {linked : LinkedFrame},
    frames[index]? = some linked → linked.parent = some parent → parent < index

namespace ScopeArena

/-- The root frame alone. -/
def initial : ScopeArena where
  frames := #[⟨.empty, none⟩]
  nonempty := Nat.one_pos
  parent_lt := by
    intro index parent linked held up
    obtain ⟨inside, rfl⟩ := Array.getElem?_eq_some_iff.mp held
    obtain rfl : index = 0 := Nat.lt_one_iff.mp inside
    cases up

/-- The index of the innermost frame. -/
def current (arena : ScopeArena) : Nat :=
  arena.frames.size - 1

/-- The number of frames. -/
def depth (arena : ScopeArena) : Nat :=
  arena.frames.size

/-- The first frame that binds a name, from this one on along the links, by its
index and with the value. -/
def locate? (arena : ScopeArena) (name : String) (index : Nat) : Option FlatEntry :=
  match _ : arena.frames[index]? with
  | none => none
  | some linked =>
    match linked.frame.get? name with
    | some value => some ⟨index, value⟩
    | none =>
      match _ : linked.parent with
      | none => none
      | some parent => arena.locate? name parent
termination_by index
decreasing_by exact arena.parent_lt ‹_› ‹_›

/-- The value of a name, or the fault of reading it. -/
def resolve (arena : ScopeArena) (name : String) : Except Fault Value :=
  match arena.locate? name arena.current with
  | some entry => .ok entry.value
  | none => .error (.unboundName name)

/-- Whether the innermost frame itself binds a name. -/
def bindsLocally (arena : ScopeArena) (name : String) : Bool :=
  arena.frames[arena.current]?.any fun linked => linked.frame.binds name

/-- Writes a name in the frame at this index. -/
def put (arena : ScopeArena) (index : Nat) (name : String) (value : Value) : ScopeArena where
  frames := arena.frames.modify index fun linked =>
    { linked with frame := linked.frame.set name value }
  nonempty := by
    rw [Array.size_modify]
    exact arena.nonempty
  parent_lt := by
    intro other parent linked held up
    rw [Array.getElem?_modify] at held
    split at held
    · obtain ⟨before, heldBefore, rfl⟩ := Option.map_eq_some_iff.mp held
      exact arena.parent_lt heldBefore up
    · exact arena.parent_lt held up

/-- Writes a name in the first frame that binds it, or else in the innermost
one. -/
def assign (arena : ScopeArena) (name : String) (value : Value) : ScopeArena :=
  match arena.locate? name arena.current with
  | some entry => arena.put entry.level name value
  | none => arena.put arena.current name value

/-- Adds an empty frame inside the innermost one. -/
def inherit (arena : ScopeArena) : ScopeArena where
  frames := arena.frames.push ⟨.empty, some arena.current⟩
  nonempty := by simp
  parent_lt := by
    intro index parent linked held up
    rw [Array.getElem?_push] at held
    split at held
    · rename_i atEnd
      cases held
      cases up
      rw [atEnd]
      exact Nat.sub_one_lt_of_lt arena.nonempty
    · exact arena.parent_lt held up

/-- Drops the innermost frame, unless it is the root. -/
def leave (arena : ScopeArena) : ScopeArena :=
  if several : 1 < arena.frames.size then {
    frames := arena.frames.pop
    nonempty := by
      rw [Array.size_pop]
      exact Nat.sub_pos_of_lt several
    parent_lt := by
      intro index parent linked held up
      rw [Array.getElem?_pop] at held
      split at held
      · exact arena.parent_lt held up
      · cases held }
  else arena

end ScopeArena

/-- The change of an array of frames. -/
def ScopeChange.onArena : ScopeChange → ScopeArena → ScopeArena
  | .assign name value, arena => arena.assign name value
  | .inherit, arena => arena.inherit
  | .leave, arena => arena.leave

/-- The array after these changes of the root frame alone. -/
def ScopeArena.after (changes : List ScopeChange) : ScopeArena :=
  changes.foldl (fun arena change => change.onArena arena) .initial

/-- One frame of the search along the links. -/
theorem ScopeArena.locate?_of_held {arena : ScopeArena} {index : Nat} {linked : LinkedFrame}
    (held : arena.frames[index]? = some linked) (name : String) :
    arena.locate? name index =
      match linked.frame.get? name with
      | some value => some ⟨index, value⟩
      | none => linked.parent.bind (arena.locate? name) := by
  rw [ScopeArena.locate?]
  split
  · rename_i missing
    cases held.symm.trans missing
  · rename_i other found
    cases held.symm.trans found
    cases linked.frame.get? name with
    | some value => rfl
    | none => cases linked.parent <;> rfl

/-! ## The array and the chain -/

/-- The index before this one. -/
def parentIndex : Nat → Option Nat
  | 0 => none
  | index + 1 => some index

/-- A list read from its end: the first element comes last. -/
theorem getElem?_reverse_cons {α : Type} (first : α) (rest : List α) (index : Nat) :
    (first :: rest).reverse[index]? =
      if index = rest.length then some first else rest.reverse[index]? := by
  rw [List.reverse_cons]
  rcases Nat.lt_trichotomy index rest.length with below | rfl | above
  · rw [if_neg (Nat.ne_of_lt below), List.getElem?_append_left (by simpa using below)]
  · simp
  · have beyond : rest.length + 1 ≤ index := above
    rw [if_neg (Nat.ne_of_gt above), List.getElem?_eq_none (by simpa using beyond),
      List.getElem?_eq_none (by simpa using Nat.le_of_lt above)]

/-- The array lists the frames of the chain from the root on, each linked to the
one before it. -/
def ScopeArena.Lists (arena : ScopeArena) (scopes : Scopes) : Prop :=
  ∀ index : Nat, arena.frames[index]? =
    (scopes.frames.reverse[index]?).map fun frame => ⟨frame, parentIndex index⟩

/-- Overwriting changes the frame at the level of the name. -/
theorem Scopes.getElem?_reverse_overwrite? {name : String} {value : Value}
    {frames written : List Frame} {entry : FlatEntry}
    (overwritten : overwrite? name value frames = some written)
    (located : locate? name frames = some entry) (index : Nat) :
    written.reverse[index]? =
      if index = entry.level then (frames.reverse[index]?).map fun frame => frame.set name value
      else frames.reverse[index]? := by
  induction frames generalizing written with
  | nil => cases overwritten
  | cons frame outer ih =>
    rw [overwrite?] at overwritten
    cases bound : frame.binds name with
    | true =>
      obtain ⟨held, _, locatedHere⟩ := locate?_cons_of_binds bound outer
      rw [locatedHere] at located
      cases located
      rw [if_pos bound] at overwritten
      cases overwritten
      rw [getElem?_reverse_cons, getElem?_reverse_cons]
      by_cases here : index = outer.length
      · simp [here]
      · simp [here]
    | false =>
      rw [bound, if_neg Bool.false_ne_true] at overwritten
      obtain ⟨rest, restOverwritten, rfl⟩ := Option.map_eq_some_iff.mp overwritten
      have sameLength : rest.length = outer.length := by
        simpa using congrArg List.length (map_binds_of_overwrite? restOverwritten)
      rw [locate?_cons_of_not_binds bound] at located
      have below := level_lt_of_locate? located
      rw [getElem?_reverse_cons, getElem?_reverse_cons, sameLength, ih restOverwritten located]
      by_cases here : index = outer.length
      · have notLevel : outer.length ≠ entry.level := Nat.ne_of_gt below
        simp [here, notLevel]
      · simp [here]

namespace ScopeArena.Lists

variable {arena : ScopeArena} {scopes : Scopes}

theorem size_eq (lists : arena.Lists scopes) : arena.frames.size = scopes.frames.length := by
  apply Nat.le_antisymm
  · by_contra longer
    have inside := lists scopes.frames.length
    simp at inside
    omega
  · by_contra shorter
    have inside := lists arena.frames.size
    simp at inside
    omega

theorem current_eq (lists : arena.Lists scopes) : arena.current = scopes.outer.length := by
  rw [current, lists.size_eq]
  rfl

/-- Without their links the frames are those of the chain. -/
theorem map_frame (lists : arena.Lists scopes) :
    arena.frames.toList.map LinkedFrame.frame = scopes.frames.reverse := by
  apply List.ext_getElem?
  intro index
  rw [List.getElem?_map, Array.getElem?_toList, lists]
  cases scopes.frames.reverse[index]? <;> rfl

/-- A frame of the chain is held at its level. -/
theorem held_of_frames_eq (lists : arena.Lists scopes) {inner outer : List Frame} {frame : Frame}
    (framesEq : scopes.frames = inner ++ frame :: outer) :
    arena.frames[outer.length]? = some ⟨frame, parentIndex outer.length⟩ := by
  rw [lists, framesEq]
  simp

/-- The search along the links is the search through the chain. -/
theorem locate?_eq (lists : arena.Lists scopes) (name : String) {inner outer : List Frame}
    {frame : Frame} (framesEq : scopes.frames = inner ++ frame :: outer) :
    arena.locate? name outer.length = Scopes.locate? name (frame :: outer) := by
  induction outer generalizing inner frame with
  | nil =>
    rw [locate?_of_held (lists.held_of_frames_eq framesEq), Scopes.locate?]
    cases frame.get? name with
    | some value => rfl
    | none => rfl
  | cons enclosing rest ih =>
    have further : arena.locate? name rest.length = Scopes.locate? name (enclosing :: rest) := by
      apply ih
      rw [framesEq, List.append_cons]
    rw [locate?_of_held (lists.held_of_frames_eq framesEq), Scopes.locate?]
    cases frame.get? name with
    | some value => rfl
    | none => exact further

/-- So is a search from the innermost frame on. -/
theorem locate?_current (lists : arena.Lists scopes) (name : String) :
    arena.locate? name arena.current = Scopes.locate? name scopes.frames := by
  rw [lists.current_eq]
  exact lists.locate?_eq name (List.nil_append _).symm

theorem initial : Lists .initial .initial := by
  intro index
  cases index with
  | zero => rfl
  | succ index => rfl

/-- Writing one frame of the array and of the chain. -/
theorem put (lists : arena.Lists scopes) {written : Scopes} {level : Nat} {name : String}
    {value : Value}
    (writes : ∀ index, written.frames.reverse[index]? =
      if index = level then (scopes.frames.reverse[index]?).map fun frame => frame.set name value
      else scopes.frames.reverse[index]?) :
    (arena.put level name value).Lists written := by
  intro index
  rw [ScopeArena.put, Array.getElem?_modify, writes, lists]
  by_cases here : index = level
  · rw [if_pos here.symm, if_pos here]
    cases scopes.frames.reverse[index]? <;> rfl
  · rw [if_neg (Ne.symm here), if_neg here]

theorem assign (lists : arena.Lists scopes) (name : String) (value : Value) :
    (arena.assign name value).Lists (scopes.assign name value) := by
  rw [ScopeArena.assign, lists.locate?_current]
  have written := Scopes.frames_assign scopes name value
  cases located : Scopes.locate? name scopes.frames with
  | some entry =>
    apply lists.put
    intro index
    cases overwritten : Scopes.overwrite? name value scopes.frames with
    | none =>
      have unbound := Scopes.locate?_eq_none_iff.mpr (Scopes.overwrite?_eq_none_iff.mp overwritten)
      rw [unbound] at located
      cases located
    | some frames =>
      rw [written, overwritten, Option.getD_some]
      exact Scopes.getElem?_reverse_overwrite? overwritten located index
  | none =>
    have fails : Scopes.overwrite? name value scopes.frames = none :=
      Scopes.overwrite?_eq_none_iff.mpr (Scopes.locate?_eq_none_iff.mp located)
    apply lists.put
    intro index
    rw [written, fails, Option.getD_none, lists.current_eq, Scopes.frames,
      getElem?_reverse_cons, getElem?_reverse_cons]
    by_cases here : index = scopes.outer.length
    · simp [here]
    · simp [here]

theorem inherit (lists : arena.Lists scopes) : arena.inherit.Lists scopes.inherit := by
  intro index
  rw [ScopeArena.inherit, Array.getElem?_push, lists.size_eq, lists.current_eq]
  have opened : scopes.inherit.frames = .empty :: scopes.frames := rfl
  rw [opened, getElem?_reverse_cons]
  by_cases atEnd : index = scopes.frames.length
  · rw [if_pos atEnd, if_pos atEnd, atEnd]
    rfl
  · rw [if_neg atEnd, if_neg atEnd]
    exact lists index

theorem leave (lists : arena.Lists scopes) : arena.leave.Lists scopes.leave := by
  obtain ⟨innermost, outer⟩ := scopes
  have size := lists.size_eq
  cases outer with
  | nil =>
    have single : ¬ 1 < arena.frames.size := by simp [size, Scopes.frames]
    rw [ScopeArena.leave, dif_neg single]
    exact lists
  | cons enclosing rest =>
    have several : 1 < arena.frames.size := by simp [size, Scopes.frames]
    rw [ScopeArena.leave, dif_pos several]
    intro index
    have held := lists index
    simp only [Scopes.frames, getElem?_reverse_cons innermost] at held
    rw [Array.getElem?_pop, size]
    change _ = ((enclosing :: rest).reverse[index]?).map _
    by_cases inside : index < (enclosing :: rest).length
    · rw [if_neg (Nat.ne_of_lt inside)] at held
      rw [if_pos (by simpa [Scopes.frames] using inside), held]
    · have beyond : (enclosing :: rest).reverse[index]? = none :=
        List.getElem?_eq_none (by simpa using inside)
      rw [if_neg (by simpa [Scopes.frames] using inside), beyond]
      rfl

/-- Every change keeps the array a list of the chain. -/
theorem change (lists : arena.Lists scopes) (change : ScopeChange) :
    (change.onArena arena).Lists (change.onScopes scopes) := by
  cases change with
  | assign name value => exact lists.assign name value
  | inherit => exact lists.inherit
  | leave => exact lists.leave

theorem resolve_eq (lists : arena.Lists scopes) (name : String) :
    arena.resolve name = scopes.resolve name := by
  rw [ScopeArena.resolve, Scopes.resolve, lists.locate?_current, Scopes.find?_eq_map_locate?]
  cases Scopes.locate? name scopes.frames <;> rfl

theorem bindsLocally_eq (lists : arena.Lists scopes) (name : String) :
    arena.bindsLocally name = scopes.bindsLocally name := by
  have held := lists.held_of_frames_eq (List.nil_append scopes.frames).symm
  rw [ScopeArena.bindsLocally, lists.current_eq, held]
  rfl

end ScopeArena.Lists

/-- After any changes the array lists the frames of the chain. -/
theorem ScopeArena.lists_after (changes : List ScopeChange) :
    (ScopeArena.after changes).Lists (Scopes.after changes) := by
  apply List.foldl_rel ScopeArena.Lists.initial
  intro change _ arena scopes lists
  exact lists.change change

/-! ## Both descriptions at once -/

/-- The frames of an array are linked one by one, and no name is bound in two of
them. -/
structure ScopeArena.Linear (arena : ScopeArena) : Prop where
  nonempty : 0 < arena.frames.size
  root : ∀ linked, arena.frames[0]? = some linked → linked.parent = none
  next : ∀ index linked, arena.frames[index + 1]? = some linked → linked.parent = some index
  distinct : ∀ (before behind : Nat) (outer inner : LinkedFrame), before < behind →
    arena.frames[before]? = some outer → arena.frames[behind]? = some inner →
    ∀ name, inner.frame.binds name = true → outer.frame.binds name = false

theorem ScopeArena.Lists.linear {arena : ScopeArena} {scopes : Scopes}
    (lists : arena.Lists scopes) (never : scopes.NeverShadows) : arena.Linear where
  nonempty := arena.nonempty
  root linked held := by
    rw [lists] at held
    obtain ⟨frame, _, rfl⟩ := Option.map_eq_some_iff.mp held
    rfl
  next index linked held := by
    rw [lists] at held
    obtain ⟨frame, _, rfl⟩ := Option.map_eq_some_iff.mp held
    rfl
  distinct := by
    intro before behind outer inner less heldOuter heldInner name bound
    rw [lists] at heldOuter heldInner
    obtain ⟨outerFrame, outerAt, rfl⟩ := Option.map_eq_some_iff.mp heldOuter
    obtain ⟨innerFrame, innerAt, rfl⟩ := Option.map_eq_some_iff.mp heldInner
    obtain ⟨outerInside, rfl⟩ := List.getElem?_eq_some_iff.mp outerAt
    obtain ⟨innerInside, rfl⟩ := List.getElem?_eq_some_iff.mp innerAt
    have apart := List.pairwise_reverse.mpr (List.pairwise_map.mp never)
    exact List.pairwise_iff_getElem.mp apart before behind outerInside innerInside less name bound

/-- After any assignments, openings and closings of scopes, begun with one empty
frame: the frames in their array are linked one by one, without a name bound
twice; they are those of the chain; and the chain, the array and a flat table of
the same changes have the same depth, give the same value or fault for every
name, and agree on the names of the innermost frame. -/
theorem Scopes.after_agrees_with_flatTable (changes : List ScopeChange) :
    (ScopeArena.after changes).Linear ∧
    (ScopeArena.after changes).frames.toList.map LinkedFrame.frame =
      (Scopes.after changes).frames.reverse ∧
    (Scopes.after changes).depth = (FlatTable.after changes).depth ∧
    (ScopeArena.after changes).depth = (FlatTable.after changes).depth ∧
    ∀ name,
      (Scopes.after changes).resolve name = (FlatTable.after changes).resolve name ∧
      (ScopeArena.after changes).resolve name = (FlatTable.after changes).resolve name ∧
      (Scopes.after changes).bindsLocally name = (FlatTable.after changes).bindsLocally name ∧
      (ScopeArena.after changes).bindsLocally name =
        (FlatTable.after changes).bindsLocally name := by
  have lists := ScopeArena.lists_after changes
  obtain ⟨never, describes⟩ := Scopes.describes_after changes
  constructor
  · exact lists.linear never
  constructor
  · exact lists.map_frame
  constructor
  · exact describes.depth.symm
  constructor
  · exact lists.size_eq.trans describes.depth.symm
  intro name
  have sameValue := describes.resolve_eq name
  have sameLocal := describes.bindsLocally_eq name
  constructor
  · exact sameValue
  constructor
  · exact (lists.resolve_eq name).trans sameValue
  constructor
  · exact sameLocal
  · exact (lists.bindsLocally_eq name).trans sameLocal

end StackScript
