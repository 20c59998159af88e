import StackScript.Scopes

/-!
# Names in a chain of scopes

What a chain binds is a list of sets of names, one for each frame. A write
enlarges at most the innermost set, by the written name, and only if no frame
binds that name. `Grown` says this of several writes at once, and is what a
block does to the chain that it is run in.
-/

namespace StackScript

namespace Frame

@[simp]
theorem binds_empty (name : String) : empty.binds name = false :=
  rfl

/-- A written frame binds the written name besides those it bound. -/
theorem binds_set (frame : Frame) (name other : String) (value : Value) :
    (frame.set name value).binds other = (other == name || frame.binds other) := by
  simp only [binds, get?_set]
  by_cases same : other = name
  · simp [same]
  · simp [same]

/-- Writing a name that is bound changes no name. -/
theorem binds_set_of_binds {frame : Frame} {name : String} (bound : frame.binds name = true)
    (value : Value) : (frame.set name value).binds = frame.binds := by
  funext other
  rw [binds_set]
  by_cases same : other = name
  · subst same
    simp [bound]
  · simp [same]

end Frame

namespace Scopes

/-- Whether a frame of the chain binds a name. -/
def binds (scopes : Scopes) (name : String) : Bool :=
  scopes.frames.any fun frame => frame.binds name

/-- A name with a value is bound. -/
theorem binds_of_find?_eq_some {scopes : Scopes} {name : String} {value : Value}
    (found : scopes.find? name = some value) : scopes.binds name = true := by
  obtain ⟨frame, mem, holds⟩ := List.exists_of_findSome?_eq_some found
  exact List.any_eq_true.mpr ⟨frame, mem, Option.isSome_iff_exists.mpr ⟨value, holds⟩⟩

/-- A name that is bound has a value. -/
theorem exists_find?_of_binds {scopes : Scopes} {name : String}
    (bound : scopes.binds name = true) : ∃ value, scopes.find? name = some value := by
  obtain ⟨frame, mem, holds⟩ := List.any_eq_true.mp bound
  rw [← Option.isSome_iff_exists, find?, List.findSome?_isSome_iff]
  exact ⟨frame, mem, holds⟩

/-- The operand has a value. -/
def Reads (scopes : Scopes) (operand : Operand) : Prop :=
  ∃ value, scopes.evaluate operand = .ok value

/-- A name can be read exactly if it is bound. -/
theorem reads_identifier_iff {scopes : Scopes} {name : String} :
    scopes.Reads (.identifier name) ↔ scopes.binds name = true := by
  constructor
  · rintro ⟨value, evaluated⟩
    simp only [evaluate, resolve] at evaluated
    split at evaluated
    · rename_i held found
      exact binds_of_find?_eq_some found
    · cases evaluated
  · intro bound
    obtain ⟨value, found⟩ := exists_find?_of_binds bound
    exact ⟨value, by simp only [evaluate, resolve, found]⟩

/-! ## Writing -/

/-- Overwriting keeps the names of every frame. -/
theorem map_binds_of_overwrite? {name : String} {value : Value} {frames written : List Frame}
    (overwritten : overwrite? name value frames = some written) :
    written.map Frame.binds = frames.map Frame.binds := by
  induction frames generalizing written with
  | nil => cases overwritten
  | cons frame rest ih =>
    simp only [overwrite?] at overwritten
    split at overwritten
    · rename_i bound
      cases overwritten
      rw [List.map_cons, List.map_cons, Frame.binds_set_of_binds bound]
    · obtain ⟨writtenRest, restOverwritten, rfl⟩ := Option.map_eq_some_iff.mp overwritten
      rw [List.map_cons, List.map_cons, ih restOverwritten]

/-- Only a name that no frame binds is not overwritten. -/
theorem overwrite?_eq_none_iff {name : String} {value : Value} {frames : List Frame} :
    overwrite? name value frames = none ↔ frames.any (fun frame => frame.binds name) = false := by
  induction frames with
  | nil => simp [overwrite?]
  | cons frame rest ih =>
    simp only [overwrite?, List.any_cons]
    split
    · rename_i bound
      simp [bound]
    · rename_i unbound
      rw [Option.map_eq_none_iff, ih]
      simp [unbound]

/-- A write keeps the names of the enclosing frames. -/
theorem map_binds_outer_assign (scopes : Scopes) (name : String) (value : Value) :
    (scopes.assign name value).outer.map Frame.binds = scopes.outer.map Frame.binds := by
  simp only [assign]
  split
  · rfl
  · split
    · rename_i written overwritten
      exact map_binds_of_overwrite? overwritten
    · rfl

/-- A write adds the written name to the innermost frame, if no enclosing frame
binds it. -/
theorem binds_innermost_assign (scopes : Scopes) (name other : String) (value : Value) :
    (scopes.assign name value).innermost.binds other =
      (scopes.innermost.binds other ||
        other == name && !scopes.outer.any fun frame => frame.binds name) := by
  rw [assign, bindsLocally]
  by_cases bound : scopes.innermost.binds name = true
  · rw [if_pos bound, Frame.binds_set_of_binds bound]
    by_cases same : other = name
    · subst same
      simp [bound]
    · simp [same]
  · rw [if_neg bound]
    cases overwritten : overwrite? name value scopes.outer with
    | some written =>
      have boundOutside : scopes.outer.any (fun frame => frame.binds name) = true := by
        rw [← Bool.not_eq_false]
        intro free
        rw [overwrite?_eq_none_iff.mpr free] at overwritten
        cases overwritten
      simp [boundOutside]
    | none =>
      simp only [Frame.binds_set, overwrite?_eq_none_iff.mp overwritten, Bool.not_false,
        Bool.and_true]
      exact Bool.or_comm ..

/-! ## Growth -/

/-- `after` is `before` with these names written: every enclosing frame binds
the names it bound, and the innermost one also those of the written names that
no enclosing frame binds. -/
structure Grown (before : Scopes) (written : List String) (after : Scopes) : Prop where
  outer : after.outer.map Frame.binds = before.outer.map Frame.binds
  innermost : ∀ name, after.innermost.binds name = true ↔
    before.innermost.binds name = true ∨
      name ∈ written ∧ before.outer.any (fun frame => frame.binds name) = false

namespace Grown

variable {before between after : Scopes} {written rewritten : List String}

/-- Nothing written, nothing grown. -/
theorem refl (scopes : Scopes) : Grown scopes [] scopes where
  outer := rfl
  innermost name := by simp

/-- One write. -/
theorem assign (scopes : Scopes) (name : String) (value : Value) :
    Grown scopes [name] (scopes.assign name value) where
  outer := map_binds_outer_assign scopes name value
  innermost other := by
    rw [binds_innermost_assign]
    by_cases same : other = name
    · subst same
      simp
    · simp [same]

/-- One write of a name that is bound. -/
theorem assign_of_binds {scopes : Scopes} {name : String} (bound : scopes.binds name = true)
    (value : Value) : Grown scopes [] (scopes.assign name value) where
  outer := map_binds_outer_assign scopes name value
  innermost other := by
    rw [(Grown.assign scopes name value).innermost]
    constructor
    · rintro (boundOther | ⟨mem, free⟩)
      · exact .inl boundOther
      · cases List.mem_singleton.mp mem
        simp only [binds, frames, List.any_cons, free, Bool.or_false] at bound
        exact .inl bound
    · rintro (boundOther | ⟨mem, free⟩)
      · exact .inl boundOther
      · cases mem

/-- The enclosing frames bind a name after as before. -/
theorem any_outer (grown : Grown before written after) (name : String) :
    after.outer.any (fun frame => frame.binds name) =
      before.outer.any fun frame => frame.binds name := by
  have same := congrArg (fun names => names.any fun binds => binds name) grown.outer
  simpa only [List.any_map, Function.comp_def] using same

/-- Writes after writes. -/
theorem trans (first : Grown before written between) (second : Grown between rewritten after) :
    Grown before (written ++ rewritten) after where
  outer := second.outer.trans first.outer
  innermost name := by
    rw [second.innermost, first.innermost, first.any_outer, List.mem_append]
    constructor
    · rintro ((bound | ⟨mem, free⟩) | ⟨mem, free⟩)
      · exact .inl bound
      · exact .inr ⟨.inl mem, free⟩
      · exact .inr ⟨.inr mem, free⟩
    · rintro (bound | ⟨mem | mem, free⟩)
      · exact .inl (.inl bound)
      · exact .inl (.inr ⟨mem, free⟩)
      · exact .inr ⟨mem, free⟩

/-- The number of frames stays. -/
theorem depth (grown : Grown before written after) : after.depth = before.depth := by
  have sameLength := congrArg List.length grown.outer
  rw [List.length_map, List.length_map] at sameLength
  simp only [Scopes.depth, sameLength]

/-- The chain as a whole binds the written names besides those it bound. -/
theorem binds_iff (grown : Grown before written after) (name : String) :
    after.binds name = true ↔ before.binds name = true ∨ name ∈ written := by
  simp only [binds, frames, List.any_cons, Bool.or_eq_true, grown.any_outer, grown.innermost]
  cases before.outer.any fun frame => frame.binds name with
  | true => simp
  | false => simp

/-- Outside of the innermost frame nothing has grown. -/
theorem leave (grown : Grown before written after) (enclosed : before.outer ≠ []) :
    after.outer ≠ [] ∧ Grown before.leave [] after.leave := by
  obtain ⟨innermost, outer⟩ := before
  obtain ⟨afterInnermost, afterOuter⟩ := after
  have sameNames := grown.outer
  cases outer with
  | nil => exact absurd rfl enclosed
  | cons enclosing rest =>
    cases afterOuter with
    | nil => cases sameNames
    | cons afterEnclosing afterRest =>
      simp only [List.map_cons, List.cons.injEq] at sameNames
      constructor
      · exact List.cons_ne_nil _ _
      · exact ⟨sameNames.2, fun name => by simp [Scopes.leave, sameNames.1]⟩

end Grown

end Scopes

end StackScript
