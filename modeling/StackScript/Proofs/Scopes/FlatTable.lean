import Mathlib.Data.Set.Finite.Basic
import StackScript.Proofs.Scopes

/-!
# Scopes as one flat table

A chain of scopes that began empty never binds a name twice, so it says no more
than a table of its names, each with the level of its frame and its value. The
table has no frames: a name keeps the level at which it was created, and leaving
a scope drops the names of the highest level. For the chain to leave a scope is
to forget a frame, and the two agree because no outer frame binds a name of the
forgotten one.
-/

namespace StackScript

/-- A change of the scopes of a call. -/
inductive ScopeChange where
  | assign (name : String) (value : Value)
  | inherit
  | leave

/-! ## The table -/

/-- The level of a name and its value; the outermost level is zero. -/
structure FlatEntry where
  level : Nat
  value : Value
  deriving DecidableEq

/-- Finitely many names with their entries, below the level `depth`. -/
structure FlatTable where
  depth : Nat
  slot? : String → Option FlatEntry
  depth_pos : 0 < depth
  level_lt : ∀ {name entry}, slot? name = some entry → entry.level < depth
  finite : {name | (slot? name).isSome}.Finite

namespace FlatTable

/-- A single level without names. -/
def initial : FlatTable where
  depth := 1
  slot? _ := none
  depth_pos := Nat.one_pos
  level_lt := nofun
  finite := by simp

/-- The value of a name, or the fault of reading it. -/
def resolve (table : FlatTable) (name : String) : Except Fault Value :=
  match table.slot? name with
  | some entry => .ok entry.value
  | none => .error (.unboundName name)

/-- Whether a name has the highest level. -/
def bindsLocally (table : FlatTable) (name : String) : Bool :=
  (table.slot? name).any fun entry => entry.level == table.depth - 1

/-- The level that a write gives to a name: a bound name keeps its level, and a
new one gets the highest. -/
def levelFor (table : FlatTable) (name : String) : Nat :=
  ((table.slot? name).map FlatEntry.level).getD (table.depth - 1)

theorem levelFor_lt (table : FlatTable) (name : String) : table.levelFor name < table.depth := by
  rw [levelFor]
  cases found : table.slot? name with
  | none => exact Nat.sub_one_lt_of_lt table.depth_pos
  | some entry => exact table.level_lt found

/-- Writes a name at the level that it has or gets. -/
def assign (table : FlatTable) (name : String) (value : Value) : FlatTable where
  depth := table.depth
  slot? other := if other = name then some ⟨table.levelFor name, value⟩ else table.slot? other
  depth_pos := table.depth_pos
  level_lt := by
    intro other entry found
    split at found
    · cases found
      exact table.levelFor_lt name
    · exact table.level_lt found
  finite := by
    apply (table.finite.insert name).subset
    intro other bound
    by_cases same : other = name
    · exact .inl same
    · simp only [Set.mem_ofPred_eq, if_neg same] at bound
      exact .inr bound

/-- Adds a level. -/
def inherit (table : FlatTable) : FlatTable where
  depth := table.depth + 1
  slot? := table.slot?
  depth_pos := Nat.succ_pos _
  level_lt found := Nat.lt_succ_of_lt (table.level_lt found)
  finite := table.finite

/-- Drops the names of the highest level and the level itself; the last level
stays. -/
def leave (table : FlatTable) : FlatTable :=
  if several : 1 < table.depth then {
    depth := table.depth - 1
    slot? := fun name => (table.slot? name).filter fun entry => entry.level != table.depth - 1
    depth_pos := Nat.sub_pos_of_lt several
    level_lt := by
      intro name entry found
      obtain ⟨held, other⟩ := Option.filter_eq_some_iff.mp found
      have below := table.level_lt held
      have notLast : entry.level ≠ table.depth - 1 := by simpa using other
      omega
    finite := by
      apply table.finite.subset
      intro name bound
      obtain ⟨entry, found⟩ := Option.isSome_iff_exists.mp bound
      exact Option.isSome_of_eq_some (Option.filter_eq_some_iff.mp found).1 }
  else table

end FlatTable

/-- The change of a table. -/
def ScopeChange.onTable : ScopeChange → FlatTable → FlatTable
  | .assign name value, table => table.assign name value
  | .inherit, table => table.inherit
  | .leave, table => table.leave

/-- The change of a chain. -/
def ScopeChange.onScopes : ScopeChange → Scopes → Scopes
  | .assign name value, scopes => scopes.assign name value
  | .inherit, scopes => scopes.inherit
  | .leave, scopes => scopes.leave

/-- The table after these changes of an empty one. -/
def FlatTable.after (changes : List ScopeChange) : FlatTable :=
  changes.foldl (fun table change => change.onTable table) .initial

/-- The chain after these changes of an empty one. -/
def Scopes.after (changes : List ScopeChange) : Scopes :=
  changes.foldl (fun scopes change => change.onScopes scopes) .initial

namespace Scopes

/-! ## Levels of a chain -/

/-- The level and the value of a name in the nearest frame that binds it. -/
def locate? (name : String) : List Frame → Option FlatEntry
  | [] => none
  | frame :: outer =>
    match frame.get? name with
    | some value => some ⟨outer.length, value⟩
    | none => locate? name outer

variable {name : String} {value : Value}

/-- A frame that binds the name is the nearest one. -/
theorem locate?_cons_of_binds {frame : Frame} (bound : frame.binds name = true)
    (outer : List Frame) :
    ∃ held, frame.get? name = some held ∧
      locate? name (frame :: outer) = some ⟨outer.length, held⟩ := by
  obtain ⟨held, found⟩ := Option.isSome_iff_exists.mp bound
  refine ⟨held, found, ?_⟩
  rw [locate?, found]

/-- A frame that does not bind the name is passed over. -/
theorem locate?_cons_of_not_binds {frame : Frame} (unbound : frame.binds name = false)
    (outer : List Frame) : locate? name (frame :: outer) = locate? name outer := by
  have missing : frame.get? name = none := Option.not_isSome_iff_eq_none.mp (by
    simpa [Frame.binds] using unbound)
  rw [locate?, missing]

theorem level_lt_of_locate? {frames : List Frame} {entry : FlatEntry}
    (found : locate? name frames = some entry) : entry.level < frames.length := by
  induction frames with
  | nil => cases found
  | cons frame outer ih =>
    cases bound : frame.binds name with
    | true =>
      obtain ⟨held, _, located⟩ := locate?_cons_of_binds bound outer
      rw [located] at found
      cases found
      exact Nat.lt_succ_self _
    | false =>
      rw [locate?_cons_of_not_binds bound] at found
      exact Nat.lt_succ_of_lt (ih found)

/-- A name is located exactly if a frame binds it. -/
theorem locate?_eq_none_iff {frames : List Frame} :
    locate? name frames = none ↔ frames.any (fun frame => frame.binds name) = false := by
  induction frames with
  | nil => simp [locate?]
  | cons frame outer ih =>
    cases bound : frame.binds name with
    | true =>
      obtain ⟨held, _, located⟩ := locate?_cons_of_binds bound outer
      simp [located, bound]
    | false =>
      rw [locate?_cons_of_not_binds bound, ih]
      simp [bound]

/-- The value that a chain finds is the value of the entry. -/
theorem find?_eq_map_locate? (scopes : Scopes) (name : String) :
    scopes.find? name = (locate? name scopes.frames).map FlatEntry.value := by
  rw [find?]
  induction scopes.frames with
  | nil => rfl
  | cons frame outer ih =>
    rw [List.findSome?_cons, locate?]
    cases frame.get? name with
    | some held => rfl
    | none => exact ih

/-- A write to a frame that is the nearest one to hold the name afterwards. -/
theorem locate?_set_cons (frame : Frame) (outer : List Frame) (name other : String)
    (value : Value) :
    locate? other (frame.set name value :: outer) =
      if other = name then some ⟨outer.length, value⟩ else locate? other (frame :: outer) := by
  simp only [locate?, Frame.get?_set]
  by_cases same : other = name
  · simp only [if_pos same]
  · simp only [if_neg same]

/-- Overwriting changes the value of the name alone, and its level not at all. -/
theorem locate?_of_overwrite? {frames written : List Frame}
    (overwritten : overwrite? name value frames = some written) :
    ∃ held, locate? name frames = some held ∧ ∀ other,
      locate? other written =
        if other = name then some ⟨held.level, value⟩ else locate? other frames := by
  induction frames generalizing written with
  | nil => cases overwritten
  | cons frame outer ih =>
    rw [overwrite?] at overwritten
    cases bound : frame.binds name with
    | true =>
      obtain ⟨held, _, located⟩ := locate?_cons_of_binds bound outer
      rw [if_pos bound] at overwritten
      cases overwritten
      exact ⟨_, located, fun other => locate?_set_cons frame outer name other value⟩
    | false =>
      rw [bound, if_neg Bool.false_ne_true] at overwritten
      obtain ⟨rest, restOverwritten, rfl⟩ := Option.map_eq_some_iff.mp overwritten
      obtain ⟨held, located, after⟩ := ih restOverwritten
      have sameLength : rest.length = outer.length := by
        simpa using congrArg List.length (map_binds_of_overwrite? restOverwritten)
      refine ⟨held, by rwa [locate?_cons_of_not_binds bound], ?_⟩
      intro other
      simp only [locate?, sameLength, after]
      cases found : frame.get? other with
      | none => rfl
      | some kept =>
        have different : other ≠ name := by
          rintro rfl
          simp [Frame.binds, found] at bound
        simp only [if_neg different]

/-- Writing overwrites the name if it can, and else creates it in the innermost
frame. -/
theorem frames_assign (scopes : Scopes) (name : String) (value : Value) :
    (scopes.assign name value).frames =
      (overwrite? name value scopes.frames).getD
        (scopes.innermost.set name value :: scopes.outer) := by
  obtain ⟨innermost, outer⟩ := scopes
  by_cases bound : innermost.binds name = true
  · have writes : assign ⟨innermost, outer⟩ name value = ⟨innermost.set name value, outer⟩ :=
      if_pos bound
    rw [writes]
    simp only [frames, overwrite?, if_pos bound, Option.getD_some]
  · rw [assign, bindsLocally, if_neg bound]
    simp only [frames, overwrite?, if_neg bound]
    cases overwrite? name value outer <;> rfl

/-- A written name has the written value at the level that it had or at the
highest one, and every other name keeps its entry. -/
theorem locate?_assign (scopes : Scopes) (name other : String) (value : Value) :
    locate? other (scopes.assign name value).frames =
      if other = name then
        some ⟨((locate? name scopes.frames).map FlatEntry.level).getD (scopes.depth - 1), value⟩
      else locate? other scopes.frames := by
  rw [frames_assign]
  cases overwritten : overwrite? name value scopes.frames with
  | some written =>
    obtain ⟨held, located, after⟩ := locate?_of_overwrite? overwritten
    rw [Option.getD_some, after, located]
    rfl
  | none =>
    have missing := locate?_eq_none_iff.mpr (overwrite?_eq_none_iff.mp overwritten)
    rw [Option.getD_none, locate?_set_cons, missing]
    rfl

/-! ## No name is bound twice -/

/-- No name is bound in two frames. -/
def NeverShadows (scopes : Scopes) : Prop :=
  (scopes.frames.map Frame.binds).Pairwise fun inner outer =>
    ∀ name, inner name = true → outer name = false

theorem neverShadows_initial : initial.NeverShadows :=
  List.pairwise_singleton _ _

/-- A name is created only where no frame binds it. -/
theorem NeverShadows.assign {scopes : Scopes} (never : scopes.NeverShadows) (name : String)
    (value : Value) : (scopes.assign name value).NeverShadows := by
  obtain ⟨apart, outer⟩ := List.pairwise_cons.mp never
  rw [NeverShadows, frames, List.map_cons, map_binds_outer_assign]
  apply List.pairwise_cons.mpr
  constructor
  · intro binds mem other bound
    rw [binds_innermost_assign] at bound
    rcases Bool.or_eq_true_iff.mp bound with bound | created
    · exact apart binds mem other bound
    · obtain ⟨same, free⟩ := Bool.and_eq_true_iff.mp created
      obtain ⟨frame, frameMem, rfl⟩ := List.mem_map.mp mem
      obtain rfl : other = name := by simpa using same
      simp only [Bool.not_eq_true', List.any_eq_false, Bool.not_eq_true] at free
      exact free frame frameMem
  · exact outer

theorem NeverShadows.inherit {scopes : Scopes} (never : scopes.NeverShadows) :
    scopes.inherit.NeverShadows := by
  apply List.pairwise_cons.mpr
  constructor
  · intro binds _ name bound
    cases bound
  · exact never

theorem NeverShadows.leave {scopes : Scopes} (never : scopes.NeverShadows) :
    scopes.leave.NeverShadows := by
  obtain ⟨innermost, outer⟩ := scopes
  cases outer with
  | nil => exact never
  | cons enclosing rest => exact (List.pairwise_cons.mp never).2

/-- Every change keeps names from being bound twice. -/
theorem NeverShadows.change {scopes : Scopes} (never : scopes.NeverShadows)
    (change : ScopeChange) : (change.onScopes scopes).NeverShadows := by
  cases change with
  | assign name value => exact never.assign name value
  | inherit => exact never.inherit
  | leave => exact never.leave

/-- A name that the dropped frame binds is bound no more. -/
theorem NeverShadows.locate?_leave {innermost enclosing : Frame} {rest : List Frame}
    (never : NeverShadows ⟨innermost, enclosing :: rest⟩) (name : String) :
    locate? name (enclosing :: rest) =
      (locate? name (innermost :: enclosing :: rest)).filter fun entry =>
        entry.level != (enclosing :: rest).length := by
  cases bound : innermost.binds name with
  | true =>
    have free : locate? name (enclosing :: rest) = none := by
      rw [locate?_eq_none_iff, List.any_eq_false]
      intro frame mem
      have apart := (List.pairwise_cons.mp never).1 _ (List.mem_map_of_mem mem) name bound
      simpa using apart
    obtain ⟨held, _, located⟩ := locate?_cons_of_binds bound (enclosing :: rest)
    rw [free, located]
    simp [Option.filter]
  | false =>
    rw [locate?_cons_of_not_binds bound]
    cases found : locate? name (enclosing :: rest) with
    | none => rfl
    | some entry =>
      have different : entry.level ≠ (enclosing :: rest).length :=
        Nat.ne_of_lt (level_lt_of_locate? found)
      rw [Option.filter, if_pos (bne_iff_ne.mpr different)]

end Scopes

/-! ## Agreement -/

/-- The table holds what the chain binds. -/
structure FlatTable.Describes (table : FlatTable) (scopes : Scopes) : Prop where
  depth : table.depth = scopes.depth
  slot? : ∀ name, table.slot? name = Scopes.locate? name scopes.frames

namespace FlatTable.Describes

variable {table : FlatTable} {scopes : Scopes}

theorem initial : Describes .initial .initial where
  depth := rfl
  slot? _ := rfl

theorem assign (describes : table.Describes scopes) (name : String) (value : Value) :
    (table.assign name value).Describes (scopes.assign name value) where
  depth := by
    have kept := (Scopes.Grown.assign scopes name value).depth
    exact describes.depth.trans kept.symm
  slot? other := by
    rw [Scopes.locate?_assign, ← describes.slot?, ← describes.slot?, ← describes.depth]
    rfl

theorem inherit (describes : table.Describes scopes) :
    table.inherit.Describes scopes.inherit where
  depth := congrArg (· + 1) describes.depth
  slot? := describes.slot?

theorem leave (describes : table.Describes scopes) (never : scopes.NeverShadows) :
    table.leave.Describes scopes.leave := by
  obtain ⟨innermost, outer⟩ := scopes
  have sameDepth : table.depth = outer.length + 1 := describes.depth
  cases outer with
  | nil =>
    have single : ¬ 1 < table.depth := by simp [sameDepth]
    rw [FlatTable.leave, dif_neg single]
    exact describes
  | cons enclosing rest =>
    have several : 1 < table.depth := by simp [sameDepth]
    rw [FlatTable.leave, dif_pos several]
    constructor
    · simp [sameDepth, Scopes.leave, Scopes.depth]
    · intro name
      have forgotten := never.locate?_leave name
      have located := describes.slot? name
      simp only [located, sameDepth, Nat.add_sub_cancel]
      exact forgotten.symm

/-- Every change keeps the agreement. -/
theorem change (describes : table.Describes scopes) (never : scopes.NeverShadows)
    (change : ScopeChange) : (change.onTable table).Describes (change.onScopes scopes) := by
  cases change with
  | assign name value => exact describes.assign name value
  | inherit => exact describes.inherit
  | leave => exact describes.leave never

/-- Reading a name gives the same. -/
theorem resolve_eq (describes : table.Describes scopes) (name : String) :
    scopes.resolve name = table.resolve name := by
  rw [Scopes.resolve, FlatTable.resolve, Scopes.find?_eq_map_locate?, describes.slot?]
  cases Scopes.locate? name scopes.frames <;> rfl

/-- The names of the innermost frame are those of the highest level. -/
theorem bindsLocally_eq (describes : table.Describes scopes) (name : String) :
    scopes.bindsLocally name = table.bindsLocally name := by
  rw [Scopes.bindsLocally, FlatTable.bindsLocally, describes.slot?, describes.depth,
    Scopes.frames]
  cases bound : scopes.innermost.binds name with
  | true =>
    obtain ⟨held, _, located⟩ := Scopes.locate?_cons_of_binds bound scopes.outer
    rw [located]
    simp [Scopes.depth]
  | false =>
    rw [Scopes.locate?_cons_of_not_binds bound]
    cases found : Scopes.locate? name scopes.outer with
    | none => rfl
    | some entry =>
      have below := Scopes.level_lt_of_locate? found
      simp [Scopes.depth, Nat.ne_of_lt below]

end FlatTable.Describes

/-- After any changes of an empty chain no name is bound twice and the table of
the same changes describes the chain. -/
theorem Scopes.describes_after (changes : List ScopeChange) :
    (Scopes.after changes).NeverShadows ∧
      (FlatTable.after changes).Describes (Scopes.after changes) := by
  let agree (scopes : Scopes) (table : FlatTable) : Prop :=
    scopes.NeverShadows ∧ table.Describes scopes
  have atFirst : agree .initial .initial := ⟨neverShadows_initial, .initial⟩
  apply List.foldl_rel atFirst
  rintro change _ scopes table ⟨never, describes⟩
  exact ⟨never.change change, describes.change never change⟩

end StackScript
