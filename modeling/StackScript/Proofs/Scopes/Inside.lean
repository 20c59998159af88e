import StackScript.Proofs.Run.Effects
import StackScript.Proofs.Scopes

/-!
# Frames inside a chain

What a chain with one more frame inside does is told by the frame and by the chain. An
empty frame in between is noticed by no lookup and by no write. Instructions without
blocks and calls use scopes for lookups and writes alone, so they do the same in chains
that no lookup tells apart and whose difference no write can change.
-/

namespace StackScript

namespace Scopes

/-- The chain with one more frame inside it. -/
def inside (frame : Frame) (around : Scopes) : Scopes :=
  ⟨frame, around.frames⟩

@[simp]
theorem leave_inside (frame : Frame) (around : Scopes) : (around.inside frame).leave = around :=
  rfl

theorem inherit_eq_inside (scopes : Scopes) : scopes.inherit = scopes.inside .empty :=
  rfl

variable {frame : Frame} {around : Scopes} {name : String}

/-- A name is looked up in the frame and then around it. -/
theorem find?_inside (frame : Frame) (around : Scopes) (name : String) :
    (around.inside frame).find? name = (frame.get? name).or (around.find? name) := by
  simp only [find?, frames, inside, List.findSome?_cons]
  cases frame.get? name <;> rfl

/-- Operands with the same lookups have the same values. -/
theorem evaluate_eq_of_find?_eq {scopes other : Scopes}
    (same : ∀ name, other.find? name = scopes.find? name) (operand : Operand) :
    other.evaluate operand = scopes.evaluate operand := by
  cases operand with
  | identifier name => simp only [evaluate, resolve, same]
  | integer | float | text => rfl

/-- A name that the frame binds is written there. -/
theorem assign_inside_of_binds (bound : frame.binds name = true) (around : Scopes)
    (value : Value) :
    (around.inside frame).assign name value = around.inside (frame.set name value) := by
  have locally : (around.inside frame).bindsLocally name = true := bound
  rw [assign, if_pos locally]
  rfl

/-- A name that is bound around the frame only is written there. -/
theorem assign_inside_of_outer (free : frame.binds name = false) (bound : around.binds name = true)
    (value : Value) :
    (around.inside frame).assign name value = (around.assign name value).inside frame := by
  have notLocally : ¬ (around.inside frame).bindsLocally name = true := by
    rw [Bool.not_eq_true]
    exact free
  rw [assign, if_neg notLocally]
  by_cases nearest : around.bindsLocally name = true
  · have overwritten : overwrite? name value around.frames =
        some (around.innermost.set name value :: around.outer) :=
      if_pos nearest
    rw [assign, if_pos nearest]
    simp only [inside, overwritten]
    rfl
  · have overwritten : overwrite? name value around.frames =
        (overwrite? name value around.outer).map (around.innermost :: ·) :=
      if_neg nearest
    rw [assign, if_neg nearest]
    simp only [inside, overwritten]
    cases written : overwrite? name value around.outer with
    | some outer => rfl
    | none =>
      have unbound : around.outer.any (fun frame => frame.binds name) = false :=
        overwrite?_eq_none_iff.mp written
      have nowhere : around.binds name = false := by
        rw [Bool.not_eq_true] at nearest
        exact Bool.or_eq_false_iff.mpr ⟨nearest, unbound⟩
      rw [nowhere] at bound
      cases bound

/-- A name that nothing binds is created in the frame. -/
theorem assign_inside_of_free (free : frame.binds name = false)
    (unbound : around.binds name = false) (value : Value) :
    (around.inside frame).assign name value = around.inside (frame.set name value) := by
  have notLocally : ¬ (around.inside frame).bindsLocally name = true := by
    rw [Bool.not_eq_true]
    exact free
  have nothing : overwrite? name value around.frames = none := overwrite?_eq_none_iff.mpr unbound
  rw [assign, if_neg notLocally]
  simp only [inside, nothing]

end Scopes

/-! ## Instructions in chains that are alike -/

/-- Chains that are related give every operand the same value, and stay related when
the same name is written in both. -/
structure Scopes.Alike (related : Scopes → Scopes → Prop) : Prop where
  evaluate : ∀ {scopes other}, related scopes other → ∀ operand,
    other.evaluate operand = scopes.evaluate operand
  assign : ∀ {scopes other}, related scopes other → ∀ name value,
    related (scopes.assign name value) (other.assign name value)

/-- The same effect in chains that are related. -/
inductive Effect.Alike (related : Scopes → Scopes → Prop) : Effect → Effect → Prop
  | mk {machine : Machine} {scopes other : Scopes} {events : List Event} {fault : Option Fault}
      (scopesRelated : related scopes other) :
      Effect.Alike related ⟨machine, scopes, events, fault⟩ ⟨machine, other, events, fault⟩

namespace Machine

variable {related : Scopes → Scopes → Prop} (alike : Scopes.Alike related) (machine : Machine)
  {scopes other : Scopes} (before : related scopes other)

open Effect

include alike before

theorem alike_assign (source : Operand) (target : String) :
    Effect.Alike related (machine.assign scopes source target)
      (machine.assign other source target) := by
  simp only [assign, alike.evaluate before]
  split
  · exact .mk (alike.assign before ..)
  · exact .mk before

theorem alike_push (source : Operand) :
    Effect.Alike related (machine.push scopes source) (machine.push other source) := by
  simp only [push, alike.evaluate before]
  split <;> exact .mk before

theorem alike_pop (target : String) :
    Effect.Alike related (machine.pop scopes target) (machine.pop other target) := by
  simp only [pop]
  split
  · exact .mk (alike.assign before ..)
  · exact .mk before

theorem alike_print (source : Operand) :
    Effect.Alike related (machine.print scopes source) (machine.print other source) := by
  simp only [print, alike.evaluate before]
  split <;> exact .mk before

theorem alike_update (target : String) (change : Value → Except Fault Value) :
    Effect.Alike related (machine.update scopes target change)
      (machine.update other target change) := by
  have resolved : other.resolve target = scopes.resolve target :=
    alike.evaluate before (.identifier target)
  simp only [update, resolved]
  split
  · exact .mk before
  · split
    · exact .mk before
    · exact .mk (alike.assign before ..)

theorem alike_updateWithPopped (op : Mnemonic) (target : String)
    (combine : Value → Value → Except Fault Value) :
    Effect.Alike related (machine.updateWithPopped scopes op target combine)
      (machine.updateWithPopped other op target combine) := by
  simp only [updateWithPopped]
  split
  · exact alike_update alike _ before ..
  · exact .mk before

theorem alike_bitwise (op : BitwiseOp) (target : String) :
    Effect.Alike related (machine.bitwise scopes op target)
      (machine.bitwise other op target) := by
  cases op with
  | and | or | xor => exact alike_updateWithPopped alike machine before ..
  | negate => exact alike_update alike machine before ..
  | not =>
    exact alike_update alike machine before target fun value => .ok (BitwiseOp.logicalNot value)

/-- An instruction that is nothing but an effect has the same effect. -/
theorem exists_alike_of_effect? {limits : Limits} {instruction : Instruction} {effect : Effect}
    (has : machine.effect? scopes limits instruction = some effect) :
    ∃ same, machine.effect? other limits instruction = some same ∧
      Effect.Alike related effect same := by
  cases instruction <;> cases has <;> refine ⟨_, rfl, ?_⟩
  case assign => exact alike_assign alike machine before ..
  case arithmetic => exact alike_updateWithPopped alike machine before ..
  case bitwise => exact alike_bitwise alike machine before ..
  case push => exact alike_push alike machine before ..
  case pop => exact alike_pop alike machine before ..
  case print => exact alike_print alike machine before ..
  case store | load => exact .mk before

end Machine

end StackScript
