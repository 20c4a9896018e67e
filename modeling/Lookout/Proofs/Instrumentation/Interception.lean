/-
# One pass through the hook is enough

The hook does to a class what a pass over the listed methods of its target does, and a
class that is no target has no listed methods. What comes out of the hook is marked in
all of these, so whichever way it comes by the hook again it is left as it is. Limits on
lengths are the only thing in the way: they have to leave room for the marks.
-/

import Lookout.Instrumentation.Interception
import Lookout.Proofs.Instrumentation.Journal
import Lookout.Proofs.Instrumentation.Pass

namespace Lookout

variable {registry : TargetRegistry} {name : String} {data : Bytes} {update : ClassUpdate}

/-- What comes of the hook does not depend on who loads the class, or for which time. -/
theorem result_intercept (registry : TargetRegistry) (name : String) (loader : Option String)
    (redefining : Bool) (data : Bytes) :
    (intercept registry ⟨some name, loader, redefining, data⟩).result =
      (Instrumentation.instrument registry data (.ofName name)
        (registry.methodsOf (.ofName name))).result := by
  unfold intercept
  dsimp only
  split
  case h_1 none => rw [none]; rfl
  case h_2 methods =>
    rw [Attempt.result_bind, Attempt.result_noteFailure]
    rfl

/-- Data far from the limits on lengths, in which no method has all the attributes that a
method may have. -/
structure LeavesRoom (data : Bytes) : Prop where
  small : data.length < 2147483648
  few : ∀ file, ClassFile.ofBytes data = .ok file →
    ∀ method ∈ file.methods, method.attributes.length ≠ 65535

instance (data : Bytes) : Decidable (LeavesRoom data) :=
  match read : ClassFile.ofBytes data with
  | .error _ =>
    decidable_of_iff (data.length < 2147483648)
      ⟨fun small => ⟨small, fun _ sameRead => by cases read.symm.trans sameRead⟩, LeavesRoom.small⟩
  | .ok file =>
    decidable_of_iff (data.length < 2147483648 ∧
        ∀ method ∈ file.methods, method.attributes.length ≠ 65535)
      ⟨fun ⟨small, few⟩ => ⟨small, fun _ sameRead => by cases read.symm.trans sameRead; exact few⟩,
        fun room => ⟨room.small, room.few file read⟩⟩

/-- The stored data is what one pass through the hook makes of the supplied data. -/
structure PassedOnce (registry : TargetRegistry) (name : String) (supplied stored : Bytes) :
    Prop where
  once : ∀ loader redefining, ∃ update,
    (intercept registry ⟨some name, loader, redefining, supplied⟩).result = .ok update ∧
      stored = update.data supplied
  /-- A class that is no target is stored as it was supplied. -/
  untouched : registry.methodsOf (.ofName name) = [] → stored = supplied
  /-- A further pass changes nothing. -/
  again : ∀ loader redefining,
    (intercept registry ⟨some name, loader, redefining, stored⟩).result = .ok .unchanged

theorem passedOnce_of_not_target (noTarget : registry.methodsOf (.ofName name) = []) :
    PassedOnce registry name data data := by
  have unchanged (loader : Option String) (redefining : Bool) :
      (intercept registry ⟨some name, loader, redefining, data⟩).result = .ok .unchanged := by
    rw [result_intercept, noTarget]
    rfl
  exact ⟨fun loader redefining => ⟨_, unchanged loader redefining, rfl⟩, fun _ => rfl, unchanged⟩

theorem passedOnce_of_intercept (room : LeavesRoom data) {loader : Option String}
    {redefining : Bool}
    (success : (intercept registry ⟨some name, loader, redefining, data⟩).result = .ok update) :
    PassedOnce registry name data (update.data data) := by
  by_cases noTarget : registry.methodsOf (.ofName name) = []
  · rw [result_intercept, noTarget] at success
    cases success
    exact passedOnce_of_not_target noTarget
  · rw [result_intercept] at success
    refine ⟨fun _ _ => ⟨update, by rw [result_intercept, success], rfl⟩,
      fun absent => absurd absent noTarget, fun _ _ => ?_⟩
    rw [result_intercept]
    rcases Instrumentation.instrument_eq_ok success with
      ⟨absent, -⟩ | ⟨spec, file, last, changed, target, read, run, rfl⟩
    · exact absurd absent noTarget
    · have roomy := Instrumentation.roomy_of_ofBytes room.small read (room.few file read)
      exact Instrumentation.instrument_of_marked target (run.ofBytes_data read roomy) run.marked

/-! ### The sample targets -/

theorem leavesRoom_shutdown : LeavesRoom (Sample.shutdown true) := by
  obtain ⟨small, file, read, few, -⟩ := Instrumentation.exists_shutdown
  refine ⟨small, fun sameFile sameRead => ?_⟩
  cases read.symm.trans sameRead
  exact few

theorem leavesRoom_processBuilder : LeavesRoom (Sample.processBuilder true) := by decide +kernel

theorem exists_intercept_shutdown (redefining : Bool) :
    ∃ update, (intercept .builtin
      ⟨some Sample.shutdownName, none, redefining, Sample.shutdown true⟩).result = .ok update ∧
        update ≠ .unchanged := by
  simp only [result_intercept]
  exact Instrumentation.exists_shutdown_update

theorem exists_intercept_processBuilder (redefining : Bool) :
    ∃ update, (intercept .builtin
      ⟨some Sample.processBuilderName, none, redefining, Sample.processBuilder true⟩).result =
        .ok update ∧ update ≠ .unchanged := by
  simp only [result_intercept]
  exact Instrumentation.exists_processBuilder_update

end Lookout
