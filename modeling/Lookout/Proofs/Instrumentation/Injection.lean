/-
# Putting a report into one method

Three things may come of instrumenting a method: a failure, nothing because the
method is marked, or an injection. The steps of an injection are recorded as they are
taken, each from the class that the one before left, and taken again they lead to the
same class. What later results use is described apart from them: where the method was
found, what its code was and became, and the pools that grew from one another on the
way.
-/

import Lookout.Instrumentation.Injection
import Lookout.Proofs.ClassFile.Edit
import Lookout.Proofs.Instrumentation.DiagnosticPrologue

namespace Lookout

namespace Instrumentation

open Effect ConstantPool

/-- The code and the marker are put in place in turn, each after its name was interned. -/
theorem install_eq_ok_iff {index : Nat} {body : MethodCode} {file next : ClassFile} :
    file.edit (install index body) = (.ok (), next) ↔
      ∃ method codeIndex installing markerIndex pool, file.methods[index]? = some method ∧
        Interning.utf8 MethodCode.attributeName file.pool = (.ok codeIndex, installing) ∧
        Interning.utf8 markerName installing = (.ok markerIndex, pool) ∧
        next = { file with
          pool
          methods := file.methods.set index
            ((method.replaceAttribute installing MethodCode.attributeName
              ⟨codeIndex, body.bytes⟩).ensureAttribute pool markerName ⟨markerIndex, []⟩) } := by
  constructor
  · intro installed
    obtain ⟨_, between, codeSet, markerAdded⟩ := bind_eq_ok_iff.mp installed
    obtain ⟨codeIndex, installing, method, codeInterned, there, rfl⟩ :=
      ClassEdit.setMethodCode_eq_ok_iff.mp codeSet
    obtain ⟨markerIndex, pool, changed, markerInterned, changedThere, rfl⟩ :=
      ClassEdit.addMethodAttribute_eq_ok_iff.mp markerAdded
    obtain ⟨inside, -⟩ := List.getElem?_eq_some_iff.mp there
    rw [List.getElem?_set_self inside] at changedThere
    cases changedThere
    refine ⟨method, codeIndex, installing, markerIndex, pool, there, codeInterned,
      markerInterned, ?_⟩
    simp only [List.set_set]
  · rintro ⟨method, codeIndex, installing, markerIndex, pool, there, codeInterned,
      markerInterned, rfl⟩
    obtain ⟨inside, -⟩ := List.getElem?_eq_some_iff.mp there
    refine bind_eq_ok_iff.mpr ⟨(), _, ClassEdit.setMethodCode_eq_ok_iff.mpr
      ⟨codeIndex, installing, method, codeInterned, there, rfl⟩, ?_⟩
    refine ClassEdit.addMethodAttribute_eq_ok_iff.mpr ⟨markerIndex, pool, _, markerInterned,
      List.getElem?_set_self inside, ?_⟩
    simp only [List.set_set]

/-- An injection that leads from one class to the next. -/
structure Injection (kind : TargetKind) (name : String) (file next : ClassFile) where
  index : Nat
  method : Member
  body : MethodCode
  fragment : Fragment
  extended : MethodCode
  /-- The pool when the fragment has been assembled. -/
  assembled : ConstantPool
  /-- The pool when the new code is put in place. -/
  installing : ConstantPool
  codeIndex : UInt16
  markerIndex : UInt16
  found : file.findMethod? name kind.descriptor.text = some index
  there : file.methods[index]? = some method
  unmarked : method.hasAttribute file.pool markerName = false
  code : method.code? file.pool = .ok (some body)
  assembles : file.pool.GrowsTo assembled
  reports : ∀ later, assembled.GrowsTo later → DiagnosticPrologue.Reports kind later fragment
  inserted : body.insertPrologue assembled fragment = .ok extended
  installs : assembled.GrowsTo installing
  marks : installing.GrowsTo next.pool
  sound : next.pool.Sound
  codeNamed : installing.utf8Matches codeIndex MethodCode.attributeName = true
  markerNamed : next.pool.utf8Matches markerIndex markerName = true
  result : next = { file with
    pool := next.pool
    methods := file.methods.set index
      ((method.replaceAttribute installing MethodCode.attributeName
        ⟨codeIndex, extended.bytes⟩).ensureAttribute next.pool markerName ⟨markerIndex, []⟩) }

/-- The method that is meant carries the marker. -/
def Marked (kind : TargetKind) (file : ClassFile) (name : String) : Prop :=
  ∃ index method, file.findMethod? name kind.descriptor.text = some index ∧
    file.methods[index]? = some method ∧ method.hasAttribute file.pool markerName = true

theorem attempt_eq_ok_iff {ε α β : Type} {first : Attempt ε α} {later : α → Attempt ε β}
    {value : β} :
    (first >>= later).result = .ok value ↔
      ∃ middle, first.result = .ok middle ∧ (later middle).result = .ok value := by
  rw [Attempt.result_bind, bindExcept_eq_ok_iff]

theorem mapError_eq_ok_iff {ε δ α : Type} {change : ε → δ} {result : Except ε α} {value : α} :
    result.mapError change = .ok value ↔ result = .ok value := by
  cases result <;> simp [Except.mapError]

variable {kind : TargetKind} {identity : ClassIdentity} {file next : ClassFile} {name : String}

/-- The steps that put a report into a method, each of which goes on from the class that
the one before left. -/
structure Steps (kind : TargetKind) (name : String) (file next : ClassFile) where
  index : Nat
  method : Member
  body : MethodCode
  fragment : Fragment
  extended : MethodCode
  /-- The class when the fragment has been assembled. -/
  built : ClassFile
  found : file.findMethod? name kind.descriptor.text = some index
  there : file.methods[index]? = some method
  unmarked : method.hasAttribute file.pool markerName = false
  receiver : (kind.needsReceiver && method.isStatic) = false
  code : method.code? file.pool = .ok (some body)
  builds : DiagnosticPrologue.build kind name file = (.ok fragment, built)
  inserted : body.insertPrologue built.pool fragment = .ok extended
  installs : built.edit (install index extended) = (.ok (), next)

/-- What a success has come from. -/
theorem instrumentMethod_eq_ok {outcome : Option ClassFile}
    (success : (instrumentMethod kind identity file name).result = .ok outcome) :
    (outcome = none ∧ Marked kind file name) ∨
      ∃ next, outcome = some next ∧ Nonempty (Steps kind name file next) := by
  unfold instrumentMethod at success
  dsimp only at success
  have sameText : (kind.signature name).descriptor.text = kind.descriptor.text := rfl
  rw [sameText] at success
  cases found : file.findMethod? name kind.descriptor.text with
  | none =>
      rw [found] at success
      cases success
  | some index =>
      rw [found] at success
      obtain ⟨method, methodRead, success⟩ := attempt_eq_ok_iff.mp success
      have there : file.methods[index]? = some method :=
        ClassFile.method_eq_ok_iff.mp (mapError_eq_ok_iff.mp methodRead)
      split at success
      case isTrue marked =>
        obtain ⟨_, -, success⟩ := attempt_eq_ok_iff.mp success
        cases success
        exact .inl ⟨rfl, index, method, found, there, marked⟩
      case isFalse unmarked =>
        split at success
        case isTrue => cases success
        case isFalse receiver =>
          obtain ⟨_, -, success⟩ := attempt_eq_ok_iff.mp success
          obtain ⟨body?, code, success⟩ := attempt_eq_ok_iff.mp success
          cases body? with
          | none => cases success
          | some body =>
              obtain ⟨fragment, built, success⟩ := attempt_eq_ok_iff.mp success
              obtain ⟨extended, inserted, success⟩ := attempt_eq_ok_iff.mp success
              obtain ⟨_, installed, success⟩ := attempt_eq_ok_iff.mp success
              obtain ⟨_, -, success⟩ := attempt_eq_ok_iff.mp success
              cases success
              exact .inr ⟨_, rfl, ⟨{
                index, method, body, fragment, extended, found, there
                built := (DiagnosticPrologue.build kind name file).2
                unmarked := Bool.eq_false_iff.mpr unmarked
                receiver := Bool.eq_false_iff.mpr receiver
                code := mapError_eq_ok_iff.mp code
                builds := Prod.ext built rfl
                inserted := mapError_eq_ok_iff.mp inserted
                installs := Prod.ext (mapError_eq_ok_iff.mp installed) rfl }⟩⟩

/-- Steps that can all be taken are taken. -/
theorem instrumentMethod_of_steps (steps : Steps kind name file next) :
    (instrumentMethod kind identity file name).result = .ok (some next) := by
  have notMarked := Bool.eq_false_iff.mp steps.unmarked
  have notStatic := Bool.eq_false_iff.mp steps.receiver
  unfold instrumentMethod
  dsimp only
  rw [show (kind.signature name).descriptor.text = kind.descriptor.text from rfl, steps.found]
  refine attempt_eq_ok_iff.mpr ⟨steps.method, mapError_eq_ok_iff.mpr
    (ClassFile.method_eq_ok_iff.mpr steps.there), ?_⟩
  rw [if_neg notMarked, if_neg notStatic]
  refine attempt_eq_ok_iff.mpr ⟨(), rfl, ?_⟩
  refine attempt_eq_ok_iff.mpr ⟨some steps.body, mapError_eq_ok_iff.mpr steps.code, ?_⟩
  dsimp only
  rw [steps.builds]
  refine attempt_eq_ok_iff.mpr ⟨steps.fragment, rfl, ?_⟩
  refine attempt_eq_ok_iff.mpr ⟨steps.extended, mapError_eq_ok_iff.mpr steps.inserted, ?_⟩
  dsimp only
  rw [steps.installs]
  exact attempt_eq_ok_iff.mpr ⟨(), rfl, rfl⟩

/-- On a sound pool, what the steps amount to is an injection of the same fragment into the
same method. -/
theorem Steps.exists_injection (steps : Steps kind name file next) (sound : file.pool.Sound) :
    ∃ injection : Injection kind name file next, injection.method = steps.method ∧
      injection.fragment = steps.fragment ∧ injection.assembled = steps.built.pool := by
  obtain ⟨index, method, body, fragment, extended, built, found, there, unmarked, -, code, builds,
    inserted, installs⟩ := steps
  obtain ⟨assembled, rfl, assembles, assembledSound, reports⟩ :=
    DiagnosticPrologue.reports_of_build sound builds
  obtain ⟨_, codeIndex, installing, markerIndex, pool, sameMethod, codeInterned, markerInterned,
    rfl⟩ := install_eq_ok_iff.mp installs
  cases there.symm.trans sameMethod
  have installs := Interning.grown_utf8 assembledSound.wellFormed MethodCode.attributeName
  have installingSound : installing.Sound := by
    have kept := Interning.sound_utf8 assembledSound
      (by decide +kernel : Text.Fits MethodCode.attributeName)
    rwa [codeInterned] at kept
  have marks := Interning.grown_utf8 installingSound.wellFormed markerName
  have poolSound := Interning.sound_utf8 installingSound
    (by decide +kernel : Text.Fits markerName)
  rw [codeInterned] at installs
  rw [markerInterned] at marks poolSound
  exact ⟨{
    index, method, body, fragment, extended, assembled, installing, codeIndex, markerIndex
    found, there, unmarked, code, assembles, reports, inserted
    installs := installs.1
    marks := marks.1
    sound := poolSound
    codeNamed := Interning.utf8Matches_of_utf8 assembledSound.wellFormed codeInterned
    markerNamed := Interning.utf8Matches_of_utf8 installingSound.wellFormed markerInterned
    result := rfl }, rfl, rfl, rfl⟩

theorem Steps.injection (steps : Steps kind name file next) (sound : file.pool.Sound) :
    Nonempty (Injection kind name file next) := by
  obtain ⟨injection, -⟩ := steps.exists_injection sound
  exact ⟨injection⟩

end Instrumentation

end Lookout
