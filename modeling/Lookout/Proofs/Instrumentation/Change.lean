/-
# A report as one change

Between the steps that put a report into a method the pool grows, and each step looks
things up in the pool as the steps before have left it. Where all names that the
methods of a class use are entries of its pool, it makes no difference if everything
is looked up in the pool as it was at first. The steps then amount to one change: the
pool takes up what reports intern, and one method gets its report.
-/

import Lookout.Proofs.Fragment.Settled
import Lookout.Proofs.Instrumentation.Injection
import Lookout.Proofs.MethodCode.Insertion

namespace Lookout

namespace DiagnosticPrologue

open Assembly

theorem settles_threadName : Settles threadName :=
  (settles_invokestatic _).bind fun _ => settles_invokevirtual _

theorem settles_printAndDump : Settles printAndDump :=
  (settles_invokevirtual _).bind fun _ => settles_invokestatic _

theorem settles_haltCode : Settles haltCode :=
  (settles_getstatic _).bind fun _ => (settles_ldc _).bind fun _ =>
    settles_threadName.bind fun _ => (settles_invokevirtual _).bind fun _ => settles_printAndDump

theorem settles_processStartCode (owner : String) : Settles (processStartCode owner) :=
  (settles_getstatic _).bind fun _ => (settles_ldc _).bind fun _ => (settles_ldc _).bind fun _ =>
    (settles_aload _).bind fun _ => (settles_getfield _).bind fun _ =>
      (settles_invokestatic _).bind fun _ => (settles_invokevirtual _).bind fun _ =>
        (settles_ldc _).bind fun _ => (settles_invokevirtual _).bind fun _ =>
          settles_threadName.bind fun _ => (settles_invokevirtual _).bind fun _ =>
            settles_printAndDump

/-- The same report is assembled again, whatever has been interned since. -/
theorem settles_assemble (kind : TargetKind) (owner : String) :
    Interning.Settles (assemble kind owner) := by
  have settles : Settles (code kind owner) := by
    cases kind with
    | halt => exact settles_haltCode
    | processStart => exact settles_processStartCode owner
  constructor
  · intro pool last fragment success
    obtain ⟨assembler, assembled, -, rfl⟩ := assemble_eq_ok_iff.mp success
    exact settles.grows assembled
  · intro pool next fragment success last beyond
    obtain ⟨assembler, assembled, finished, rfl⟩ := assemble_eq_ok_iff.mp success
    exact assemble_eq_ok_iff.mpr
      ⟨{ assembler with pool := last }, settles.again assembled beyond, finished, rfl⟩

end DiagnosticPrologue

namespace Instrumentation

open Effect ConstantPool

/-- What a report takes from the pool of a class with this name: its code, and the index
for the name of the marker. The name of code attributes is interned in between. -/
def payload (kind : TargetKind) (owner : String) : Interning (Fragment × UInt16) := do
  let fragment ← (DiagnosticPrologue.assemble kind owner : Interning Fragment)
  let _ ← Interning.utf8 MethodCode.attributeName
  let markerIndex ← Interning.utf8 markerName
  return (fragment, markerIndex)

theorem payload_eq_ok_iff {kind : TargetKind} {owner : String} {pool last : ConstantPool}
    {fragment : Fragment} {markerIndex : UInt16} :
    payload kind owner pool = (.ok (fragment, markerIndex), last) ↔
      ∃ assembled codeIndex installing,
        DiagnosticPrologue.assemble kind owner pool = (.ok fragment, assembled) ∧
          Interning.utf8 MethodCode.attributeName assembled = (.ok codeIndex, installing) ∧
          Interning.utf8 markerName installing = (.ok markerIndex, last) := by
  constructor
  · intro success
    obtain ⟨_, assembled, assembly, success⟩ := bind_eq_ok_iff.mp success
    obtain ⟨codeIndex, installing, codeInterned, success⟩ := bind_eq_ok_iff.mp success
    obtain ⟨_, _, markerInterned, success⟩ := bind_eq_ok_iff.mp success
    cases success
    exact ⟨assembled, codeIndex, installing, assembly, codeInterned, markerInterned⟩
  · rintro ⟨assembled, codeIndex, installing, assembly, codeInterned, markerInterned⟩
    exact bind_eq_ok_iff.mpr ⟨_, _, assembly, bind_eq_ok_iff.mpr ⟨_, _, codeInterned,
      bind_eq_ok_iff.mpr ⟨_, _, markerInterned, rfl⟩⟩⟩

/-- A second report of the same kind needs nothing that the first one has not interned. -/
theorem settles_payload (kind : TargetKind) (owner : String) :
    Interning.Settles (payload kind owner) :=
  (DiagnosticPrologue.settles_assemble kind owner).bind fun _ =>
    (Interning.settles_utf8 _).bind fun _ => (Interning.settles_utf8 _).bind fun _ =>
      settles_pure _

/-- The second member is the first one with the fragment in front of its code and the
marker behind its attributes. All names are looked up in this pool. -/
inductive Edits (kind : TargetKind) (pool : ConstantPool) (fragment : Fragment)
    (markerIndex : UInt16) (method : Member) : Member → Prop where
  | intro {front back : List Attribute} {item : Attribute} {body extended : MethodCode} :
      method.hasAttribute pool markerName = false →
      (kind.needsReceiver && method.isStatic) = false →
      method.SplitsAt pool MethodCode.attributeName front item back →
      MethodCode.ofBytes item.info = .ok body →
      body.insertPrologue pool fragment = .ok extended →
      Edits kind pool fragment markerIndex method { method with
        attributes := front ++ { item with info := extended.bytes } :: back ++
          [⟨markerIndex, []⟩] }

theorem Edits.unmarked {kind : TargetKind} {pool : ConstantPool} {fragment : Fragment}
    {markerIndex : UInt16} {method edited : Member}
    (edits : Edits kind pool fragment markerIndex method edited) :
    method.hasAttribute pool markerName = false := by
  cases edits with
  | intro unmarked _ _ _ _ => exact unmarked

/-- All names of attributes in the code of the method are entries of the pool. -/
def CodeInside (pool : ConstantPool) (method : Member) : Prop :=
  ∀ body, method.code? pool = .ok (some body) → body.NamesInside pool

section Edits

variable {kind : TargetKind} {earlier later : ConstantPool} {fragment : Fragment}
  {markerIndex : UInt16} {method edited : Member}

/-- An edit is the same edit if its names are looked up in a larger pool. -/
theorem edits_iff_of_grows (grows : earlier.GrowsTo later) (inside : method.NamesInside earlier)
    (codeInside : CodeInside earlier method) :
    Edits kind later fragment markerIndex method edited ↔
      Edits kind earlier fragment markerIndex method edited := by
  have sameMark := Member.hasAttribute_eq_of_grows grows inside markerName
  have sameInsertion {front back : List Attribute} {item : Attribute} {body : MethodCode}
      (splits : method.SplitsAt earlier MethodCode.attributeName front item back)
      (code : MethodCode.ofBytes item.info = .ok body) :
      body.insertPrologue later fragment = body.insertPrologue earlier fragment := by
    have isCode : method.code? earlier = .ok (some body) := Member.code?_eq_some_iff.mpr
      ⟨item, splits.attribute?_eq, MethodCode.ofBytes_eq_ok_iff.mp code⟩
    exact MethodCode.insertPrologue_eq_of_grows grows (codeInside body isCode) fragment
  constructor
  · rintro ⟨unmarked, receiver, splits, code, inserted⟩
    have splitsEarlier := splits.of_grows grows inside
    rw [sameMark] at unmarked
    rw [sameInsertion splitsEarlier code] at inserted
    exact .intro unmarked receiver splitsEarlier code inserted
  · rintro ⟨unmarked, receiver, splits, code, inserted⟩
    rw [← sameMark] at unmarked
    rw [← sameInsertion splits code] at inserted
    exact .intro unmarked receiver (splits.withInfo grows splits.attributes) code inserted

end Edits

/-- A change that puts a report into a method. Everything is looked up in the class as it
is before. -/
structure Change (kind : TargetKind) (name : String) (file next : ClassFile) where
  index : Nat
  method : Member
  edited : Member
  owner : String
  fragment : Fragment
  markerIndex : UInt16
  /-- The pool with all that the report needs. -/
  pool : ConstantPool
  found : file.findMethod? name kind.descriptor.text = some index
  there : file.methods[index]? = some method
  named : file.name = .ok owner
  declares : DiagnosticPrologue.lacksCommandField kind file = false
  interns : payload kind owner file.pool = (.ok (fragment, markerIndex), pool)
  edits : Edits kind file.pool fragment markerIndex method edited
  result : next = { file with pool, methods := file.methods.set index edited }

section Change

variable {kind : TargetKind} {file next : ClassFile} {name : String}

/-- Steps that are taken amount to a change. -/
theorem Steps.change (steps : Steps kind name file next) (inside : file.NamesInside)
    (codeInside : CodeInside file.pool steps.method) : Nonempty (Change kind name file next) := by
  obtain ⟨index, method, body, fragment, extended, built, found, there, unmarked, receiver, code,
    builds, inserted, installs⟩ := steps
  obtain ⟨owner, assembled, named, declares, assembly, rfl⟩ :=
    DiagnosticPrologue.build_eq_ok_iff.mp builds
  obtain ⟨_, codeIndex, installing, markerIndex, pool, sameMethod, codeInterned, markerInterned,
    rfl⟩ := install_eq_ok_iff.mp installs
  cases there.symm.trans sameMethod
  have assembles : file.pool.GrowsTo assembled :=
    (DiagnosticPrologue.settles_assemble kind owner).grows assembly
  have namesCode : assembled.GrowsTo installing := (Interning.settles_utf8 _).grows codeInterned
  have marks : installing.GrowsTo pool := (Interning.settles_utf8 _).grows markerInterned
  obtain ⟨item, first, spelled⟩ := Member.code?_eq_some_iff.mp code
  obtain ⟨front, back, splits⟩ := Member.exists_splitsAt first
  have insertedBefore : body.insertPrologue file.pool fragment = .ok extended := by
    rw [← MethodCode.insertPrologue_eq_of_grows assembles (codeInside body code), inserted]
  exact ⟨{
    index, method, owner, fragment, markerIndex, pool, found, there, named, declares
    edited := _
    interns := payload_eq_ok_iff.mpr
      ⟨assembled, codeIndex, installing, assembly, codeInterned, markerInterned⟩
    edits := .intro unmarked receiver splits (MethodCode.ofBytes_eq_ok_iff.mpr spelled)
      insertedBefore
    result := by
      rw [Member.ensureAttribute_replaceAttribute splits (inside _ (List.mem_of_getElem? there))
        unmarked (assembles.trans namesCode) marks] }⟩

/-- A change is what comes of steps that can be taken. -/
theorem Change.steps (change : Change kind name file next) (inside : file.NamesInside)
    (codeInside : CodeInside file.pool change.method) : Nonempty (Steps kind name file next) := by
  obtain ⟨index, method, _, owner, fragment, markerIndex, pool, found, there, named, declares,
    interns, edits, rfl⟩ := change
  obtain @⟨front, back, item, body, extended, unmarked, receiver, splits, code, inserted⟩ := edits
  obtain ⟨assembled, codeIndex, installing, assembly, codeInterned, markerInterned⟩ :=
    payload_eq_ok_iff.mp interns
  have assembles : file.pool.GrowsTo assembled :=
    (DiagnosticPrologue.settles_assemble kind owner).grows assembly
  have namesCode : assembled.GrowsTo installing := (Interning.settles_utf8 _).grows codeInterned
  have marks : installing.GrowsTo pool := (Interning.settles_utf8 _).grows markerInterned
  have isCode : method.code? file.pool = .ok (some body) := Member.code?_eq_some_iff.mpr
    ⟨item, splits.attribute?_eq, MethodCode.ofBytes_eq_ok_iff.mp code⟩
  refine ⟨{
    index, method, body, fragment, extended, found, there, unmarked, receiver
    built := { file with pool := assembled }
    code := isCode
    builds := DiagnosticPrologue.build_eq_ok_iff.mpr
      ⟨owner, assembled, named, declares, assembly, rfl⟩
    inserted := (MethodCode.insertPrologue_eq_of_grows assembles (codeInside body isCode)
      fragment).trans inserted
    installs := install_eq_ok_iff.mpr ⟨method, codeIndex, installing, markerIndex, pool, there,
      codeInterned, markerInterned, ?_⟩ }⟩
  rw [Member.ensureAttribute_replaceAttribute splits (inside _ (List.mem_of_getElem? there))
    unmarked (assembles.trans namesCode) marks]

end Change

end Instrumentation

end Lookout
