/-
# Launch reports and the field that they read

A launch report reads the command from the object whose method it is put into. So the method
has to be one of an object, and the class has to declare the field. A pass looks after both:
it refuses methods that are static, and classes without a field of the name and type. What
it does not look at is whether the field belongs to the objects or to the class. A field
that belongs to the class is taken for the command as well, though it cannot be read from
an object.
-/

import Lookout.Proofs.Instrumentation.Readable
import Lookout.Proofs.Instrumentation.ReportCalls

namespace Lookout

namespace Instrumentation

open DiagnosticPrologue

variable {identity : ClassIdentity} {file next last : ClassFile} {owner name : String}
  {names : List String} {index : Nat} {method : Member}

/-! ### Methods that get a launch report -/

/-- An injection of a launch report into a class with this name. -/
structure Launch (owner name : String) (file next : ClassFile) extends
    Injection .processStart name file next where
  named : file.name = .ok owner
  declared : (file.findField? commandFieldName commandFieldDescriptor).isSome = true
  receiver : method.isStatic = false
  reads : ∀ later, next.pool.GrowsTo later → ReadsCommand later owner fragment

theorem Steps.exists_launch (steps : Steps .processStart name file next)
    (sound : file.pool.Sound) : ∃ owner, Nonempty (Launch owner name file next) := by
  obtain ⟨injection, sameMethod, sameFragment, sameAssembled⟩ := steps.exists_injection sound
  obtain ⟨owner, pool, named, declares, assembled, built⟩ := build_eq_ok_iff.mp steps.builds
  have samePool : injection.assembled = pool := by rw [sameAssembled, built]
  refine ⟨owner, ⟨{ injection with named, declared := ?_, receiver := ?_, reads := ?_ }⟩⟩
  · simpa [lacksCommandField] using declares
  · rw [sameMethod]
    exact steps.receiver
  · intro later beyond
    have grows := (injection.installs.trans injection.marks).trans beyond
    rw [samePool] at grows
    rw [sameFragment]
    exact readsCommand_of_readsAs (readsAs_of_assemble sound.wellFormed assembled later grows)

/-- A method of the first class that has got a launch report in the last one. The report is
in front of its code, and reads the command as declared by the class with this name. -/
structure LaunchReport (owner : String) (names : List String) (file last : ClassFile) (index : Nat)
    (method : Member) where
  name : String
  edited : Member
  item : Attribute
  body : MethodCode
  fragment : Fragment
  extended : MethodCode
  listed : name ∈ names
  found : last.findMethod? name TargetKind.processStart.descriptor.text = some index
  there : last.methods[index]? = some edited
  access : edited.access = method.access
  unmarked : method.hasAttribute file.pool markerName = false
  receiver : method.isStatic = false
  code : method.code? file.pool = .ok (some body)
  recoded : edited.attribute? last.pool MethodCode.attributeName = some item
  sameInfo : item.info = extended.bytes
  spliced : extended.code = fragment.code ++ body.code
  reads : ReadsCommand last.pool owner fragment
  readable : Roomy file → edited.code? last.pool = .ok (some extended)

namespace Launch

/-- The method that a launch report was put into has it at the end, if it is not edited
again. -/
theorem launchReport (launch : Launch owner name file next) (evolves : next.EvolvesTo last)
    (listed : name ∈ names) (kept : last.methods[launch.index]? = some launch.edited) :
    Nonempty (LaunchReport owner names file last launch.index launch.method) := by
  obtain ⟨item, recoded, sameInfo⟩ := launch.exists_attribute?_edited evolves.pool
  obtain ⟨_, evolvedThere, evolvesMethod⟩ := (launch.evolves.trans evolves).methods launch.there
  cases kept.symm.trans evolvedThere
  obtain ⟨-, -, _, _, -, -, -, spliced⟩ :=
    MethodCode.insertPrologue_eq_ok_iff.mp launch.inserted
  exact ⟨{
    name, item, listed, recoded, sameInfo
    edited := launch.edited
    body := launch.body
    fragment := launch.fragment
    extended := launch.extended
    found := evolves.findMethod?_eq_some (launch.evolves.findMethod?_eq_some launch.found)
    there := kept
    access := evolvesMethod.access
    unmarked := launch.unmarked
    receiver := launch.receiver
    code := launch.code
    spliced := congrArg MethodCode.code spliced
    reads := launch.reads last.pool evolves.pool
    readable := fun roomy => launch.code?_edited roomy evolves.pool }⟩

/-- A launch report that a method got after another one was put elsewhere, it got in both
steps. The name of code attributes is an entry by then, so its code is what it was. -/
theorem launchReport_of_next (launch : Launch owner name file next)
    (report : LaunchReport owner names next last index method) :
    Nonempty (LaunchReport owner (name :: names) file last index method) := by
  have grows := launch.evolves.pool
  obtain ⟨coded, codedFirst, -⟩ := launch.exists_code
  obtain ⟨_, _, splits⟩ := Member.exists_splitsAt codedFirst
  have unmarked : method.hasAttribute file.pool markerName = false := by
    rw [Bool.eq_false_iff]
    intro marked
    have stillMarked := Member.hasAttribute_of_grows grows marked
    rw [report.unmarked] at stillMarked
    cases stillMarked
  exact ⟨{ report with
    listed := List.mem_cons_of_mem _ report.listed
    unmarked
    code := by rw [← Member.code?_eq_of_spelled grows splits.named, report.code]
    readable := fun roomy => report.readable (launch.roomy roomy) }⟩

/-- The class is called as it was. -/
theorem named_next (launch : Launch owner name file next) : next.name = .ok owner := by
  rw [ClassFile.name, launch.evolves.rest]
  exact launch.evolves.pool.className launch.named

end Launch

/-- A method comes through a pass as it was, or gets a launch report. -/
theorem unchanged_or_launchReport {before after : Bool} (sound : file.pool.Sound)
    (named : file.name = .ok owner)
    (success : (instrumentMethods .processStart identity (file, before) names).result =
      .ok (last, after))
    (there : file.methods[index]? = some method) :
    last.methods[index]? = some method ∨
      Nonempty (LaunchReport owner names file last index method) := by
  induction names generalizing file before method with
  | nil =>
      cases success
      exact .inl there
  | cons name names ih =>
      obtain ⟨outcome, stepSuccess, success⟩ := attempt_eq_ok_iff.mp success
      rcases instrumentMethod_eq_ok stepSuccess with ⟨rfl, -⟩ | ⟨next, rfl, ⟨steps⟩⟩
      · rcases ih sound named success there with kept | ⟨⟨report⟩⟩
        · exact .inl kept
        · exact .inr ⟨{ report with listed := List.mem_cons_of_mem _ report.listed }⟩
      · obtain ⟨_, ⟨launch⟩⟩ := steps.exists_launch sound
        cases named.symm.trans launch.named
        obtain ⟨_, run, -⟩ := run_of_instrumentMethods launch.sound success
        by_cases same : launch.index = index
        · -- The edited method is marked, so nothing happens to it later.
          subst same
          cases there.symm.trans launch.there
          have later := ih launch.sound launch.named_next success launch.there_edited
          rcases later with kept | ⟨⟨report⟩⟩
          · exact .inr (launch.launchReport run.evolves List.mem_cons_self kept)
          · have unmarked := report.unmarked
            rw [launch.hasAttribute_edited] at unmarked
            cases unmarked
        · have untouched : next.methods[index]? = some method := by
            rw [launch.there_of_ne same, there]
          rcases ih launch.sound launch.named_next success untouched with kept | ⟨⟨report⟩⟩
          · exact .inl kept
          · exact .inr (launch.launchReport_of_next report)

/-- Where a pass changes anything, the class had a name and declared the field. -/
theorem exists_declared_of_changed (sound : file.pool.Sound)
    (success : (instrumentMethods .processStart identity (file, false) names).result =
      .ok (last, true)) :
    (∃ owner, file.name = .ok owner) ∧
      (file.findField? commandFieldName commandFieldDescriptor).isSome = true := by
  induction names with
  | nil => cases success
  | cons name names ih =>
      obtain ⟨outcome, stepSuccess, success⟩ := attempt_eq_ok_iff.mp success
      rcases instrumentMethod_eq_ok stepSuccess with ⟨rfl, -⟩ | ⟨next, rfl, ⟨steps⟩⟩
      · exact ih success
      · obtain ⟨owner, ⟨launch⟩⟩ := steps.exists_launch sound
        exact ⟨⟨owner, launch.named⟩, launch.declared⟩

/-! ### Classes without the field -/

/-- What a pass over a class without the field fails with when it comes to a method that is
not marked: that there is no such method, or that no report could be put into it. If nothing
else is wrong, the reason is that there is no such field. -/
inductive Refusal (identity : ClassIdentity) (file : ClassFile) (name : String) :
    AgentError → Prop where
  | notFound : file.findMethod? name TargetKind.processStart.descriptor.text = none →
      Refusal identity file name (.methodNotFound identity.binaryName name
        TargetKind.processStart.descriptor.text)
  | refused {index : Nat} {method : Member} {className : String} {fault : InjectionFault} :
      file.findMethod? name TargetKind.processStart.descriptor.text = some index →
      file.methods[index]? = some method →
      (∀ owner body, method.isStatic = false → method.code? file.pool = .ok (some body) →
        file.name = .ok owner → className = Text.dotted owner ∧
          fault = .missingField commandFieldName commandFieldDescriptor) →
      Refusal identity file name (.compilationFailure className name fault)

/-- Without the field no report is built, and if the class has a name, the reason is that there
is no such field. -/
theorem exists_build_eq_error (name : String)
    (missing : file.findField? commandFieldName commandFieldDescriptor = none) :
    ∃ failure, build .processStart name file = (.error failure, file) ∧
      ∃ className fault, failure = .compilationFailure className name fault ∧
        ∀ owner, file.name = .ok owner → className = Text.dotted owner ∧
          fault = .missingField commandFieldName commandFieldDescriptor := by
  have lacks : lacksCommandField .processStart file = true := by
    rw [lacksCommandField, missing]
    rfl
  unfold build
  cases named : file.name with
  | error fault => exact ⟨_, rfl, _, _, rfl, nofun⟩
  | ok owner =>
      dsimp only
      rw [if_pos lacks]
      refine ⟨_, rfl, _, _, rfl, ?_⟩
      rintro _ ⟨⟩
      exact ⟨rfl, rfl⟩

theorem exists_refusal (missing : file.findField? commandFieldName commandFieldDescriptor = none)
    (unmarked : ¬Marked .processStart file name) :
    ∃ failure, (instrumentMethod .processStart identity file name).result = .error failure ∧
      Refusal identity file name failure := by
  unfold instrumentMethod
  dsimp only
  rw [show (TargetKind.processStart.signature name).descriptor.text =
    TargetKind.processStart.descriptor.text from rfl]
  cases found : file.findMethod? name TargetKind.processStart.descriptor.text with
  | none => exact ⟨_, rfl, .notFound found⟩
  | some index =>
      obtain ⟨method, there, -⟩ := ClassFile.findMethod?_eq_some_iff.mp found
      have notMarked : ¬method.hasAttribute file.pool markerName = true :=
        fun marked => unmarked ⟨index, method, found, there, marked⟩
      dsimp only
      rw [ClassFile.method_eq_ok_iff.mpr there, Attempt.result_bind]
      show ∃ failure, (ite _ _ _ : Attempt AgentError (Option ClassFile)).result = _ ∧ _
      rw [if_neg notMarked]
      cases static : method.isStatic with
      | true =>
          refine ⟨_, rfl, .refused found there fun _ _ notStatic => ?_⟩
          rw [static] at notStatic
          cases notStatic
      | false =>
          rw [if_neg (by decide)]
          cases code : method.code? file.pool with
          | error fault =>
              refine ⟨_, rfl, .refused found there fun _ _ _ coded => ?_⟩
              rw [code] at coded
              cases coded
          | ok body? =>
              cases body? with
              | none =>
                  refine ⟨_, rfl, .refused found there fun _ _ _ coded => ?_⟩
                  rw [code] at coded
                  cases coded
              | some body =>
                  obtain ⟨failure, built, reason⟩ := exists_build_eq_error name missing
                  refine ⟨failure, ?_, ?_⟩
                  · simp only [Attempt.result_bind, built]
                    rfl
                  · obtain ⟨className, fault, rfl, sameOwner⟩ := reason
                    exact .refused found there fun owner _ _ _ => sameOwner owner

/-- What may come of a pass over a class without the field: it has nothing to do, or it fails at
the first listed method that is not marked. -/
inductive WithoutField (identity : ClassIdentity) (file : ClassFile) (names : List String) :
    Except AgentError ClassUpdate → Prop where
  | unchanged : (∀ name ∈ names, Marked .processStart file name) →
      WithoutField identity file names (.ok .unchanged)
  | failed {before after : List String} {name : String} {failure : AgentError} :
      names = before ++ name :: after → (∀ earlier ∈ before, Marked .processStart file earlier) →
      ¬Marked .processStart file name → Refusal identity file name failure →
      WithoutField identity file names (.error failure)

/-- A pass over a class without the field skips what is marked, and fails at the first listed
method that is not. -/
theorem marked_or_refused {changed : Bool}
    (missing : file.findField? commandFieldName commandFieldDescriptor = none)
    (names : List String) :
    (∀ name ∈ names, Marked .processStart file name) ∨
      ∃ before name after failure, names = before ++ name :: after ∧
        (∀ earlier ∈ before, Marked .processStart file earlier) ∧
        ¬Marked .processStart file name ∧
        (instrumentMethods .processStart identity (file, changed) names).result =
          .error failure ∧
        Refusal identity file name failure := by
  induction names with
  | nil => exact .inl nofun
  | cons name names ih =>
      by_cases marked : Marked .processStart file name
      · have skipped : (instrumentMethods .processStart identity (file, changed)
            (name :: names)).result =
              (instrumentMethods .processStart identity (file, changed) names).result := by
          rw [instrumentMethods, Attempt.result_bind, instrumentMethod_of_marked marked]
          rfl
        rcases ih with allMarked | ⟨before, first, after, failure, rfl, earlier, rest⟩
        · exact .inl (List.forall_mem_cons.mpr ⟨marked, allMarked⟩)
        · rw [skipped]
          exact .inr ⟨name :: before, first, after, failure, rfl,
            List.forall_mem_cons.mpr ⟨marked, earlier⟩, rest⟩
      · obtain ⟨failure, failed, refusal⟩ := exists_refusal missing marked
        refine .inr ⟨[], name, names, failure, rfl, nofun, marked, ?_, refusal⟩
        rw [instrumentMethods, Attempt.result_bind, failed]
        rfl

/-! ### Passes over data -/

/-- A pass has put launch reports into methods of a class, and nothing else into any. The class
declares the field that they read, in the first of its fields that have the name and type. -/
structure Launched (owner : String) (field : Member) (names : List String)
    (file last : ClassFile) : Prop where
  named : file.name = .ok owner
  stillNamed : last.name = .ok owner
  declared : ∃ index, file.findField? commandFieldName commandFieldDescriptor = some index ∧
    last.findField? commandFieldName commandFieldDescriptor = some index ∧
    file.fields[index]? = some field
  fields : last.fields = file.fields
  methods : ∀ {index : Nat} {method : Member}, file.methods[index]? = some method →
    last.methods[index]? = some method ∨
      Nonempty (LaunchReport owner names file last index method)

theorem exists_launched (sound : file.pool.Sound)
    (success : (instrumentMethods .processStart identity (file, false) names).result =
      .ok (last, true)) :
    ∃ owner field, Launched owner field names file last := by
  obtain ⟨⟨owner, named⟩, declared⟩ := exists_declared_of_changed sound success
  obtain ⟨_, run, -⟩ := run_of_instrumentMethods sound success
  obtain ⟨index, found⟩ := Option.isSome_iff_exists.mp declared
  obtain ⟨inside, -⟩ := List.findIdx?_eq_some_iff_getElem.mp found
  refine ⟨owner, file.fields[index], named, ?_, ?_, ?_, ?_⟩
  · rw [ClassFile.name, run.evolves.rest]
    exact run.evolves.pool.className named
  · exact ⟨index, found, run.evolves.findField?_eq_some found, List.getElem?_eq_getElem inside⟩
  · rw [run.evolves.rest]
  · exact unchanged_or_launchReport sound named success

variable {registry : TargetRegistry} {data : Bytes}

/-- If a pass over a class that launches processes hands out new data, the class declares a field
with the name and type of the command. The pass has put reports that read this field into
methods that are not static, and has left the others as they were. A class without such a
field it leaves as it is if all listed methods are marked, and otherwise it fails. -/
theorem launched_of_instrument {spec : TargetSpec} (target : registry.spec? identity = some spec)
    (launches : spec.kind = .processStart) :
    (∀ updated, (instrument registry data identity names).result = .ok (.replaced updated) →
      ∃ file last owner field, ClassFile.ofBytes data = .ok file ∧ updated = last.bytes ∧
        Launched owner field names file last ∧
        (data.length < 2147483648 → (∀ method ∈ file.methods, method.attributes.length ≠ 65535) →
          Roomy file ∧ ClassFile.ofBytes updated = .ok last)) ∧
      ∀ file, ClassFile.ofBytes data = .ok file →
        file.findField? commandFieldName commandFieldDescriptor = none →
        WithoutField identity file names (instrument registry data identity names).result := by
  constructor
  · intro updated success
    obtain ⟨_, impossible⟩ | ⟨_, file, _, _, -, read, -, -⟩ := instrument_eq_ok success
    · cases impossible
    cases names with
    | nil => cases success
    | cons name names =>
        rw [result_instrument target read, launches] at success
        cases outcome : (instrumentMethods .processStart identity (file, false)
            (name :: names)).result with
        | error failure =>
            rw [outcome] at success
            cases success
        | ok passed =>
            obtain ⟨last, changed⟩ := passed
            rw [outcome] at success
            cases changed with
            | false => cases success
            | true =>
                cases success
                have fits := ClassFile.fits_of_ofBytes read
                have sound : file.pool.Sound := ⟨fits.pool, fits.texts⟩
                obtain ⟨owner, field, launched⟩ := exists_launched sound outcome
                obtain ⟨_, run, -⟩ := run_of_instrumentMethods sound outcome
                refine ⟨file, last, owner, field, read, rfl, launched, fun small few => ?_⟩
                have roomy := roomy_of_ofBytes small read few
                exact ⟨roomy, ClassFile.ofBytes_bytes (run.roomy roomy).fits⟩
  · intro file read missing
    rcases marked_or_refused missing names with
      allMarked | ⟨before, name, after, failure, listed, earlier, unmarked, failed, refusal⟩
    · have skipped : ∀ name ∈ names, Marked spec.kind file name := by rwa [launches]
      rw [instrument_of_marked target read skipped]
      exact .unchanged allMarked
    · have passFails : (instrument registry data identity names).result = .error failure := by
        obtain ⟨first, rest, same⟩ : ∃ first rest, names = first :: rest := by
          cases before <;> exact ⟨_, _, listed⟩
        rw [same] at failed ⊢
        rw [result_instrument target read, launches, failed]
        rfl
      rw [passFails]
      exact .failed listed earlier unmarked refusal

theorem spec?_processBuilder :
    TargetRegistry.builtin.spec? ⟨Sample.processBuilderName⟩ = some ⟨.processStart, ["start"]⟩ := by
  decide

/-- The sample class that launches processes gets a launch report, and the field that it reads
belongs to the objects of the class. -/
theorem launched_of_instrument_processBuilder :
    ∃ update file last owner field,
      (instrument .builtin (Sample.processBuilder true) ⟨Sample.processBuilderName⟩
        ["start"]).result = .ok update ∧
      ClassFile.ofBytes (Sample.processBuilder true) = .ok file ∧
      update = .replaced last.bytes ∧ Launched owner field ["start"] file last ∧
      field.isStatic = false := by
  obtain ⟨update, success, changed⟩ := exists_processBuilder_update
  obtain ⟨sample, readSample, fields⟩ : ∃ sample,
      ClassFile.ofBytes (Sample.processBuilder true) = .ok sample ∧
        ∀ field ∈ sample.fields, field.isStatic = false := by
    decide +kernel
  cases update with
  | unchanged => exact absurd rfl changed
  | replaced updated =>
      obtain ⟨file, last, owner, field, read, same, launched, -⟩ :=
        (launched_of_instrument spec?_processBuilder rfl).1 updated success
      cases readSample.symm.trans read
      obtain ⟨_, -, -, there⟩ := launched.declared
      exact ⟨_, sample, last, owner, field, success, read, congrArg _ same, launched,
        fields field (List.mem_of_getElem? there)⟩

/-- A class that launches processes, with a single field, which has the name and type of the
command, but belongs to the class. -/
def classCommand : Bytes :=
  Sample.build Sample.processBuilderName do
    let _ ← ClassEdit.addField Access.staticFlag commandFieldName commandFieldDescriptor
    let _ ← ClassEdit.addMethod Access.publicFlag "start" "()Ljava/lang/Process;"
      (some (.plain 1 1 [Opcode.aconstNull, Opcode.areturn]))

/-- No object of that class has a field, and yet its method gets a report that reads one from
an object. -/
theorem instrument_classCommand :
    (∃ file, ClassFile.ofBytes classCommand = .ok file ∧
        ∀ field ∈ file.fields, field.isStatic = true) ∧
      ∃ update,
        (instrument .builtin classCommand ⟨Sample.processBuilderName⟩ ["start"]).result =
          .ok update ∧ update ≠ .unchanged ∧
        ∃ last, ClassFile.ofBytes (update.data classCommand) = .ok last ∧
          ∃ body ∈ last.methods.head?.bind fun method => (method.code? last.pool).toOption.join,
            ∃ reading ∈ (Listing.ofCode body.code).instructions,
              reading.opcode = Opcode.getfield ∧
                Rehearsal.operandMember? last.pool reading =
                  some (commandField Sample.processBuilderName) := by
  decide +kernel

end Instrumentation

end Lookout
