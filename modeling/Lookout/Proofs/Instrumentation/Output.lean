/-
# What an instrumented method prints

Behind a pass, a listed method starts with the report of its kind and goes on with
the code that it had. A rehearsal of the class that the pass has handed out prints
this report and nothing else, whatever thread and object it runs on, and the code
comes to its old first instruction over nothing but padding.
-/

import Lookout.Proofs.Instrumentation.Frame

namespace Lookout

namespace Instrumentation

variable {kind : TargetKind} {file last : ClassFile} {name : String} {names : List String}
  {index : Nat} {method : Member}

namespace Report

/-- The code that the method had. -/
theorem methodCode_before (report : Report kind names file last index method)
    (there : file.methods[index]? = some method) :
    file.methodCode index = .ok (some report.body) := by
  obtain ⟨sameInfo, fits⟩ := MethodCode.ofBytes_eq_ok_iff.mp report.code
  exact ClassFile.methodCode_eq_ok_iff.mpr ⟨method, there,
    Member.code?_eq_some_iff.mpr ⟨_, report.splits.attribute?_eq, sameInfo, fits⟩⟩

/-- The code that the method has got. -/
theorem methodCode_after (report : Report kind names file last index method)
    (grows : file.pool.GrowsTo last.pool) (fits : report.extended.Fits) :
    last.methodCode index = .ok (some report.extended) :=
  ClassFile.methodCode_eq_ok_iff.mpr ⟨_, report.there,
    report.splits.code?_withInfo grows (List.append_assoc ..) fits⟩

/-- In a class with room, the code that the method has got can be written. -/
theorem fits_extended (report : Report kind names file last index method) (roomy : Roomy file)
    (there : file.methods[index]? = some method) : report.extended.Fits := by
  obtain ⟨sameInfo, fits⟩ := MethodCode.ofBytes_eq_ok_iff.mp report.code
  have room := roomy.methods _ (List.mem_of_getElem? there)
  have inAttributes : report.item ∈ method.attributes := by simp [report.splits.attributes]
  exact (room.fits_extended report.unmarked inAttributes sameInfo fits report.inserted).1

end Report

variable {registry : TargetRegistry} {identity : ClassIdentity} {data : Bytes}
  {update : ClassUpdate}

/-- A listed method prints exactly its report when it runs, before it goes on with the
code that it had, which stands untouched behind the report. -/
theorem rehearsal_of_instrument {spec : TargetSpec} (small : data.length < 2147483648)
    (target : registry.spec? identity = some spec) (read : ClassFile.ofBytes data = .ok file)
    (few : ∀ method ∈ file.methods, method.attributes.length ≠ 65535) (inside : file.NamesInside)
    (success : (instrument registry data identity names).result = .ok update)
    (listed : name ∈ names)
    (found : file.findMethod? name spec.kind.descriptor.text = some index)
    (there : file.methods[index]? = some method)
    (unmarked : method.hasAttribute file.pool markerName = false) :
    ∃ last body extended inserted resumeOffset,
      ClassFile.ofBytes (update.data data) = .ok last ∧
        file.methodCode index = .ok (some body) ∧
        last.findMethod? name spec.kind.descriptor.text = some index ∧
        last.methodCode index = .ok (some extended) ∧
        extended.code.length = inserted + body.code.length ∧
        extended.code.drop inserted = body.code ∧
        resumeOffset ≤ inserted ∧
        (extended.code.take inserted).drop resumeOffset =
          List.replicate (inserted - resumeOffset) Opcode.nop ∧
        ∀ surroundings,
          Rehearsal.ofMethod (update.data data) name spec.kind.descriptor.text surroundings =
            some {
              output := Diagnostic.render spec.kind surroundings.threadName
                (DiagnosticPrologue.shownCommand surroundings spec.kind) surroundings.stack
              lines := 1
              dumps := 1
              resumeOffset } := by
  obtain ⟨last, _, readLast, run⟩ := exists_run_of_instrument small target read few success
  have foundLast := run.evolves.findMethod?_eq_some found
  obtain ⟨report⟩ := run.report inside there listed foundLast unmarked
  have fits := report.fits_extended (roomy_of_ofBytes small read few) there
  have codeAfter := report.methodCode_after run.evolves.pool fits
  obtain ⟨resumeOffset, early, padding, prints⟩ := report.reports
  have code : report.extended.code = report.fragment.code ++ report.body.code := by
    obtain ⟨-, -, _, _, -, -, -, same⟩ := MethodCode.insertPrologue_eq_ok_iff.mp report.inserted
    rw [same]
  refine ⟨last, report.body, report.extended, report.fragment.length, resumeOffset, readLast,
    report.methodCode_before there, foundLast, codeAfter, ?_, ?_, early, ?_, ?_⟩
  · rw [code, List.length_append, Fragment.length]
  · rw [code, Fragment.length, List.drop_left]
  · rw [code, Fragment.length, List.take_left, padding, Fragment.length]
  · intro surroundings
    have printed := prints surroundings report.body.code
    rw [← code] at printed
    rw [Rehearsal.ofMethod, readLast]
    show (last.findMethod? name spec.kind.descriptor.text).bind _ = _
    rw [foundLast, Option.bind_some, codeAfter]
    exact printed

/-- What the method that ends the process prints. -/
theorem rehearsal_of_instrument_shutdown :
    ∃ update, update ≠ .unchanged ∧
      (instrument .builtin (Sample.shutdown true) ⟨Sample.shutdownName⟩ ["halt"]).result =
        .ok update ∧
      ∃ resumeOffset, ∀ surroundings,
        Rehearsal.ofMethod (update.data (Sample.shutdown true)) "halt"
            TargetKind.halt.descriptor.text surroundings =
          some {
            output := Diagnostic.render .halt surroundings.threadName none surroundings.stack
            lines := 1
            dumps := 1
            resumeOffset } := by
  obtain ⟨small, file, read, few, inside, -, found, method, there, unmarked⟩ := exists_shutdown
  obtain ⟨update, success, changed⟩ := exists_shutdown_update
  obtain ⟨_, _, _, _, resumeOffset, -, -, -, -, -, -, -, -, prints⟩ :=
    rehearsal_of_instrument small spec?_shutdown read few inside success
      List.mem_cons_self found there unmarked
  exact ⟨update, changed, success, resumeOffset, prints⟩

end Instrumentation

end Lookout
