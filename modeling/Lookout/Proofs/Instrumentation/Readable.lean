/-
# What a pass hands out can be read

The class that a pass builds is written without a count or a length that overflows,
if there was room for the injections, and so it is read back as it was built. In it
every listed method is marked, and those that were not marked before have code.

Room is not looked after. A method with as many attributes as can be counted gets
one more, and the class is written with a count of none. And a method is passed over
as marked if one of its attribute names, which led nowhere, has come to lead to the
text that an injection before has interned for its marker.
-/

import Lookout.Proofs.Instrumentation.Frame

namespace Lookout

namespace Instrumentation

variable {kind : TargetKind} {file next last : ClassFile} {name : String} {names : List String}
  {changed : Bool} {index : Nat} {method : Member}

namespace Injection

/-- Whatever is interned later, the attribute for the code of the method has the new code. -/
theorem exists_attribute?_edited (injection : Injection kind name file next)
    {later : ConstantPool} (grows : next.pool.GrowsTo later) :
    ∃ item, injection.edited.attribute? later MethodCode.attributeName = some item ∧
      item.info = injection.extended.bytes := by
  obtain ⟨front, old, back, splits, replaced⟩ := injection.exists_recoded_eq
  have growsFurther := injection.marks.trans grows
  rcases injection.recoded.ensureAttribute_eq_or next.pool markerName
    ⟨injection.markerIndex, []⟩ with kept | appended
  · rw [edited, kept, replaced]
    exact ⟨_, (splits.withInfo growsFurther rfl).attribute?_eq, rfl⟩
  · rw [edited, appended, replaced]
    exact ⟨_, (splits.withInfo growsFurther (List.append_assoc ..)).attribute?_eq, rfl⟩

/-- Whatever is interned later, the new code is the code of the method. -/
theorem code?_edited (injection : Injection kind name file next) (roomy : Roomy file)
    {later : ConstantPool} (grows : next.pool.GrowsTo later) :
    injection.edited.code? later = .ok (some injection.extended) := by
  obtain ⟨item, found, sameInfo⟩ := injection.exists_attribute?_edited grows
  exact Member.code?_eq_some_iff.mpr ⟨item, found, sameInfo, (injection.fits_extended roomy).1⟩

end Injection

/-- A method comes through a run as it was, or has code behind it. -/
theorem Run.unchanged_or_coded (run : Run kind file names last changed) (roomy : Roomy file)
    (there : file.methods[index]? = some method) :
    last.methods[index]? = some method ∨
      ∃ body, last.methodCode index = .ok (some body) := by
  induction run generalizing method with
  | nil file => exact .inl there
  | skip _ _ ih => exact ih roomy there
  | @inject file next last name names changed injection run ih =>
      have roomyNext := injection.roomy roomy
      by_cases same : injection.index = index
      · subst same
        rcases ih roomyNext injection.there_edited with kept | coded
        · exact .inr ⟨injection.extended, ClassFile.methodCode_eq_ok_iff.mpr
            ⟨_, kept, injection.code?_edited roomy run.evolves.pool⟩⟩
        · exact .inr coded
      · have untouched : next.methods[index]? = some method := by
          rw [injection.there_of_ne same, there]
        exact ih roomyNext untouched

/-! ### Passes over data -/

variable {registry : TargetRegistry} {identity : ClassIdentity} {data : Bytes}
  {update : ClassUpdate}

/-- What a pass hands out is read as a class that can be written. In it all listed methods
are marked, and those that were not marked before have code that can be read. -/
theorem readable_of_instrument {spec : TargetSpec} (small : data.length < 2147483648)
    (target : registry.spec? identity = some spec) (read : ClassFile.ofBytes data = .ok file)
    (few : ∀ method ∈ file.methods, method.attributes.length ≠ 65535)
    (success : (instrument registry data identity names).result = .ok update) :
    ∃ last, ClassFile.ofBytes (update.data data) = .ok last ∧ last.Fits ∧
      ∀ name ∈ names, ∃ index before after,
        last.findMethod? name spec.kind.descriptor.text = some index ∧
          file.methods[index]? = some before ∧ last.methods[index]? = some after ∧
          after.hasAttribute last.pool markerName = true ∧
          (before.hasAttribute file.pool markerName = false → before.NamesInside file.pool →
            ∃ body, last.methodCode index = .ok (some body) ∧ body.Fits) := by
  obtain ⟨last, changed, readLast, run⟩ := exists_run_of_instrument small target read few success
  refine ⟨last, readLast, ClassFile.fits_of_ofBytes readLast, fun name listed => ?_⟩
  obtain ⟨index, after, found, thereAfter, marked⟩ := run.marked name listed
  obtain ⟨inRange, -⟩ := List.getElem?_eq_some_iff.mp thereAfter
  rw [run.evolves.count] at inRange
  have there := List.getElem?_eq_getElem inRange
  refine ⟨index, file.methods[index], after, found, there, thereAfter, marked,
    fun unmarked inside => ?_⟩
  rcases run.unchanged_or_coded (roomy_of_ofBytes small read few) there with kept | ⟨body, coded⟩
  · -- An unmarked method that comes through as it was would not be marked in the end.
    cases thereAfter.symm.trans kept
    rw [Member.hasAttribute_eq_of_grows run.evolves.pool inside, unmarked] at marked
    cases marked
  · obtain ⟨_, -, code⟩ := ClassFile.methodCode_eq_ok_iff.mp coded
    obtain ⟨_, -, -, fits⟩ := Member.code?_eq_some_iff.mp code
    exact ⟨body, coded, fits⟩

/-- The class that ends the process can be read behind a pass, and its method has code. -/
theorem readable_of_instrument_shutdown :
    ∃ update last, update ≠ .unchanged ∧
      (instrument .builtin (Sample.shutdown true) ⟨Sample.shutdownName⟩ ["halt"]).result =
        .ok update ∧
      ClassFile.ofBytes (update.data (Sample.shutdown true)) = .ok last ∧ last.Fits ∧
      ∃ body, last.methodCode 0 = .ok (some body) ∧ body.Fits := by
  obtain ⟨small, file, read, few, inside, -, found, method, there, unmarked⟩ := exists_shutdown
  obtain ⟨update, success, changed⟩ := exists_shutdown_update
  obtain ⟨last, readLast, fits, readable⟩ :=
    readable_of_instrument small spec?_shutdown read few success
  obtain ⟨index, before, after, foundLast, thereBefore, -, -, coded⟩ :=
    readable "halt" List.mem_cons_self
  obtain ⟨sameLast, _, readSame, run⟩ :=
    exists_run_of_instrument small spec?_shutdown read few success
  cases readLast.symm.trans readSame
  cases (run.evolves.findMethod?_eq_some found).symm.trans foundLast
  cases thereBefore.symm.trans there
  exact ⟨update, last, changed, success, readLast, fits,
    coded unmarked (inside _ (List.mem_of_getElem? thereBefore))⟩

/-- A pass that puts a report into a method with as many attributes as can be counted
does not notice that it has one too many then: what it hands out is not read back as the
class that it has built. -/
theorem not_readable_of_full {spec : TargetSpec}
    (target : registry.spec? identity = some spec) (read : ClassFile.ofBytes data = .ok file)
    (inside : file.NamesInside)
    (success : (instrument registry data identity names).result = .ok update)
    (listed : name ∈ names)
    (found : file.findMethod? name spec.kind.descriptor.text = some index)
    (there : file.methods[index]? = some method)
    (unmarked : method.hasAttribute file.pool markerName = false)
    (full : method.attributes.length = 65535) :
    ∃ last, update = .replaced last.bytes ∧ ClassFile.ofBytes last.bytes ≠ .ok last := by
  rcases instrument_eq_ok success with
    ⟨rfl, -⟩ | ⟨_, _, last, changed, sameTarget, sameRead, run, rfl⟩
  · cases listed
  cases target.symm.trans sameTarget
  cases read.symm.trans sameRead
  obtain ⟨report⟩ := run.report inside there listed (run.evolves.findMethod?_eq_some found) unmarked
  refine ⟨last, ?_, fun readBack => ?_⟩
  · cases changed with
    | true => rfl
    | false =>
        -- Without an injection the method would be marked in the class that was read.
        have kept : last.methods[index]? = some method := by rw [run.eq_of_not_changed, there]
        have same := Option.some.inj (report.there.symm.trans kept)
        have count := congrArg (fun method => method.attributes.length) same
        simp [report.splits.attributes] at count
  · have fits := (ClassFile.fits_of_ofBytes readBack).methods
    have count := (fits.2 _ (List.mem_of_getElem? report.there)).1
    rw [report.splits.attributes] at full
    simp only [List.length_append, List.length_cons, List.length_nil] at count full
    omega

/-- A class whose second method has no code, and an attribute whose name lies behind the
pool, at the place where a report in the first method puts the name of its marker. -/
def lateMarker : Bytes :=
  Sample.build Sample.shutdownName do
    let body := some (.plain 0 1 [Opcode.returnVoid])
    let _ ← ClassEdit.addMethod Access.staticFlag "halt" "(I)V" body
    let native := Access.staticFlag ||| Access.nativeFlag
    let stop ← ClassEdit.addMethod native "stop" "(I)V" none
    ClassEdit.changeMethod stop fun _ => Member.appendAttribute ⟨43, []⟩

/-- A method without code may be passed over for a marker that it has come by, though a
pass that lists it alone refuses it. -/
theorem instrument_lateMarker :
    lateMarker.length < 2147483648 ∧
      ∃ file, ClassFile.ofBytes lateMarker = .ok file ∧
        (∀ method ∈ file.methods, method.attributes.length ≠ 65535) ∧
        file.findMethod? "stop" TargetKind.halt.descriptor.text = some 1 ∧
        (∃ method ∈ file.methods[1]?, method.hasAttribute file.pool markerName = false) ∧
        (instrument .builtin lateMarker ⟨Sample.shutdownName⟩ ["stop"]).result =
          .error (.compilation Sample.shutdownName "stop" .noBytecode) ∧
        ∃ update, (instrument .builtin lateMarker ⟨Sample.shutdownName⟩ ["halt", "stop"]).result =
            .ok update ∧
          update ≠ .unchanged ∧
          ∃ last, ClassFile.ofBytes (update.data lateMarker) = .ok last ∧
            last.methodCode 1 = .ok none := by
  decide +kernel

end Instrumentation

end Lookout
