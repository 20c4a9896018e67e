/-
# A pass over the listed methods

A pass that succeeds is a run of steps, one for each listed name: a marked method
is skipped, any other gets an injection. What one step keeps is kept by the whole
run. Two such things are proved here. A method that is marked stays the one that
is meant, and stays marked, so a pass leaves nothing to do for a later one. And
a class whose methods have room for the injections can be written at the end.
-/

import Lookout.Proofs.ClassFile.Format
import Lookout.Proofs.Instrumentation.Injection
import Lookout.Proofs.MethodCode.Growth
import Lookout.Sample

namespace Lookout

namespace Instrumentation

variable {kind : TargetKind} {identity : ClassIdentity} {file next last : ClassFile} {name : String}
  {names : List String} {changed : Bool}

/-! ### Marked methods -/

namespace Injection

/-- The method with its new code. -/
def recoded (injection : Injection kind name file next) : Member :=
  injection.method.replaceAttribute injection.installing MethodCode.attributeName
    ⟨injection.codeIndex, injection.extended.bytes⟩

/-- The method with its new code and the marker. -/
def edited (injection : Injection kind name file next) : Member :=
  injection.recoded.ensureAttribute next.pool markerName ⟨injection.markerIndex, []⟩

theorem methods_eq (injection : Injection kind name file next) :
    next.methods = file.methods.set injection.index injection.edited := by
  conv => lhs; rw [injection.result]
  rfl

theorem there_edited (injection : Injection kind name file next) :
    next.methods[injection.index]? = some injection.edited := by
  obtain ⟨inside, -⟩ := List.getElem?_eq_some_iff.mp injection.there
  rw [injection.methods_eq, List.getElem?_set_self inside]

/-- All other methods are as they were. -/
theorem there_of_ne (injection : Injection kind name file next) {index : Nat}
    (other : injection.index ≠ index) : next.methods[index]? = file.methods[index]? := by
  rw [injection.methods_eq, List.getElem?_set_ne other]

theorem hasAttribute_edited (injection : Injection kind name file next) :
    injection.edited.hasAttribute next.pool markerName = true := by
  refine Member.hasAttribute_ensureAttribute ?_ _
  exact injection.markerNamed

/-- An injection edits one method, which loses nothing that it had by name. -/
theorem evolves (injection : Injection kind name file next) : file.EvolvesTo next := by
  have grows := injection.assembles.trans injection.installs
  have evolvesMethod : injection.method.EvolvesTo file.pool next.pool injection.edited :=
    (Member.evolvesTo_replaceAttribute grows _ _ _).trans
      (Member.evolvesTo_ensureAttribute injection.marks _ _ _)
  rw [injection.result]
  exact ClassFile.evolvesTo_set (grows.trans injection.marks) injection.there evolvesMethod

theorem marked (injection : Injection kind name file next) : Marked kind next name :=
  ⟨injection.index, injection.edited, injection.evolves.findMethod?_eq_some injection.found,
    injection.there_edited, injection.hasAttribute_edited⟩

end Injection

theorem Marked.evolve (marked : Marked kind file name) (evolves : file.EvolvesTo next) :
    Marked kind next name := by
  obtain ⟨index, method, found, there, has⟩ := marked
  obtain ⟨evolved, evolvedThere, evolvesMethod⟩ := evolves.methods there
  exact ⟨index, evolved, evolves.findMethod?_eq_some found, evolvedThere,
    evolvesMethod.attributes _ has⟩

/-- A marked method is left alone. -/
theorem instrumentMethod_of_marked (marked : Marked kind file name) :
    (instrumentMethod kind identity file name).result = .ok none := by
  obtain ⟨index, method, found, there, has⟩ := marked
  unfold instrumentMethod
  dsimp only
  rw [show (kind.signature name).descriptor.text = kind.descriptor.text from rfl, found]
  refine attempt_eq_ok_iff.mpr ⟨method, mapError_eq_ok_iff.mpr
    (ClassFile.method_eq_ok_iff.mpr there), ?_⟩
  rw [if_pos has]
  rfl

/-! ### Runs -/

/-- The steps of a pass, and whether one of them was an injection. -/
inductive Run (kind : TargetKind) : ClassFile → List String → ClassFile → Bool → Prop where
  | nil (file : ClassFile) : Run kind file [] file false
  | skip {file last : ClassFile} {name : String} {names : List String} {changed : Bool} :
      Marked kind file name → Run kind file names last changed →
        Run kind file (name :: names) last changed
  | inject {file next last : ClassFile} {name : String} {names : List String} {changed : Bool} :
      Injection kind name file next → Run kind next names last changed →
        Run kind file (name :: names) last true

namespace Run

theorem evolves (run : Run kind file names last changed) : file.EvolvesTo last := by
  induction run with
  | nil file => exact .refl file
  | skip _ _ ih => exact ih
  | inject injection _ ih => exact injection.evolves.trans ih

/-- Behind a run all listed methods are marked. -/
theorem marked (run : Run kind file names last changed) :
    ∀ name ∈ names, Marked kind last name := by
  induction run with
  | nil file => exact fun _ impossible => absurd impossible List.not_mem_nil
  | skip marked run ih =>
      intro name member
      rcases List.mem_cons.mp member with rfl | later
      · exact marked.evolve run.evolves
      · exact ih name later
  | inject injection run ih =>
      intro name member
      rcases List.mem_cons.mp member with rfl | later
      · exact injection.marked.evolve run.evolves
      · exact ih name later

theorem eq_of_not_changed (run : Run kind file names last false) : last = file := by
  generalize unchanged : false = changed at run
  induction run with
  | nil file => rfl
  | skip _ _ ih => exact ih unchanged
  | inject _ _ _ => cases unchanged

end Run

/-- A pass that succeeds is a run. -/
theorem run_of_instrumentMethods (sound : file.pool.Sound) {before after : Bool}
    (success : (instrumentMethods kind identity (file, before) names).result = .ok (last, after)) :
    ∃ changed, Run kind file names last changed ∧ after = (before || changed) := by
  induction names generalizing file before with
  | nil =>
      cases success
      exact ⟨false, .nil _, (Bool.or_false _).symm⟩
  | cons name names ih =>
      obtain ⟨outcome, stepSuccess, success⟩ := attempt_eq_ok_iff.mp success
      rcases instrumentMethod_eq_ok stepSuccess with ⟨rfl, marked⟩ | ⟨next, rfl, ⟨steps⟩⟩
      · obtain ⟨changed, run, same⟩ := ih sound success
        exact ⟨changed, .skip marked run, same⟩
      · obtain ⟨injection⟩ := steps.injection sound
        obtain ⟨changed, run, same⟩ := ih injection.sound success
        exact ⟨true, .inject injection run, by rw [same, Bool.true_or, Bool.or_true]⟩

/-- Where all listed methods are marked, a pass changes nothing. -/
theorem instrumentMethods_of_marked (marked : ∀ name ∈ names, Marked kind file name) :
    (instrumentMethods kind identity (file, changed) names).result = .ok (file, changed) := by
  induction names with
  | nil => rfl
  | cons name names ih =>
      exact attempt_eq_ok_iff.mpr ⟨none,
        instrumentMethod_of_marked (marked name List.mem_cons_self),
        ih fun later member => marked later (List.mem_cons_of_mem name member)⟩

/-! ### Room for injections -/

/-- A method can be written, and one that is not marked could still be written if its
code became longer and an attribute were added. -/
structure HasRoom (pool : ConstantPool) (method : Member) : Prop where
  fits : method.Fits
  few : method.hasAttribute pool markerName = false → method.attributes.length < 65535
  short : method.hasAttribute pool markerName = false →
    ∀ item ∈ method.attributes, item.info.length < 2147483648

theorem HasRoom.of_grows {earlier later : ConstantPool} (grows : earlier.GrowsTo later)
    {method : Member} (room : HasRoom earlier method) : HasRoom later method := by
  have unmarkedBefore (unmarked : method.hasAttribute later markerName = false) :
      method.hasAttribute earlier markerName = false := by
    rw [Bool.eq_false_iff] at unmarked ⊢
    exact fun marked => unmarked (Member.hasAttribute_of_grows grows marked)
  exact ⟨room.fits, fun unmarked => room.few (unmarkedBefore unmarked),
    fun unmarked => room.short (unmarkedBefore unmarked)⟩

/-- Code that is found in an unmarked method with room can be written with a fragment in
front of it. -/
theorem HasRoom.fits_extended {pool assembled : ConstantPool} {method : Member}
    (room : HasRoom pool method) (unmarked : method.hasAttribute pool markerName = false)
    {item : Attribute} (there : item ∈ method.attributes) {body extended : MethodCode}
    (sameInfo : item.info = body.bytes) (fits : body.Fits) {fragment : Fragment}
    (inserted : body.insertPrologue assembled fragment = .ok extended) :
    extended.Fits ∧ extended.bytes.length < 4294967296 := by
  have short := room.short unmarked item there
  rw [sameInfo] at short
  refine ⟨MethodCode.fits_of_insertPrologue fits short inserted, ?_⟩
  have growth := MethodCode.length_bytes_insertPrologue_le inserted
  have fragmentShort := (MethodCode.insertPrologue_eq_ok_iff.mp inserted).2.1
  have fewAttributes := fits.attributes.1
  rw [MethodCode.maxCodeLength] at fragmentShort
  omega

/-- The class can be written, and all its methods have room. -/
structure Roomy (file : ClassFile) : Prop where
  fits : file.Fits
  methods : ∀ method ∈ file.methods, HasRoom file.pool method

/-- Data that is far from the limits on lengths holds a class with room, if no method
has all the attributes that a method may have. -/
theorem roomy_of_ofBytes {data : Bytes} (small : data.length < 2147483648)
    (read : ClassFile.ofBytes data = .ok file)
    (few : ∀ method ∈ file.methods, method.attributes.length ≠ 65535) : Roomy file where
  fits := ClassFile.fits_of_ofBytes read
  methods method member := by
    have fits := (ClassFile.fits_of_ofBytes read).methods.2 method member
    refine ⟨fits, fun _ => ?_, fun _ item inAttributes => ?_⟩
    · have countFits := fits.1
      have notFull := few method member
      omega
    · exact Nat.lt_trans (ClassFile.length_info_lt_of_ofBytes read member inAttributes) small

namespace Injection

/-- The attribute that held the code before. -/
theorem exists_code (injection : Injection kind name file next) :
    ∃ item, injection.method.attribute? file.pool MethodCode.attributeName = some item ∧
      item.info = injection.body.bytes ∧ injection.body.Fits :=
  Member.code?_eq_some_iff.mp injection.code

/-- The new code replaces the code that the method had, and no other attribute. -/
theorem exists_recoded_eq (injection : Injection kind name file next) :
    ∃ front old back,
      injection.method.SplitsAt injection.installing MethodCode.attributeName front old back ∧
        injection.recoded = { injection.method with
          attributes := front ++ { old with info := injection.extended.bytes } :: back } := by
  obtain ⟨item, found, -, -⟩ := injection.exists_code
  have hasCode : injection.method.hasAttribute file.pool MethodCode.attributeName = true := by
    rw [Member.hasAttribute, found]
    rfl
  have grows := injection.assembles.trans injection.installs
  exact Member.replaceAttribute_of_hasAttribute (Member.hasAttribute_of_grows grows hasCode)
    ⟨injection.codeIndex, injection.extended.bytes⟩

/-- In a class with room, the new code can be written. -/
theorem fits_extended (injection : Injection kind name file next) (roomy : Roomy file) :
    injection.extended.Fits ∧ injection.extended.bytes.length < 4294967296 := by
  obtain ⟨item, found, sameInfo, fits⟩ := injection.exists_code
  have room := roomy.methods _ (List.mem_of_getElem? injection.there)
  exact room.fits_extended injection.unmarked (List.mem_of_find?_eq_some found) sameInfo fits
    injection.inserted

theorem hasRoom_edited (injection : Injection kind name file next) (roomy : Roomy file) :
    HasRoom next.pool injection.edited := by
  obtain ⟨-, extendedShort⟩ := injection.fits_extended roomy
  have room := roomy.methods _ (List.mem_of_getElem? injection.there)
  have few := room.few injection.unmarked
  have recodedFit : injection.recoded.attributes.length = injection.method.attributes.length ∧
      ∀ item ∈ injection.recoded.attributes, item.Fits := by
    obtain ⟨front, old, back, splits, replaced⟩ := injection.exists_recoded_eq
    have oldFit := room.fits.2
    rw [replaced, splits.attributes]
    rw [splits.attributes] at oldFit
    constructor
    · simp only [List.length_append, List.length_cons]
    · intro item there
      rcases List.mem_append.mp there with inFront | there
      · exact oldFit item (List.mem_append_left _ inFront)
      · rcases List.mem_cons.mp there with rfl | inBack
        · exact extendedShort
        · exact oldFit item (List.mem_append_right _ (List.mem_cons_of_mem _ inBack))
  have fits : injection.edited.Fits := by
    rcases injection.recoded.ensureAttribute_eq_or next.pool markerName
      ⟨injection.markerIndex, []⟩ with kept | appended
    · rw [edited, kept]
      exact ⟨by omega, recodedFit.2⟩
    · rw [edited, appended]
      refine ⟨?_, fun item there => ?_⟩
      · rw [Member.appendAttribute, List.length_append, List.length_singleton]
        omega
      · rcases List.mem_append.mp there with old | new
        · exact recodedFit.2 item old
        · rw [List.mem_singleton.mp new]
          exact Nat.zero_lt_succ _
  have notUnmarked (unmarked : injection.edited.hasAttribute next.pool markerName = false) :
      False := Bool.eq_false_iff.mp unmarked injection.hasAttribute_edited
  exact ⟨fits, fun unmarked => (notUnmarked unmarked).elim,
    fun unmarked => (notUnmarked unmarked).elim⟩

/-- An injection leaves a class with room. -/
theorem roomy (injection : Injection kind name file next) (roomy : Roomy file) : Roomy next := by
  have fits := roomy.fits
  have evolves := injection.evolves
  have methodsRoom : ∀ method ∈ next.methods, HasRoom next.pool method := by
    intro method member
    rw [injection.methods_eq] at member
    rcases List.mem_or_eq_of_mem_set member with old | rfl
    · exact (roomy.methods method old).of_grows evolves.pool
    · exact injection.hasRoom_edited roomy
  refine ⟨?_, methodsRoom⟩
  rw [evolves.rest]
  exact ⟨injection.sound.wellFormed, injection.sound.textsFit, fits.interfaces, fits.fields,
    ⟨evolves.count ▸ fits.methods.1, fun method member => (methodsRoom method member).fits⟩,
    fits.attributes⟩

end Injection

theorem Run.roomy (run : Run kind file names last changed) (roomy : Roomy file) : Roomy last := by
  induction run with
  | nil file => exact roomy
  | skip _ _ ih => exact ih roomy
  | inject injection _ ih => exact ih (injection.roomy roomy)

/-! ### Passes over data -/

variable {registry : TargetRegistry} {data : Bytes} {update : ClassUpdate}

/-- A pass with names to go through goes through them from the class in the data, and hands
out the class it comes to if a step changed anything. -/
theorem result_instrument {spec : TargetSpec} (target : registry.spec? identity = some spec)
    (read : ClassFile.ofBytes data = .ok file) (name : String) (names : List String) :
    (instrument registry data identity (name :: names)).result =
      (instrumentMethods spec.kind identity (file, false) (name :: names)).result.map
        fun passed => if passed.2 then .replaced passed.1.bytes else .unchanged := by
  unfold instrument
  dsimp only
  rw [target, read]
  simp only [Attempt.result_bind]
  show Except.bind (instrumentMethods spec.kind identity (file, false) (name :: names)).result _ = _
  cases (instrumentMethods spec.kind identity (file, false) (name :: names)).result with
  | error failure => rfl
  | ok passed =>
      obtain ⟨last, changed⟩ := passed
      cases changed <;> rfl

/-- A pass over data that succeeds had no names to go through, or it was a run from the
class in the data, and the class it led to is handed out if a step changed anything. -/
theorem instrument_eq_ok (success : (instrument registry data identity names).result = .ok update) :
    (names = [] ∧ update = .unchanged) ∨
      ∃ spec file last changed, registry.spec? identity = some spec ∧
        ClassFile.ofBytes data = .ok file ∧ Run spec.kind file names last changed ∧
        update = if changed then .replaced last.bytes else .unchanged := by
  cases names with
  | nil =>
      cases success
      exact .inl ⟨rfl, rfl⟩
  | cons name names =>
      have opened := success
      unfold instrument at opened
      dsimp only at opened
      cases target : registry.spec? identity with
      | none =>
          rw [target] at opened
          cases opened
      | some spec =>
          rw [target] at opened
          obtain ⟨file, read, -⟩ := attempt_eq_ok_iff.mp opened
          have read : ClassFile.ofBytes data = .ok file := mapError_eq_ok_iff.mp read
          rw [result_instrument target read] at success
          cases outcome :
            (instrumentMethods spec.kind identity (file, false) (name :: names)).result with
          | error failure =>
              rw [outcome] at success
              cases success
          | ok passed =>
              obtain ⟨last, after⟩ := passed
              rw [outcome] at success
              cases success
              have fits := ClassFile.fits_of_ofBytes read
              obtain ⟨changed, run, same⟩ :=
                run_of_instrumentMethods ⟨fits.pool, fits.texts⟩ outcome
              rw [Bool.false_or] at same
              subst same
              exact .inr ⟨spec, file, last, after, rfl, read, run, rfl⟩

theorem instrument_of_marked {spec : TargetSpec} (target : registry.spec? identity = some spec)
    (read : ClassFile.ofBytes data = .ok file)
    (marked : ∀ name ∈ names, Marked spec.kind file name) :
    (instrument registry data identity names).result = .ok .unchanged := by
  cases names with
  | nil => rfl
  | cons name names =>
      rw [result_instrument target read, instrumentMethods_of_marked marked]
      rfl

/-- The data that a run hands out is read back as the class that it led to. -/
theorem Run.ofBytes_data (run : Run kind file names last changed)
    (read : ClassFile.ofBytes data = .ok file) (roomy : Roomy file) :
    ClassFile.ofBytes
        (ClassUpdate.data data (if changed then .replaced last.bytes else .unchanged)) =
      .ok last := by
  cases changed with
  | true => exact ClassFile.ofBytes_bytes (run.roomy roomy).fits
  | false =>
      rw [run.eq_of_not_changed]
      exact read

/-- A pass that succeeds over a class of a target is a run from this class to the one that
is handed out. -/
theorem exists_run_of_instrument {spec : TargetSpec} (small : data.length < 2147483648)
    (target : registry.spec? identity = some spec) (read : ClassFile.ofBytes data = .ok file)
    (few : ∀ method ∈ file.methods, method.attributes.length ≠ 65535)
    (success : (instrument registry data identity names).result = .ok update) :
    ∃ last changed, ClassFile.ofBytes (update.data data) = .ok last ∧
      Run spec.kind file names last changed := by
  rcases instrument_eq_ok success with
    ⟨rfl, rfl⟩ | ⟨_, _, last, changed, sameTarget, sameRead, run, rfl⟩
  · exact ⟨file, false, read, .nil file⟩
  · cases target.symm.trans sameTarget
    cases read.symm.trans sameRead
    exact ⟨last, changed, run.ofBytes_data read (roomy_of_ofBytes small read few), run⟩

theorem spec?_shutdown :
    TargetRegistry.builtin.spec? ⟨Sample.shutdownName⟩ = some ⟨.halt, ["halt"]⟩ := by
  decide

/-- The sample class that ends the process is small, and its target takes a report. -/
theorem exists_shutdown :
    (Sample.shutdown true).length < 2147483648 ∧
      ∃ file, ClassFile.ofBytes (Sample.shutdown true) = .ok file ∧
        (∀ method ∈ file.methods, method.attributes.length ≠ 65535) ∧ file.NamesInside ∧
        file.CalledInside ∧ file.findMethod? "halt" TargetKind.halt.descriptor.text = some 0 ∧
        ∃ method ∈ file.methods[0]?, method.hasAttribute file.pool markerName = false := by
  decide +kernel

theorem exists_shutdown_update :
    ∃ update, (instrument .builtin (Sample.shutdown true) ⟨Sample.shutdownName⟩ ["halt"]).result =
      .ok update ∧ update ≠ .unchanged := by
  decide +kernel

theorem exists_processBuilder_update :
    ∃ update, (instrument .builtin (Sample.processBuilder true) ⟨Sample.processBuilderName⟩
      ["start"]).result = .ok update ∧ update ≠ .unchanged := by
  decide +kernel

/-- No report is put into a method twice: a pass over what a pass has handed out changes
nothing, whichever of the listed methods it goes through and in whatever order. -/
theorem instrument_of_instrumented (small : data.length < 2147483648)
    (few : ∀ file, ClassFile.ofBytes data = .ok file →
      ∀ method ∈ file.methods, method.attributes.length ≠ 65535)
    (success : (instrument registry data identity names).result = .ok update)
    {again : List String} (listed : ∀ name ∈ again, name ∈ names) :
    (instrument registry (update.data data) identity again).result = .ok .unchanged := by
  rcases instrument_eq_ok success with
    ⟨rfl, rfl⟩ | ⟨spec, file, last, changed, target, read, run, rfl⟩
  · have nothing : again = [] :=
      List.eq_nil_iff_forall_not_mem.mpr fun name member => List.not_mem_nil (listed name member)
    rw [nothing]
    rfl
  · have readLast := run.ofBytes_data read (roomy_of_ofBytes small read (few file read))
    exact instrument_of_marked target readLast
      fun name member => run.marked name (listed name member)

/-- The second pass over the class that ends the process changes nothing. -/
theorem instrument_of_instrumented_shutdown :
    ∃ update, update ≠ .unchanged ∧
      (instrument .builtin (Sample.shutdown true) ⟨Sample.shutdownName⟩ ["halt"]).result =
        .ok update ∧
      (instrument .builtin (update.data (Sample.shutdown true)) ⟨Sample.shutdownName⟩
        ["halt", "halt"]).result = .ok .unchanged := by
  obtain ⟨small, file, read, few, -⟩ := exists_shutdown
  obtain ⟨update, success, changed⟩ := exists_shutdown_update
  refine ⟨update, changed, success, instrument_of_instrumented small ?_ success (by decide)⟩
  intro sameFile sameRead
  cases read.symm.trans sameRead
  exact few

end Instrumentation

end Lookout
