/-
# What a pass leaves alone

A method either comes through a pass as it was, or it got a report. In the second
case the body of its first code attribute was replaced, the marker was appended to
its attributes, and that is all. Everything else about the class stays as it was,
save that the pool grows.

A pass looks for a method in the class as the steps before have left it. What is
found at first is found ever after; but a name that leads nowhere at first may come
to lead to a text that a step before has interned.
-/

import Lookout.Proofs.Instrumentation.Pass

namespace Lookout

namespace Instrumentation

variable {kind : TargetKind} {file next last : ClassFile} {name : String} {names : List String}
  {changed : Bool} {index : Nat} {method : Member}

/-- A method of the first class that has got a report in the last one. -/
structure Report (kind : TargetKind) (names : List String) (file last : ClassFile) (index : Nat)
    (method : Member) where
  name : String
  front : List Attribute
  item : Attribute
  back : List Attribute
  body : MethodCode
  fragment : Fragment
  extended : MethodCode
  assembled : ConstantPool
  markerIndex : UInt16
  listed : name ∈ names
  found : last.findMethod? name kind.descriptor.text = some index
  unmarked : method.hasAttribute file.pool markerName = false
  splits : method.SplitsAt file.pool MethodCode.attributeName front item back
  code : MethodCode.ofBytes item.info = .ok body
  reports : DiagnosticPrologue.Reports kind last.pool fragment
  inserted : body.insertPrologue assembled fragment = .ok extended
  markerNamed : last.pool.utf8Matches markerIndex markerName = true
  there : last.methods[index]? = some { method with
    attributes := front ++ { item with info := extended.bytes } :: back ++ [⟨markerIndex, []⟩] }

namespace Injection

theorem namesInside_method (injection : Injection kind name file next) (inside : file.NamesInside) :
    injection.method.NamesInside file.pool :=
  inside _ (List.mem_of_getElem? injection.there)

/-- The edited method, spelled out. -/
theorem exists_edited_eq (injection : Injection kind name file next) (inside : file.NamesInside) :
    ∃ front item back,
      injection.method.SplitsAt file.pool MethodCode.attributeName front item back ∧
        item.info = injection.body.bytes ∧
        injection.edited = { injection.method with
          attributes := front ++ { item with info := injection.extended.bytes } :: back ++
            [⟨injection.markerIndex, []⟩] } := by
  obtain ⟨front, item, back, splits, -⟩ := injection.exists_recoded_eq
  have grows := injection.assembles.trans injection.installs
  have insideMethod := injection.namesInside_method inside
  have splitsBefore := splits.of_grows grows insideMethod
  obtain ⟨found, foundFirst, sameInfo, -⟩ := injection.exists_code
  cases splitsBefore.attribute?_eq.symm.trans foundFirst
  exact ⟨front, item, back, splitsBefore, sameInfo, Member.ensureAttribute_replaceAttribute
    splitsBefore insideMethod injection.unmarked grows injection.marks⟩

theorem namesInside_edited (injection : Injection kind name file next) (inside : file.NamesInside) :
    injection.edited.NamesInside next.pool := by
  have insideLater := (injection.namesInside_method inside).of_grows injection.evolves.pool
  obtain ⟨front, item, back, splits, -, same⟩ := injection.exists_edited_eq inside
  rw [Member.NamesInside, splits.attributes] at insideLater
  rw [same]
  intro other there
  rcases List.mem_append.mp there with old | new
  · rcases List.mem_append.mp old with inFront | old
    · exact insideLater other (List.mem_append_left _ inFront)
    · rcases List.mem_cons.mp old with rfl | inBack
      · exact insideLater item (List.mem_append_right _ List.mem_cons_self)
      · exact insideLater other (List.mem_append_right _ (List.mem_cons_of_mem _ inBack))
  · rw [List.mem_singleton.mp new]
    exact ConstantPool.lt_count_of_get (ConstantPool.utf8Matches_iff.mp injection.markerNamed)

theorem namesInside (injection : Injection kind name file next) (inside : file.NamesInside) :
    next.NamesInside := by
  intro method member
  rw [injection.methods_eq] at member
  rcases List.mem_or_eq_of_mem_set member with old | rfl
  · exact (inside method old).of_grows injection.evolves.pool
  · exact injection.namesInside_edited inside

/-- An injected method that is not edited again has got a report. -/
theorem report (injection : Injection kind name file next) (inside : file.NamesInside)
    (evolves : next.EvolvesTo last) (listed : name ∈ names)
    (kept : last.methods[injection.index]? = some injection.edited) :
    Nonempty (Report kind names file last injection.index injection.method) := by
  obtain ⟨front, item, back, splits, sameInfo, same⟩ := injection.exists_edited_eq inside
  obtain ⟨_, _, _, fits⟩ := injection.exists_code
  rw [same] at kept
  exact ⟨{
    name, front, item, back, listed, splits
    body := injection.body
    fragment := injection.fragment
    extended := injection.extended
    assembled := injection.assembled
    markerIndex := injection.markerIndex
    found := evolves.findMethod?_eq_some (injection.evolves.findMethod?_eq_some injection.found)
    unmarked := injection.unmarked
    code := MethodCode.ofBytes_eq_ok_iff.mpr ⟨sameInfo, fits⟩
    reports := injection.reports _ (injection.installs.trans (injection.marks.trans evolves.pool))
    inserted := injection.inserted
    markerNamed := evolves.pool.utf8Matches injection.markerNamed
    there := kept }⟩

end Injection

/-- A report that a method got in a later part of a pass, it got in the whole pass. -/
theorem Report.of_evolves (report : Report kind names next last index method)
    (grows : file.pool.GrowsTo next.pool) (inside : method.NamesInside file.pool)
    {more : List String} (listed : ∀ name ∈ names, name ∈ more) :
    Nonempty (Report kind more file last index method) :=
  ⟨{ report with
    listed := listed _ report.listed
    unmarked := by rw [← Member.hasAttribute_eq_of_grows grows inside, report.unmarked]
    splits := report.splits.of_grows grows inside }⟩

/-- A method comes through a run as it was, or gets a report. -/
theorem Run.unchanged_or_report (run : Run kind file names last changed) (inside : file.NamesInside)
    (there : file.methods[index]? = some method) :
    last.methods[index]? = some method ∨
      Nonempty (Report kind names file last index method) := by
  induction run generalizing method with
  | nil file => exact .inl there
  | skip _ _ ih =>
      rcases ih inside there with same | ⟨⟨report⟩⟩
      · exact .inl same
      · exact .inr (report.of_evolves (.refl _) (inside _ (List.mem_of_getElem? there))
          fun _ => List.mem_cons_of_mem _)
  | @inject file next last name names changed injection run ih =>
      have insideMethod := inside _ (List.mem_of_getElem? there)
      by_cases same : injection.index = index
      · -- The edited method is marked, so nothing happens to it later.
        subst same
        cases there.symm.trans injection.there
        rcases ih (injection.namesInside inside) injection.there_edited with kept | ⟨⟨report⟩⟩
        · exact .inr (injection.report inside run.evolves List.mem_cons_self kept)
        · have unmarked := report.unmarked
          rw [injection.hasAttribute_edited] at unmarked
          cases unmarked
      · have untouched : next.methods[index]? = some method := by
          rw [injection.there_of_ne same, there]
        rcases ih (injection.namesInside inside) untouched with kept | ⟨⟨report⟩⟩
        · exact .inl kept
        · exact .inr (report.of_evolves injection.evolves.pool insideMethod
            fun _ => List.mem_cons_of_mem _)

/-- What a pass over the listed names leaves of a class, and what it changes. A listed
method is the one that is found in the last class. -/
structure Framed (kind : TargetKind) (names : List String) (file last : ClassFile) : Prop where
  rest : last = { file with pool := last.pool, methods := last.methods }
  slots : file.pool.slots.toList <+: last.pool.slots.toList
  count : last.methods.length = file.methods.length
  unlisted : ∀ {index : Nat} {method : Member}, file.methods[index]? = some method →
    (∀ name ∈ names, last.findMethod? name kind.descriptor.text ≠ some index) →
    last.methods[index]? = some method
  marked : ∀ {index : Nat} {method : Member}, file.methods[index]? = some method →
    method.hasAttribute file.pool markerName = true → last.methods[index]? = some method
  reported : ∀ {index : Nat} {method : Member} {name : String},
    file.methods[index]? = some method → name ∈ names →
    last.findMethod? name kind.descriptor.text = some index →
    method.hasAttribute file.pool markerName = false →
    ∃ front item back info markerIndex,
      method.SplitsAt file.pool MethodCode.attributeName front item back ∧
        last.pool.utf8Matches markerIndex markerName = true ∧
        last.methods[index]? = some { method with
          attributes := front ++ { item with info } :: back ++ [⟨markerIndex, []⟩] }
  stable : ∀ {name descriptor : String} {index : Nat},
    file.findMethod? name descriptor = some index → last.findMethod? name descriptor = some index
  lookups : file.CalledInside →
    ∀ name descriptor, last.findMethod? name descriptor = file.findMethod? name descriptor

/-- A listed method that was not marked has got a report, since it is marked behind the
run, and without a report it would be as it was. -/
theorem Run.report (run : Run kind file names last changed) (inside : file.NamesInside)
    (there : file.methods[index]? = some method) (listed : name ∈ names)
    (found : last.findMethod? name kind.descriptor.text = some index)
    (unmarked : method.hasAttribute file.pool markerName = false) :
    Nonempty (Report kind names file last index method) := by
  rcases run.unchanged_or_report inside there with kept | report
  · obtain ⟨markedIndex, marked, markedFound, markedThere, has⟩ := run.marked name listed
    cases found.symm.trans markedFound
    cases kept.symm.trans markedThere
    rw [Member.hasAttribute_eq_of_grows run.evolves.pool
      (inside _ (List.mem_of_getElem? there)), unmarked] at has
    cases has
  · exact report

theorem Run.framed (run : Run kind file names last changed) (inside : file.NamesInside) :
    Framed kind names file last where
  rest := run.evolves.rest
  slots := by
    obtain ⟨added, slots, -⟩ := run.evolves.pool
    exact ⟨added, slots.symm⟩
  count := run.evolves.count
  unlisted there notListed := by
    rcases run.unchanged_or_report inside there with kept | ⟨⟨report⟩⟩
    · exact kept
    · exact absurd report.found (notListed _ report.listed)
  marked there has := by
    rcases run.unchanged_or_report inside there with kept | ⟨⟨report⟩⟩
    · exact kept
    · rw [report.unmarked] at has
      cases has
  reported there listed found unmarked := by
    obtain ⟨report⟩ := run.report inside there listed found unmarked
    exact ⟨report.front, report.item, report.back, report.extended.bytes, report.markerIndex,
      report.splits, report.markerNamed, report.there⟩
  stable := run.evolves.findMethod?_eq_some
  lookups calledInside := run.evolves.findMethod?_eq calledInside

/-! ### Passes over data -/

variable {registry : TargetRegistry} {identity : ClassIdentity} {data : Bytes}
  {update : ClassUpdate}

/-- A pass touches nothing but the listed methods. -/
theorem framed_of_instrument {spec : TargetSpec} (small : data.length < 2147483648)
    (target : registry.spec? identity = some spec) (read : ClassFile.ofBytes data = .ok file)
    (few : ∀ method ∈ file.methods, method.attributes.length ≠ 65535) (inside : file.NamesInside)
    (success : (instrument registry data identity names).result = .ok update) :
    ∃ last, ClassFile.ofBytes (update.data data) = .ok last ∧
      Framed spec.kind names file last := by
  obtain ⟨last, _, readLast, run⟩ := exists_run_of_instrument small target read few success
  exact ⟨last, readLast, run.framed inside⟩

/-- The frame of a pass over the class that ends the process. -/
theorem framed_of_instrument_shutdown :
    ∃ file update last, ClassFile.ofBytes (Sample.shutdown true) = .ok file ∧
      update ≠ .unchanged ∧
      (instrument .builtin (Sample.shutdown true) ⟨Sample.shutdownName⟩ ["halt"]).result =
        .ok update ∧
      ClassFile.ofBytes (update.data (Sample.shutdown true)) = .ok last ∧
      Framed .halt ["halt"] file last := by
  obtain ⟨small, file, read, few, inside, -⟩ := exists_shutdown
  obtain ⟨update, success, changed⟩ := exists_shutdown_update
  obtain ⟨last, readLast, framed⟩ :=
    framed_of_instrument small spec?_shutdown read few inside success
  exact ⟨file, update, last, read, changed, success, readLast, framed⟩

/-- A class whose second method has a name that lies behind the pool, at the place where a
report puts the name of a method that it calls. -/
def lateName : Bytes :=
  Sample.build Sample.shutdownName do
    let body := some (.plain 0 1 [Opcode.returnVoid])
    let _ ← ClassEdit.addMethod Access.staticFlag "halt" "(I)V" body
    let descriptorIndex ← ClassEdit.interned (Interning.utf8 "(I)V")
    modify fun file =>
      { file with methods := file.methods ++ [⟨Access.staticFlag, 28, descriptorIndex, []⟩] }
    ClassEdit.setMethodCode 1 (.plain 0 1 [Opcode.returnVoid])

/-- A method that no listed name leads to at first may get a report all the same. -/
theorem instrument_lateName :
    lateName.length < 2147483648 ∧
      ∃ file, ClassFile.ofBytes lateName = .ok file ∧
        (∀ method ∈ file.methods, method.attributes.length ≠ 65535) ∧ file.NamesInside ∧
        (∀ name ∈ ["halt", "concat"],
          file.findMethod? name TargetKind.halt.descriptor.text ≠ some 1) ∧
        ∃ update, (instrument .builtin lateName ⟨Sample.shutdownName⟩ ["halt", "concat"]).result =
            .ok update ∧
          ∃ last, ClassFile.ofBytes (update.data lateName) = .ok last ∧
            last.methods.length = 2 ∧ file.methods.length = 2 ∧
            last.methods[1]? ≠ file.methods[1]? := by
  decide +kernel

end Instrumentation

end Lookout
