/-
# Reports do not interact

In a class whose methods use only names that are entries of its pool, the order in
which its methods get their reports makes no difference, and neither does it if the
class is written and read again in between. The first report interns all that any
report of its kind needs, so every later one finds it; what a report looks up in the
class, no other report changes; and two reports go into different methods, because a
method with a report is marked.

Two steps that follow one another can therefore change places. The rest is carried by
the permutation, swap by swap.
-/

import Lookout.Proofs.Instrumentation.Change
import Lookout.Proofs.Instrumentation.Frame

namespace Lookout

namespace Instrumentation

variable {kind : TargetKind} {identity : ClassIdentity} {file between next last : ClassFile}
  {name later : String} {names order : List String}

/-- All that reports look up in the methods of a class by name are entries of its pool. -/
structure SelfContained (file : ClassFile) : Prop where
  sound : file.pool.Sound
  names : file.NamesInside
  calls : file.CalledInside
  codes : ∀ method ∈ file.methods, method.hasAttribute file.pool markerName = false →
    CodeInside file.pool method

namespace Change

theorem methods_eq (change : Change kind name file next) :
    next.methods = file.methods.set change.index change.edited := by
  conv => lhs; rw [change.result]

theorem there_edited (change : Change kind name file next) :
    next.methods[change.index]? = some change.edited := by
  obtain ⟨inside, -⟩ := List.getElem?_eq_some_iff.mp change.there
  rw [change.methods_eq, List.getElem?_set_self inside]

section Contained

variable (change : Change kind name file next) (contained : SelfContained file)

include change contained

theorem codeInside : CodeInside file.pool change.method :=
  contained.codes _ (List.mem_of_getElem? change.there) change.edits.unmarked

theorem injection : Nonempty (Injection kind name file next) := by
  obtain ⟨steps⟩ := change.steps contained.names (change.codeInside contained)
  exact steps.injection contained.sound

theorem evolves : file.EvolvesTo next := by
  obtain ⟨injection⟩ := change.injection contained
  exact injection.evolves

theorem marked : Marked kind next name := by
  obtain ⟨injection⟩ := change.injection contained
  exact injection.marked

theorem hasAttribute_edited : change.edited.hasAttribute next.pool markerName = true := by
  obtain ⟨index, method, found, there, has⟩ := change.marked contained
  cases ((change.evolves contained).findMethod?_eq_some change.found).symm.trans found
  cases change.there_edited.symm.trans there
  exact has

/-- A change leaves a class that is as self-contained. The edited method is marked, so
nothing is asked of its code any more. -/
theorem selfContained : SelfContained next := by
  obtain ⟨injection⟩ := change.injection contained
  have grows := injection.evolves.pool
  refine ⟨injection.sound, injection.namesInside contained.names,
    injection.evolves.calledInside contained.calls, fun method member unmarked => ?_⟩
  rw [change.methods_eq] at member
  rcases List.mem_or_eq_of_mem_set member with old | rfl
  · have inside := contained.names method old
    rw [Member.hasAttribute_eq_of_grows grows inside] at unmarked
    intro body code item there
    rw [Member.code?_eq_of_grows grows inside] at code
    exact Nat.lt_of_lt_of_le (contained.codes method old unmarked body code item there)
      grows.count_le
  · rw [change.hasAttribute_edited contained] at unmarked
    cases unmarked

end Contained

/-- Two changes that follow one another change places. What the second report takes from
the pool the first one has put there, and it goes into another method. -/
theorem swap (first : Change kind name file between) (second : Change kind later between last)
    (contained : SelfContained file) :
    ∃ other, Nonempty (Change kind later file other) ∧ Nonempty (Change kind name other last) := by
  have evolves := first.evolves contained
  have there_edited := first.there_edited
  have marked := first.hasAttribute_edited contained
  have codeInside := first.codeInside contained
  obtain ⟨index, method, edited, owner, fragment, markerIndex, pool, found, there, named,
    declares, interns, edits, rfl⟩ := first
  obtain ⟨laterIndex, laterMethod, laterEdited, laterOwner, _, _, _, laterFound, laterThere,
    laterNamed, laterDeclares, laterInterns, laterEdits, rfl⟩ := second
  have distinct : index ≠ laterIndex := by
    rintro rfl
    have unmarked := laterEdits.unmarked
    cases there_edited.symm.trans laterThere
    rw [marked] at unmarked
    cases unmarked
  have laterThereBefore : file.methods[laterIndex]? = some laterMethod := by
    rwa [List.getElem?_set_ne distinct] at laterThere
  have laterInside := contained.names _ (List.mem_of_getElem? laterThereBefore)
  have laterUnmarked : laterMethod.hasAttribute file.pool markerName = false := by
    rw [← Member.hasAttribute_eq_of_grows evolves.pool laterInside, laterEdits.unmarked]
  have laterCodeInside :=
    contained.codes _ (List.mem_of_getElem? laterThereBefore) laterUnmarked
  have sameOwner : pool.className file.thisClass = .ok owner := evolves.pool.className named
  cases sameOwner.symm.trans laterNamed
  have settled : payload kind owner pool = (.ok (fragment, markerIndex), pool) :=
    (settles_payload kind owner).again interns (.refl _)
  cases settled.symm.trans laterInterns
  have swapped : Change kind later file
      { file with pool, methods := file.methods.set laterIndex laterEdited } := {
    index := laterIndex
    method := laterMethod
    edited := laterEdited
    owner, fragment, markerIndex, pool, named, declares, interns
    found := (evolves.findMethod?_eq contained.calls _ _).symm.trans laterFound
    there := laterThereBefore
    edits := (edits_iff_of_grows evolves.pool laterInside laterCodeInside).mp laterEdits
    result := rfl }
  have inside := contained.names _ (List.mem_of_getElem? there)
  refine ⟨_, ⟨swapped⟩, ⟨{
    index, method, edited, owner, fragment, markerIndex, pool
    found := (swapped.evolves contained).findMethod?_eq_some found
    there := by rwa [List.getElem?_set_ne distinct.symm]
    named := laterNamed
    declares := laterDeclares
    interns := settled
    edits := (edits_iff_of_grows evolves.pool inside codeInside).mpr edits
    result := by rw [List.set_comm _ _ distinct] }⟩⟩

end Change

/-! ### Steps of a pass -/

/-- One step of a pass: the class with a report in the named method, or the class as it is
if that method is marked. -/
def advance (kind : TargetKind) (identity : ClassIdentity) (file : ClassFile) (name : String) :
    Except AgentError ClassFile :=
  (instrumentMethod kind identity file name).result.map (·.getD file)

theorem advance_of_marked (marked : Marked kind file name) :
    advance kind identity file name = .ok file := by
  rw [advance, instrumentMethod_of_marked marked]
  rfl

theorem advance_of_steps (steps : Steps kind name file next) :
    advance kind identity file name = .ok next := by
  rw [advance, instrumentMethod_of_steps steps]
  rfl

theorem advance_eq_ok (success : advance kind identity file name = .ok next) :
    (Marked kind file name ∧ next = file) ∨ Nonempty (Steps kind name file next) := by
  unfold advance at success
  cases outcome : (instrumentMethod kind identity file name).result with
  | error failure =>
      rw [outcome] at success
      cases success
  | ok changed =>
      rw [outcome] at success
      rcases instrumentMethod_eq_ok outcome with ⟨rfl, marked⟩ | ⟨_, rfl, steps⟩
      · cases success
        exact .inl ⟨marked, rfl⟩
      · cases success
        exact .inr steps

/-- In a self-contained class, a step is a change if it is anything. -/
theorem advance_eq_ok_iff (contained : SelfContained file) :
    advance kind identity file name = .ok next ↔
      (Marked kind file name ∧ next = file) ∨ Nonempty (Change kind name file next) := by
  constructor
  · intro success
    rcases advance_eq_ok success with unchanged | ⟨⟨steps⟩⟩
    · exact .inl unchanged
    · have codeInside := contained.codes _ (List.mem_of_getElem? steps.there) steps.unmarked
      exact .inr (steps.change contained.names codeInside)
  · rintro (⟨marked, rfl⟩ | ⟨⟨change⟩⟩)
    · exact advance_of_marked marked
    · obtain ⟨steps⟩ := change.steps contained.names (change.codeInside contained)
      exact advance_of_steps steps

theorem selfContained_of_advance (contained : SelfContained file)
    (success : advance kind identity file name = .ok next) : SelfContained next := by
  rcases (advance_eq_ok_iff contained).mp success with ⟨-, rfl⟩ | ⟨⟨change⟩⟩
  · exact contained
  · exact change.selfContained contained

/-- Two steps that follow one another change places. -/
theorem advance_swap (contained : SelfContained file)
    (first : advance kind identity file name = .ok between)
    (second : advance kind identity between later = .ok last) :
    ∃ other, advance kind identity file later = .ok other ∧
      advance kind identity other name = .ok last := by
  have containedBetween := selfContained_of_advance contained first
  rcases (advance_eq_ok_iff contained).mp first with ⟨marked, rfl⟩ | ⟨⟨change⟩⟩
  · -- The method of the first step is marked, and stays so.
    refine ⟨last, second, advance_of_marked ?_⟩
    rcases (advance_eq_ok_iff containedBetween).mp second with ⟨-, rfl⟩ | ⟨⟨laterChange⟩⟩
    · exact marked
    · exact marked.evolve (laterChange.evolves contained)
  · rcases (advance_eq_ok_iff containedBetween).mp second with ⟨laterMarked, rfl⟩ | ⟨⟨laterChange⟩⟩
    · have evolves := change.evolves contained
      obtain ⟨index, method, found, there, has⟩ := laterMarked
      rw [evolves.findMethod?_eq contained.calls] at found
      by_cases same : change.index = index
      · -- The second step found the mark that the first one left, so it could do its work.
        refine ⟨last, (advance_eq_ok_iff contained).mpr (.inr ⟨{ change with found := ?_ }⟩),
          advance_of_marked (change.marked contained)⟩
        rw [found, same]
      · -- The method of the second step was marked before.
        rw [change.methods_eq, List.getElem?_set_ne same] at there
        have inside := contained.names _ (List.mem_of_getElem? there)
        rw [Member.hasAttribute_eq_of_grows evolves.pool inside] at has
        exact ⟨file, advance_of_marked ⟨index, method, found, there, has⟩, first⟩
    · obtain ⟨other, ⟨swapped⟩, ⟨goesOn⟩⟩ := change.swap laterChange contained
      have containedOther := swapped.selfContained contained
      exact ⟨other, (advance_eq_ok_iff contained).mpr (.inr ⟨swapped⟩),
        (advance_eq_ok_iff containedOther).mpr (.inr ⟨goesOn⟩)⟩

/-- The names may be gone through in any order. -/
theorem foldlM_advance_of_perm (perm : names.Perm order) (contained : SelfContained file)
    (success : names.foldlM (advance kind identity) file = .ok last) :
    order.foldlM (advance kind identity) file = .ok last := by
  induction perm generalizing file with
  | nil => exact success
  | cons name _ ih =>
      rw [List.foldlM_cons] at success ⊢
      obtain ⟨next, step, success⟩ := bindExcept_eq_ok_iff.mp success
      exact bindExcept_eq_ok_iff.mpr
        ⟨next, step, ih (selfContained_of_advance contained step) success⟩
  | swap later name _ =>
      simp only [List.foldlM_cons] at success ⊢
      obtain ⟨between, first, success⟩ := bindExcept_eq_ok_iff.mp success
      obtain ⟨next, second, success⟩ := bindExcept_eq_ok_iff.mp success
      obtain ⟨other, swapped, goesOn⟩ := advance_swap contained first second
      exact bindExcept_eq_ok_iff.mpr ⟨other, swapped, bindExcept_eq_ok_iff.mpr
        ⟨next, goesOn, success⟩⟩
  | trans _ _ ihFirst ihSecond => exact ihSecond contained (ihFirst contained success)

/-! ### Passes over data -/

theorem instrumentMethods_eq_foldlM (names : List String) (file : ClassFile) (changed : Bool) :
    (instrumentMethods kind identity (file, changed) names).result.map Prod.fst =
      names.foldlM (advance kind identity) file := by
  induction names generalizing file changed with
  | nil => rfl
  | cons name names ih =>
      rw [instrumentMethods, Attempt.result_bind, List.foldlM_cons, advance]
      cases (instrumentMethod kind identity file name).result with
      | error failure => rfl
      | ok outcome =>
          cases outcome with
          | none => exact ih file changed
          | some next => exact ih next true

variable {registry : TargetRegistry} {data : Bytes} {update : ClassUpdate}

/-- A pass over a class as it is written goes through the names step by step, and hands out
the class that it comes to as it is written. -/
theorem instrument_bytes {spec : TargetSpec} (target : registry.spec? identity = some spec)
    (fits : file.Fits) (names : List String) :
    (instrument registry file.bytes identity names).result.map (ClassUpdate.data file.bytes) =
      (names.foldlM (advance spec.kind identity) file).map ClassFile.bytes := by
  cases names with
  | nil => rfl
  | cons name names =>
      rw [← instrumentMethods_eq_foldlM _ file false,
        result_instrument target (ClassFile.ofBytes_bytes fits)]
      cases outcome :
        (instrumentMethods spec.kind identity (file, false) (name :: names)).result with
      | error failure => rfl
      | ok passed =>
          obtain ⟨last, changed⟩ := passed
          cases changed with
          | true => rfl
          | false =>
              -- Without a change the pass has come to the class that it went out from.
              obtain ⟨changed, run, unchanged⟩ :=
                run_of_instrumentMethods ⟨fits.pool, fits.texts⟩ outcome
              rw [Bool.false_or] at unchanged
              subst unchanged
              rw [run.eq_of_not_changed]
              rfl

/-- One pass for each name, each of them over the data that the pass before has handed
out. -/
def instrumentEach (registry : TargetRegistry) (identity : ClassIdentity) (data : Bytes)
    (names : List String) : Except AgentError Bytes :=
  names.foldlM (fun current name =>
    (instrument registry current identity [name]).result.map (ClassUpdate.data current)) data

theorem roomy_of_advance (roomy : Roomy file)
    (success : advance kind identity file name = .ok next) : Roomy next := by
  rcases advance_eq_ok success with ⟨-, rfl⟩ | ⟨⟨steps⟩⟩
  · exact roomy
  · obtain ⟨injection⟩ := steps.injection ⟨roomy.fits.pool, roomy.fits.texts⟩
    exact injection.roomy roomy

/-- In a class with room, writing and reading the class between two steps makes no
difference. -/
theorem instrumentEach_bytes {spec : TargetSpec} (target : registry.spec? identity = some spec)
    (roomy : Roomy file) (success : names.foldlM (advance spec.kind identity) file = .ok last) :
    instrumentEach registry identity file.bytes names = .ok last.bytes := by
  induction names generalizing file with
  | nil =>
      cases success
      rfl
  | cons name names ih =>
      rw [List.foldlM_cons] at success
      obtain ⟨next, step, success⟩ := bindExcept_eq_ok_iff.mp success
      rw [instrumentEach, List.foldlM_cons, instrument_bytes target roomy.fits, List.foldlM_cons,
        step]
      exact ih (roomy_of_advance roomy step) success

/-- A class in which a method is found has a constant, and is written in the bytes that it
was read from. -/
theorem Run.eq_bytes {changed : Bool} (run : Run kind file (name :: names) last changed)
    (read : ClassFile.ofBytes data = .ok file) : data = file.bytes := by
  have found : ∃ index, file.findMethod? name kind.descriptor.text = some index := by
    cases run with
    | skip marked _ =>
        obtain ⟨index, _, found, -⟩ := marked
        exact ⟨index, found⟩
    | inject injection _ => exact ⟨injection.index, injection.found⟩
  obtain ⟨index, found⟩ := found
  obtain ⟨method, -, called, -⟩ := ClassFile.findMethod?_eq_some_iff.mp found
  obtain ⟨named, -⟩ := Bool.and_eq_true_iff.mp called
  exact ClassFile.eq_bytes_of_ofBytes read (ConstantPool.utf8Matches_iff.mp named)

/-- A pass over the listed methods hands out what passes over the single methods, in
whatever order, come to in the end. -/
theorem instrumentEach_of_instrument {spec : TargetSpec} (small : data.length < 2147483648)
    (target : registry.spec? identity = some spec) (read : ClassFile.ofBytes data = .ok file)
    (few : ∀ method ∈ file.methods, method.attributes.length ≠ 65535) (inside : file.NamesInside)
    (calledInside : file.CalledInside)
    (codeInside : ∀ method ∈ file.methods, CodeInside file.pool method)
    (success : (instrument registry data identity names).result = .ok update)
    (perm : order.Perm names) :
    instrumentEach registry identity data order = .ok (update.data data) := by
  cases names with
  | nil =>
      cases success
      rw [perm.eq_nil]
      rfl
  | cons name names =>
      have roomy := roomy_of_ofBytes small read few
      have contained : SelfContained file := ⟨⟨roomy.fits.pool, roomy.fits.texts⟩, inside,
        calledInside, fun method member _ => codeInside method member⟩
      obtain ⟨_, _, -, run⟩ := exists_run_of_instrument small target read few success
      cases run.eq_bytes read
      have passed := instrument_bytes target roomy.fits (name :: names)
      rw [success] at passed
      cases stepwise : (name :: names).foldlM (advance spec.kind identity) file with
      | error failure =>
          rw [stepwise] at passed
          cases passed
      | ok last =>
          rw [stepwise] at passed
          have handedOut : update.data file.bytes = last.bytes := Except.ok.inj passed
          rw [handedOut]
          exact instrumentEach_bytes target roomy
            (foldlM_advance_of_perm perm.symm contained stepwise)

instance (pool : ConstantPool) (method : Member) : Decidable (CodeInside pool method) :=
  match code : method.code? pool with
  | .ok (some body) => decidable_of_iff (body.NamesInside pool)
      ⟨fun inside _ same => by cases code.symm.trans same; exact inside, fun all => all body code⟩
  | .ok none => isTrue fun _ same => by cases code.symm.trans same
  | .error _ => isTrue fun _ same => by cases code.symm.trans same

/-- A class with two methods that a report may go into. -/
def twoMethods : Bytes :=
  Sample.build Sample.shutdownName do
    let body := some (.plain 0 1 [Opcode.returnVoid])
    let _ ← ClassEdit.addMethod Access.staticFlag "halt" "(I)V" body
    let _ ← ClassEdit.addMethod Access.staticFlag "stop" "(I)V" body

theorem exists_twoMethods :
    twoMethods.length < 2147483648 ∧
      ∃ file, ClassFile.ofBytes twoMethods = .ok file ∧
        (∀ method ∈ file.methods, method.attributes.length ≠ 65535) ∧ file.NamesInside ∧
        file.CalledInside ∧ (∀ method ∈ file.methods, CodeInside file.pool method) ∧
        ∃ update, (instrument .builtin twoMethods ⟨Sample.shutdownName⟩ ["halt", "stop"]).result =
          .ok update ∧ update ≠ .unchanged := by
  decide +kernel

/-- Two passes over the class, which go to the last method first, hand out in the end what
one pass over both methods hands out. -/
theorem instrumentEach_twoMethods :
    ∃ update, update ≠ .unchanged ∧
      (instrument .builtin twoMethods ⟨Sample.shutdownName⟩ ["halt", "stop"]).result =
        .ok update ∧
      instrumentEach .builtin ⟨Sample.shutdownName⟩ twoMethods ["stop", "halt"] =
        .ok (update.data twoMethods) := by
  obtain ⟨small, file, read, few, inside, calledInside, codeInside, update, success, changed⟩ :=
    exists_twoMethods
  exact ⟨update, changed, success, instrumentEach_of_instrument small spec?_shutdown read few inside
    calledInside codeInside success (.swap _ _ _)⟩

end Instrumentation

end Lookout
