/-
# What a host does to its classes

A class goes through the hooks of a host one after the other, and the first hook that
fails decides how. A request to replace classes asks this of each of them, from the
data that it has. If all get through, each is replaced by what came out of it and no
other class is touched; if one does not, no class is. The hooks stay as they are in
either case.
-/

import Lookout.Host.Retransformation
import Lookout.Proofs.Instrumentation.Journal

namespace Lookout

namespace Host

variable {host : Host} {name : String} {names : List String} {data : Bytes}

/-! ### Hooks -/

theorem result_runHooks (host : Host) (name : String) (redefining : Bool) (data : Bytes) :
    (host.runHooks name redefining data).result =
      host.hooks.foldlM (fun current hook => (runHook name redefining current hook).result) data :=
  Attempt.result_foldlM _ _ _

theorem result_runHook (name : String) (redefining : Bool) (data : Bytes) (hook : ClassHook) :
    (runHook name redefining data hook).result =
      (hook.transform ⟨some name, none, redefining, data⟩).result.map (ClassUpdate.data data) := by
  rw [runHook, Attempt.result_bind]
  cases (hook.transform ⟨some name, none, redefining, data⟩).result <;> rfl

/-- A hook that lets data pass hands what it makes of it on to the hooks behind it. -/
theorem foldlM_runHook_of_ok {redefining : Bool} {hook : ClassHook} {hooks : List ClassHook}
    {update : ClassUpdate}
    (passes : (hook.transform ⟨some name, none, redefining, data⟩).result = .ok update) :
    (hook :: hooks).foldlM (fun current hook => (runHook name redefining current hook).result)
        data =
      hooks.foldlM (fun current hook => (runHook name redefining current hook).result)
        (update.data data) := by
  rw [List.foldlM_cons, result_runHook, passes]
  rfl

/-- Of the hooks of the host, the first that fails on a loaded class fails so. -/
def HookFails (host : Host) (name : String) (failure : AgentError) : Prop :=
  ∃ data before hook later reached, host.data? name = some data ∧
    host.hooks = before ++ hook :: later ∧
    (before.foldlM (runHook name true) data).result = .ok reached ∧
    (hook.transform ⟨some name, none, true, reached⟩).result = .error failure

theorem hookFails_iff (there : host.data? name = some data) {failure : AgentError} :
    host.HookFails name failure ↔ (host.runHooks name true data).result = .error failure := by
  have failsAlike (hook : ClassHook) (reached : Bytes) :
      (runHook name true reached hook).result = .error failure ↔
        (hook.transform ⟨some name, none, true, reached⟩).result = .error failure := by
    rw [result_runHook]
    cases (hook.transform ⟨some name, none, true, reached⟩).result <;> simp [Except.map]
  rw [result_runHooks, foldlExcept_eq_error_iff]
  constructor
  · rintro ⟨_, before, hook, later, reached, sameData, hooks, success, fails⟩
    cases there.symm.trans sameData
    rw [Attempt.result_foldlM] at success
    exact ⟨before, hook, later, reached, hooks, success, (failsAlike hook reached).mpr fails⟩
  · rintro ⟨before, hook, later, reached, hooks, success, fails⟩
    rw [← Attempt.result_foldlM] at success
    exact ⟨data, before, hook, later, reached, there, hooks, success,
      (failsAlike hook reached).mp fails⟩

/-! ### Classes -/

theorem data?_preload (host : Host) (name : String) (data : Bytes) (other : String) :
    (host.preload name data).data? other =
      if name = other then some data else host.data? other := by
  simp [data?, preload, Std.TreeMap.getElem?_insert]

theorem installAll_cons (host : Host) (name : String) (data : Bytes)
    (later : List (String × Bytes)) :
    host.installAll ((name, data) :: later) = (host.preload name data).installAll later := rfl

theorem data?_installAll_of_not_mem {replacements : List (String × Bytes)}
    (unlisted : ∀ data, (name, data) ∉ replacements) :
    (host.installAll replacements).data? name = host.data? name := by
  induction replacements generalizing host with
  | nil => rfl
  | cons replacement later ih =>
      obtain ⟨other, data⟩ := replacement
      have different : other ≠ name := by
        rintro rfl
        exact unlisted data List.mem_cons_self
      rw [installAll_cons, ih fun data member => unlisted data (List.mem_cons_of_mem _ member),
        data?_preload, if_neg different]

/-- A class that is replaced, always by the same data, has that data in the end. -/
theorem data?_installAll_of_mem {replacements : List (String × Bytes)}
    (listed : (name, data) ∈ replacements)
    (same : ∀ other, (name, other) ∈ replacements → other = data) :
    (host.installAll replacements).data? name = some data := by
  induction replacements generalizing host with
  | nil => cases listed
  | cons replacement later ih =>
      obtain ⟨first, firstData⟩ := replacement
      have sameLater : ∀ other, (name, other) ∈ later → other = data :=
        fun other member => same other (List.mem_cons_of_mem _ member)
      rw [installAll_cons]
      by_cases again : (name, data) ∈ later
      · exact ih again sameLater
      · have unlisted : ∀ other, (name, other) ∉ later := by
          intro other member
          rw [sameLater other member] at member
          exact again member
        cases listed with
        | head => rw [data?_installAll_of_not_mem unlisted, data?_preload, if_pos rfl]
        | tail _ member => exact absurd member again

/-- A loaded class that gets through the hooks is to be replaced by what comes out. -/
theorem stage_eq_ok_iff {replacement : String × Bytes} :
    (host.stage name).result = .ok replacement ↔
      ∃ data now, host.data? name = some data ∧ (host.runHooks name true data).result = .ok now ∧
        replacement = (name, now) := by
  unfold stage
  cases host.data? name with
  | none =>
      constructor
      · intro impossible
        cases impossible
      · rintro ⟨_, _, impossible, -⟩
        cases impossible
  | some data =>
      dsimp only
      rw [Attempt.result_bind, Attempt.result_mapError]
      cases ran : (host.runHooks name true data).result with
      | error failure =>
          constructor
          · intro impossible
            cases impossible
          · rintro ⟨_, _, there, success, -⟩
            cases there
            cases ran.symm.trans success
      | ok now =>
          constructor
          · intro success
            cases success
            exact ⟨data, now, rfl, ran, rfl⟩
          · rintro ⟨_, _, there, success, rfl⟩
            cases there
            cases ran.symm.trans success
            rfl

theorem stage_eq_error {failure : AgentError} (there : host.data? name = some data)
    (fails : (host.runHooks name true data).result = .error failure) :
    (host.stage name).result = .error (.hook failure) := by
  unfold stage
  rw [there]
  dsimp only
  rw [Attempt.result_bind, Attempt.result_mapError, fails]
  rfl

/-! ### Requests -/

/-- A pending rejection is what comes of a request, whatever classes it names. -/
theorem retransform_of_rejection {failure : HostError} (pending : host.rejection = some failure)
    (names : List String) :
    host.retransform names =
      (.fail failure, { host with requests := host.requests + 1, rejection := none }) := by
  simp only [retransform, pending]

theorem retransform_of_staged {replacements : List (String × Bytes)}
    (free : host.rejection = none)
    (staged : (names.mapM host.stage).result = .ok replacements) :
    (host.retransform names).1.result = .ok () ∧ (host.retransform names).2 =
      { host with requests := host.requests + 1 }.installAll replacements := by
  have stagedBehind :
      (names.mapM { host with requests := host.requests + 1, rejection := none }.stage).result =
        .ok replacements := staged
  simp only [retransform, free, stagedBehind, and_self]

theorem retransform_of_refused {failure : HostError} (free : host.rejection = none)
    (refused : (names.mapM host.stage).result = .error failure) :
    (host.retransform names).1.result = .error failure ∧
      (host.retransform names).2 = { host with requests := host.requests + 1 } := by
  have refusedBehind :
      (names.mapM { host with requests := host.requests + 1, rejection := none }.stage).result =
        .error failure := refused
  simp only [retransform, free, refusedBehind, and_self]

/-- A request never touches the hooks. -/
@[simp]
theorem hooks_retransform (host : Host) (names : List String) :
    (host.retransform names).2.hooks = host.hooks := by
  cases pending : host.rejection with
  | some failure => rw [retransform_of_rejection pending]
  | none =>
      cases outcome : (names.mapM host.stage).result with
      | error failure => rw [(retransform_of_refused pending outcome).2]
      | ok replacements =>
          rw [(retransform_of_staged pending outcome).2]
          rfl

/-- A request that fails replaces no class. -/
theorem classes_retransform_of_error {failure : HostError}
    (failed : (host.retransform names).1.result = .error failure) :
    (host.retransform names).2.classes = host.classes := by
  cases pending : host.rejection with
  | some rejection => rw [retransform_of_rejection pending]
  | none =>
      cases outcome : (names.mapM host.stage).result with
      | error failure => rw [(retransform_of_refused pending outcome).2]
      | ok replacements =>
          rw [(retransform_of_staged pending outcome).1] at failed
          cases failed

/-- A request that succeeds replaces the classes that it names by what the hooks make of
them, and no other class. -/
theorem retransform_eq_ok (success : (host.retransform names).1.result = .ok ()) :
    (∀ name ∈ names, ∃ data now, host.data? name = some data ∧
        (host.runHooks name true data).result = .ok now ∧
        (host.retransform names).2.data? name = some now) ∧
      ∀ name ∉ names, (host.retransform names).2.data? name = host.data? name := by
  cases pending : host.rejection with
  | some rejection =>
      rw [retransform_of_rejection pending] at success
      cases success
  | none =>
      cases outcome : (names.mapM host.stage).result with
      | error failure =>
          rw [(retransform_of_refused pending outcome).1] at success
          cases success
      | ok replacements =>
          rw [(retransform_of_staged pending outcome).2]
          rw [Attempt.result_mapM] at outcome
          have pairs := (mapExcept_eq_ok_iff.mp outcome).imp
            fun _ _ staged => stage_eq_ok_iff.mp staged
          have listed {name : String} {now : Bytes} (member : (name, now) ∈ replacements) :
              name ∈ names ∧ ∃ data, host.data? name = some data ∧
                (host.runHooks name true data).result = .ok now := by
            obtain ⟨_, there, data, _, loaded, ran, same⟩ := exists_of_mem_forall₂ pairs member
            cases same
            exact ⟨there, data, loaded, ran⟩
          refine ⟨fun name member => ?_, fun name unlisted => ?_⟩
          · obtain ⟨_, there, data, now, loaded, ran, rfl⟩ :=
              exists_of_mem_forall₂ pairs.flip member
            refine ⟨data, now, loaded, ran, data?_installAll_of_mem there fun other again => ?_⟩
            obtain ⟨-, _, sameLoaded, sameRan⟩ := listed again
            cases loaded.symm.trans sameLoaded
            cases ran.symm.trans sameRan
            rfl
          · exact data?_installAll_of_not_mem fun now member => unlisted (listed member).1

/-- Without a pending rejection, a request succeeds if all classes are loaded and get
through the hooks. -/
theorem retransform_of_passing (free : host.rejection = none)
    (passing : ∀ name ∈ names, ∃ data now, host.data? name = some data ∧
      (host.runHooks name true data).result = .ok now) :
    (host.retransform names).1.result = .ok () := by
  have staged : ∃ replacements, (names.mapM host.stage).result = .ok replacements := by
    rw [Attempt.result_mapM]
    refine exists_mapExcept_eq_ok fun name member => ?_
    obtain ⟨data, now, loaded, ran⟩ := passing name member
    exact ⟨_, stage_eq_ok_iff.mpr ⟨data, now, loaded, ran, rfl⟩⟩
  obtain ⟨replacements, staged⟩ := staged
  exact (retransform_of_staged free staged).1

/-- Without a pending rejection, a request fails as the hooks do on the first class that
does not get through them. -/
theorem retransform_of_hookFails (free : host.rejection = none) {before later : List String}
    {failure : AgentError}
    (passing : ∀ name ∈ before, ∃ data now, host.data? name = some data ∧
      (host.runHooks name true data).result = .ok now)
    (fails : host.HookFails name failure) :
    (host.retransform (before ++ name :: later)).1.result = .error (.hook failure) := by
  have refused : ((before ++ name :: later).mapM host.stage).result = .error (.hook failure) := by
    rw [Attempt.result_mapM]
    refine mapExcept_eq_error (fun earlier member => ?_) ?_
    · obtain ⟨data, now, loaded, ran⟩ := passing earlier member
      exact ⟨_, stage_eq_ok_iff.mpr ⟨data, now, loaded, ran, rfl⟩⟩
    · have ⟨data, _, _, _, _, there, _⟩ := fails
      exact stage_eq_error there ((hookFails_iff there).mp fails)
  exact (retransform_of_refused free refused).1

end Host

end Lookout
