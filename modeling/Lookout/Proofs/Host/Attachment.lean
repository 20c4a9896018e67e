/-
# Attaching is all or nothing

An attachment can fail at many points: a target may be missing, the host may refuse to
replace classes, and any hook may fail on any target when others have been through
already. Wherever that is, the classes and hooks of the host are afterwards what they
were, because nothing is registered before all targets are found, nothing is replaced
before all of them are through, and the hook that was registered has a number that no
other hook has. Which failure it is follows from the order in which these things are
tried.
-/

import Lookout.Host.Attachment
import Lookout.Proofs.Host.Retransformation
import Lookout.Proofs.Instrumentation.Interception
import Lookout.Proofs.Target.Registry

namespace Lookout

theorem TargetRegistry.names_builtin :
    builtin.names = [Sample.processBuilderName, Sample.shutdownName] := rfl

namespace Host

variable {host : Host} {registry : TargetRegistry} {name : String} {names : List String}

/-! ### Finding the targets -/

theorem result_resolveTarget_of_loaded {data : Bytes} (loaded : host.data? name = some data) :
    (host.resolveTarget ⟨name⟩).result = .ok name := by
  have found : host.resolve? ⟨name⟩ = some name := by
    have contained : host.classes[name]? = some data := loaded
    rw [resolve?, Std.TreeMap.contains_eq_isSome_getElem?, contained]
    rfl
  rw [resolveTarget, found]
  rfl

theorem result_resolveTarget_of_missing (missing : host.data? name = none) :
    (host.resolveTarget ⟨name⟩).result =
      .error (.setupTargetMissing (ClassIdentity.binaryName ⟨name⟩)) := by
  have unknown : host.resolve? ⟨name⟩ = none := by
    have absent : host.classes[name]? = none := missing
    rw [resolve?, Std.TreeMap.contains_eq_isSome_getElem?, absent]
    rfl
  rw [resolveTarget, unknown]
  rfl

theorem result_resolveTargets (host : Host) (registry : TargetRegistry) :
    (host.resolveTargets registry).result =
      registry.names.mapM fun name => (host.resolveTarget ⟨name⟩).result := by
  rw [resolveTargets, Attempt.result_mapM, TargetRegistry.names, List.mapM_map]
  rfl

/-- If all targets are loaded they are found, under their names. -/
theorem result_resolveTargets_eq_ok_iff :
    (host.resolveTargets registry).result = .ok names ↔
      (∀ name ∈ registry.names, host.data? name ≠ none) ∧ registry.names = names := by
  have resolves (name resolved : String) :
      (host.resolveTarget ⟨name⟩).result = .ok resolved ↔
        host.data? name ≠ none ∧ name = resolved := by
    cases loaded : host.data? name with
    | none => simp [result_resolveTarget_of_missing loaded]
    | some data => simp [result_resolveTarget_of_loaded loaded]
  rw [result_resolveTargets, mapExcept_eq_ok_iff]
  simp only [resolves]
  rw [List.forall₂_and_left, List.forall₂_eq_eq_eq]

/-- Otherwise the first that is missing is told. -/
theorem result_resolveTargets_of_missing (ordered : registry.Ordered)
    (first : registry.IsFirst (host.data? · = none) name) :
    (host.resolveTargets registry).result =
      .error (.setupTargetMissing (ClassIdentity.binaryName ⟨name⟩)) := by
  obtain ⟨before, later, split, loaded⟩ := first.exists_split ordered
  rw [result_resolveTargets, split]
  refine mapExcept_eq_error (fun other member => ?_) (result_resolveTarget_of_missing first.holds)
  obtain ⟨data, there⟩ := Option.ne_none_iff_exists'.mp (loaded other member)
  exact ⟨other, result_resolveTarget_of_loaded there⟩

/-! ### With the hook in place -/

/-- The host with the hook for these targets registered behind the others. -/
def withInterceptor (host : Host) (registry : TargetRegistry) : Host :=
  (host.addHook (intercept registry)).2

theorem hooks_withInterceptor (host : Host) (registry : TargetRegistry) :
    (host.withInterceptor registry).hooks =
      host.hooks ++ [⟨host.nextNumber, intercept registry⟩] := rfl

/-- Taking the new hook out again leaves the hooks that were there. -/
theorem hooks_removeHook {after : Host}
    (hooks : after.hooks = (host.withInterceptor registry).hooks) :
    (after.removeHook host.nextNumber).hooks = host.hooks := by
  have others : host.hooks.filter (fun hook => hook.number != host.nextNumber) = host.hooks := by
    refine List.filter_eq_self.mpr fun hook member => ?_
    have older := host.number_lt_nextNumber hook member
    simpa using Nat.ne_of_lt older
  rw [hooks_withInterceptor] at hooks
  simp only [removeHook, hooks, List.filter_append, others]
  simp

/-- The request of an attachment to replace the targets. -/
def requested (host : Host) (registry : TargetRegistry) : Attempt HostError Unit × Host :=
  (host.withInterceptor registry).retransform registry.names

theorem activate_eq (host : Host) (registry : TargetRegistry) (names : List String) :
    host.activate registry names =
      match (host.withInterceptor registry).retroactivate names with
      | (done, after) =>
        match done.result with
        | .ok () => (⟨done.events ++ [.attached], .ok ()⟩, after)
        | .error failure =>
          (⟨done.events ++ [.attachFailed failure], .error failure⟩,
            after.removeHook host.nextNumber) := rfl

theorem attach_of_missing {failure : AgentError}
    (missing : (host.resolveTargets registry).result = .error failure) :
    (host.attach registry).1.result = .error ⟨.resolving, failure⟩ ∧
      (host.attach registry).2 = host := by
  simp only [attach, missing, and_self]

theorem attach_of_request (loaded : ∀ name ∈ registry.names, host.data? name ≠ none)
    (success : (host.requested registry).1.result = .ok ()) :
    (host.attach registry).1.result = .ok () ∧
      (host.attach registry).2 = (host.requested registry).2 := by
  have resolved := result_resolveTargets_eq_ok_iff.mpr ⟨loaded, rfl⟩
  have passed : ((host.withInterceptor registry).retransform registry.names).1.result =
    .ok () := success
  simp only [attach, resolved, activate_eq, retroactivate, passed, Except.mapError, requested,
    and_self]

theorem attach_of_refused {failure : HostError}
    (loaded : ∀ name ∈ registry.names, host.data? name ≠ none)
    (refused : (host.requested registry).1.result = .error failure) :
    (host.attach registry).1.result = .error ⟨.instrumenting, failure.toAgentError⟩ ∧
      (host.attach registry).2 = (host.requested registry).2.removeHook host.nextNumber := by
  have resolved := result_resolveTargets_eq_ok_iff.mpr ⟨loaded, rfl⟩
  have failed : ((host.withInterceptor registry).retransform registry.names).1.result =
    .error failure := refused
  simp only [attach, resolved, activate_eq, retroactivate, failed, Except.mapError, requested,
    and_self]

/-- An attachment fails at once for want of a target, or ends as its request does. -/
theorem attach_cases (host : Host) (registry : TargetRegistry) :
    (∃ failure, (host.attach registry).1.result = .error ⟨.resolving, failure⟩ ∧
        (host.attach registry).2 = host) ∨
      ((host.requested registry).1.result = .ok () ∧ (host.attach registry).1.result = .ok () ∧
        (host.attach registry).2 = (host.requested registry).2) ∨
      ∃ failure, (host.requested registry).1.result = .error failure ∧
        (host.attach registry).1.result = .error ⟨.instrumenting, failure.toAgentError⟩ ∧
        (host.attach registry).2 = (host.requested registry).2.removeHook host.nextNumber := by
  cases resolved : (host.resolveTargets registry).result with
  | error failure => exact .inl ⟨failure, attach_of_missing resolved⟩
  | ok names =>
      obtain ⟨loaded, -⟩ := result_resolveTargets_eq_ok_iff.mp resolved
      cases outcome : (host.requested registry).1.result with
      | ok _ => exact .inr (.inl ⟨rfl, attach_of_request loaded outcome⟩)
      | error failure => exact .inr (.inr ⟨failure, rfl, attach_of_refused loaded outcome⟩)

/-- A failed attachment leaves the classes and the hooks as they were. -/
theorem eq_of_attach_eq_error {error : AttachError}
    (failed : (host.attach registry).1.result = .error error) :
    (host.attach registry).2.classes = host.classes ∧
      (host.attach registry).2.hooks = host.hooks := by
  rcases host.attach_cases registry with
    ⟨_, -, after⟩ | ⟨-, succeeded, -⟩ | ⟨_, refused, -, after⟩
  · rw [after]
    exact ⟨rfl, rfl⟩
  · cases succeeded.symm.trans failed
  · rw [after]
    exact ⟨classes_retransform_of_error refused, hooks_removeHook (hooks_retransform _ _)⟩

/-- A successful attachment adds its hook behind the others, and has replaced the targets
by what all hooks make of them. -/
theorem attach_eq_ok (success : (host.attach registry).1.result = .ok ()) :
    (host.attach registry).2.hooks = host.hooks ++ [⟨host.nextNumber, intercept registry⟩] ∧
      (∀ name ∈ registry.names, ∃ data now, host.data? name = some data ∧
        ((host.attach registry).2.runHooks name true data).result = .ok now ∧
        (host.attach registry).2.data? name = some now) ∧
      ∀ name ∉ registry.names, (host.attach registry).2.data? name = host.data? name := by
  rcases host.attach_cases registry with ⟨_, failed, -⟩ | ⟨passed, -, after⟩ | ⟨_, -, failed, -⟩
  · cases failed.symm.trans success
  · have hooks : (host.requested registry).2.hooks = (host.withInterceptor registry).hooks :=
      hooks_retransform _ _
    obtain ⟨replaced, kept⟩ := retransform_eq_ok passed
    rw [after]
    refine ⟨hooks, fun name listed => ?_, kept⟩
    obtain ⟨data, now, loaded, ran, stored⟩ := replaced name listed
    refine ⟨data, now, loaded, ?_, stored⟩
    rwa [result_runHooks, hooks, ← result_runHooks]
  · cases failed.symm.trans success

/-- Either way, the only hook that may be new is that of the agent. -/
theorem hooks_attach (host : Host) (registry : TargetRegistry) :
    (host.attach registry).2.hooks = host.hooks ∨
      (host.attach registry).2.hooks = host.hooks ++ [⟨host.nextNumber, intercept registry⟩] := by
  cases outcome : (host.attach registry).1.result with
  | error failure => exact .inl (eq_of_attach_eq_error outcome).2
  | ok _ => exact .inr (attach_eq_ok outcome).1

/-- What comes of attaching to a host: a result, and the host behind it. -/
structure AllOrNothing (registry : TargetRegistry) (host : Host) (result : Except AttachError Unit)
    (after : Host) : Prop where
  /-- A failure leaves the classes and the hooks as they were. -/
  undone : ∀ error, result = .error error → after.classes = host.classes ∧ after.hooks = host.hooks
  /-- A success adds one hook behind the others, that of the agent. -/
  hooked : result = .ok () → after.hooks = host.hooks ++ [⟨host.nextNumber, intercept registry⟩]
  /-- It replaces each target by what all hooks have made of it. -/
  replaced : result = .ok () → ∀ name ∈ registry.names, ∃ data now, host.data? name = some data ∧
    (after.runHooks name true data).result = .ok now ∧ after.data? name = some now
  /-- It replaces nothing else. -/
  kept : result = .ok () → ∀ name ∉ registry.names, after.data? name = host.data? name
  /-- If targets are missing, the failure names the first of them, and nothing has been
  asked of the host. -/
  missing : ∀ name, registry.IsFirst (host.data? · = none) name →
    result = .error ⟨.resolving, .setupTargetMissing (ClassIdentity.binaryName ⟨name⟩)⟩ ∧
      after = host
  /-- Otherwise a pending rejection decides: a host that does not let classes be modified is
  seen to refuse, -/
  unmodifiable : (∀ name ∈ registry.names, host.data? name ≠ none) →
    ∀ className, host.rejection = some (.unmodifiable className) →
      result = .error ⟨.instrumenting,
        .redefinitionRejected ("class " ++ className ++ " is not modifiable")⟩
  /-- and so is one that rejects the request, -/
  rejected : (∀ name ∈ registry.names, host.data? name ≠ none) →
    ∀ reason, host.rejection = some (.rejected reason) →
      result = .error ⟨.instrumenting, .redefinitionRejected reason⟩
  /-- and the failure of a hook is told as it is. -/
  wrapped : (∀ name ∈ registry.names, host.data? name ≠ none) →
    ∀ failure, host.rejection = some (.hook failure) → result = .error ⟨.instrumenting, failure⟩
  /-- Otherwise the failure is that of the first hook that fails on the first target that
  some hook fails on. -/
  failing : (∀ name ∈ registry.names, host.data? name ≠ none) → host.rejection = none →
    ∀ name failure,
      registry.IsFirst
        (fun name => ∃ failure, (host.withInterceptor registry).HookFails name failure) name →
      (host.withInterceptor registry).HookFails name failure →
      result = .error ⟨.instrumenting, failure⟩
  /-- There is no other way to fail. -/
  succeeds : (∀ name ∈ registry.names, host.data? name ≠ none) → host.rejection = none →
    (∀ name ∈ registry.names, ∀ failure, ¬(host.withInterceptor registry).HookFails name failure) →
    result = .ok ()

/-- A loaded class on which no hook fails gets through. -/
theorem exists_of_not_hookFails (loaded : host.data? name ≠ none)
    (passes : ∀ failure, ¬host.HookFails name failure) :
    ∃ data now, host.data? name = some data ∧ (host.runHooks name true data).result = .ok now := by
  obtain ⟨data, there⟩ := Option.ne_none_iff_exists'.mp loaded
  cases ran : (host.runHooks name true data).result with
  | ok now => exact ⟨data, now, there, ran⟩
  | error failure => exact absurd ((hookFails_iff there).mpr ran) (passes failure)

theorem result_attach_of_rejection {failure : HostError}
    (loaded : ∀ name ∈ registry.names, host.data? name ≠ none)
    (pending : host.rejection = some failure) :
    (host.attach registry).1.result = .error ⟨.instrumenting, failure.toAgentError⟩ := by
  have pendingStill : (host.withInterceptor registry).rejection = some failure := pending
  have refused : (host.requested registry).1.result = .error failure := by
    rw [requested, retransform_of_rejection pendingStill]
    rfl
  exact (attach_of_refused loaded refused).1

/-- Attaching is all or nothing, and the failure is the first one in order. The tables that are
made of rows are in order (`TargetRegistry.ordered_iff_exists_ofRows`). -/
theorem allOrNothing_attach (ordered : registry.Ordered) (host : Host) :
    AllOrNothing registry host (host.attach registry).1.result (host.attach registry).2 where
  undone error failed := eq_of_attach_eq_error failed
  hooked success := (attach_eq_ok success).1
  replaced success := (attach_eq_ok success).2.1
  kept success := (attach_eq_ok success).2.2
  missing name first := attach_of_missing (result_resolveTargets_of_missing ordered first)
  unmodifiable loaded className pending := result_attach_of_rejection loaded pending
  rejected loaded reason pending := result_attach_of_rejection loaded pending
  wrapped loaded failure pending := result_attach_of_rejection loaded pending
  failing loaded free name failure first fails := by
    obtain ⟨before, later, split, passing⟩ := first.exists_split ordered
    have freeStill : (host.withInterceptor registry).rejection = none := free
    have refused : (host.requested registry).1.result = .error (.hook failure) := by
      rw [requested, split]
      refine retransform_of_hookFails freeStill (fun other member => ?_) fails
      have listed : other ∈ registry.names := split ▸ List.mem_append_left _ member
      exact exists_of_not_hookFails (loaded other listed) fun failure fails =>
        passing other member ⟨failure, fails⟩
    exact (attach_of_refused loaded refused).1
  succeeds loaded free passing := by
    have freeStill : (host.withInterceptor registry).rejection = none := free
    have passed : (host.requested registry).1.result = .ok () :=
      retransform_of_passing freeStill fun name listed =>
        exists_of_not_hookFails (loaded name listed) (passing name listed)
    exact (attach_of_request loaded passed).1

/-- A hook that lets every class pass, except the one that ends the process. -/
def guardShutdown (load : ClassLoad) : Attempt AgentError ClassUpdate :=
  if load.name = some Sample.shutdownName then .fail (.redefinitionRejected "guarded")
  else return .unchanged

/-- A host with both targets loaded, and this hook in place. -/
def guardedHost : Host := (Sample.hostWithTargets.addHook guardShutdown).2

theorem data?_hostWithTargets (name : String) :
    Sample.hostWithTargets.data? name =
      if Sample.processBuilderName = name then some (Sample.processBuilder true)
      else if Sample.shutdownName = name then some (Sample.shutdown true) else none := by
  rw [Sample.hostWithTargets, data?_preload, data?_preload]
  rfl

theorem data?_hostWithTargets_shutdown :
    Sample.hostWithTargets.data? Sample.shutdownName = some (Sample.shutdown true) := by
  rw [data?_hostWithTargets, if_neg (by decide), if_pos rfl]

theorem data?_hostWithTargets_processBuilder :
    Sample.hostWithTargets.data? Sample.processBuilderName = some (Sample.processBuilder true) := by
  rw [data?_hostWithTargets, if_pos rfl]

/-- There is nothing else in this host. -/
theorem eq_of_data?_hostWithTargets {name : String} {data : Bytes}
    (loaded : Sample.hostWithTargets.data? name = some data) :
    name = Sample.processBuilderName ∧ data = Sample.processBuilder true ∨
      name = Sample.shutdownName ∧ data = Sample.shutdown true := by
  rw [data?_hostWithTargets] at loaded
  split at loaded
  case isTrue same => exact .inl ⟨same.symm, (Option.some.inj loaded).symm⟩
  case isFalse =>
    split at loaded
    case isTrue same => exact .inr ⟨same.symm, (Option.some.inj loaded).symm⟩
    case isFalse => cases loaded

/-- The built-in targets are all there. -/
theorem data?_hostWithTargets_ne_none (name : String)
    (listed : name ∈ TargetRegistry.builtin.names) :
    Sample.hostWithTargets.data? name ≠ none := by
  rw [TargetRegistry.names_builtin, List.mem_pair] at listed
  rcases listed with rfl | rfl
  · exact Option.ne_none_iff_exists'.mpr ⟨_, data?_hostWithTargets_processBuilder⟩
  · exact Option.ne_none_iff_exists'.mpr ⟨_, data?_hostWithTargets_shutdown⟩

/-- The class that launches processes gets past the guard, and through the hook behind it. -/
theorem exists_runHooks_guardedHost :
    ∃ now, ((guardedHost.withInterceptor .builtin).runHooks Sample.processBuilderName true
      (Sample.processBuilder true)).result = .ok now := by
  obtain ⟨update, success, -⟩ := exists_intercept_processBuilder true
  have unguarded : (guardShutdown ⟨some Sample.processBuilderName, none, true,
      Sample.processBuilder true⟩).result = .ok .unchanged := rfl
  have hooks : (guardedHost.withInterceptor .builtin).hooks =
    [⟨0, guardShutdown⟩, ⟨1, intercept .builtin⟩] := rfl
  refine ⟨update.data (Sample.processBuilder true), ?_⟩
  rw [result_runHooks, hooks, foldlM_runHook_of_ok unguarded, ClassUpdate.data,
    foldlM_runHook_of_ok success]
  rfl

/-- When the guarded class is reached, the other one has been through both hooks. The
failure is that of the guard, and neither class is replaced. -/
theorem attach_guardedHost :
    TargetRegistry.builtin.Ordered ∧
      (guardedHost.attach .builtin).1.result =
        .error ⟨.instrumenting, .redefinitionRejected "guarded"⟩ ∧
      (guardedHost.attach .builtin).2.classes = guardedHost.classes ∧
      (guardedHost.attach .builtin).2.hooks = guardedHost.hooks := by
  have outcome := allOrNothing_attach TargetRegistry.ordered_builtin guardedHost
  have loaded : ∀ name ∈ TargetRegistry.builtin.names, guardedHost.data? name ≠ none :=
    data?_hostWithTargets_ne_none
  have fails : (guardedHost.withInterceptor .builtin).HookFails Sample.shutdownName
      (.redefinitionRejected "guarded") :=
    ⟨Sample.shutdown true, [], ⟨0, guardShutdown⟩, [⟨1, intercept .builtin⟩], Sample.shutdown true,
      data?_hostWithTargets_shutdown, rfl, rfl, rfl⟩
  have first : TargetRegistry.builtin.IsFirst
      (fun name => ∃ failure, (guardedHost.withInterceptor .builtin).HookFails name failure)
      Sample.shutdownName := by
    refine ⟨by decide, ⟨_, fails⟩, fun other listed earlier => ?_⟩
    rw [TargetRegistry.names_builtin, List.mem_pair] at listed
    rcases listed with rfl | rfl
    · rintro ⟨failure, failsHere⟩
      obtain ⟨now, ran⟩ := exists_runHooks_guardedHost
      have loadedHere : (guardedHost.withInterceptor .builtin).data? Sample.processBuilderName =
        some (Sample.processBuilder true) := data?_hostWithTargets_processBuilder
      cases ran.symm.trans ((hookFails_iff loadedHere).mp failsHere)
    · exact absurd earlier (by decide)
  have failed := outcome.failing loaded rfl Sample.shutdownName _ first fails
  exact ⟨TargetRegistry.ordered_builtin, failed, outcome.undone _ failed⟩

end Host

end Lookout
