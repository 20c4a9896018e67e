/-
# Hosts that run

A host to which the agent was attached goes on loading classes, replacing loaded ones,
turning requests down and being attached to again. Whatever it does, each of its classes
is stored as one pass through the hook has left it, counted from the data that was last
supplied for it. Every request keeps this: a class that is stored so comes out of any
number of hooks as it went in, and a request that fails changes no class.
-/

import Lookout.Proofs.Host.Attachment
import Lookout.Proofs.Instrumentation.Interception
import Mathlib.Logic.Function.Basic

namespace Lookout

/-- What a running host is asked to do. -/
inductive HostRequest where
  | define (name : String) (data : Bytes)
  | retransform (names : List String)
  | rejectNext (failure : HostError)
  | attach

/-- A host, and the data that was last supplied for each class that it has loaded. -/
structure RecordedHost where
  host : Host
  supplied : String → Option Bytes

namespace RecordedHost

/-- Let the host do what it is asked. Data is recorded as supplied if the class was loaded
from it. -/
def serve (registry : TargetRegistry) (recorded : RecordedHost) : HostRequest → RecordedHost
  | .define name data =>
    let (done, host) := recorded.host.define name data
    match done.result with
    | .ok () => ⟨host, Function.update recorded.supplied name (some data)⟩
    | .error _ => ⟨host, recorded.supplied⟩
  | .retransform names => ⟨(recorded.host.retransform names).2, recorded.supplied⟩
  | .rejectNext failure => ⟨recorded.host.rejectNext failure, recorded.supplied⟩
  | .attach => ⟨(recorded.host.attach registry).2, recorded.supplied⟩

/-- Let the host do one thing after the other. -/
def run (registry : TargetRegistry) (recorded : RecordedHost) (requests : List HostRequest) :
    RecordedHost :=
  requests.foldl (serve registry) recorded

variable {registry : TargetRegistry} {recorded : RecordedHost} {name : String} {data : Bytes}

theorem run_cons (registry : TargetRegistry) (recorded : RecordedHost) (request : HostRequest)
    (requests : List HostRequest) :
    recorded.run registry (request :: requests) =
      (recorded.serve registry request).run registry requests := rfl

theorem serve_define_of_ok {loaded : Bytes}
    (ran : (recorded.host.runHooks name false data).result = .ok loaded) :
    recorded.serve registry (.define name data) =
      ⟨recorded.host.preload name loaded, Function.update recorded.supplied name (some data)⟩ := by
  simp only [serve, Host.define, ran]
  rfl

theorem serve_define_of_error {failure : AgentError}
    (ran : (recorded.host.runHooks name false data).result = .error failure) :
    recorded.serve registry (.define name data) = recorded := by
  simp only [serve, Host.define, ran]

/-- A request that does not supply a class leaves the record of it alone. -/
theorem supplied_serve_of_ne {request : HostRequest}
    (others : ∀ data, request ≠ .define name data) :
    (recorded.serve registry request).supplied name = recorded.supplied name := by
  cases request with
  | define other data =>
      have different : name ≠ other := by
        rintro rfl
        exact others data rfl
      cases ran : (recorded.host.runHooks other false data).result with
      | error failure => rw [serve_define_of_error ran]
      | ok loaded =>
          rw [serve_define_of_ok ran]
          exact Function.update_of_ne different _ _
  | retransform names => rfl
  | rejectNext failure => rfl
  | attach => rfl

theorem supplied_run_of_not_mem {requests : List HostRequest}
    (others : ∀ data, .define name data ∉ requests) :
    (recorded.run registry requests).supplied name = recorded.supplied name := by
  induction requests generalizing recorded with
  | nil => rfl
  | cons request requests ih =>
      have here : ∀ data, request ≠ .define name data := by
        rintro data rfl
        exact others data List.mem_cons_self
      rw [run_cons, ih fun data member => others data (List.mem_cons_of_mem _ member),
        supplied_serve_of_ne here]

end RecordedHost

/-! ### Interceptors -/

/-- All hooks are the hook of the agent. -/
def OnlyIntercepts (registry : TargetRegistry) (hooks : List ClassHook) : Prop :=
  ∀ hook ∈ hooks, hook.transform = intercept registry

variable {registry : TargetRegistry} {hooks : List ClassHook} {name : String} {data : Bytes}

theorem OnlyIntercepts.nil (registry : TargetRegistry) : OnlyIntercepts registry [] :=
  fun _ member => absurd member List.not_mem_nil

theorem OnlyIntercepts.tail {hook : ClassHook} (only : OnlyIntercepts registry (hook :: hooks)) :
    OnlyIntercepts registry hooks :=
  fun later member => only later (List.mem_cons_of_mem _ member)

theorem OnlyIntercepts.concat (only : OnlyIntercepts registry hooks) (number : Nat) :
    OnlyIntercepts registry (hooks ++ [⟨number, intercept registry⟩]) := by
  intro hook member
  rcases List.mem_append.mp member with old | new
  · exact only hook old
  · rw [List.mem_singleton.mp new]

/-- Data that a pass leaves as it is comes out of any number of them as it is. -/
theorem OnlyIntercepts.foldlM_of_unchanged (only : OnlyIntercepts registry hooks)
    {redefining : Bool}
    (unchanged : (intercept registry ⟨some name, none, redefining, data⟩).result =
      .ok .unchanged) :
    hooks.foldlM (fun current hook => (Host.runHook name redefining current hook).result) data =
      .ok data := by
  induction hooks with
  | nil => rfl
  | cons hook hooks ih =>
      have unchangedHere := unchanged
      rw [← only hook List.mem_cons_self] at unchangedHere
      rw [Host.foldlM_runHook_of_ok unchangedHere]
      exact ih only.tail

/-- Through interceptors, if there is one at all, a class comes as through a single one. -/
theorem OnlyIntercepts.passedOnce (only : OnlyIntercepts registry hooks) (hooked : hooks ≠ [])
    (room : LeavesRoom data) {redefining : Bool} {loaded : Bytes}
    (ran : hooks.foldlM (fun current hook => (Host.runHook name redefining current hook).result)
      data = .ok loaded) :
    PassedOnce registry name data loaded := by
  obtain ⟨first, later, rfl⟩ := List.exists_cons_of_ne_nil hooked
  cases outcome : (first.transform ⟨some name, none, redefining, data⟩).result with
  | error failure =>
      rw [List.foldlM_cons, Host.result_runHook, outcome] at ran
      cases ran
  | ok update =>
      rw [Host.foldlM_runHook_of_ok outcome] at ran
      -- The other hooks meet a class that the first one has passed.
      rw [only first List.mem_cons_self] at outcome
      have passed := passedOnce_of_intercept room outcome
      have kept := only.tail.foldlM_of_unchanged (passed.again none redefining)
      cases kept.symm.trans ran
      exact passed

/-! ### Requests -/

/-- What holds of an attached host at all times: its hooks are those of the agent, and each
class has passed them once in effect. -/
structure Settled (registry : TargetRegistry) (recorded : RecordedHost) : Prop where
  hooked : recorded.host.hooks ≠ []
  only : OnlyIntercepts registry recorded.host.hooks
  classes : ∀ name,
    Option.Rel (PassedOnce registry name) (recorded.supplied name) (recorded.host.data? name)

namespace Settled

variable {recorded : RecordedHost}

/-- The data under a name, if there is any, has passed. -/
theorem again (settled : Settled registry recorded)
    (loaded : recorded.host.data? name = some data) (loader : Option String) (redefining : Bool) :
    (intercept registry ⟨some name, loader, redefining, data⟩).result = .ok .unchanged := by
  have related := settled.classes name
  rw [loaded] at related
  generalize recorded.supplied name = supplied at related
  cases related with
  | some passed => exact passed.again loader redefining

theorem serve_define (settled : Settled registry recorded) (room : LeavesRoom data) :
    Settled registry (recorded.serve registry (.define name data)) := by
  cases ran : (recorded.host.runHooks name false data).result with
  | error failure =>
      rw [RecordedHost.serve_define_of_error ran]
      exact settled
  | ok loaded =>
      rw [RecordedHost.serve_define_of_ok ran]
      refine ⟨settled.hooked, settled.only, fun other => ?_⟩
      dsimp only
      rw [Host.data?_preload]
      rw [Host.result_runHooks] at ran
      have passed := settled.only.passedOnce settled.hooked room ran
      by_cases same : name = other
      · subst same
        rw [if_pos rfl, Function.update_self]
        exact .some passed
      · rw [if_neg same, Function.update_of_ne (Ne.symm same)]
        exact settled.classes other

/-- Replacing a class through interceptors leaves it as it is. -/
theorem eq_of_runHooks (settled : Settled registry recorded) (only : OnlyIntercepts registry hooks)
    (loaded : recorded.host.data? name = some data) {now : Bytes}
    (ran : hooks.foldlM (fun current hook => (Host.runHook name true current hook).result) data =
      .ok now) :
    now = data := by
  have kept := only.foldlM_of_unchanged (settled.again loaded none true)
  cases kept.symm.trans ran
  rfl

theorem data?_retransform (settled : Settled registry recorded) (names : List String)
    (name : String) :
    (recorded.host.retransform names).2.data? name = recorded.host.data? name := by
  cases outcome : (recorded.host.retransform names).1.result with
  | error failure =>
      rw [Host.data?, Host.classes_retransform_of_error outcome]
      rfl
  | ok _ =>
      obtain ⟨replaced, kept⟩ := Host.retransform_eq_ok outcome
      by_cases listed : name ∈ names
      · obtain ⟨data, now, loaded, ran, stored⟩ := replaced name listed
        rw [Host.result_runHooks] at ran
        rw [stored, loaded, settled.eq_of_runHooks settled.only loaded ran]
      · exact kept name listed

theorem serve_retransform (settled : Settled registry recorded) (names : List String) :
    Settled registry (recorded.serve registry (.retransform names)) where
  hooked := by
    rw [RecordedHost.serve, Host.hooks_retransform]
    exact settled.hooked
  only := by
    rw [RecordedHost.serve, Host.hooks_retransform]
    exact settled.only
  classes name := by
    rw [RecordedHost.serve, settled.data?_retransform names name]
    exact settled.classes name

theorem only_attach (settled : Settled registry recorded) :
    OnlyIntercepts registry (recorded.host.attach registry).2.hooks := by
  rcases recorded.host.hooks_attach registry with hooks | hooks <;> rw [hooks]
  · exact settled.only
  · exact settled.only.concat _

theorem data?_attach (settled : Settled registry recorded) (name : String) :
    (recorded.host.attach registry).2.data? name = recorded.host.data? name := by
  cases outcome : (recorded.host.attach registry).1.result with
  | error failure =>
      rw [Host.data?, (Host.eq_of_attach_eq_error outcome).1]
      rfl
  | ok _ =>
      obtain ⟨-, replaced, kept⟩ := Host.attach_eq_ok outcome
      by_cases listed : name ∈ registry.names
      · obtain ⟨data, now, loaded, ran, stored⟩ := replaced name listed
        rw [Host.result_runHooks] at ran
        rw [stored, loaded, settled.eq_of_runHooks settled.only_attach loaded ran]
      · exact kept name listed

theorem serve_attach (settled : Settled registry recorded) :
    Settled registry (recorded.serve registry .attach) where
  hooked := by
    rw [RecordedHost.serve]
    rcases recorded.host.hooks_attach registry with hooks | hooks <;> rw [hooks]
    · exact settled.hooked
    · exact List.append_ne_nil_of_right_ne_nil _ (List.cons_ne_nil _ _)
  only := settled.only_attach
  classes name := by
    rw [RecordedHost.serve, settled.data?_attach name]
    exact settled.classes name

/-- Whatever an attached host is asked to do, it stays settled. -/
theorem serve (settled : Settled registry recorded) {request : HostRequest}
    (room : ∀ name data, request = .define name data → LeavesRoom data) :
    Settled registry (recorded.serve registry request) := by
  cases request with
  | define name data => exact settled.serve_define (room name data rfl)
  | retransform names => exact settled.serve_retransform names
  | rejectNext failure => exact ⟨settled.hooked, settled.only, settled.classes⟩
  | attach => exact settled.serve_attach

theorem run (settled : Settled registry recorded) {requests : List HostRequest}
    (room : ∀ name data, .define name data ∈ requests → LeavesRoom data) :
    Settled registry (recorded.run registry requests) := by
  induction requests generalizing recorded with
  | nil => exact settled
  | cons request requests ih =>
      have served := settled.serve fun name data same => room name data (same ▸ List.mem_cons_self)
      rw [RecordedHost.run_cons]
      exact ih served fun name data member => room name data (List.mem_cons_of_mem _ member)

end Settled

/-! ### From the attachment on -/

/-- The agent settles a host in which it is the first to have a hook. -/
theorem settled_of_attached {host : Host} (noHooks : host.hooks = [])
    (slashed : ∀ name, host.data? name ≠ none → Text.slashed name = name)
    (room : ∀ name data, host.data? name = some data → LeavesRoom data)
    (attached : (host.attach registry).1.result = .ok ()) :
    Settled registry ⟨(host.attach registry).2, host.data?⟩ := by
  obtain ⟨hooks, replaced, kept⟩ := Host.attach_eq_ok attached
  rw [noHooks, List.nil_append] at hooks
  have hooked : (host.attach registry).2.hooks ≠ [] := hooks ▸ List.cons_ne_nil _ _
  have only : OnlyIntercepts registry (host.attach registry).2.hooks := by
    rw [hooks]
    exact (OnlyIntercepts.nil registry).concat _
  refine ⟨hooked, only, fun name => ?_⟩
  dsimp only
  by_cases listed : name ∈ registry.names
  · obtain ⟨data, now, loaded, ran, stored⟩ := replaced name listed
    rw [Host.result_runHooks] at ran
    rw [loaded, stored]
    exact .some (only.passedOnce hooked (room name data loaded) ran)
  · rw [kept name listed]
    cases loaded : host.data? name with
    | none => exact .none
    | some data =>
        have noTarget : registry.methodsOf (.ofName name) = [] := by
          rw [ClassIdentity.ofName, slashed name (by simp [loaded])]
          exact registry.methodsOf_of_not_mem listed
        exact .some (passedOnce_of_not_target noTarget)

/-- Whatever is asked of a host after a successful attachment, each of its classes stays
what one pass makes of the data that was last supplied for it. -/
theorem passedOnce_of_attached {host : Host} (noHooks : host.hooks = [])
    (slashed : ∀ name, host.data? name ≠ none → Text.slashed name = name)
    (room : ∀ name data, host.data? name = some data → LeavesRoom data)
    (attached : (host.attach registry).1.result = .ok ())
    {requests : List HostRequest}
    (roomLater : ∀ name data, .define name data ∈ requests → LeavesRoom data) (name : String) :
    let last := RecordedHost.run registry ⟨(host.attach registry).2, host.data?⟩ requests
    Option.Rel (PassedOnce registry name) (last.supplied name) (last.host.data? name) :=
  ((settled_of_attached noHooks slashed room attached).run roomLater).classes name

/-- Requests of all kinds: loading, replacing, a refusal, and attaching twice more. -/
def mixedRequests : List HostRequest :=
  [.define Sample.processBuilderName (Sample.processBuilder true), .rejectNext (.rejected "busy"),
    .attach, .attach, .retransform [Sample.shutdownName, Sample.shutdownName],
    .define "com/example/App" (Sample.plain "com/example/App"),
    .retransform ["com/example/App", Sample.shutdownName]]

/-- Through all of them, the class that ends the process is what one pass has made of it. -/
theorem passedOnce_hostWithTargets :
    (Sample.hostWithTargets.attach .builtin).1.result = .ok () ∧
      ∃ stored,
        (RecordedHost.run .builtin ⟨(Sample.hostWithTargets.attach .builtin).2,
          Sample.hostWithTargets.data?⟩ mixedRequests).host.data? Sample.shutdownName =
            some stored ∧
          PassedOnce .builtin Sample.shutdownName (Sample.shutdown true) stored := by
  have attached : (Sample.hostWithTargets.attach .builtin).1.result = .ok () := by
    refine (Host.attach_of_request Host.data?_hostWithTargets_ne_none ?_).1
    refine Host.retransform_of_passing rfl fun name listed => ?_
    have loaded := Host.data?_hostWithTargets_ne_none name listed
    obtain ⟨data, there⟩ := Option.ne_none_iff_exists'.mp loaded
    obtain ⟨update, success⟩ : ∃ update,
        (intercept .builtin ⟨some name, none, true, data⟩).result = .ok update := by
      rcases Host.eq_of_data?_hostWithTargets there with ⟨rfl, rfl⟩ | ⟨rfl, rfl⟩
      · exact (exists_intercept_processBuilder true).imp fun _ => And.left
      · exact (exists_intercept_shutdown true).imp fun _ => And.left
    have hooks : (Sample.hostWithTargets.withInterceptor .builtin).hooks =
      [⟨0, intercept .builtin⟩] := rfl
    refine ⟨data, update.data data, there, ?_⟩
    rw [Host.result_runHooks, hooks, Host.foldlM_runHook_of_ok success]
    rfl
  have slashed (name : String) (loaded : Sample.hostWithTargets.data? name ≠ none) :
      Text.slashed name = name := by
    obtain ⟨data, there⟩ := Option.ne_none_iff_exists'.mp loaded
    rcases Host.eq_of_data?_hostWithTargets there with ⟨rfl, -⟩ | ⟨rfl, -⟩ <;> decide
  have room (name : String) (data : Bytes)
      (loaded : Sample.hostWithTargets.data? name = some data) : LeavesRoom data := by
    rcases Host.eq_of_data?_hostWithTargets loaded with ⟨-, rfl⟩ | ⟨-, rfl⟩
    · exact leavesRoom_processBuilder
    · exact leavesRoom_shutdown
  have roomLater (name : String) (data : Bytes) (defined : .define name data ∈ mixedRequests) :
      LeavesRoom data := by
    simp only [mixedRequests, List.mem_cons, HostRequest.define.injEq, reduceCtorEq, false_or,
      List.not_mem_nil, or_false] at defined
    rcases defined with ⟨-, rfl⟩ | ⟨-, rfl⟩
    · exact leavesRoom_processBuilder
    · decide +kernel
  have related := passedOnce_of_attached rfl slashed room attached roomLater Sample.shutdownName
  have others : ∀ data, .define Sample.shutdownName data ∉ mixedRequests := by
    intro data defined
    simp [mixedRequests, Sample.shutdownName, Sample.processBuilderName] at defined
  dsimp only at related
  rw [RecordedHost.supplied_run_of_not_mem others] at related
  dsimp only at related
  rw [Host.data?_hostWithTargets_shutdown] at related
  generalize (RecordedHost.run _ _ _).host.data? Sample.shutdownName = stored at related ⊢
  cases related with
  | some passed => exact ⟨attached, _, rfl, passed⟩

end Lookout
