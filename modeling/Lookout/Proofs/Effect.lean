/-
# Actions whose effects survive failure

Interning, assembly and class edits all thread a state that is kept when they
fail. The first part opens such actions: what a sequence does is what its parts
do, one after the other. The second says when an action keeps a property of the
state, whether it succeeds or not; a sequence keeps what both of its parts keep.
-/

import Lookout.ConstantPool.Interning
import Mathlib.Data.List.Forall2

namespace Lookout

/-- A sequence of computations succeeds exactly if both of them do. -/
theorem bindExcept_eq_ok_iff {ε α β : Type} {first : Except ε α} {next : α → Except ε β}
    {value : β} :
    (first >>= next) = .ok value ↔ ∃ middle, first = .ok middle ∧ next middle = .ok value := by
  cases first with
  | error failure =>
      constructor
      · intro impossible
        cases impossible
      · rintro ⟨_, impossible, _⟩
        cases impossible
  | ok middle =>
      constructor
      · intro success
        exact ⟨middle, rfl, success⟩
      · rintro ⟨_, same, success⟩
        cases same
        exact success

/-- A list is run through member by member. -/
theorem mapExcept_eq_ok_iff {ε α β : Type} {change : α → Except ε β} {values : List α}
    {results : List β} :
    values.mapM change = .ok results ↔
      List.Forall₂ (fun value result => change value = .ok result) values results := by
  induction values generalizing results with
  | nil =>
      rw [List.mapM_nil, List.forall₂_nil_left_iff]
      exact ⟨fun same => by cases same; rfl, fun same => by rw [same]; rfl⟩
  | cons value values ih =>
      rw [List.mapM_cons, bindExcept_eq_ok_iff, List.forall₂_cons_left_iff]
      constructor
      · rintro ⟨result, success, later⟩
        obtain ⟨laterResults, laterSuccess, same⟩ := bindExcept_eq_ok_iff.mp later
        cases same
        exact ⟨result, laterResults, success, ih.mp laterSuccess, rfl⟩
      · rintro ⟨result, laterResults, success, laterSuccess, rfl⟩
        exact ⟨result, success, bindExcept_eq_ok_iff.mpr ⟨laterResults, ih.mpr laterSuccess, rfl⟩⟩

/-- Of two lists that are related member by member, each member of the second has one of
the first that it is related to. -/
theorem exists_of_mem_forall₂ {α β : Type} {related : α → β → Prop} {values : List α}
    {results : List β} {result : β} (pairs : List.Forall₂ related values results)
    (member : result ∈ results) : ∃ value ∈ values, related value result := by
  induction pairs with
  | nil => cases member
  | cons pair _ ih =>
      cases member with
      | head => exact ⟨_, List.mem_cons_self, pair⟩
      | tail _ later =>
          obtain ⟨value, there, related⟩ := ih later
          exact ⟨value, List.mem_cons_of_mem _ there, related⟩

theorem mapExcept_congr {ε α β : Type} {change other : α → Except ε β} {values : List α}
    (same : ∀ value ∈ values, change value = other value) :
    values.mapM change = values.mapM other := by
  induction values with
  | nil => rfl
  | cons value values ih =>
      rw [List.mapM_cons, List.mapM_cons, same value List.mem_cons_self,
        ih fun later member => same later (List.mem_cons_of_mem value member)]

/-- If each member is related to something, there is a list that is related member by
member. -/
theorem exists_forall₂ {α β : Type} {related : α → β → Prop} {values : List α}
    (exists_related : ∀ value ∈ values, ∃ result, related value result) :
    ∃ results, List.Forall₂ related values results := by
  induction values with
  | nil => exact ⟨[], .nil⟩
  | cons value values ih =>
      obtain ⟨result, pair⟩ := exists_related value List.mem_cons_self
      obtain ⟨results, pairs⟩ := ih fun other member =>
        exists_related other (List.mem_cons_of_mem value member)
      exact ⟨result :: results, .cons pair pairs⟩

/-- A list all of whose members pass is run through to the end. -/
theorem exists_mapExcept_eq_ok {ε α β : Type} {change : α → Except ε β} {values : List α}
    (passes : ∀ value ∈ values, ∃ result, change value = .ok result) :
    ∃ results, values.mapM change = .ok results :=
  (exists_forall₂ passes).imp fun _ => mapExcept_eq_ok_iff.mpr

/-- A list is run through up to the first member that fails, and fails as that one does. -/
theorem mapExcept_eq_error {ε α β : Type} {change : α → Except ε β} {before later : List α}
    {value : α} {failure : ε} (passes : ∀ earlier ∈ before, ∃ result, change earlier = .ok result)
    (fails : change value = .error failure) :
    (before ++ value :: later).mapM change = .error failure := by
  obtain ⟨results, success⟩ := exists_mapExcept_eq_ok passes
  rw [List.mapM_append, success, List.mapM_cons, fails]
  rfl

/-- A row of steps fails as the first of them does that fails, on what the steps before
it have come to. -/
theorem foldlExcept_eq_error_iff {ε α β : Type} {step : β → α → Except ε β} {start : β}
    {values : List α} {failure : ε} :
    values.foldlM step start = .error failure ↔
      ∃ before value later reached, values = before ++ value :: later ∧
        before.foldlM step start = .ok reached ∧ step reached value = .error failure := by
  constructor
  · intro failed
    induction values generalizing start with
    | nil => cases failed
    | cons value values ih =>
        rw [List.foldlM_cons] at failed
        cases stepped : step start value with
        | error early =>
            rw [stepped] at failed
            cases failed
            exact ⟨[], value, values, start, rfl, rfl, stepped⟩
        | ok next =>
            rw [stepped] at failed
            obtain ⟨before, other, later, reached, rfl, success, fails⟩ := ih failed
            exact ⟨value :: before, other, later, reached, rfl,
              bindExcept_eq_ok_iff.mpr ⟨next, stepped, success⟩, fails⟩
  · rintro ⟨before, value, later, reached, rfl, success, fails⟩
    rw [List.foldlM_append, success]
    show List.foldlM step reached (value :: later) = _
    rw [List.foldlM_cons, fails]
    rfl

theorem eq_ok_of_toOption {ε α : Type} {result : Except ε α} {value : α}
    (present : result.toOption = some value) : result = .ok value := by
  cases result with
  | error failure => cases present
  | ok found =>
      cases present
      rfl

/-- Whether a computation succeeds with a result that passes a test. -/
instance decidableExistsOk {ε α : Type} (result : Except ε α) (test : α → Prop)
    [DecidablePred test] : Decidable (∃ value, result = .ok value ∧ test value) :=
  match result with
  | .error _ => isFalse fun ⟨_, same, _⟩ => nomatch same
  | .ok value => decidable_of_iff (test value)
      ⟨fun passes => ⟨value, rfl, passes⟩, fun ⟨_, same, passes⟩ => by cases same; exact passes⟩

namespace Effect

variable {ε σ α β : Type}

/-- What a sequence does: the second part starts in the state that the first one
left, unless that one failed. -/
theorem bind_apply (first : ExceptT ε (StateM σ) α) (next : α → ExceptT ε (StateM σ) β)
    (state : σ) :
    (first >>= next) state =
      match first state with
      | (.ok value, between) => next value between
      | (.error failure, between) => (.error failure, between) := by
  show (match first state with | (result, between) => ExceptT.bindCont next result between) = _
  obtain ⟨result, between⟩ := first state
  cases result <;> rfl

theorem bind_eq_ok_iff {first : ExceptT ε (StateM σ) α} {next : α → ExceptT ε (StateM σ) β}
    {state last : σ} {value : β} :
    (first >>= next) state = (.ok value, last) ↔
      ∃ middle between, first state = (.ok middle, between) ∧
        next middle between = (.ok value, last) := by
  rw [bind_apply]
  obtain ⟨result, between⟩ := first state
  cases result with
  | error failure =>
      constructor
      · intro impossible
        cases impossible
      · rintro ⟨_, _, impossible, _⟩
        cases impossible
  | ok middle =>
      constructor
      · intro success
        exact ⟨middle, between, rfl, success⟩
      · rintro ⟨_, _, same, success⟩
        cases same
        exact success

/-- Whatever comes of the action, the state has the property afterwards if it had it
before. -/
def Keeps (property : σ → Prop) (action : ExceptT ε (StateM σ) α) : Prop :=
  ∀ state, property state → property (action state).2

variable {property : σ → Prop}

theorem Keeps.bind {first : ExceptT ε (StateM σ) α} {next : α → ExceptT ε (StateM σ) β}
    (keeps : Keeps property first) (keepsNext : ∀ value, Keeps property (next value)) :
    Keeps property (first >>= next) := by
  intro state holds
  have between := keeps state holds
  rw [bind_apply]
  split
  · rename_i value between_eq same
    rw [same] at between
    exact keepsNext value _ between
  · rename_i failure between_eq same
    rw [same] at between
    exact between

end Effect

namespace Interning

open Effect

section Keeps

variable {property : ConstantPool → Prop} (allowed : Constant → Prop)

/-- Interning a text keeps what interning constants of the allowed kind keeps. -/
theorem keeps_utf8
    (keeps : ∀ constant, allowed constant → Keeps property (Interning.constant constant))
    {text : String} (allow : allowed (.utf8 (Text.ModifiedUtf8.encode text))) :
    Keeps property (utf8 text) :=
  keeps _ allow

variable (keeps : ∀ constant, allowed constant → Keeps property (Interning.constant constant))
  (allowIndices : ∀ constant, (∀ bytes, constant ≠ .utf8 bytes) → allowed constant)

include keeps allowIndices

theorem keeps_classInfo {name : String} (allow : allowed (.utf8 (Text.ModifiedUtf8.encode name))) :
    Keeps property (classInfo name) :=
  (keeps_utf8 allowed keeps allow).bind fun _ => keeps _ (allowIndices _ fun _ => nofun)

theorem keeps_string {text : String} (allow : allowed (.utf8 (Text.ModifiedUtf8.encode text))) :
    Keeps property (string text) :=
  (keeps_utf8 allowed keeps allow).bind fun _ => keeps _ (allowIndices _ fun _ => nofun)

theorem keeps_nameAndType {name descriptor : String}
    (allowName : allowed (.utf8 (Text.ModifiedUtf8.encode name)))
    (allowDescriptor : allowed (.utf8 (Text.ModifiedUtf8.encode descriptor))) :
    Keeps property (nameAndType name descriptor) :=
  (keeps_utf8 allowed keeps allowName).bind fun _ =>
    (keeps_utf8 allowed keeps allowDescriptor).bind fun _ =>
      keeps _ (allowIndices _ fun _ => nofun)

/-- Interning a reference keeps what interning its parts and the reference keeps. -/
theorem keeps_reference {make : UInt16 → UInt16 → Constant}
    (allowReference : ∀ owner pair, allowed (make owner pair)) {member : MemberReference}
    (allowOwner : allowed (.utf8 (Text.ModifiedUtf8.encode member.owner)))
    (allowName : allowed (.utf8 (Text.ModifiedUtf8.encode member.name)))
    (allowDescriptor : allowed (.utf8 (Text.ModifiedUtf8.encode member.descriptor))) :
    Keeps property (reference make member) :=
  (keeps_classInfo allowed keeps allowIndices allowOwner).bind fun _ =>
    (keeps_nameAndType allowed keeps allowIndices allowName allowDescriptor).bind fun _ =>
      keeps _ (allowReference _ _)

end Keeps

end Interning

end Lookout
