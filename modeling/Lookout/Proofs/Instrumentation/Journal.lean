/-
# Attempts and their results

An attempt tells of events on its way to a result. Attempts obey the laws of
sequencing, and what comes of a row of them does not depend on what they tell: it is
what comes of the row of their results.
-/

import Lookout.Instrumentation.Journal
import Lookout.Proofs.Effect

namespace Lookout.Attempt

variable {ε δ α β : Type}

instance : LawfulMonad (Attempt ε) := LawfulMonad.mk' (Attempt ε)
  (by
    rintro α ⟨events, result⟩
    cases result <;> simp [Functor.map, Attempt.bind, Attempt.pure])
  (by
    intro α β value next
    simp [bind, pure, Attempt.bind, Attempt.pure])
  (by
    rintro α β γ ⟨events, result⟩ next last
    cases result with
    | error failure => rfl
    | ok value =>
        simp only [bind, Attempt.bind]
        cases (next value).result <;> simp)

@[simp]
theorem result_mapError (change : ε → δ) (attempt : Attempt ε α) :
    (attempt.mapError change).result = attempt.result.mapError change := rfl

@[simp]
theorem result_noteFailure (event : ε → Event) (attempt : Attempt ε α) :
    (attempt.noteFailure event).result = attempt.result := by
  unfold noteFailure
  split <;> rfl

theorem result_foldlM (step : β → α → Attempt ε β) (start : β) (values : List α) :
    (values.foldlM step start).result =
      values.foldlM (fun reached value => (step reached value).result) start := by
  induction values generalizing start with
  | nil => rfl
  | cons value values ih =>
      rw [List.foldlM_cons, List.foldlM_cons, result_bind]
      simp only [ih]

theorem result_mapM (change : α → Attempt ε β) (values : List α) :
    (values.mapM change).result = values.mapM fun value => (change value).result := by
  induction values with
  | nil => rfl
  | cons value values ih =>
      simp only [List.mapM_cons, result_bind, ih]
      rfl

end Lookout.Attempt
