import LoadMap.Failure

/-! Two answers to one question that agree, up to what a failure says and how a value is told. -/
namespace LoadMap

variable {α β γ δ : Type} {failures : Failure → Failure → Prop}

/-- Failures of one kind that surfaced in the same modules. -/
structure Failure.Alike (one other : Failure) : Prop where
  kind : one.ctorIdx = other.ctorIdx
  trail : one.trail = other.trail
  cause : one.rootCause.ctorIdx = other.rootCause.ctorIdx

namespace Failure.Alike

variable {one other last : Failure}

theorem refl (failure : Failure) : failure.Alike failure := ⟨rfl,rfl,rfl⟩

theorem symm (alike : one.Alike other) : other.Alike one := ⟨alike.kind.symm,alike.trail.symm,alike.cause.symm⟩

theorem trans (alike : one.Alike other) (further : other.Alike last) : one.Alike last :=
  ⟨alike.kind.trans further.kind,alike.trail.trans further.trail,alike.cause.trans further.cause⟩

end Failure.Alike

/-- Both succeed or both fail, with answers that are related. -/
inductive Result.Both {α β : Type} (failures : Failure → Failure → Prop) (values : α → β → Prop) :
    Result α → Result β → Prop
  | ok {one : α} {other : β} (related : values one other) : Both failures values (.ok one) (.ok other)
  | error {one other : Failure} (related : failures one other) : Both failures values (.error one) (.error other)

namespace Result.Both

theorem self {values : α → α → Prop} (broken : ∀ failure, failures failure failure)
    (same : ∀ value, values value value) (answer : Result α) : answer.Both failures values answer := by
  cases answer with
  | ok value => exact .ok (same value)
  | error failure => exact .error (broken failure)

theorem imp {values weaker : α → β → Prop} {one : Result α} {other : Result β}
    (both : one.Both failures values other) (implies : ∀ first second, values first second → weaker first second) :
    one.Both failures weaker other := by
  cases both with
  | ok related => exact .ok (implies _ _ related)
  | error related => exact .error related

theorem map {values : α → β → Prop} {changed : γ → δ → Prop} {one : Result α} {other : Result β}
    {change : α → γ} {more : β → δ} (both : one.Both failures values other)
    (keeps : ∀ first second, values first second → changed (change first) (more second)) :
    Result.Both failures changed (change <$> one) (more <$> other) := by
  cases both with
  | ok related => exact .ok (keeps _ _ related)
  | error related => exact .error related

end Result.Both
end LoadMap
