import Offside.Proofs.Runs

/-!
# Runs side by side

Two programs with states of their own run abreast: both succeed, with values and last states that
go together, or both fail, in ways that go together.  What the failures have in common is a
parameter.  A program that runs abreast of itself fails in no other ways than these.

Main definitions:

- `Outcome.Alike`: two results go together.
- `Abreast`: two programs go together from two states on.

Main results:

- Theorem `Abreast.bind`: programs that run one after the other.
-/

namespace Offside

variable {σ τ α β γ δ : Type} {alike : Failure → Failure → Prop}

/-- Two results go together: both are there and related, or both fail alike. -/
inductive Outcome.Alike (alike : Failure → Failure → Prop) (rel : α → β → Prop) :
    Outcome α → Outcome β → Prop where
  | ok {value : α} {value' : β} (h : rel value value') : Alike alike rel (.ok value) (.ok value')
  | error {failure failure' : Failure} (h : alike failure failure') :
    Alike alike rel (.error failure) (.error failure')

namespace Outcome.Alike

variable {rel : α → β → Prop} {rel' : γ → δ → Prop} {outcome : Outcome α} {outcome' : Outcome β}

/-- What follows may depend on where its values come from. -/
theorem bind_of_eq {next : α → Outcome γ} {next' : β → Outcome δ}
    (h : Alike alike rel outcome outcome')
    (hnext : ∀ value value', outcome = .ok value → outcome' = .ok value' → rel value value' →
      Alike alike rel' (next value) (next' value')) :
    Alike alike rel' (outcome >>= next) (outcome' >>= next') := by
  cases h with
  | ok hvalue => exact hnext _ _ rfl rfl hvalue
  | error hfailure => exact .error hfailure

/-- Two outcomes are followed by outcomes that are alike where the values are. -/
theorem bind {next : α → Outcome γ} {next' : β → Outcome δ} (h : Alike alike rel outcome outcome')
    (hnext : ∀ value value', rel value value' → Alike alike rel' (next value) (next' value')) :
    Alike alike rel' (outcome >>= next) (outcome' >>= next') :=
  h.bind_of_eq fun value value' _ _ => hnext value value'

/-- How values are alike may be weakened. -/
theorem mono {weaker : α → β → Prop} (h : Alike alike rel outcome outcome')
    (himp : ∀ value value', rel value value' → weaker value value') :
    Alike alike weaker outcome outcome' := by
  cases h with
  | ok hvalue => exact .ok (himp _ _ hvalue)
  | error hfailure => exact .error hfailure

/-- What the failures have in common may be said in another way, where the first is known. -/
theorem mono_failure {weaker : Failure → Failure → Prop} (h : Alike alike rel outcome outcome')
    (himp : ∀ failure failure', outcome = .error failure → alike failure failure' →
      weaker failure failure') : Alike weaker rel outcome outcome' := by
  cases h with
  | ok hvalue => exact .ok hvalue
  | error hfailure => exact .error (himp _ _ rfl hfailure)

end Outcome.Alike

/-- Started in `first` and `first'`, two programs both end, with values and in states as `post`
says, or both fail alike. -/
def Abreast (alike : Failure → Failure → Prop) (program : StateT σ Outcome α)
    (program' : StateT τ Outcome β) (first : σ) (first' : τ) (post : α → σ → β → τ → Prop) : Prop :=
  Outcome.Alike alike (fun entry entry' => post entry.1 entry.2 entry'.1 entry'.2)
    (program first) (program' first')

namespace Abreast

variable {program : StateT σ Outcome α} {program' : StateT τ Outcome β} {first last : σ}
  {first' last' : τ} {value : α} {value' : β} {post : α → σ → β → τ → Prop}

/-- Values that are given go together. -/
theorem pure (h : post value first value' first') :
    Abreast alike (Pure.pure value : StateT σ Outcome α) (Pure.pure value' : StateT τ Outcome β)
      first first' post :=
  .ok h

/-- Of two pairs of programs in a row, the second goes on from where the first has ended. -/
theorem bind {next : α → StateT σ Outcome γ} {next' : β → StateT τ Outcome δ}
    {between : α → σ → β → τ → Prop} {after : γ → σ → δ → τ → Prop}
    (hprogram : Abreast alike program program' first first' between)
    (hnext : ∀ value middle value' middle', between value middle value' middle' →
      Abreast alike (next value) (next' value') middle middle' after) :
    Abreast alike (program >>= next) (program' >>= next') first first' after :=
  Outcome.Alike.bind hprogram fun entry entry' h => hnext entry.1 entry.2 entry'.1 entry'.2 h

/-- Programs that are known to run hand on their values and last states. -/
theorem bind_runs {next : α → StateT σ Outcome γ} {next' : β → StateT τ Outcome δ}
    {after : γ → σ → δ → τ → Prop} (h : Runs program first value last)
    (h' : Runs program' first' value' last')
    (hnext : Abreast alike (next value) (next' value') last last' after) :
    Abreast alike (program >>= next) (program' >>= next') first first' after := by
  unfold Abreast
  rw [h.bind_eq, h'.bind_eq]
  exact hnext

/-- What is asked of the ends may be weakened. -/
theorem mono {weaker : α → σ → β → τ → Prop} (h : Abreast alike program program' first first' post)
    (himp : ∀ value last value' last', post value last value' last' →
      weaker value last value' last') :
    Abreast alike program program' first first' weaker :=
  Outcome.Alike.mono h fun _ _ => himp _ _ _ _

/-- Where one of two programs always ends with what is promised, so does the other. -/
theorem and_left {promise : α → σ → Prop} {allowed : Failure → Prop}
    (h : Abreast alike program program' first first' post)
    (hleft : Meets allowed program first promise) :
    Abreast alike program program' first first' fun value last value' last' =>
      promise value last ∧ post value last value' last' := by
  unfold Abreast Meets at *
  generalize program first = outcome at h hleft
  generalize program' first' = outcome' at h
  cases h with
  | ok hvalue => exact .ok ⟨hleft, hvalue⟩
  | error hfailure => exact .error hfailure

end Abreast
end Offside
