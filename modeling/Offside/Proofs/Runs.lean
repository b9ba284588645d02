import Offside.Diagnostic

/-!
# Successful runs

A reader of tokens and a walk over a tree are both programs with a state that may refuse the
source.  This module says when such a program succeeds, step by step, and what is known of
its result when nothing is known of its success.

Main definitions:

- `Runs`: a program gives a value and ends in a state.
- `Meets`: a program keeps a promise about its value and last state, or fails as it may.

Main results:

- Theorem `Runs.bind`: programs run one after the other.
- Theorem `Meets.bind`: promises of programs that run one after the other.
-/

namespace Offside

variable {σ α β : Type}

/-- Started in `first`, a program gives a value and ends in `last`. -/
def Runs (program : StateT σ Outcome α) (first : σ) (value : α) (last : σ) : Prop :=
  program first = .ok (value, last)

namespace Runs

/-- A value is given without a change of the state. -/
theorem pure (value : α) (state : σ) :
    Runs (Pure.pure value : StateT σ Outcome α) state value state := rfl

/-- Two programs run one after the other, the second from where the first ends. -/
theorem bind {program : StateT σ Outcome α} {next : α → StateT σ Outcome β} {first middle last : σ}
    {value : α} {result : β} (hprogram : Runs program first value middle)
    (hnext : Runs (next value) middle result last) : Runs (program >>= next) first result last := by
  have hbind : (program >>= next) first =
      (program first).bind fun entry => next entry.1 entry.2 := rfl
  unfold Runs at hprogram hnext ⊢
  rw [hbind, hprogram]
  exact hnext

/-- A program that goes on from a value goes on from where the program before it ends. -/
theorem bind_eq {program : StateT σ Outcome α} {next : α → StateT σ Outcome β}
    {first middle : σ} {value : α} (hprogram : Runs program first value middle) :
    (program >>= next) first = next value middle := by
  have hbind : (program >>= next) first =
      (program first).bind fun entry => next entry.1 entry.2 := rfl
  rw [hbind, hprogram]
  rfl

end Runs

/-- Of two programs in a row, the first may be put in another way that comes to the same. -/
theorem bind_eq_of_eq {program program' : StateT σ Outcome α} {first : σ}
    (h : program first = program' first) (next : α → StateT σ Outcome β) :
    (program >>= next) first = (program' >>= next) first :=
  congrArg (fun outcome : Outcome (α × σ) => outcome.bind fun entry => next entry.1 entry.2) h

/-! ## Promises -/

/-- Started in `first`, a program ends with a value and in a state as `post` says, or fails in
a way that is allowed. -/
def Meets (allowed : Failure → Prop) (program : StateT σ Outcome α) (first : σ)
    (post : α → σ → Prop) : Prop :=
  match program first with
  | .ok (value, last) => post value last
  | .error failure => allowed failure

/-- What a program ends with if it succeeds. -/
abbrev OnSuccess (program : StateT σ Outcome α) (first : σ) (post : α → σ → Prop) : Prop :=
  Meets (fun _ => True) program first post

/-- A program ends, and what it ends with if it succeeds. -/
abbrev Terminates (program : StateT σ Outcome α) (first : σ) (post : α → σ → Prop) : Prop :=
  Meets (fun failure => failure ≠ .unfinished) program first post

namespace Meets

variable {allowed : Failure → Prop} {first last : σ} {value : α} {post post' : α → σ → Prop}
  {program : StateT σ Outcome α}

/-- A value keeps what it has already. -/
theorem pure (h : post value first) :
    Meets allowed (Pure.pure value : StateT σ Outcome α) first post := h

/-- A failure has to be allowed. -/
theorem throw {failure : Failure} (h : allowed failure) :
    Meets allowed (throw failure : StateT σ Outcome α) first post := h

/-- What a program promises is true of each of its runs. -/
theorem of_runs (h : Meets allowed program first post) (hruns : Runs program first value last) :
    post value last := by
  unfold Meets at h
  rw [hruns] at h
  exact h

/-- A failure is one of those that are allowed. -/
theorem of_error {failure : Failure} (h : Meets allowed program first post)
    (hprogram : program first = .error failure) : allowed failure := by
  unfold Meets at h
  rw [hprogram] at h
  exact h

/-- A program that is known to run keeps the promise that is true of this run. -/
theorem runs (hruns : Runs program first value last) (h : post value last) :
    Meets allowed program first post := by
  unfold Meets
  rw [hruns]
  exact h

/-- Of two programs in a row, the second goes on from what the first has promised. -/
theorem bind {next : α → StateT σ Outcome β} {between : α → σ → Prop} {after : β → σ → Prop}
    (hprogram : Meets allowed program first between)
    (hnext : ∀ value middle, between value middle → Meets allowed (next value) middle after) :
    Meets allowed (program >>= next) first after := by
  unfold Meets at hprogram ⊢
  have hbind : (program >>= next) first =
      (program first).bind fun entry => next entry.1 entry.2 := rfl
  rw [hbind]
  cases hrun : program first with
  | error failure =>
    rw [hrun] at hprogram
    exact hprogram
  | ok entry =>
    rw [hrun] at hprogram
    exact hnext entry.1 entry.2 hprogram

/-- A program that is known to run hands on its value and its last state. -/
theorem bind_runs {next : α → StateT σ Outcome β} {after : β → σ → Prop}
    (hruns : Runs program first value last) (hnext : Meets allowed (next value) last after) :
    Meets allowed (program >>= next) first after := by
  unfold Meets
  rw [Runs.bind_eq hruns]
  exact hnext

/-- What follows may be put in another way that comes to the same. -/
theorem bind_congr {next next' : α → StateT σ Outcome β} {between : α → σ → Prop}
    (h : Meets allowed program first between)
    (hnext : ∀ value middle, between value middle → next value middle = next' value middle) :
    (program >>= next) first = (program >>= next') first := by
  have hbind (next : α → StateT σ Outcome β) : (program >>= next) first =
      (program first).bind fun entry => next entry.1 entry.2 := rfl
  unfold Meets at h
  rw [hbind, hbind]
  cases hrun : program first with
  | error failure => rfl
  | ok entry =>
    rw [hrun] at h
    exact hnext entry.1 entry.2 h

/-- What is promised may be weakened. -/
theorem mono (h : Meets allowed program first post)
    (himp : ∀ value last, post value last → post' value last) :
    Meets allowed program first post' := by
  unfold Meets at h ⊢
  cases hrun : program first with
  | error failure =>
    rw [hrun] at h
    exact h
  | ok entry =>
    rw [hrun] at h
    exact himp entry.1 entry.2 h

end Meets

/-- Of two stages in a row, the first fails, or else the second. -/
theorem Outcome.bind_eq_error {stage : Outcome α} {next : α → Outcome β} {failure : Failure}
    (h : stage >>= next = .error failure) :
    stage = .error failure ∨ ∃ value, stage = .ok value ∧ next value = .error failure := by
  cases stage with
  | error other =>
    cases h
    exact .inl rfl
  | ok value => exact .inr ⟨value, rfl, h⟩

/-- Every program promises nothing. -/
theorem onSuccess_true (program : StateT σ Outcome α) {first : σ} :
    OnSuccess program first fun _ _ => True := by
  unfold OnSuccess Meets
  split <;> trivial

end Offside
