import Mathlib.Data.List.Basic

/-!
# Runs of labelled systems

A labelled system is a step function together with the labels each state
permits.  Everything nondeterministic about a step (what the user typed, the
order a query came back in, whether a write went through) is carried by its
label, so the step itself is a function and a run is determined by its labels.

* `LabelledSystem.Run T start labels state` — taking `labels` in order from
  `start`, each one enabled where it is taken, ends in `state`.
* `Run.invariant` — what the start state has and every enabled step keeps, every
  state of every run has.
* `restrict` — the same system with fewer permitted labels; its runs are runs of
  the original one.

Labels are appended on the right, so that a run's last step is the one an
induction peels off.
-/

universe u v

/-- A step function and the labels each state permits. -/
structure LabelledSystem (σ : Type u) (α : Type v) where
  /-- The labels that may be taken in a state. -/
  enabled : σ → α → Prop
  /-- The state a label leads to. -/
  step : σ → α → σ

namespace LabelledSystem

variable {σ : Type u} {α : Type v}

/-- `Run T start labels state`: the enabled steps `labels`, taken in order from
`start`, end in `state`. -/
inductive Run (T : LabelledSystem σ α) (start : σ) : List α → σ → Prop
  | nil : Run T start [] start
  | snoc {labels : List α} {state : σ} {label : α} :
      Run T start labels state → T.enabled state label →
        Run T start (labels ++ [label]) (T.step state label)

variable {T : LabelledSystem σ α} {start state : σ} {labels : List α}

/-- **The invariant rule.**  A property of the start state that every enabled
step preserves holds in every state of every run. -/
theorem Run.invariant {I : σ → Prop} (run : T.Run start labels state)
    (init : I start)
    (keep : ∀ state label, T.enabled state label → I state → I (T.step state label)) :
    I state := by
  induction run with
  | nil => exact init
  | snoc _ permitted ih => exact keep _ _ permitted ih

/-- A run continued by one more run is a run. -/
theorem Run.append {middle : σ} {more : List α} (first : T.Run start labels middle)
    (second : T.Run middle more state) : T.Run start (labels ++ more) state := by
  induction second with
  | nil => simpa using first
  | snoc _ permitted ih =>
      rw [← List.append_assoc]
      exact Run.snoc ih permitted

/-- A run with one more step in front is a run. -/
theorem Run.cons {label : α} (permitted : T.enabled start label)
    (rest : T.Run (T.step start label) labels state) : T.Run start (label :: labels) state :=
  Run.append (Run.snoc Run.nil permitted) rest

/-- The system with the labels of `T` that also meet `guard`. -/
def restrict (T : LabelledSystem σ α) (guard : σ → α → Prop) : LabelledSystem σ α where
  enabled state label := T.enabled state label ∧ guard state label
  step := T.step

/-- A run under a guard is a run without it. -/
theorem Run.of_restrict {guard : σ → α → Prop}
    (run : (T.restrict guard).Run start labels state) : T.Run start labels state := by
  induction run with
  | nil => exact Run.nil
  | snoc _ permitted ih => exact Run.snoc ih permitted.1

/-- The invariant rule for runs under a guard. -/
theorem Run.invariant_restrict {guard : σ → α → Prop} {I : σ → Prop}
    (run : (T.restrict guard).Run start labels state) (init : I start)
    (keep : ∀ state label, T.enabled state label → guard state label → I state →
      I (T.step state label)) : I state :=
  run.invariant init fun state label permitted => keep state label permitted.1 permitted.2

end LabelledSystem
