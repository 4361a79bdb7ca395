import Mathlib.Logic.Basic

/-!
# Simulation of machines with outputs

A machine answers every operation and moves on: `step : σ → ω → σ × ο`. `outputs` are
the answers to a list of operations, `after` is the state behind them.

`Simulates.outputs_eq` is the refinement rule: a relation that one operation keeps, with
equal answers, makes all answers of two machines equal.
-/

namespace Simulation

variable {σ τ ω ο : Type*}

/-- The state behind the operations. -/
def after (step : σ → ω → σ × ο) : σ → List ω → σ
  | s, [] => s
  | s, op :: ops => after step (step s op).1 ops

/-- The answers to the operations, in order. -/
def outputs (step : σ → ω → σ × ο) : σ → List ω → List ο
  | _, [] => []
  | s, op :: ops => (step s op).2 :: outputs step (step s op).1 ops

theorem after_concat (step : σ → ω → σ × ο) (s : σ) (ops : List ω) (op : ω) :
    after step s (ops ++ [op]) = (step (after step s ops) op).1 := by
  induction ops generalizing s with
  | nil => rfl
  | cons op' ops ih => exact ih (step s op').1

/-- One operation keeps `R` and is answered alike. -/
def Simulates (R : σ → τ → Prop) (step : σ → ω → σ × ο) (step' : τ → ω → τ × ο) : Prop :=
  ∀ s t op, R s t → R (step s op).1 (step' t op).1 ∧ (step s op).2 = (step' t op).2

variable {R : σ → τ → Prop} {step : σ → ω → σ × ο} {step' : τ → ω → τ × ο} {s : σ} {t : τ}

theorem Simulates.after_rel (h : Simulates R step step') (hR : R s t) (ops : List ω) :
    R (after step s ops) (after step' t ops) := by
  induction ops generalizing s t with
  | nil => exact hR
  | cons op ops ih => exact ih (h s t op hR).1

theorem Simulates.outputs_eq (h : Simulates R step step') (hR : R s t) (ops : List ω) :
    outputs step s ops = outputs step' t ops := by
  induction ops generalizing s t with
  | nil => rfl
  | cons op ops ih =>
    obtain ⟨hR', ho⟩ := h s t op hR
    rw [outputs, outputs, ho, ih hR']

end Simulation
