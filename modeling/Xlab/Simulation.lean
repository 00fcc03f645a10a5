import Xlab.Runs

/-!
# One transition function simulated by another

A concrete system `step` is compared with an abstract one `step'`. `label s e` lists what the
event `e` means to the abstract system in the concrete state `s` : several events, one, or none.
`trace` is what a whole run means.

`Simulates` is the square for one step, from related states to related states, and
`Simulates.run` the one for a run.
-/

open Runs

namespace Simulation

variable {σ τ ε δ : Type*}

section Trace

variable (step : σ → ε → σ) (label : σ → ε → List δ)

/-- The abstract events of a run. -/
def trace : σ → List ε → List δ
  | _, [] => []
  | s, e :: es => label s e ++ trace (step s e) es

theorem trace_cons (s : σ) (e : ε) (es : List ε) :
    trace step label s (e :: es) = label s e ++ trace step label (step s e) es :=
  rfl

end Trace

variable {step : σ → ε → σ} {step' : τ → δ → τ} {label : σ → ε → List δ} {R : σ → τ → Prop}
  {C : σ → ε → Prop} {D : τ → δ → Prop}

/-- The concrete steps that meet `C` are runs of the abstract system that meet `D`. -/
structure Simulates (step : σ → ε → σ) (step' : τ → δ → τ) (label : σ → ε → List δ)
    (R : σ → τ → Prop) (C : σ → ε → Prop) (D : τ → δ → Prop) : Prop where
  guarded : ∀ s t e, R s t → C s e → Guarded step' D t (label s e)
  related : ∀ s t e, R s t → C s e → R (step s e) (run step' t (label s e))

namespace Simulates

variable (h : Simulates step step' label R C D)
include h

/-- A run from related states ends in related states, and its trace meets `D`. -/
theorem run {s : σ} {t : τ} {es : List ε} (hR : R s t) (hes : Guarded step C s es) :
    Guarded step' D t (trace step label s es) ∧
      R (Runs.run step s es) (Runs.run step' t (trace step label s es)) := by
  induction es generalizing s t with
  | nil => exact ⟨trivial, hR⟩
  | cons e es ih =>
    obtain ⟨hG, hR'⟩ := ih (h.related s t e hR hes.1) hes.2
    rw [trace_cons, run_cons, run_append]
    exact ⟨guarded_append.2 ⟨h.guarded s t e hR hes.1, hG⟩, hR'⟩

end Simulates

end Simulation
