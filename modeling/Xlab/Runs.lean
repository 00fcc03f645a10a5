import Mathlib.Data.List.Infix
import Mathlib.Tactic.Common

/-!
# Runs of a transition function

A system is a function `step : σ → ε → σ`. `run` takes a list of events in order.
`Guarded C` says that every step of a run meets `C` in the state it starts from.

`run_invariant` is the induction behind every result about whole runs : an invariant
kept by the guarded steps holds at the end of a guarded run. `prefixes_iff_guarded`
is its exact form. If the steps that meet `C` keep an invariant `I`, and under `I` a step
that does not meet `C` ends outside `P`, then the runs that stay in `P` are the guarded ones.
-/

namespace Runs

variable {σ ε : Type*} (step : σ → ε → σ)

/-- The state after the events `es`. -/
def run (s : σ) (es : List ε) : σ :=
  es.foldl step s

@[simp] theorem run_nil (s : σ) : run step s [] = s :=
  rfl

@[simp] theorem run_cons (s : σ) (e : ε) (es : List ε) :
    run step s (e :: es) = run step (step s e) es :=
  rfl

@[simp] theorem run_append (s : σ) (es fs : List ε) :
    run step s (es ++ fs) = run step (run step s es) fs :=
  List.foldl_append

/-- Every step of the run from `s` meets `C` in the state it starts from. -/
def Guarded (C : σ → ε → Prop) : σ → List ε → Prop
  | _, [] => True
  | s, e :: es => C s e ∧ Guarded C (step s e) es

variable {step} {C : σ → ε → Prop} {I : σ → Prop}

theorem guarded_append {s : σ} {es fs : List ε} :
    Guarded step C s (es ++ fs) ↔ Guarded step C s es ∧ Guarded step C (run step s es) fs := by
  induction es generalizing s with
  | nil => simp [Guarded]
  | cons e es ih => simp [Guarded, ih, and_assoc]

theorem guarded_and {D : σ → ε → Prop} {s : σ} {es : List ε} :
    Guarded step (fun s e => C s e ∧ D s e) s es ↔ Guarded step C s es ∧ Guarded step D s es := by
  induction es generalizing s with
  | nil => simp [Guarded]
  | cons e es ih => simp only [Guarded, ih, and_and_and_comm]

theorem guarded_of_forall {es : List ε} (h : ∀ e ∈ es, ∀ s, C s e) (s : σ) :
    Guarded step C s es := by
  induction es generalizing s with
  | nil => trivial
  | cons e es ih =>
    exact ⟨h e List.mem_cons_self s, ih (fun e he => h e (List.mem_cons_of_mem _ he)) _⟩

/-- Conditions that agree under an invariant of the steps guard the same runs. -/
theorem guarded_congr {D : σ → ε → Prop} (hstep : ∀ s e, I s → I (step s e))
    (h : ∀ s e, I s → (C s e ↔ D s e)) {s : σ} (hs : I s) {es : List ε} :
    Guarded step C s es ↔ Guarded step D s es := by
  induction es generalizing s with
  | nil => exact Iff.rfl
  | cons e es ih => rw [Guarded, Guarded, h s e hs, ih (hstep s e hs)]

theorem guarded_map {τ : Type*} {step' : τ → ε → τ} {f : σ → τ}
    (hf : ∀ s e, f (step s e) = step' (f s) e) {D : τ → ε → Prop} {s : σ} {es : List ε} :
    Guarded step (fun s e => D (f s) e) s es ↔ Guarded step' D (f s) es := by
  induction es generalizing s with
  | nil => exact Iff.rfl
  | cons e es ih => rw [Guarded, Guarded, ih, hf]

/-- An invariant of the guarded steps holds at the end of a guarded run. -/
theorem run_invariant (hstep : ∀ s e, I s → C s e → I (step s e)) {s : σ} {es : List ε}
    (hs : I s) (h : Guarded step C s es) : I (run step s es) := by
  induction es generalizing s with
  | nil => exact hs
  | cons e es ih => exact ih (hstep s e hs h.1) h.2

/-- An invariant of all steps holds at the end of every run. -/
theorem run_keeps (hstep : ∀ s e, I s → I (step s e)) {s : σ} (hs : I s) (es : List ε) :
    I (run step s es) :=
  run_invariant (C := fun _ _ => True) (fun s e h _ => hstep s e h) hs
    (guarded_of_forall (fun _ _ _ => trivial) s)

/-- If the steps that meet `C` keep `I`, which implies `P`, and the other steps out of `I`
leave `P`, a run visits states of `P` only exactly when it is guarded. -/
theorem prefixes_iff_guarded {A : σ → ε → Prop} {P : σ → Prop} (hP : ∀ s, I s → P s)
    (hstep : ∀ s e, I s → A s e → C s e → I (step s e))
    (hexact : ∀ s e, I s → A s e → P (step s e) → C s e) {s : σ} (hs : I s) {es : List ε}
    (hA : Guarded step A s es) :
    (∀ pre, pre <+: es → P (run step s pre)) ↔ Guarded step C s es := by
  induction es generalizing s with
  | nil => simpa [Guarded] using hP s hs
  | cons e es ih =>
    have hcons : ∀ a pre, a :: pre <+: e :: es ↔ a = e ∧ pre <+: es := fun a pre =>
      List.cons_prefix_cons
    constructor
    · intro h
      have hC : C s e := hexact s e hs hA.1 (h [e] ⟨es, rfl⟩)
      refine ⟨hC, (ih (hstep s e hs hA.1 hC) hA.2).1 fun pre hpre => ?_⟩
      exact h (e :: pre) ((hcons e pre).2 ⟨rfl, hpre⟩)
    · rintro ⟨hC, hG⟩ pre hpre
      cases pre with
      | nil => exact hP s hs
      | cons a pre =>
        obtain ⟨rfl, hpre'⟩ := (hcons a pre).1 hpre
        exact (ih (hstep s a hs hA.1 hC) hA.2).2 hG pre hpre'

end Runs
