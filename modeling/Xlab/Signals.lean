import Mathlib.Data.Set.Basic
import Mathlib.Tactic.Common
import Xlab.Runs

/-!
# Publishing behind a counter

A publisher puts items where any number of readers find them, and then adds one to a
counter. A reader that sees the counter takes it, which sets it to zero, takes it again
until it is zero, and then collects everything that was published. Taking and collecting
are separate steps, and so are publishing and adding.

No item is forgotten (`run_announced`) : while something published was not collected, the
counter is not zero, or the publisher is about to add to it, or some reader took it and has
not collected yet. It does not matter that the counter may refuse to grow, as long as it
does so only while it is not zero.
-/

namespace Signals

/-- Where a reader is. `took` tells whether it took anything off the counter since it was last
idle. -/
inductive Phase where
  | idle
  | clearing (took : Bool)
  | entering (took : Bool)
  deriving DecidableEq, Repr

/-- `fresh` are the items published and not collected since. -/
structure State (ι τ : Type*) where
  fresh : Set ι
  counter : ℕ
  signalling : Bool
  reader : τ → Phase

/-- The steps of the publisher and of the readers. -/
inductive Event (ι τ : Type*) where
  | publish (items : Set ι)
  | signal (added : Bool)
  | take (t : τ)
  | takeAgain (t : τ)
  | collect (t : τ)

variable {ι τ : Type*} [DecidableEq τ]

/-- A reader goes to another phase. -/
def State.setReader (s : State ι τ) (t : τ) (p : Phase) : State ι τ :=
  { s with reader := Function.update s.reader t p }

/-- One step. A step whose turn it is not changes nothing. -/
def step (s : State ι τ) : Event ι τ → State ι τ
  | .publish items =>
    if s.signalling then s else { s with fresh := s.fresh ∪ items, signalling := true }
  | .signal added =>
    if s.signalling then
      { s with counter := if added then s.counter + 1 else s.counter, signalling := false }
    else s
  | .take t =>
    match s.reader t with
    | .idle => { s.setReader t (.clearing (s.counter ≠ 0)) with counter := 0 }
    | _ => s
  | .takeAgain t =>
    match s.reader t with
    | .clearing took =>
      if s.counter = 0 then s.setReader t (.entering took)
      else { s.setReader t (.clearing true) with counter := 0 }
    | _ => s
  | .collect t =>
    match s.reader t with
    | .entering _ => { s.setReader t .idle with fresh := ∅ }
    | _ => s

/-- The counter refuses to grow only while it is not zero. -/
def Counts (s : State ι τ) : Event ι τ → Prop
  | .signal added => added = true ∨ s.counter ≠ 0
  | _ => True

/-- The reader took something off the counter and has not collected yet. -/
def Phase.underway : Phase → Bool
  | .idle => false
  | .clearing took => took
  | .entering took => took

/-- Something tells a reader to collect. -/
def Announced (s : State ι τ) : Prop :=
  s.counter ≠ 0 ∨ s.signalling = true ∨ ∃ t, (s.reader t).underway = true

/-- A reader that is under way stays so when another moves, or when it goes on to such a phase. -/
theorem underway_update {reader : τ → Phase} {t u : τ} {p : Phase}
    (hu : (reader u).underway = true) (ht : (reader t).underway = true → p.underway = true) :
    ((Function.update reader t p) u).underway = true := by
  by_cases h : u = t
  · subst h
    rw [Function.update_self]
    exact ht hu
  · rwa [Function.update_of_ne h]

/-- A step keeps an announcement, or collects everything. -/
theorem announced_step {s : State ι τ} {e : Event ι τ} (hC : Counts s e) (h : Announced s) :
    Announced (step s e) ∨ (step s e).fresh = ∅ := by
  cases e with
  | publish items =>
    rw [step]
    split_ifs with hs
    · exact Or.inl h
    · exact Or.inl (Or.inr (Or.inl rfl))
  | signal added =>
    rw [step]
    split_ifs with hs ha
    · exact Or.inl (Or.inl (Nat.succ_ne_zero _))
    · exact Or.inl (Or.inl (hC.resolve_left ha))
    · exact Or.inl h
  | take t =>
    rw [step]
    split
    · rename_i hidle
      left
      rcases h with hc | hs | ⟨u, hu⟩
      · exact Or.inr (Or.inr ⟨t, by simp [State.setReader, Phase.underway, hc]⟩)
      · exact Or.inr (Or.inl hs)
      · exact Or.inr (Or.inr ⟨u, underway_update hu (by simp [hidle, Phase.underway])⟩)
    · exact Or.inl h
  | takeAgain t =>
    rw [step]
    split
    · rename_i took hclear
      left
      split_ifs with hzero
      · rcases h with hc | hs | ⟨u, hu⟩
        · exact absurd hzero hc
        · exact Or.inr (Or.inl hs)
        · exact Or.inr (Or.inr ⟨u, underway_update hu (by simp [hclear, Phase.underway])⟩)
      · exact Or.inr (Or.inr ⟨t, by simp [State.setReader, Phase.underway]⟩)
    · exact Or.inl h
  | collect t =>
    rw [step]
    split
    · exact Or.inr rfl
    · exact Or.inl h

/-- Only a publication makes items fresh, and it leaves the publisher about to signal. -/
theorem fresh_step (s : State ι τ) (e : Event ι τ) :
    (step s e).fresh = s.fresh ∨ (step s e).fresh = ∅ ∨ (step s e).signalling = true := by
  cases e with
  | publish items =>
    rw [step]
    split_ifs
    · exact Or.inl rfl
    · exact Or.inr (Or.inr rfl)
  | signal added =>
    rw [step]
    split_ifs <;> exact Or.inl rfl
  | take t =>
    rw [step]
    split <;> exact Or.inl rfl
  | takeAgain t =>
    rw [step]
    split
    · split_ifs <;> exact Or.inl rfl
    · exact Or.inl rfl
  | collect t =>
    rw [step]
    split
    · exact Or.inr (Or.inl rfl)
    · exact Or.inl rfl

/-- What is fresh is announced. -/
def Sound (s : State ι τ) : Prop :=
  s.fresh.Nonempty → Announced s

theorem sound_step {s : State ι τ} {e : Event ι τ} (h : Sound s) (hC : Counts s e) :
    Sound (step s e) := by
  intro hfresh
  rcases fresh_step s e with hsame | hnone | hsig
  · rw [hsame] at hfresh
    rcases announced_step hC (h hfresh) with ha | hnone
    · exact ha
    · exact absurd (hsame.symm.trans hnone) hfresh.ne_empty
  · exact absurd hnone hfresh.ne_empty
  · exact Or.inr (Or.inl hsig)

/-- No item is forgotten in any run. -/
theorem run_announced {s : State ι τ} (hs : s.fresh = ∅) {es : List (Event ι τ)}
    (hC : Runs.Guarded step Counts s es) : Sound (Runs.run step s es) :=
  Runs.run_invariant (fun _ _ => sound_step) (fun h => absurd hs h.ne_empty) hC

end Signals
