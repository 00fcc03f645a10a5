import Xlab.Lives
import Xlab.Signals

/-!
# Waking the event loops

The background thread marks tasks completed under the lock and adds one to the eventfd
after it has released the lock. An event loop that sees the eventfd reads it in
`xlab_conn_read`, reads it again in a loop at the start of `xlab_async_flush_completed`, and
only then takes the lock for its scan of the table. `wakeStep` takes these steps one by one,
for any number of event loops, with submissions and everything else in between.

The eventfd is the counter of `Signals`, a batch publishes the tasks it completes, and the
scan of a flush collects them (`signal_wakeStep`). So no completed task is left to itself
(`no_lost_wakeup`).
-/

namespace Xlab

namespace Gateway

variable {W : Type}

/-- The gateway with the eventfd, the background thread and the event loops at it. `signal.fresh`
are the slots whose task was completed and not scanned since. -/
structure Alerts (W : Type) where
  gateway : Gateway W
  signal : Signals.State (Fin asyncQueueDepth) ℕ

/-- A step of the background thread, of the event loop of a worker, or of the rest. -/
inductive WakeEvent (W : Type) where
  /-- The locked part of `xlab_async_worker_loop`. -/
  | batch
  /-- Its `write` to the eventfd. -/
  | write (succeeds : Bool)
  /-- The `read` of the eventfd in `xlab_conn_read`. -/
  | read (w : ℕ)
  /-- One `read` of the loop in `xlab_async_flush_completed`. -/
  | drain (w : ℕ)
  /-- Its locked scan. -/
  | scan (w : ℕ)
  /-- `xlab_async_submit`. -/
  | submit (w : ℕ) (s : Submission W)
  /-- Steps that leave the task table alone. -/
  | others (g : Gateway W)

/-- The step as one of the signal protocol. -/
def WakeEvent.signal (g : Gateway W) : WakeEvent W →
    Option (Signals.Event (Fin asyncQueueDepth) ℕ)
  | .batch => some (.publish { i | (g.shared.queue i).ready = true })
  | .write succeeds => some (.signal succeeds)
  | .read w => some (.take w)
  | .drain w => some (.takeAgain w)
  | .scan w => some (.collect w)
  | .submit _ _ => none
  | .others _ => none

/-- One step. The background thread and an event loop wait for their turn. -/
def wakeStep (a : Alerts W) (e : WakeEvent W) : Alerts W where
  gateway :=
    match e with
    | .batch =>
      if a.signal.signalling then a.gateway
      else { a.gateway with shared := asyncWorkerBatch a.gateway.shared }
    | .scan w =>
      match a.signal.reader w with
      | .entering _ => a.gateway.flushCompleted w
      | _ => a.gateway
    | .submit w s => a.gateway.submitTask w s
    | .others g => g
    | _ => a.gateway
  signal :=
    match e.signal a.gateway with
    | some e => Signals.step a.signal e
    | none => a.signal

/-- The write fails only while the counter is not zero, and the rest of the gateway leaves the
task table alone. -/
def WakeAllowed (a : Alerts W) : WakeEvent W → Prop
  | .write succeeds => succeeds = true ∨ a.signal.counter ≠ 0
  | .others g => g.shared.queue = a.gateway.shared.queue
  | _ => True

/-- Before the first event nothing is completed, the eventfd is zero and all loops wait. -/
def Alerts.start (g : Gateway W) : Alerts W :=
  ⟨g, ⟨∅, 0, false, fun _ => .idle⟩⟩

theorem signal_submit (a : Alerts W) (w : ℕ) (s : Submission W) :
    (wakeStep a (.submit w s)).signal = a.signal := by
  simp only [wakeStep, WakeEvent.signal]

theorem gateway_submit (a : Alerts W) (w : ℕ) (s : Submission W) :
    (wakeStep a (.submit w s)).gateway = a.gateway.submitTask w s := by
  simp only [wakeStep]

/-! ## The steps in one event loop -/

/-- Without steps of others in between, the three steps of an event loop are the handler's
branch for the eventfd. -/
theorem run_eventFd (s : Setup W) (w : ℕ) (r : ReadOutcome) {a : Alerts W}
    (h : a.signal.reader w = .idle) :
    (Runs.run wakeStep a [.read w, .drain w, .scan w]).gateway =
      (a.gateway.connRead s w s.eventFd r).2 := by
  simp [wakeStep, WakeEvent.signal, Signals.step, h, Signals.State.setReader, connRead]

/-! ## What is fresh -/

theorem work_queue_of_not_ready (sh : Shared W) {i : Fin asyncQueueDepth}
    (h : (sh.queue i).ready = false) (j : Fin asyncQueueDepth) :
    (sh.work j).queue i = sh.queue i := by
  by_cases hj : i = j
  · subst hj
    rw [work_queue_self, if_neg (by simp [h])]
  · exact work_queue_of_ne sh hj

/-- A batch leaves the slots alone that are not ready. -/
theorem batch_queue_of_not_ready (sh : Shared W) {i : Fin asyncQueueDepth}
    (h : (sh.queue i).ready = false) : (asyncWorkerBatch sh).queue i = sh.queue i := by
  rw [asyncWorkerBatch]
  generalize List.finRange asyncQueueDepth = slots
  induction slots generalizing sh with
  | nil => rfl
  | cons j slots ih =>
    have hj := work_queue_of_not_ready sh h j
    rw [List.foldl_cons, ih (sh.work j) (by rw [hj, h]), hj]

/-- A flush completes no task. -/
theorem flushable_flushSlot {w : ℕ} {g : Gateway W} {i j : Fin asyncQueueDepth}
    (h : ((g.flushSlot w j).shared.queue i).flushable = true) :
    (g.shared.queue i).flushable = true := by
  by_cases hj : j = i
  · subst hj
    by_contra hf
    rw [flushSlot, if_neg hf] at h
    exact hf h
  · rwa [queue_flushSlot_of_ne hj] at h

theorem flushable_flushCompleted {w : ℕ} {g : Gateway W} {i : Fin asyncQueueDepth}
    (h : ((g.flushCompleted w).shared.queue i).flushable = true) :
    (g.shared.queue i).flushable = true :=
  flushCompleted_keeps (P := fun g' => (g'.shared.queue i).flushable = true →
    (g.shared.queue i).flushable = true) (fun _ _ hg hf => hg (flushable_flushSlot hf)) id h

theorem flushable_submitTask {w : ℕ} {s : Submission W} {g : Gateway W} {i : Fin asyncQueueDepth}
    (h : ((g.submitTask w s).shared.queue i).flushable = true) :
    (g.shared.queue i).flushable = true := by
  rcases submitTask_cases w s g with ⟨-, hsame⟩ | ⟨j, target, -, hstep⟩
  · rw [hsame] at h
    exact h
  · rw [hstep] at h
    by_cases hj : i = j
    · subst hj
      rw [Function.update_self] at h
      cases h
    · rw [Function.update_of_ne hj] at h
      exact h

/-- A task that a step completes is fresh after it. -/
theorem fresh_of_completed {a : Alerts W} {e : WakeEvent W} (hA : WakeAllowed a e)
    {i : Fin asyncQueueDepth} (h : (a.gateway.shared.queue i).flushable = false)
    (h' : ((wakeStep a e).gateway.shared.queue i).flushable = true) :
    i ∈ (wakeStep a e).signal.fresh := by
  have habsurd : (a.gateway.shared.queue i).flushable = true →
      i ∈ (wakeStep a e).signal.fresh := fun hf => absurd hf (by simp [h])
  cases e with
  | batch =>
    by_cases hs : a.signal.signalling = true
    · refine habsurd ?_
      simpa [wakeStep, hs] using h'
    · simp only [wakeStep, WakeEvent.signal, Signals.step, hs, if_false, Bool.false_eq_true] at h' ⊢
      by_cases hr : (a.gateway.shared.queue i).ready = true
      · exact Or.inr hr
      · rw [batch_queue_of_not_ready _ (by simpa using hr)] at h'
        exact absurd h' (by simp [h])
  | write succeeds => exact habsurd h'
  | read w => exact habsurd h'
  | drain w => exact habsurd h'
  | scan w =>
    refine habsurd ?_
    simp only [wakeStep] at h'
    split at h'
    · exact flushable_flushCompleted h'
    · exact h'
  | submit w s =>
    rw [gateway_submit] at h'
    exact habsurd (flushable_submitTask h')
  | others g =>
    refine habsurd ?_
    have hq : g.shared.queue = a.gateway.shared.queue := hA
    rw [← hq]
    exact h'

/-! ## No wake-up is lost -/

/-- The task in slot `i` is completed, and no scan started after its completion. -/
def Alerts.Unexamined (a : Alerts W) (i : Fin asyncQueueDepth) : Prop :=
  (a.gateway.shared.queue i).flushable = true ∧ i ∈ a.signal.fresh

theorem sound_wakeStep {a : Alerts W} {e : WakeEvent W} (h : Signals.Sound a.signal)
    (hA : WakeAllowed a e) : Signals.Sound (wakeStep a e).signal := by
  cases e with
  | batch => exact Signals.sound_step h trivial
  | write succeeds => exact Signals.sound_step h hA
  | read w => exact Signals.sound_step h trivial
  | drain w => exact Signals.sound_step h trivial
  | scan w => exact Signals.sound_step h trivial
  | submit w s =>
    rw [signal_submit]
    exact h
  | others g => exact h

/-- While some completed task was not examined, the eventfd is not zero, or the background
thread is about to write it, or an event loop has read it and not yet scanned the table. -/
theorem no_lost_wakeup {g : Gateway W} {es : List (WakeEvent W)}
    (hA : Runs.Guarded wakeStep WakeAllowed (.start g) es)
    (h : ∃ i, (Runs.run wakeStep (.start g) es).Unexamined i) :
    (Runs.run wakeStep (.start g) es).signal.counter ≠ 0 ∨
      (Runs.run wakeStep (.start g) es).signal.signalling = true ∨
      ∃ w, ((Runs.run wakeStep (.start g) es).signal.reader w).underway = true := by
  have hstart : Signals.Sound (Alerts.start g).signal := fun hfresh =>
    absurd hfresh Set.not_nonempty_empty
  have hsound := Runs.run_invariant (I := fun a : Alerts W => Signals.Sound a.signal)
    (fun _ _ => sound_wakeStep) hstart hA
  obtain ⟨i, -, hi⟩ := h
  exact hsound ⟨i, hi⟩

/-- StartRead submitted and completed. -/
def startReadAlerts : List (WakeEvent Unit) :=
  [.submit 0 startReadSubmission, .batch]

theorem no_lost_wakeup_startRead :
    (Runs.run wakeStep (.start idleGateway) startReadAlerts).signal.counter ≠ 0 ∨
      (Runs.run wakeStep (.start idleGateway) startReadAlerts).signal.signalling = true ∨
      ∃ w, ((Runs.run wakeStep (.start idleGateway) startReadAlerts).signal.reader w).underway =
        true := by
  have hA : Runs.Guarded wakeStep WakeAllowed (.start idleGateway) startReadAlerts :=
    ⟨trivial, trivial, trivial⟩
  have hsplit : startReadAlerts = startReadAlerts.take 1 ++ [.batch] := rfl
  have hbefore : ((Runs.run wakeStep (.start idleGateway)
      (startReadAlerts.take 1)).gateway.shared.queue 0).flushable = false := by decide +kernel
  have hafter : ((Runs.run wakeStep (.start idleGateway)
      startReadAlerts).gateway.shared.queue 0).flushable = true := by decide +kernel
  refine no_lost_wakeup hA ⟨0, hafter, ?_⟩
  rw [hsplit, Runs.run_append, Runs.run_cons, Runs.run_nil] at hafter ⊢
  exact fresh_of_completed (e := .batch) trivial hbefore hafter

end Gateway

end Xlab
