import Xlab.Wakeup

/-!
# The background thread

The thread of `xlab_async_worker_loop` takes the lock of the task table, and while it finds no
submitted task it waits at the condition variable, which releases the lock. When it finds one it
runs the handlers of all slots in order, still under the lock, and then releases it and writes to
the eventfd. `xlab_async_submit` and `xlab_async_flush_completed` take the same lock, and a
submission that found a slot signals the condition. The wait may also return by itself.

`backgroundStep` takes these steps one by one, in any order the lock permits.
`submitted_task_runs` : the thread waits only while no task is submitted, and a submitted task
is finished, by its own handler with its own parameters, within a number of turns of the thread
that depends on its slot alone, whatever the other threads do.
-/

namespace Xlab

namespace Gateway

variable {W : Type}

/-- Where the background thread is : at the lock, at the condition variable, at slot `i` of its
batch, or past the lock and at the eventfd. -/
inductive WorkerPhase where
  | locking
  | waiting
  | working (i : ℕ)
  | signalling
  deriving DecidableEq, Repr

/-- The gateway and its background thread. -/
structure Background (W : Type) where
  gateway : Gateway W
  thread : WorkerPhase

namespace Background

/-- The slot of the task table. -/
def task (b : Background W) (i : Fin asyncQueueDepth) : AsyncTask W :=
  b.gateway.shared.queue i

/-- The loop that sets `has_task`. -/
def hasTask (b : Background W) : Bool :=
  (List.finRange asyncQueueDepth).any fun i => (b.task i).ready

/-- The condition variable lets the thread go back to the lock. -/
def woken (b : Background W) : Background W :=
  match b.thread with
  | .waiting => { b with thread := .locking }
  | _ => b

/-- A turn of the thread. -/
def turn (b : Background W) : Background W :=
  match b.thread with
  | .locking => { b with thread := if b.hasTask then .working 0 else .waiting }
  | .waiting => b
  | .working i =>
    if h : i < asyncQueueDepth then
      ⟨{ b.gateway with shared := b.gateway.shared.work ⟨i, h⟩ }, .working (i + 1)⟩
    else { b with thread := .signalling }
  | .signalling => { b with thread := .locking }

/-- `xlab_async_submit`. It signals the condition if it found a slot. -/
def submit (w : ℕ) (s : Submission W) (b : Background W) : Background W :=
  if (SlotTable.firstFree AsyncTask.valid b.gateway.shared.queue).isNone then b
  else { b with gateway := b.gateway.submitTask w s }.woken

/-- `xlab_async_flush_completed`. -/
def flush (w : ℕ) (b : Background W) : Background W :=
  { b with gateway := b.gateway.flushCompleted w }

/-- The lock is not held by the thread. -/
def Unlocked (b : Background W) : Prop :=
  ∀ i, b.thread ≠ .working i

end Background

/-- A step of the background thread, or of another one. -/
inductive BackgroundEvent (W : Type) where
  | turn
  /-- `pthread_cond_wait` returns without a signal. -/
  | wake
  | submit (w : ℕ) (s : Submission W)
  | flush (w : ℕ)
  /-- Steps that leave the task table alone. -/
  | others (g : Gateway W)

/-- It is a turn of the thread. -/
def BackgroundEvent.isTurn : BackgroundEvent W → Bool
  | .turn => true
  | _ => false

/-- One step. -/
def backgroundStep (b : Background W) : BackgroundEvent W → Background W
  | .turn => b.turn
  | .wake => b.woken
  | .submit w s => b.submit w s
  | .flush w => b.flush w
  | .others g => { b with gateway := g }

/-- The other threads wait for the lock. -/
def BackgroundAllowed (b : Background W) : BackgroundEvent W → Prop
  | .submit _ _ => b.Unlocked
  | .flush _ => b.Unlocked
  | .others g => g.shared.queue = b.gateway.shared.queue
  | _ => True

/-! ## Tasks that are submitted -/

theorem ready_eq_false_of_flushable {t : AsyncTask W} (h : t.flushable = true) :
    t.ready = false := by
  unfold AsyncTask.flushable at h
  unfold AsyncTask.ready
  simp_all

theorem ready_freed (t : AsyncTask W) : t.freed.ready = false :=
  rfl

theorem ready_finished (t : AsyncTask W) (r : HandlerResult) : (t.finished r).ready = false := by
  simp [AsyncTask.ready, AsyncTask.finished]

/-- The slot is as it was, or no submitted task is in it before or after. -/
def Undisturbed (t t' : AsyncTask W) : Prop :=
  t' = t ∨ t.ready = false ∧ t'.ready = false

theorem undisturbed_flushSlot (w : ℕ) (g : Gateway W) (i j : Fin asyncQueueDepth) :
    Undisturbed (g.shared.queue i) ((g.flushSlot w j).shared.queue i) := by
  by_cases hj : j = i
  · subst hj
    by_cases hf : (g.shared.queue j).flushable = true
    · have hfreed : (g.shared.queue.free j j).ready = false := by
        simp [AsyncQueue.free, ready_freed]
      cases ht : g.flushTarget w (g.shared.queue j) with
      | none =>
        rw [flushSlot_of_none hf ht]
        exact Or.inr ⟨ready_eq_false_of_flushable hf, hfreed⟩
      | some cs =>
        rw [flushSlot_of_some hf ht]
        rcases flushDeliver_cases w j ⟨cs, g.shared⟩ with hsame | ⟨hfree, -⟩
        · exact Or.inl (congrArg (fun l : Link W => l.sh.queue j) hsame)
        · refine Or.inr ⟨ready_eq_false_of_flushable hf, ?_⟩
          rw [← hfreed]
          exact congrArg AsyncTask.ready (congrFun hfree j)
    · rw [flushSlot, if_neg hf]
      exact Or.inl rfl
  · exact Or.inl (queue_flushSlot_of_ne hj)

theorem Undisturbed.trans {t t' t'' : AsyncTask W} (h : Undisturbed t t')
    (h' : Undisturbed t' t'') : Undisturbed t t'' := by
  rcases h with rfl | ⟨h, hmid⟩
  · exact h'
  · rcases h' with rfl | ⟨-, h'⟩
    · exact Or.inr ⟨h, hmid⟩
    · exact Or.inr ⟨h, h'⟩

theorem undisturbed_flushCompleted (w : ℕ) (g : Gateway W) (i : Fin asyncQueueDepth) :
    Undisturbed (g.shared.queue i) ((g.flushCompleted w).shared.queue i) :=
  flushCompleted_keeps (P := fun g' => Undisturbed (g.shared.queue i) (g'.shared.queue i))
    (fun g' j h => h.trans (undisturbed_flushSlot w g' i j)) (Or.inl rfl)

/-- A submission leaves the tasks that are submitted where they are. -/
theorem submitTask_of_ready (w : ℕ) (s : Submission W) {g : Gateway W} {i : Fin asyncQueueDepth}
    (h : (g.shared.queue i).ready = true) :
    (g.submitTask w s).shared.queue i = g.shared.queue i := by
  rcases submitTask_cases w s g with ⟨-, hsame⟩ | ⟨j, target, hfree, hstep⟩
  · rw [hsame]
  · have hij : i ≠ j := by
      rintro rfl
      have hvalid := SlotTable.free_of_firstFree hfree
      simp [AsyncTask.ready, hvalid] at h
    rw [hstep, Function.update_of_ne hij]

namespace Background

/-! ## What is where while the thread waits and works -/

/-- No task is submitted while the thread waits, nor in the slots its batch has passed. -/
structure Sound (b : Background W) : Prop where
  waiting : b.thread = .waiting → ∀ i, (b.task i).ready = false
  working : ∀ j, b.thread = .working j → ∀ i : Fin asyncQueueDepth, i.val < j →
    (b.task i).ready = false

variable {b : Background W} {i : Fin asyncQueueDepth}

theorem task_mk (g : Gateway W) (thread : WorkerPhase) (i : Fin asyncQueueDepth) :
    (⟨g, thread⟩ : Background W).task i = g.shared.queue i :=
  rfl

theorem hasTask_eq_false : b.hasTask = false ↔ ∀ i, (b.task i).ready = false := by
  simp [hasTask]

theorem sound_locking (g : Gateway W) : (⟨g, .locking⟩ : Background W).Sound :=
  ⟨nofun, nofun⟩

@[simp] theorem task_woken (b : Background W) (i : Fin asyncQueueDepth) :
    b.woken.task i = b.task i := by
  unfold woken
  split <;> rfl

theorem woken_of_ne (h : b.thread ≠ .waiting) : b.woken = b := by
  unfold woken
  split
  · contradiction
  · rfl

theorem thread_woken_ne (b : Background W) : b.woken.thread ≠ .waiting := by
  by_cases h : b.thread = .waiting
  · rw [woken, h]
    exact nofun
  · rwa [woken_of_ne h]

theorem sound_turn (h : b.Sound) : b.turn.Sound := by
  obtain ⟨g, thread⟩ := b
  cases thread with
  | locking =>
    by_cases ht : (⟨g, .locking⟩ : Background W).hasTask = true
    · simp only [turn, ht, if_true]
      exact ⟨nofun, fun j hj i hi => absurd hi (by cases hj; omega)⟩
    · simp only [turn, ht, if_false, Bool.false_eq_true]
      exact ⟨fun _ => hasTask_eq_false.1 (Bool.eq_false_iff.2 ht), nofun⟩
  | waiting => exact h
  | working j =>
    simp only [turn]
    split_ifs with hj
    · refine ⟨nofun, fun k hk i hi => ?_⟩
      obtain rfl : j + 1 = k := WorkerPhase.working.inj hk
      by_cases hij : i = ⟨j, hj⟩
      · subst hij
        change ((g.shared.work ⟨j, hj⟩).queue ⟨j, hj⟩).ready = false
        rw [work_queue_self]
        split_ifs with hr
        · exact ready_finished _ _
        · exact Bool.eq_false_iff.2 hr
      · change ((g.shared.work ⟨j, hj⟩).queue i).ready = false
        rw [work_queue_of_ne _ hij]
        have hne : i.val ≠ j := fun he => hij (Fin.ext he)
        exact h.working j rfl i (Nat.lt_of_le_of_ne (Nat.le_of_lt_succ hi) hne)
    · exact ⟨nofun, nofun⟩
  | signalling => exact ⟨nofun, nofun⟩

theorem sound_woken {b : Background W} (h : ∀ j, b.thread = .working j → b.Sound) :
    b.woken.Sound := by
  refine ⟨fun hw => absurd hw (thread_woken_ne b), fun j hj i hi => ?_⟩
  have hb : b.woken = b := by
    refine woken_of_ne fun hw => ?_
    rw [woken, hw] at hj
    cases hj
  rw [hb] at hj ⊢
  exact (h j hj).working j hj i hi

theorem undisturbed_flush (b : Background W) (w : ℕ) (i : Fin asyncQueueDepth) :
    Undisturbed (b.task i) ((b.flush w).task i) := by
  have h := undisturbed_flushCompleted w b.gateway i
  rwa [← task_mk (b.gateway.flushCompleted w) b.thread, ← flush] at h

theorem thread_flush (b : Background W) (w : ℕ) : (b.flush w).thread = b.thread := by
  rw [flush]

theorem sound_flush (h : b.Sound) (hb : b.Unlocked) (w : ℕ) : (b.flush w).Sound := by
  refine ⟨fun hw i => ?_, fun j hj => absurd (b.thread_flush w ▸ hj) (hb j)⟩
  rw [thread_flush] at hw
  rcases undisturbed_flush b w i with hsame | ⟨-, hready⟩
  · rw [hsame]
    exact h.waiting hw i
  · exact hready

theorem sound_submit (h : b.Sound) (hb : b.Unlocked) (w : ℕ) (s : Submission W) :
    (b.submit w s).Sound := by
  unfold submit
  split_ifs
  · exact h
  · exact sound_woken fun j hj => absurd hj (hb j)

/-- The other threads submit only with a signal, and not while the thread has the lock. -/
theorem sound_step (h : b.Sound) {e : BackgroundEvent W} (he : BackgroundAllowed b e) :
    (backgroundStep b e).Sound := by
  cases e with
  | turn => exact sound_turn h
  | wake => exact sound_woken fun _ _ => h
  | submit w s => exact sound_submit h he w s
  | flush w => exact sound_flush h he w
  | others g =>
    have hq : g.shared.queue = b.gateway.shared.queue := he
    have htask : ∀ i, (⟨g, b.thread⟩ : Background W).task i = b.task i := fun i => congrFun hq i
    exact ⟨fun hw i => (congrArg AsyncTask.ready (htask i)).trans (h.waiting hw i),
      fun j hj i hi => (congrArg AsyncTask.ready (htask i)).trans (h.working j hj i hi)⟩

/-! ## How long a task waits -/

/-- The turns of the thread until it has run the task in slot `i`. -/
def turnsTo (i : Fin asyncQueueDepth) : WorkerPhase → ℕ
  | .waiting => 0
  | .working j => i + 1 - j
  | .locking => i + 2
  | .signalling => i + 3

/-- The handler of the task has run, on its own parameters. -/
def Ran (t t' : AsyncTask W) : Prop :=
  ∃ world, t' = t.finished (t.handler world t.args).1

/-- A turn runs the task, or leaves it with one turn less to go. -/
theorem turn_of_ready (h : b.Sound) (hr : (b.task i).ready = true) :
    Ran (b.task i) (b.turn.task i) ∨
      b.turn.task i = b.task i ∧ turnsTo i b.thread = turnsTo i b.turn.thread + 1 := by
  obtain ⟨g, thread⟩ := b
  cases thread with
  | locking =>
    have ht : (⟨g, .locking⟩ : Background W).hasTask = true :=
      List.any_eq_true.2 ⟨i, List.mem_finRange i, hr⟩
    refine Or.inr ?_
    simp only [turn, ht, if_true]
    exact ⟨rfl, rfl⟩
  | waiting => exact absurd hr (by rw [h.waiting rfl i]; exact Bool.false_ne_true)
  | working j =>
    have hji : j ≤ i := by
      by_contra hlt
      rw [h.working j rfl i (Nat.lt_of_not_le hlt)] at hr
      cases hr
    have hj : j < asyncQueueDepth := hji.trans_lt i.isLt
    simp only [turn, dif_pos hj]
    by_cases hij : i = ⟨j, hj⟩
    · subst hij
      refine Or.inl ⟨g.shared.world, ?_⟩
      rw [task, work_queue_self]
      exact if_pos hr
    · have hne : i.val ≠ j := fun he => hij (Fin.ext he)
      refine Or.inr ⟨work_queue_of_ne _ hij, ?_⟩
      simp only [turnsTo]
      omega
  | signalling => exact Or.inr ⟨rfl, rfl⟩

theorem submit_of_ready (hwait : b.thread ≠ .waiting) (hr : (b.task i).ready = true) (w : ℕ)
    (s : Submission W) :
    (b.submit w s).task i = b.task i ∧ (b.submit w s).thread = b.thread := by
  unfold submit
  split_ifs
  · exact ⟨rfl, rfl⟩
  · rw [woken_of_ne (b := ⟨b.gateway.submitTask w s, b.thread⟩) hwait, task_mk]
    exact ⟨submitTask_of_ready w s hr, rfl⟩

/-- The steps of others leave a submitted task and the turns it waits for as they are. -/
theorem step_of_ready (h : b.Sound) (hr : (b.task i).ready = true) {e : BackgroundEvent W}
    (he : BackgroundAllowed b e) (hturn : e.isTurn = false) :
    (backgroundStep b e).task i = b.task i ∧
      (backgroundStep b e).thread = b.thread := by
  have hwait : b.thread ≠ .waiting := fun hw => by
    rw [h.waiting hw i] at hr
    cases hr
  cases e with
  | turn => cases hturn
  | wake =>
    have hsame := woken_of_ne hwait
    exact ⟨congrArg (fun b => task b i) hsame, congrArg thread hsame⟩
  | submit w s => exact submit_of_ready hwait hr w s
  | flush w =>
    rcases undisturbed_flush b w i with hsame | ⟨hready, -⟩
    · exact ⟨hsame, b.thread_flush w⟩
    · rw [hready] at hr
      cases hr
  | others g => exact ⟨congrFun he i, rfl⟩

end Background

/-- A run with enough turns of the thread runs the task. -/
theorem exists_ran {b : Background W} {i : Fin asyncQueueDepth} {es : List (BackgroundEvent W)}
    (h : b.Sound) (hr : (b.task i).ready = true)
    (hes : Runs.Guarded backgroundStep BackgroundAllowed b es)
    (hturns : Background.turnsTo i b.thread ≤ es.countP BackgroundEvent.isTurn) :
    ∃ pre post, es = pre ++ post ∧
      Background.Ran (b.task i) ((Runs.run backgroundStep b pre).task i) := by
  induction es generalizing b with
  | nil =>
    cases hb : b.thread with
    | waiting => exact absurd hr (by rw [h.waiting hb i]; exact Bool.false_ne_true)
    | locking => simp [hb, Background.turnsTo] at hturns
    | signalling => simp [hb, Background.turnsTo] at hturns
    | working j =>
      have hji : j ≤ i := by
        by_contra hlt
        rw [h.working j hb i (Nat.lt_of_not_le hlt)] at hr
        cases hr
      simp only [hb, Background.turnsTo, List.countP_nil] at hturns
      omega
  | cons e es ih =>
    have hsound := Background.sound_step h hes.1
    -- the step leaves the task, and the turns to come suffice
    have hlater : (backgroundStep b e).task i = b.task i →
        Background.turnsTo i (backgroundStep b e).thread ≤ es.countP BackgroundEvent.isTurn →
          ∃ pre post, e :: es = pre ++ post ∧
            Background.Ran (b.task i) ((Runs.run backgroundStep b pre).task i) := by
      intro hsame hleft
      obtain ⟨pre, post, rfl, hran⟩ := ih hsound (by rw [hsame, hr]) hes.2 hleft
      exact ⟨e :: pre, post, rfl, hsame ▸ hran⟩
    by_cases he : e.isTurn = true
    · obtain rfl : e = .turn := by
        cases e <;> first | rfl | cases he
      rw [List.countP_cons_of_pos he] at hturns
      rcases Background.turn_of_ready h hr with hran | ⟨hsame, hleft⟩
      · exact ⟨[.turn], es, rfl, hran⟩
      · exact hlater hsame (by rw [backgroundStep]; omega)
    · rw [Bool.not_eq_true] at he
      obtain ⟨hsame, hthread⟩ := Background.step_of_ready h hr hes.1 he
      rw [List.countP_cons_of_neg (by rw [he]; exact Bool.false_ne_true)] at hturns
      exact hlater hsame (by rw [hthread]; exact hturns)

theorem turnsTo_le (i : Fin asyncQueueDepth) (phase : WorkerPhase) :
    Background.turnsTo i phase ≤ i + 3 := by
  cases phase <;> simp only [Background.turnsTo] <;> omega

/-- Whatever the order in which the threads get the lock, the background thread waits at the
condition only while no task is submitted, and a task submitted in slot `i` is run, by its own
handler on its own parameters, within the next `i + 3` turns of the thread. -/
theorem submitted_task_runs {g : Gateway W} {es : List (BackgroundEvent W)}
    (hes : Runs.Guarded backgroundStep BackgroundAllowed ⟨g, .locking⟩ es) :
    ((Runs.run backgroundStep ⟨g, .locking⟩ es).thread = .waiting →
      ∀ i, ((Runs.run backgroundStep ⟨g, .locking⟩ es).task i).ready = false) ∧
    ∀ (i : Fin asyncQueueDepth) (fs : List (BackgroundEvent W)),
      Runs.Guarded backgroundStep BackgroundAllowed
        (Runs.run backgroundStep ⟨g, .locking⟩ es) fs →
      ((Runs.run backgroundStep ⟨g, .locking⟩ es).task i).ready = true →
      i + 3 ≤ fs.countP BackgroundEvent.isTurn →
      ∃ pre post, fs = pre ++ post ∧
        Background.Ran ((Runs.run backgroundStep ⟨g, .locking⟩ es).task i)
          ((Runs.run backgroundStep ⟨g, .locking⟩ (es ++ pre)).task i) := by
  have hsound : (Runs.run backgroundStep ⟨g, .locking⟩ es).Sound :=
    Runs.run_invariant (I := Background.Sound) (fun _ _ h he => Background.sound_step h he)
      (Background.sound_locking g) hes
  refine ⟨hsound.waiting, fun i fs hfs hr hturns => ?_⟩
  obtain ⟨pre, post, hsplit, hran⟩ := exists_ran hsound hr hfs ((turnsTo_le i _).trans hturns)
  exact ⟨pre, post, hsplit, by rwa [Runs.run_append]⟩

/-- The thread waits, is woken by a submission, and runs its task. -/
def startReadTurns : List (BackgroundEvent Unit) :=
  [.turn, .submit 0 startReadSubmission]

theorem submitted_task_runs_startRead : ∃ pre post : List (BackgroundEvent Unit),
    [.turn, .turn, .turn] = pre ++ post ∧
      Background.Ran ((Runs.run backgroundStep ⟨idleGateway, .locking⟩ startReadTurns).task
          firstSlot)
        ((Runs.run backgroundStep ⟨idleGateway, .locking⟩ (startReadTurns ++ pre)).task
          firstSlot) := by
  have hwaiting : (Background.turn ⟨idleGateway, .locking⟩).thread = .waiting := by
    decide +kernel
  have hes : Runs.Guarded backgroundStep BackgroundAllowed ⟨idleGateway, .locking⟩
      startReadTurns :=
    ⟨trivial, fun i hi => WorkerPhase.noConfusion (hwaiting.symm.trans hi), trivial⟩
  exact (submitted_task_runs hes).2 firstSlot [.turn, .turn, .turn]
    ⟨trivial, trivial, trivial, trivial⟩ (by decide +kernel) (by decide +kernel)

end Gateway

end Xlab
