import Xlab.Confinement

/-!
# The life of a task

The steps under the lock of the task table are the submission, the turns of the background
thread and the turns of a flush. Everything else leaves the table alone. `asyncStep` takes
these steps in any order, a batch and a flush being runs of their turns (`run_batch`,
`run_flushAll`).

What a step does about a slot is observed from outside (`observe`) : the submission it
accepts, the handler it runs with the bytes it passes, the response it produces and
whether the ring was full, or that it drops the task. A `Life` is what should be observed
from a submission to the end of its task. `lives_of_run` : in every run the observations at
a slot are lives one after the other and the first part of one more, which is what the slot
holds.
-/

namespace Xlab

variable {W : Type}

/-! ## Submissions, observations, lives -/

/-- The arguments of `xlab_async_submit`. The parameters fit the array of a slot. -/
structure Submission (W : Type) where
  socketFd : ℤ
  sessionId : UInt32
  seq : UInt32
  cmdCode : UInt8
  params : List UInt8
  handler : Handler W
  params_le : params.length ≤ protoPayloadMax.toNat

/-- What is seen of a slot. -/
inductive Obs (W : Type) where
  /-- A submission is accepted. -/
  | submitted (s : Submission W)
  /-- The handler is called. -/
  | invoked (handler : Handler W) (args : List UInt8) (world : W)
  /-- A response is produced for a session whose ring is full or not. -/
  | answered (resp : Response) (ringFull : Bool)
  /-- The task is dropped. -/
  | discarded

/-- The response to a submission whose handler ran in `world`. -/
def Submission.response (s : Submission W) (world : W) : Response :=
  let r := (s.handler world s.params).1
  routerBuildResponse s.cmdCode r.errCode r.resp s.seq

/-- The BUSY answer to a submission. -/
def Submission.busy (s : Submission W) : Response :=
  routerBuildResponse s.cmdCode errBusBusy [] s.seq

/-- How a task ends. -/
inductive Ending where
  | answered
  | busy
  | discarded
  deriving DecidableEq, Repr

/-- A task from its submission to its end, with the world its handler ran in. -/
structure Life (W : Type) where
  sub : Submission W
  world : W
  ending : Ending

/-- What is seen at the end. -/
def Life.last (l : Life W) : Obs W :=
  match l.ending with
  | .answered => .answered (l.sub.response l.world) false
  | .busy => .answered l.sub.busy true
  | .discarded => .discarded

/-- What is seen of a life : one submission, one call of its handler on its parameters, one
end. -/
def Life.obs (l : Life W) : List (Obs W) :=
  [.submitted l.sub, .invoked l.sub.handler l.sub.params l.world, l.last]

/-- How far the task in a slot is. -/
inductive Phase (W : Type) where
  | free
  | waiting (s : Submission W)
  | done (s : Submission W) (world : W)

/-- What was seen of it so far. -/
def Phase.obs : Phase W → List (Obs W)
  | .free => []
  | .waiting s => [.submitted s]
  | .done s world => [.submitted s, .invoked s.handler s.params world]

/-! ## Slots and phases -/

/-- The slot holds the arguments of the submission. -/
structure AsyncTask.Holds (t : AsyncTask W) (s : Submission W) : Prop where
  valid : t.valid = true
  socketFd : t.socketFd = s.socketFd
  seq : t.seq = s.seq
  cmdCode : t.cmdCode = s.cmdCode
  args : t.args = s.params
  handler : t.handler = s.handler

/-- The slot holds what the handler of the submission reported in `world`. -/
structure AsyncTask.Reports (t : AsyncTask W) (s : Submission W) (world : W) : Prop where
  resultCode : t.resultCode = (s.handler world s.params).1.errCode
  respData : t.respData.take t.respLen.toNat = (s.handler world s.params).1.resp

/-- The slot is in the phase. -/
def AsyncTask.InPhase (t : AsyncTask W) : Phase W → Prop
  | .free => t.valid = false
  | .waiting s => t.Holds s ∧ t.completed = false
  | .done s world => t.Holds s ∧ t.completed = true ∧ t.Reports s world

theorem AsyncTask.InPhase.free_of_not_valid {t : AsyncTask W} {p : Phase W} (h : t.InPhase p)
    (hv : t.valid = false) : p = .free := by
  cases p with
  | free => rfl
  | waiting s => exact absurd h.1.valid (by simp [hv])
  | done s world => exact absurd h.1.valid (by simp [hv])

theorem AsyncTask.InPhase.waiting_of_ready {t : AsyncTask W} {p : Phase W} (h : t.InPhase p)
    (hr : t.ready = true) : ∃ s, p = .waiting s ∧ t.Holds s := by
  simp only [ready, Bool.and_eq_true, Bool.not_eq_true'] at hr
  cases p with
  | free => exact absurd hr.1 (by simp [show t.valid = false from h])
  | waiting s => exact ⟨s, rfl, h.1⟩
  | done s world => exact absurd hr.2 (by simp [h.2.1])

theorem AsyncTask.InPhase.done_of_flushable {t : AsyncTask W} {p : Phase W} (h : t.InPhase p)
    (hf : t.flushable = true) : ∃ s world, p = .done s world ∧ t.Holds s ∧ t.Reports s world := by
  simp only [flushable, Bool.and_eq_true] at hf
  cases p with
  | free => exact absurd hf.1 (by simp [show t.valid = false from h])
  | waiting s => exact absurd hf.2 (by simp [h.2])
  | done s world => exact ⟨s, world, rfl, h.1, h.2.2⟩

theorem AsyncTask.inPhase_submitted (t : AsyncTask W) (s : Submission W) (target : Option ℕ) :
    (t.submitted s.socketFd s.sessionId s.seq s.cmdCode s.params s.handler target).InPhase
      (.waiting s) :=
  ⟨⟨rfl, rfl, rfl, rfl, t.submitted_args_of_le _ _ _ _ s.params_le _ _, rfl⟩, rfl⟩

theorem AsyncTask.Holds.inPhase_finished {t : AsyncTask W} {s : Submission W} (h : t.Holds s)
    (world : W) : (t.finished (t.handler world t.args).1).InPhase (.done s world) := by
  refine ⟨⟨h.valid, h.socketFd, h.seq, h.cmdCode, h.args, h.handler⟩, rfl, ?_, ?_⟩
  · rw [← h.handler, ← h.args]
    rfl
  · rw [← h.handler, ← h.args]
    exact t.finished_data _

/-- The response of a finished task is the one to its submission. -/
theorem AsyncTask.Holds.response_eq {t : AsyncTask W} {s : Submission W} {world : W}
    (h : t.Holds s) (hr : t.Reports s world) : t.response = s.response world := by
  rw [AsyncTask.response, h.cmdCode, h.seq, hr.resultCode, hr.respData]
  rfl

theorem AsyncTask.Holds.busy_eq {t : AsyncTask W} {s : Submission W} (h : t.Holds s) :
    t.busy = s.busy := by
  rw [AsyncTask.busy, h.cmdCode, h.seq]
  rfl

/-! ## The steps -/

namespace Gateway

/-- A step under the lock of the task table, one slot at a time, or a step of the rest of the
gateway, which leaves it in the given state. -/
inductive AsyncStep (W : Type) where
  | submit (w : ℕ) (s : Submission W)
  | work (i : Fin asyncQueueDepth)
  | flush (w : ℕ) (i : Fin asyncQueueDepth)
  | others (g : Gateway W)

/-- A submission from worker `w`, with the session `xlab_session_get` returns there. -/
def submitTask (w : ℕ) (s : Submission W) (g : Gateway W) : Gateway W :=
  match asyncSubmit g.shared.queue s.socketFd s.sessionId s.seq s.cmdCode s.params s.handler
      ((g.sessionGet w s.socketFd).map fun cs => cs.ident.sid) with
  | some queue => { g with shared := { g.shared with queue := queue } }
  | none => g

/-- One step. -/
def asyncStep (g : Gateway W) : AsyncStep W → Gateway W
  | .submit w s => g.submitTask w s
  | .work i => { g with shared := g.shared.work i }
  | .flush w i => g.flushSlot w i
  | .others g' => g'

/-- The rest of the gateway leaves the task table alone. -/
def TableKept (g : Gateway W) : AsyncStep W → Prop
  | .others g' => g'.shared.queue = g.shared.queue
  | _ => True

/-- One batch of the background thread. -/
def batch : List (AsyncStep W) :=
  (List.finRange asyncQueueDepth).map .work

/-- A whole flush in worker `w`. -/
def flushAll (w : ℕ) : List (AsyncStep W) :=
  (List.finRange asyncQueueDepth).map (.flush w)

theorem run_batch (g : Gateway W) :
    Runs.run asyncStep g batch = { g with shared := asyncWorkerBatch g.shared } := by
  rw [batch, asyncWorkerBatch, Runs.run, List.foldl_map]
  generalize List.finRange asyncQueueDepth = slots
  induction slots generalizing g with
  | nil => rfl
  | cons i slots ih => exact ih { g with shared := g.shared.work i }

theorem run_flushAll (w : ℕ) (g : Gateway W) :
    Runs.run asyncStep g (flushAll w) = g.flushCompleted w := by
  rw [flushAll, flushCompleted, Runs.run, List.foldl_map]
  rfl

/-! ## What is seen of them -/

/-- The turn of a flush for slot `i` : the responses the session it takes got, or that the
task was dropped. -/
def observeFlush (w : ℕ) (i : Fin asyncQueueDepth) (g : Gateway W) : List (Obs W) :=
  if (g.shared.queue i).flushable then
    match g.flushTarget w (g.shared.queue i) with
    | none => [.discarded]
    | some cs =>
      ((flushDeliver w i ⟨cs, g.shared⟩).cs.built.drop cs.built.length).map fun resp =>
        .answered resp (cs.respQueue.pending.length = 63)
  else []

/-- A submission : slot `i` is the one it is accepted in. -/
def observeSubmit (i : Fin asyncQueueDepth) (s : Submission W) (g : Gateway W) : List (Obs W) :=
  if SlotTable.firstFree AsyncTask.valid g.shared.queue = some i then [.submitted s] else []

/-- The turn of the background thread at slot `i`. -/
def observeWork (i : Fin asyncQueueDepth) (g : Gateway W) : List (Obs W) :=
  if (g.shared.queue i).ready then
    [.invoked (g.shared.queue i).handler (g.shared.queue i).args g.shared.world]
  else []

/-- What a step does about slot `i`. -/
def observe (i : Fin asyncQueueDepth) (g : Gateway W) : AsyncStep W → List (Obs W)
  | .submit _ s => g.observeSubmit i s
  | .work j => if j = i then g.observeWork i else []
  | .flush w j => if j = i then g.observeFlush w i else []
  | .others _ => []

/-- What a run does about slot `i`. -/
def observations (i : Fin asyncQueueDepth) : Gateway W → List (AsyncStep W) → List (Obs W)
  | _, [] => []
  | g, e :: es => observe i g e ++ observations i (asyncStep g e) es

/-! ## A step is part of a life -/

/-- After `seen`, which leaves the slot in phase `p`, it is in a phase again, with at most one
life ended in between. -/
def Continues (p : Phase W) (seen : List (Obs W)) (t : AsyncTask W) : Prop :=
  ∃ ended p', p.obs ++ seen = List.flatMap Life.obs ended ++ p'.obs ∧ t.InPhase p'

theorem Continues.same {p : Phase W} {t : AsyncTask W} (h : t.InPhase p) : Continues p [] t :=
  ⟨[], p, by simp, h⟩

/-- A submission fills the first free slot, or does nothing. -/
theorem submitTask_cases (w : ℕ) (s : Submission W) (g : Gateway W) :
    (SlotTable.firstFree AsyncTask.valid g.shared.queue = none ∧ g.submitTask w s = g) ∨
      ∃ j target, SlotTable.firstFree AsyncTask.valid g.shared.queue = some j ∧
        (g.submitTask w s).shared.queue = Function.update g.shared.queue j
          ((g.shared.queue j).submitted s.socketFd s.sessionId s.seq s.cmdCode s.params s.handler
            target) := by
  unfold submitTask
  split
  · rename_i queue hsub
    obtain ⟨j, hfree, rfl⟩ := Option.map_eq_some_iff.1 hsub
    exact Or.inr ⟨j, _, hfree, rfl⟩
  · rename_i hsub
    exact Or.inl ⟨Option.map_eq_none_iff.1 hsub, rfl⟩

/-- A submission continues the life in slot `i`. -/
theorem submit_continues {g : Gateway W} (w : ℕ) (s : Submission W) {i : Fin asyncQueueDepth}
    {p : Phase W} (h : (g.shared.queue i).InPhase p) :
    Continues p (g.observeSubmit i s) ((g.submitTask w s).shared.queue i) := by
  rcases g.submitTask_cases w s with ⟨hfree, hstep⟩ | ⟨j, target, hfree, hstep⟩
  · rw [hstep, observeSubmit, hfree, if_neg (Option.some_ne_none i).symm]
    exact .same h
  · rw [hstep, observeSubmit, hfree]
    by_cases hj : j = i
    · subst hj
      obtain rfl := h.free_of_not_valid (SlotTable.free_of_firstFree hfree)
      rw [if_pos rfl, Function.update_self]
      exact ⟨[], .waiting s, rfl, AsyncTask.inPhase_submitted _ s target⟩
    · rw [if_neg (fun he => hj (Option.some.inj he)), Function.update_of_ne (Ne.symm hj)]
      exact .same h

/-- The background thread continues the life in slot `i`. -/
theorem work_continues {g : Gateway W} {i : Fin asyncQueueDepth} {p : Phase W}
    (h : (g.shared.queue i).InPhase p) :
    Continues p (g.observeWork i) ((g.shared.work i).queue i) := by
  rw [observeWork, work_queue_self]
  by_cases hr : (g.shared.queue i).ready = true
  · obtain ⟨s, rfl, hs⟩ := h.waiting_of_ready hr
    rw [if_pos hr, if_pos hr]
    refine ⟨[], .done s g.shared.world, ?_, hs.inPhase_finished _⟩
    rw [hs.handler, hs.args]
    rfl
  · rw [if_neg hr, if_neg hr]
    exact .same h

/-- A delivery leaves the task alone, or frees its slot after one response, which is BUSY
exactly when the ring is full. -/
theorem flushDeliver_cases (w : ℕ) (i : Fin asyncQueueDepth) (l : Link W) :
    flushDeliver w i l = l ∨
      (flushDeliver w i l).sh.queue = l.sh.queue.free i ∧
        ((l.cs.respQueue.pending.length = 63 ∧
            (flushDeliver w i l).cs.built = l.cs.built ++ [(l.sh.queue i).busy]) ∨
          (l.cs.respQueue.pending.length ≠ 63 ∧
            (flushDeliver w i l).cs.built = l.cs.built ++ [(l.sh.queue i).response])) := by
  rcases queue_flushDeliver w i l with ⟨-, hsame⟩ | ⟨hseq, hfree, -⟩
  · exact Or.inl hsame
  · refine Or.inr ⟨hfree, ?_⟩
    rw [Ne, ← l.cs.respQueue.enqueue_eq_none (l.sh.queue i).response]
    simp only [flushDeliver, hseq, ne_eq, not_true_eq_false, if_false]
    cases l.cs.respQueue.enqueue (l.sh.queue i).response with
    | none => exact Or.inl ⟨rfl, rfl⟩
    | some q => exact Or.inr ⟨Option.some_ne_none q, rfl⟩

/-- The turn of a flush continues the life in slot `i`. -/
theorem flush_continues {g : Gateway W} (w : ℕ) {i : Fin asyncQueueDepth} {p : Phase W}
    (h : (g.shared.queue i).InPhase p) :
    Continues p (g.observeFlush w i) ((g.flushSlot w i).shared.queue i) := by
  by_cases hf : (g.shared.queue i).flushable = true
  · obtain ⟨s, world, rfl, hs, hr⟩ := h.done_of_flushable hf
    rw [observeFlush, if_pos hf]
    cases ht : g.flushTarget w (g.shared.queue i) with
    | none =>
      rw [flushSlot_of_none hf ht]
      refine ⟨[⟨s, world, .discarded⟩], .free, rfl, ?_⟩
      simp [discard, AsyncQueue.free, AsyncTask.InPhase, AsyncTask.freed]
    | some cs =>
      rw [flushSlot_of_some hf ht]
      simp only [put]
      rcases flushDeliver_cases w i ⟨cs, g.shared⟩ with hsame | ⟨hfree, hbuilt⟩
      · rw [hsame, List.drop_length]
        exact .same h
      · rw [hfree]
        have hphase : (g.shared.queue.free i i).InPhase .free := by
          simp [AsyncQueue.free, AsyncTask.InPhase, AsyncTask.freed]
        rcases hbuilt with ⟨hfull, hbuilt⟩ | ⟨hroom, hbuilt⟩
        · rw [hbuilt, List.drop_left, hs.busy_eq]
          exact ⟨[⟨s, world, .busy⟩], .free,
            by simp [Phase.obs, Life.obs, Life.last, hfull], hphase⟩
        · rw [hbuilt, List.drop_left, hs.response_eq hr]
          exact ⟨[⟨s, world, .answered⟩], .free,
            by simp [Phase.obs, Life.obs, Life.last, hroom], hphase⟩
  · rw [observeFlush, if_neg hf, flushSlot, if_neg hf]
    exact .same h

/-- A step continues the life in slot `i`. -/
theorem asyncStep_continues {g : Gateway W} {e : AsyncStep W} (hA : g.TableKept e)
    {i : Fin asyncQueueDepth} {p : Phase W} (h : (g.shared.queue i).InPhase p) :
    Continues p (observe i g e) ((g.asyncStep e).shared.queue i) := by
  cases e with
  | submit w s =>
    have hstep : g.asyncStep (.submit w s) = g.submitTask w s := rfl
    rw [observe, hstep]
    exact submit_continues w s h
  | work j =>
    rw [observe, asyncStep]
    by_cases hj : j = i
    · subst hj
      rw [if_pos rfl]
      exact work_continues h
    · rw [if_neg hj, work_queue_of_ne _ (Ne.symm hj)]
      exact .same h
  | flush w j =>
    rw [observe, asyncStep]
    by_cases hj : j = i
    · subst hj
      rw [if_pos rfl]
      exact flush_continues w h
    · rw [if_neg hj, queue_flushSlot_of_ne hj]
      exact .same h
  | others g' =>
    rw [observe, asyncStep, show g'.shared.queue = g.shared.queue from hA]
    exact .same h

/-! ## A run is lives one after the other -/

theorem observations_continues {i : Fin asyncQueueDepth} {g : Gateway W} {es : List (AsyncStep W)}
    (hA : Runs.Guarded asyncStep TableKept g es) {p : Phase W}
    (h : (g.shared.queue i).InPhase p) :
    Continues p (observations i g es) ((Runs.run asyncStep g es).shared.queue i) := by
  induction es generalizing g p with
  | nil => exact .same h
  | cons e es ih =>
    obtain ⟨ended, p', hseen, hp'⟩ := asyncStep_continues hA.1 h
    obtain ⟨ended', p'', hseen', hp''⟩ := ih hA.2 hp'
    refine ⟨ended ++ ended', p'', ?_, hp''⟩
    rw [observations, ← List.append_assoc, hseen, List.append_assoc, hseen', List.flatMap_append,
      List.append_assoc]

/-- What was seen of slot `i` is a list of lives and the first part of one more, which is what
the slot holds. -/
def LivesOneByOne (i : Fin asyncQueueDepth) (seen : List (Obs W)) (g : Gateway W) : Prop :=
  ∃ lives p, seen = List.flatMap Life.obs lives ++ p.obs ∧ (g.shared.queue i).InPhase p

/-- In every run from an empty table each slot lives one task after the other : a submission,
one call of its handler on its parameters, and one end, which is the response of that call,
or BUSY when the ring is full, or nothing when the task is dropped. A submission that finds
no free slot changes nothing. -/
theorem async_exactly_once {g : Gateway W} (hg : ∀ i, (g.shared.queue i).valid = false)
    {es : List (AsyncStep W)} (hA : Runs.Guarded asyncStep TableKept g es) :
    (∀ i, LivesOneByOne i (observations i g es) (Runs.run asyncStep g es)) ∧
      ∀ w s, (∀ i, ((Runs.run asyncStep g es).shared.queue i).valid = true) →
        (Runs.run asyncStep g es).submitTask w s = Runs.run asyncStep g es := by
  constructor
  · intro i
    have hfree : (g.shared.queue i).InPhase .free := hg i
    obtain ⟨lives, p, hseen, hp⟩ := observations_continues hA hfree
    exact ⟨lives, p, hseen, hp⟩
  · intro w s hfull
    rcases submitTask_cases w s (Runs.run asyncStep g es) with ⟨-, hsame⟩ | ⟨j, -, hfree, -⟩
    · exact hsame
    · have hj := SlotTable.free_of_firstFree hfree
      rw [hfull j] at hj
      cases hj

/-- StartRead from socket 7. -/
def startReadSubmission : Submission Unit :=
  ⟨7, 0, 0, startRead.cmd, startRead.payload, cmd06HandlerStartRead,
    Nat.not_lt.1 startRead.not_overflow⟩

/-- It is submitted, run and flushed. -/
def startReadSteps : List (AsyncStep Unit) :=
  [.submit 0 startReadSubmission, .work firstSlot, .flush 0 firstSlot]

theorem async_exactly_once_startRead : LivesOneByOne 0
    (observations 0 idleGateway startReadSteps)
    (Runs.run asyncStep idleGateway startReadSteps) := by
  have hA : Runs.Guarded asyncStep TableKept idleGateway startReadSteps :=
    ⟨trivial, trivial, trivial, trivial⟩
  exact (async_exactly_once idleGateway_started.queue hA).1 0

end Gateway

end Xlab
