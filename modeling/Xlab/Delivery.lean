import Xlab.Ledger

/-!
# Every completed task is answered

A flush passes over a completed task until the session expects its number. So all the
tasks of a session are answered, by enough flushes, exactly when their numbers are
`Consecutive` : the ones from the expected number on, without a gap. `OnTime` is what a step
needs for that : a submitted frame takes the number after the outstanding ones, and a command
is answered directly only when no task is outstanding. An answer to a broken or unknown frame
takes a number and leaves the expected one behind, so the next submission is late.

`no_response_stuck_iff` : in a run every task can be answered at every moment exactly when
every step of the run is on time.
-/

open SeqRange

namespace Xlab

variable {W : Type}

/-! ## Consecutive numbers -/

/-- The outstanding numbers are those from the expected one on. -/
def Ledger.Consecutive (g : Ledger) : Prop :=
  g.outstanding = (from32 g.expected g.outstanding.card : Multiset UInt32)

namespace Ledger

variable {g : Ledger}

theorem consecutive_of_zero (h : g.outstanding = 0) : g.Consecutive := by
  rw [Consecutive, h]
  rfl

theorem consecutive_submit (h : g.Consecutive) :
    g.submit.Consecutive ↔ g.next = g.expected + UInt32.ofNat g.outstanding.card := by
  have hr : (from32 g.expected (g.outstanding.card + 1) : Multiset UInt32) =
      (g.expected + UInt32.ofNat g.outstanding.card) ::ₘ g.outstanding := by
    rw [from32_concat, ← Multiset.coe_add, Multiset.coe_singleton, Multiset.add_comm,
      Multiset.singleton_add]
    exact congrArg _ h.symm
  simp only [Consecutive, submit, Multiset.card_cons]
  rw [hr, Multiset.cons_inj_left]

theorem consecutive_answer (h : g.Consecutive) (hn : g.outstanding.card < 2 ^ 31) :
    g.answer.Consecutive ↔ g.outstanding = 0 ∨ g.next + 1 = g.expected := by
  simp only [Consecutive, answer]
  constructor
  · intro h'
    rcases Nat.eq_zero_or_pos g.outstanding.card with h0 | hpos
    · exact Or.inl (Multiset.card_eq_zero.1 h0)
    · exact Or.inr (start_eq_of_perm hpos hn (Multiset.coe_eq_coe.1 (h'.symm.trans h)))
  · rintro (h0 | he)
    · rw [h0]
      rfl
    · rw [he]
      exact h

theorem consecutive_deliver (h : g.outstanding = g.expected ::ₘ g.deliver.outstanding) :
    g.deliver.Consecutive ↔ g.Consecutive := by
  unfold Consecutive
  rw [h, Multiset.card_cons, from32_succ, ← Multiset.cons_coe, Multiset.cons_inj_right]
  exact Iff.rfl

/-- The expected task is outstanding if any is. -/
theorem Consecutive.expected_mem (h : g.Consecutive) (hne : g.outstanding ≠ 0) :
    g.expected ∈ g.outstanding := by
  obtain ⟨n, hn⟩ := Nat.exists_eq_succ_of_ne_zero (mt Multiset.card_eq_zero.1 hne)
  rw [h, hn, from32_succ]
  exact List.mem_cons_self

end Ledger

/-- The numbers stay consecutive under a step of the session at `l`. -/
def OnTime (t : RouterTable W) (l : Link W) : LinkEvent W → Prop
  | .react (.frame f) =>
    if l.submits t f then
      l.ledger.next = l.ledger.expected + UInt32.ofNat l.ledger.outstanding.card
    else routerAccepts t f = true →
      l.ledger.outstanding = 0 ∨ l.ledger.next + 1 = l.ledger.expected
  | _ => True

/-- A flush does not change whether the numbers are consecutive. -/
theorem consecutive_flushOwn (w : ℕ) (i : Fin asyncQueueDepth) (l : Link W) :
    (flushOwn w i l).ledger.Consecutive ↔ l.ledger.Consecutive := by
  by_cases hd : l.deliverable i = true
  · obtain ⟨hl, hout⟩ := ledger_flush hd w
    rw [hl] at hout ⊢
    exact Ledger.consecutive_deliver hout
  · rw [flushOwn_of_not_deliverable (Bool.not_eq_true _ ▸ hd)]

/-- Consecutive numbers stay consecutive exactly under the steps that are on time. -/
theorem consecutive_linkStep (w : ℕ) (t : RouterTable W) {l : Link W} {e : LinkEvent W}
    (hA : Admissible l e) (h : l.ledger.Consecutive) :
    (linkStep w t l e).ledger.Consecutive ↔ OnTime t l e := by
  cases e with
  | others sh =>
    rw [linkStep, ledger_others hA]
    exact iff_of_true h trivial
  | body bytes => exact iff_of_true h trivial
  | react it =>
    rw [linkStep, ledger_react]
    cases it with
    | incomplete => exact iff_of_true h trivial
    | chkErr => exact iff_of_true h trivial
    | frame f =>
      simp only [OnTime]
      split_ifs with hs ha
      · exact Ledger.consecutive_submit h
      · have hcard : l.ledger.outstanding.card ≤ 512 := card_outstanding_le l
        rw [Ledger.consecutive_answer h (by omega)]
        simp [ha]
      · exact iff_of_true h fun h' => absurd h' ha
  | work i =>
    rw [linkStep, ledger_work]
    exact iff_of_true h trivial
  | flush w' i => exact iff_of_true ((consecutive_flushOwn w' i l).2 h) trivial
  | turn =>
    rw [linkStep, ledger_turn]
    exact iff_of_true h trivial

/-! ## Flushing until nothing is outstanding -/

/-- Every task of the session has run. -/
def Link.Completed (l : Link W) : Prop :=
  ∀ i, (l.sh.queue i).own l.cs.ident = true → (l.sh.queue i).completed = true

/-- The response ring drained into a socket that takes everything. -/
def drainRing (l : Link W) : Link W :=
  (writeLoop 65 false { l with sh := { l.sh with script := [] } }).2.2

/-- The ring drained and the table flushed. -/
def flushRound (w : ℕ) (l : Link W) : Link W :=
  flushCompleted w (drainRing l)

/-- No valid task of the session is in the table. -/
def Link.NoTask (l : Link W) : Prop :=
  ∀ i, (l.sh.queue i).own l.cs.ident = false

/-- If every task of the session has run, a number of flushes with the ring drained in
between leaves no valid task of it. -/
def Link.Answered (w : ℕ) (l : Link W) : Prop :=
  l.Completed → ∃ n, ((flushRound w)^[n] l).NoTask

theorem drainRing_control (l : Link W) : (drainRing l).control = l.control :=
  writeLoop_keeps (P := fun l' => l'.control = l.control)
    (fun l' h => (writeTurn_control l').trans h) 65 false rfl

/-- The slots of a flush, from some slot on. -/
def flushSlots (w : ℕ) (is : List (Fin asyncQueueDepth)) (l : Link W) : Link W :=
  is.foldl (fun l i => flushOwn w i l) l

theorem consecutive_flushSlots (w : ℕ) (is : List (Fin asyncQueueDepth)) (l : Link W) :
    (flushSlots w is l).ledger.Consecutive ↔ l.ledger.Consecutive := by
  induction is generalizing l with
  | nil => exact Iff.rfl
  | cons i is ih => exact (ih (flushOwn w i l)).trans (consecutive_flushOwn w i l)

theorem completed_flushOwn {l : Link W} (h : l.Completed) (w : ℕ) (i : Fin asyncQueueDepth) :
    (flushOwn w i l).Completed := by
  by_cases hd : l.deliverable i = true
  · have hc := control_flushOwn hd w
    have hid : (flushOwn w i l).cs.ident = l.cs.ident := (congrArg Control.ident hc).trans rfl
    have hq : (flushOwn w i l).sh.queue = l.sh.queue.free i := (congrArg Control.queue hc).trans rfl
    intro j hj
    rw [hid, hq, AsyncQueue.free] at hj
    rw [hq, AsyncQueue.free]
    by_cases hij : j = i
    · subst hij
      rw [Function.update_self] at hj
      rw [own_eq_false_of_not_valid rfl] at hj
      cases hj
    · rw [Function.update_of_ne hij] at hj ⊢
      exact h j hj
  · rwa [flushOwn_of_not_deliverable (Bool.not_eq_true _ ▸ hd)]

theorem completed_flushSlots (w : ℕ) (is : List (Fin asyncQueueDepth)) {l : Link W}
    (h : l.Completed) : (flushSlots w is l).Completed := by
  induction is generalizing l with
  | nil => exact h
  | cons i is ih => exact ih (completed_flushOwn h w i)

theorem card_flushOwn_le (w : ℕ) (i : Fin asyncQueueDepth) (l : Link W) :
    (flushOwn w i l).ledger.outstanding.card ≤ l.ledger.outstanding.card := by
  by_cases hd : l.deliverable i = true
  · rw [(ledger_flush hd w).2, Multiset.card_cons]
    exact Nat.le_succ _
  · rw [flushOwn_of_not_deliverable (Bool.not_eq_true _ ▸ hd)]

theorem card_flushSlots_le (w : ℕ) (is : List (Fin asyncQueueDepth)) (l : Link W) :
    (flushSlots w is l).ledger.outstanding.card ≤ l.ledger.outstanding.card := by
  induction is generalizing l with
  | nil => exact Nat.le_refl _
  | cons i is ih => exact Nat.le_trans (ih (flushOwn w i l)) (card_flushOwn_le w i l)

/-- A flush that passes a deliverable task delivers at least one. -/
theorem card_flushSlots_lt (w : ℕ) {is : List (Fin asyncQueueDepth)} {l : Link W}
    {i : Fin asyncQueueDepth} (hi : i ∈ is) (hd : l.deliverable i = true) :
    (flushSlots w is l).ledger.outstanding.card < l.ledger.outstanding.card := by
  have hlt : ∀ j, l.deliverable j = true → ∀ is,
      (flushSlots w is (flushOwn w j l)).ledger.outstanding.card < l.ledger.outstanding.card := by
    intro j hj is
    refine Nat.lt_of_le_of_lt (card_flushSlots_le w is _) ?_
    rw [(ledger_flush hj w).2, Multiset.card_cons]
    exact Nat.lt_succ_self _
  induction is with
  | nil => cases hi
  | cons j is ih =>
    by_cases hj : l.deliverable j = true
    · exact hlt j hj is
    · have hne : i ≠ j := fun h => hj (h ▸ hd)
      rw [flushSlots, List.foldl_cons, flushOwn_of_not_deliverable (Bool.not_eq_true _ ▸ hj)]
      exact ih ((List.mem_cons.1 hi).resolve_left hne)

/-- Of consecutive completed tasks one can be delivered. -/
theorem exists_deliverable {l : Link W} (h : l.ledger.Consecutive) (hc : l.Completed)
    (hne : l.ledger.outstanding ≠ 0) : ∃ i, l.deliverable i = true := by
  have hmem : l.ledger.expected ∈ l.control.tasks.map AsyncTask.seq := h.expected_mem hne
  obtain ⟨task, htask, hseq⟩ := Multiset.mem_map.1 hmem
  obtain ⟨i, hown, rfl⟩ := mem_tasks.1 htask
  obtain ⟨hv, ho⟩ := Bool.and_eq_true_iff.1 hown
  have hdone := hc i hown
  refine ⟨i, ?_⟩
  have hseq' : (l.sh.queue i).seq = l.cs.respSeqExpected := hseq
  have ho' : (l.sh.queue i).ownedBy l.cs.ident = true := ho
  have hv' : (l.sh.queue i).valid = true := hv
  simp [Link.deliverable, AsyncTask.flushable, hv', hdone, ho', hseq']

theorem ledger_drainRing (l : Link W) : (drainRing l).ledger = l.ledger :=
  congrArg Control.ledger (drainRing_control l)

theorem completed_drainRing {l : Link W} (h : l.Completed) : (drainRing l).Completed := by
  have hc := drainRing_control l
  have hid : (drainRing l).cs.ident = l.cs.ident := congrArg Control.ident hc
  have hq : (drainRing l).sh.queue = l.sh.queue := congrArg Control.queue hc
  intro i
  rw [hid, hq]
  exact h i

theorem completed_flushRound {l : Link W} (h : l.Completed) (w : ℕ) :
    (flushRound w l).Completed :=
  completed_flushSlots w _ (completed_drainRing h)

theorem consecutive_flushRound (w : ℕ) (l : Link W) :
    (flushRound w l).ledger.Consecutive ↔ l.ledger.Consecutive := by
  rw [← ledger_drainRing l]
  exact consecutive_flushSlots w _ _

/-- While tasks are outstanding a round delivers at least one. -/
theorem card_flushRound_lt (w : ℕ) {l : Link W} (h : l.ledger.Consecutive) (hc : l.Completed)
    (hne : l.ledger.outstanding ≠ 0) :
    (flushRound w l).ledger.outstanding.card < l.ledger.outstanding.card := by
  rw [← ledger_drainRing l] at h hne ⊢
  obtain ⟨i, hi⟩ := exists_deliverable h (completed_drainRing hc) hne
  exact card_flushSlots_lt w (List.mem_finRange i) hi

theorem consecutive_iterate (w n : ℕ) (l : Link W) :
    ((flushRound w)^[n] l).ledger.Consecutive ↔ l.ledger.Consecutive := by
  induction n generalizing l with
  | zero => exact Iff.rfl
  | succ n ih => exact (ih (flushRound w l)).trans (consecutive_flushRound w l)

theorem exists_noTask (w k : ℕ) {l : Link W} (h : l.ledger.Consecutive) (hc : l.Completed)
    (hk : l.ledger.outstanding.card ≤ k) : ∃ n, ((flushRound w)^[n] l).NoTask := by
  induction k generalizing l with
  | zero =>
    exact ⟨0, outstanding_eq_zero.1 (Multiset.card_eq_zero.1 (Nat.le_zero.1 hk))⟩
  | succ k ih =>
    by_cases hne : l.ledger.outstanding = 0
    · exact ⟨0, outstanding_eq_zero.1 hne⟩
    · have hlt := card_flushRound_lt w h hc hne
      obtain ⟨n, hn⟩ := ih ((consecutive_flushRound w l).2 h) (completed_flushRound hc w) (by omega)
      exact ⟨n + 1, hn⟩

/-- All tasks that have run can be answered exactly when their numbers are consecutive. -/
theorem answered_iff_consecutive (w : ℕ) {l : Link W} (hc : l.Completed) :
    l.Answered w ↔ l.ledger.Consecutive := by
  constructor
  · intro h
    obtain ⟨n, hn⟩ := h hc
    exact (consecutive_iterate w n l).1 (Ledger.consecutive_of_zero (outstanding_eq_zero.2 hn))
  · exact fun h _ => exists_noTask w _ h hc (Nat.le_refl _)

/-! ## Runs -/

/-- The background thread at some slots. -/
def workSlots (is : List (Fin asyncQueueDepth)) (l : Link W) : Link W :=
  ⟨l.cs, is.foldl Shared.work l.sh⟩

theorem ledger_workSlots (is : List (Fin asyncQueueDepth)) (l : Link W) :
    (workSlots is l).ledger = l.ledger := by
  induction is generalizing l with
  | nil => rfl
  | cons i is ih => exact (ih ⟨l.cs, l.sh.work i⟩).trans (ledger_work i l)

/-- The slot's task, if valid, has run. -/
def AsyncTask.Done (task : AsyncTask W) : Prop :=
  task.valid = true → task.completed = true

theorem done_work (sh : Shared W) (i : Fin asyncQueueDepth) : ((sh.work i).queue i).Done := by
  rw [work_queue_self]
  split_ifs with hr
  · exact fun _ => rfl
  · intro hv
    simpa [AsyncTask.ready, hv] using hr

theorem done_work_of_done {sh : Shared W} {j : Fin asyncQueueDepth} (h : (sh.queue j).Done)
    (i : Fin asyncQueueDepth) : ((sh.work i).queue j).Done := by
  by_cases hij : j = i
  · exact hij ▸ done_work sh j
  · rwa [work_queue_of_ne sh hij]

theorem done_foldl_work {is : List (Fin asyncQueueDepth)} {sh : Shared W}
    {j : Fin asyncQueueDepth} (h : j ∈ is ∨ (sh.queue j).Done) :
    ((is.foldl Shared.work sh).queue j).Done := by
  induction is generalizing sh with
  | nil => exact h.resolve_left (List.not_mem_nil)
  | cons i is ih =>
    refine ih ?_
    rcases h with h | h
    · rcases List.mem_cons.1 h with rfl | h
      · exact Or.inr (done_work sh j)
      · exact Or.inl h
    · exact Or.inr (done_work_of_done h i)

/-- After the background thread was at every slot every task has run. -/
theorem completed_workSlots {is : List (Fin asyncQueueDepth)} (h : ∀ i, i ∈ is) (l : Link W) :
    (workSlots is l).Completed :=
  fun i hi => done_foldl_work (Or.inl (h i)) (Bool.and_eq_true_iff.1 hi).1

/-- In a run of a session, next to anything the rest of the gateway does, every task can
always be answered once it has run, exactly when every step of the run is on time. -/
theorem no_response_stuck_iff (w : ℕ) (t : RouterTable W) {l : Link W} (hl : l.Fresh)
    (es : List (LinkEvent W)) (hA : Runs.Guarded (linkStep w t) Admissible l es) :
    (∀ pre, pre <+: es → ∀ is, (workSlots is (Runs.run (linkStep w t) l pre)).Answered w) ↔
      Runs.Guarded (linkStep w t) (OnTime t) l es := by
  refine Runs.prefixes_iff_guarded (P := fun l => ∀ is, (workSlots is l).Answered w)
    (I := fun l => l.ledger.Consecutive) ?_ ?_ ?_ ?_ hA
  · intro l h is hc
    exact (answered_iff_consecutive w hc).2 (by rwa [ledger_workSlots]) hc
  · exact fun l e h hA hC => (consecutive_linkStep w t hA h).2 hC
  · intro l e h hA hP
    have hb := (answered_iff_consecutive w (completed_workSlots List.mem_finRange _)).1
      (hP (List.finRange _))
    rw [ledger_workSlots] at hb
    exact (consecutive_linkStep w t hA h).1 hb
  · exact Ledger.consecutive_of_zero (outstanding_eq_zero.2 hl.queue)

/-! ## A run that gets stuck -/

/-- The first blocking command of a session is answered. -/
theorem no_response_stuck_startRead :
    (workSlots [0] (Runs.run (linkStep 0 cmdTable) idleLink
      [.react (.frame startRead)])).Answered 0 := by
  refine (no_response_stuck_iff 0 cmdTable idleLink_fresh [.react (.frame startRead)]
    ⟨trivial, trivial⟩).2 ⟨?_, trivial⟩ _ (List.prefix_refl _) [0]
  have hs : idleLink.submits cmdTable startRead = true := by decide +kernel
  simp only [OnTime, if_pos hs, idleLink_outstanding]
  rfl

/-- After a truncated frame a blocking command is never answered : its number is 1, and the
session expects 0. -/
theorem response_stuck_after_truncated_frame :
    ¬∀ (l : Link Unit) (es : List (LinkEvent Unit)), l.Fresh →
      Runs.Guarded (linkStep 0 cmdTable) Admissible l es →
        (Runs.run (linkStep 0 cmdTable) l es).Answered 0 := by
  intro h
  have hans := h idleLink [.react .incomplete, .react (.frame startRead), .work 0] idleLink_fresh
    ⟨trivial, trivial, trivial, trivial⟩
  have hc : (Runs.run (linkStep 0 cmdTable) idleLink
      [.react .incomplete, .react (.frame startRead), .work 0]).Completed := by
    unfold Link.Completed
    decide +kernel
  have hs : (tcpReact 0 cmdTable .incomplete idleLink).submits cmdTable startRead = true := by
    decide +kernel
  have hl : (Runs.run (linkStep 0 cmdTable) idleLink
      [.react .incomplete, .react (.frame startRead), .work 0]).ledger = ⟨2, 0, {1}⟩ := by
    simp only [Runs.run_cons, Runs.run_nil, linkStep, ledger_work, ledger_react, if_pos hs]
    refine Ledger.ext rfl rfl ?_
    simp only [Ledger.submit, Ledger.skip, idleLink_outstanding]
    rfl
  have hcons := (answered_iff_consecutive 0 hc).1 hans
  rw [Ledger.Consecutive, hl] at hcons
  revert hcons
  decide

end Xlab
