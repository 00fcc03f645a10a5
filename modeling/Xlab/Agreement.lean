import Xlab.Delivery

/-!
# The two counters of an idle session

A session that has no task in the table is idle, and then the number its flush expects should
be the next one it gives out : a blocking command that arrives is delivered by the first flush
after it has run. A frame that is broken, unknown or wrongly parameterised takes a number, and
neither its answer nor a later flush makes up for it. A command answered directly makes the
expected number the next one : it makes up for every number lost before it, and passes over the
tasks in the table. `numbersLost` keeps this account of a run. The next number is always the
expected one, plus the tasks in the table, plus the account (`lost_run`). So in an idle state
the counters agree exactly when the account is zero (`agrees_iff`).
-/

namespace Xlab

variable {W : Type}

/-- The account of the numbers lost after a step, from `n` before it. -/
def lostAfter (t : RouterTable W) (l : Link W) (n : UInt32) : LinkEvent W → UInt32
  | .react (.frame f) =>
    if l.submits t f then n
    else if routerAccepts t f then -UInt32.ofNat l.ledger.outstanding.card else n + 1
  | .react _ => n + 1
  | _ => n

/-- The account of the numbers lost after a run, from `n` before it. -/
def numbersLost (w : ℕ) (t : RouterTable W) : Link W → UInt32 → List (LinkEvent W) → UInt32
  | _, n, [] => n
  | l, n, e :: es => numbersLost w t (linkStep w t l e) (lostAfter t l n e) es

/-- If the session is idle, its counters agree, and a blocking command that arrives is
delivered by the first flush after it has run. -/
def Link.Agrees (w : ℕ) (t : RouterTable W) (l : Link W) : Prop :=
  l.NoTask → l.cs.respSeqExpected = l.cs.nextReqSeq ∧
    ∀ f, l.submits t f = true →
      (flushCompleted w (workSlots (List.finRange _) (tcpReact w t (.frame f) l))).NoTask

/-! ## The account -/

/-- The next number is `n` after those of the tasks in the table. -/
def Ledger.Lost (n : UInt32) (g : Ledger) : Prop :=
  g.next = g.expected + UInt32.ofNat g.outstanding.card + n

namespace Ledger

variable {g : Ledger} {n : UInt32}

theorem lost_skip (h : g.Lost n) : g.skip.Lost (n + 1) := by
  have hnext : g.next = g.expected + UInt32.ofNat g.outstanding.card + n := h
  show g.next + 1 = g.expected + UInt32.ofNat g.outstanding.card + (n + 1)
  rw [hnext, UInt32.add_assoc]

theorem lost_submit (h : g.Lost n) : g.submit.Lost n := by
  have hnext : g.next = g.expected + UInt32.ofNat g.outstanding.card + n := h
  show g.next + 1 = g.expected + UInt32.ofNat (g.next ::ₘ g.outstanding).card + n
  have hcard : UInt32.ofNat (g.next ::ₘ g.outstanding).card =
      UInt32.ofNat g.outstanding.card + 1 := by
    rw [Multiset.card_cons, UInt32.ofNat_add]
    rfl
  rw [hcard, hnext]
  ac_rfl

theorem lost_answer (g : Ledger) : g.answer.Lost (-UInt32.ofNat g.outstanding.card) := by
  show g.next + 1 = g.next + 1 + UInt32.ofNat g.outstanding.card + -UInt32.ofNat g.outstanding.card
  rw [UInt32.add_assoc, UInt32.add_right_neg, UInt32.add_zero]

theorem lost_deliver (h : g.outstanding = g.expected ::ₘ g.deliver.outstanding) (hn : g.Lost n) :
    g.deliver.Lost n := by
  have hnext : g.next = g.expected + UInt32.ofNat g.outstanding.card + n := hn
  show g.next = g.expected + 1 + UInt32.ofNat g.deliver.outstanding.card + n
  have hcard : UInt32.ofNat g.outstanding.card =
      UInt32.ofNat g.deliver.outstanding.card + 1 := by
    rw [h, Multiset.card_cons, UInt32.ofNat_add]
    rfl
  rw [hnext, hcard]
  ac_rfl

/-- Without outstanding tasks the counters agree if the account is zero. -/
theorem lost_of_zero (h : g.Lost n) (h0 : g.outstanding = 0) : g.expected = g.next ↔ n = 0 := by
  have hnext : g.next = g.expected + UInt32.ofNat g.outstanding.card + n := h
  have hcard : UInt32.ofNat g.outstanding.card = 0 := by
    rw [h0]
    rfl
  rw [hnext, hcard, UInt32.add_zero]
  constructor
  · exact fun he => (UInt32.add_eq_left).1 he.symm
  · rintro rfl
    exact (UInt32.add_zero _).symm

end Ledger

/-- A step keeps the account. -/
theorem lost_linkStep (w : ℕ) (t : RouterTable W) {l : Link W} {n : UInt32} {e : LinkEvent W}
    (hA : Admissible l e) (h : l.ledger.Lost n) :
    (linkStep w t l e).ledger.Lost (lostAfter t l n e) := by
  cases e with
  | others sh =>
    rw [linkStep, ledger_others hA]
    exact h
  | body bytes => exact h
  | react it =>
    rw [linkStep, ledger_react]
    cases it with
    | incomplete => exact Ledger.lost_skip h
    | chkErr => exact Ledger.lost_skip h
    | frame f =>
      simp only [lostAfter]
      split_ifs
      · exact Ledger.lost_submit h
      · exact Ledger.lost_answer _
      · exact Ledger.lost_skip h
  | work i =>
    rw [linkStep, ledger_work]
    exact h
  | flush w' i =>
    rw [linkStep]
    by_cases hd : l.deliverable i = true
    · obtain ⟨hl, hout⟩ := ledger_flush hd w'
      rw [hl] at hout ⊢
      exact Ledger.lost_deliver hout h
    · rw [flushOwn_of_not_deliverable (Bool.not_eq_true _ ▸ hd)]
      exact h
  | turn =>
    rw [linkStep, ledger_turn]
    exact h

/-- A run keeps the account. -/
theorem lost_run (w : ℕ) (t : RouterTable W) {l : Link W} {n : UInt32} {es : List (LinkEvent W)}
    (hA : Runs.Guarded (linkStep w t) Admissible l es) (h : l.ledger.Lost n) :
    (Runs.run (linkStep w t) l es).ledger.Lost (numbersLost w t l n es) := by
  induction es generalizing l n with
  | nil => exact h
  | cons e es ih => exact ih hA.2 (lost_linkStep w t hA.1 h)

/-! ## The next blocking command -/

/-- The next blocking command of an idle session is delivered at once exactly when the
counters agree. -/
theorem noTask_flushCompleted_submitted (w : ℕ) (t : RouterTable W) {l : Link W} {f : Frame}
    (h : l.NoTask) (hs : l.submits t f = true) :
    (flushCompleted w (workSlots (List.finRange _) (tcpReact w t (.frame f) l))).NoTask ↔
      l.cs.respSeqExpected = l.cs.nextReqSeq := by
  have h0 : l.ledger.outstanding = 0 := outstanding_eq_zero.2 h
  generalize hl' : workSlots (List.finRange _) (tcpReact w t (.frame f) l) = l'
  have hledger : l'.ledger = l.ledger.submit := by
    rw [← hl', ledger_workSlots, ledger_react]
    exact if_pos hs
  have hcons : l'.ledger.Consecutive ↔ l.cs.respSeqExpected = l.cs.nextReqSeq := by
    rw [hledger, Ledger.consecutive_submit (Ledger.consecutive_of_zero h0), h0]
    show l.ledger.next = l.ledger.expected + 0 ↔ _
    rw [UInt32.add_zero]
    exact eq_comm
  rw [← hcons, Link.NoTask, ← outstanding_eq_zero]
  constructor
  · exact fun hno => (consecutive_flushSlots w _ l').1 (Ledger.consecutive_of_zero hno)
  · intro hc
    have hdone : l'.Completed := hl' ▸ completed_workSlots List.mem_finRange _
    have hcard : l'.ledger.outstanding.card = 1 := by
      rw [hledger, Ledger.submit, h0]
      rfl
    have hne : l'.ledger.outstanding ≠ 0 := by
      rintro h0'
      rw [h0'] at hcard
      cases hcard
    -- the task is the only one, and the pass delivers one at least
    obtain ⟨i, hi⟩ := exists_deliverable hc hdone hne
    have hlt := card_flushSlots_lt w (List.mem_finRange i) hi
    rw [hcard] at hlt
    exact Multiset.card_eq_zero.1 (Nat.lt_one_iff.1 hlt)

/-! ## Runs -/

/-- In every state of a run of a session, next to anything the rest of the gateway does, the
agreement holds exactly when the account of the numbers lost is zero if the session is idle. -/
theorem agrees_iff (w : ℕ) (t : RouterTable W) {l : Link W} (hl : l.Fresh)
    (es : List (LinkEvent W)) (hA : Runs.Guarded (linkStep w t) Admissible l es) :
    (Runs.run (linkStep w t) l es).Agrees w t ↔
      ((Runs.run (linkStep w t) l es).NoTask → numbersLost w t l 0 es = 0) := by
  have hstart : l.ledger.Lost 0 := by
    have h0 : l.ledger.outstanding = 0 := outstanding_eq_zero.2 hl.queue
    show l.ledger.next = l.ledger.expected + UInt32.ofNat l.ledger.outstanding.card + 0
    rw [h0]
    show l.cs.nextReqSeq = l.cs.respSeqExpected + 0 + 0
    rw [hl.cs]
    rfl
  have hlost := lost_run w t hA hstart
  refine forall_congr' fun hno => ?_
  have hzero := Ledger.lost_of_zero hlost (outstanding_eq_zero.2 hno)
  constructor
  · exact fun h => hzero.1 h.1
  · exact fun h => ⟨hzero.2 h, fun f hs =>
      (noTask_flushCompleted_submitted w t hno hs).2 (hzero.2 h)⟩

/-- The first blocking command of a session, run and flushed. -/
theorem agrees_startRead : (Runs.run (linkStep 0 cmdTable) idleLink
    [.react (.frame startRead), .work 0, .flush 0 0]).Agrees 0 cmdTable := by
  refine (agrees_iff 0 cmdTable idleLink_fresh
    [.react (.frame startRead), .work 0, .flush 0 0]
    ⟨trivial, trivial, trivial, trivial⟩).2 fun _ => ?_
  have hs : idleLink.submits cmdTable startRead = true := by decide +kernel
  simp only [numbersLost, lostAfter, if_pos hs]

/-- A truncated frame on a new session : the session stays idle, its next number is 1 and the
one it expects is 0. -/
theorem counters_apart_after_truncated_frame :
    ¬∀ (l : Link Unit) (es : List (LinkEvent Unit)), l.Fresh →
      Runs.Guarded (linkStep 0 cmdTable) Admissible l es →
        (Runs.run (linkStep 0 cmdTable) l es).Agrees 0 cmdTable := by
  intro h
  have hagrees := h idleLink [.react .incomplete] idleLink_fresh ⟨trivial, trivial⟩
  exact absurd (hagrees fun _ => rfl).1 (by decide)

end Xlab
