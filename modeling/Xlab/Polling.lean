import Xlab.Answers
import Xlab.Receiving

/-!
# A client that waits for its answers

A client may send only whole frames of commands the router accepts, each after it has read an answer
to every one before it. Then nothing can get out of order : a frame arrives when the ring is empty
and no task is outstanding, so `Polled` holds at every moment, and every step is in turn. The socket
takes a direct send whole, and of a write a number of whole responses or nothing.

`polling_client_served` : such a client reads an answer to each of its requests, in order, next to
anything the rest of the gateway does. And the last one does not stay away : once the background
thread has been at every slot, one flush with the ring drained before and after it answers
everything.
-/

open Streams

namespace Xlab

variable {W : Type} {w : ℕ} {t : RouterTable W} {l : Link W}

/-- The replies the client has read. -/
def Link.repliesRead (l : Link W) : List Reply :=
  (unpack decodeReply l.cs.output.bytes).1

/-- The client sends a frame the router accepts, when it has read as many replies as it has sent
requests. -/
def Polls (t : RouterTable W) (l : Link W) : LinkEvent W → Prop
  | .react it => ∃ f, it = .frame f ∧ routerAccepts t f = true ∧
      l.repliesRead.length = l.cs.recognised.length
  | _ => True

/-- A call that takes everything takes all the slots. -/
theorem wholeTurn_of_nextWhole (h : l.sh.nextWhole) : WholeTurn l := by
  intro n hn
  refine ⟨l.iov.length, ?_⟩
  rw [Link.turnCall, h.call] at hn
  rw [List.take_length]
  exact (Option.some.inj hn).symm

/-- What holds of the session of a client that waits for its answers. -/
structure Polled (t : RouterTable W) (l : Link W) : Prop where
  sequenced : l.Sequenced
  answering : Answering t (l.cs.recognised.map .frame) l
  expected : l.ledger.next = l.ledger.expected + UInt32.ofNat l.ledger.outstanding.card
  one : l.cs.respQueue.pending.length + l.ledger.outstanding.card ≤ 1

namespace Polled

theorem fresh (hl : l.Fresh) : Polled t l where
  sequenced := sequenced_fresh hl
  answering := by
    have hnil : l.cs.recognised = [] := congrArg Session.recognised hl.cs
    rw [hnil]
    exact .fresh hl
  expected := by
    have h0 := outstanding_eq_zero.2 hl.queue
    have hnext : l.ledger.next = 0 := congrArg Session.nextReqSeq hl.cs
    have hexp : l.ledger.expected = 0 := congrArg Session.respSeqExpected hl.cs
    rw [h0, hnext, hexp]
    rfl
  one := by
    rw [outstanding_eq_zero.2 hl.queue, hl.cs]
    exact Nat.zero_le 1

theorem whole (h : Polled t l) : ∀ s ∈ l.cs.respQueue.pending, s.Whole := by
  obtain ⟨sent, hs⟩ := h.sequenced
  exact hs.whole

/-- Whole slots that owe nothing are none. -/
theorem owed_eq_nil (h : Polled t l) :
    owed l.cs.respQueue.pending = [] ↔ l.cs.respQueue.pending = [] := by
  constructor
  · intro howed
    rcases hp : l.cs.respQueue.pending with - | ⟨s, ss⟩
    · rfl
    · obtain ⟨hunsent, hne⟩ := h.whole s (hp ▸ List.mem_cons_self)
      rw [hp, owed_cons, List.append_eq_nil_iff] at howed
      have hsent : s.sentLen = 0 := by simpa [RespSlot.unsent] using hunsent
      rw [hsent, List.drop_zero] at howed
      exact absurd howed.1 hne
  · intro hnil
    rw [hnil, owed_nil]

/-- When the client has read all its answers nothing waits and no task is outstanding. -/
theorem idle (h : Polled t l) (hn : l.repliesRead.length = l.cs.recognised.length) :
    l.cs.respQueue.pending = [] ∧ l.ledger.outstanding = 0 := by
  obtain ⟨replies, rest, hunpack, -, hle, hall, -⟩ := h.answering.reads
  have hcount := h.answering.count
  rw [List.length_map] at hcount
  have hread : replies.length = l.cs.recognised.length := by rw [← hn, Link.repliesRead, hunpack]
  exact ⟨h.owed_eq_nil.1 (hall.1 (by omega)), Multiset.card_eq_zero.1 (by omega)⟩

/-- A client that waits keeps the session in turn. -/
theorem inTurn (h : Polled t l) {e : LinkEvent W} (hP : Polls t l e) : InTurn t l e := by
  cases e with
  | react it =>
    obtain ⟨f, rfl, -, hn⟩ := hP
    exact Or.inr (h.idle hn)
  | flush w' i =>
    intro hd
    have hone := h.one
    exact ⟨by omega, h.expected⟩
  | _ => trivial

/-- The counters agree after a frame that the router accepts. -/
theorem ledger_accepted (h : Polled t l) (w : ℕ) {f : Frame} (ha : routerAccepts t f = true)
    (h0 : l.ledger.outstanding = 0) : (tcpReact w t (.frame f) l).ledger.next =
      (tcpReact w t (.frame f) l).ledger.expected +
        UInt32.ofNat (tcpReact w t (.frame f) l).ledger.outstanding.card ∧
      (tcpReact w t (.frame f) l).ledger.outstanding.card ≤ 1 := by
  have hl := ledger_react w t (.frame f) l
  have hexp := h.expected
  rw [h0] at hexp
  simp only [if_pos ha] at hl
  rw [hl]
  split_ifs
  · simp only [Ledger.submit, h0, Multiset.card_cons, Multiset.card_zero]
    rw [hexp]
    simp
  · simp only [Ledger.answer, h0]
    simp

theorem respQueue_react {f : Frame} (hS : DirectSendsWhole t l (.react (.frame f))) (w : ℕ) :
    (tcpReact w t (.frame f) l).cs.respQueue = l.cs.respQueue := by
  by_cases hs : l.submits t f = true
  · obtain ⟨_, _, -, -, -, h'⟩ := tcpFrame_of_submits hs w
    rw [tcpReact, h']
    rfl
  · have hs' : l.submits t f = false := Bool.not_eq_true _ ▸ hs
    rw [tcpReact, tcpFrame_of_not_submits hs']
    exact (directAnswer_sent (l := l.recognise f) (hS hs') w t f l.cs.nextReqSeq).1.respQueue

/-- A delivery moves the task to the ring. -/
theorem counts_flush (h : Polled t l) {i : Fin asyncQueueDepth} (hd : l.deliverable i = true)
    (w : ℕ) : (flushOwn w i l).ledger.next = (flushOwn w i l).ledger.expected +
        UInt32.ofNat (flushOwn w i l).ledger.outstanding.card ∧
      (flushOwn w i l).cs.respQueue.pending.length +
        (flushOwn w i l).ledger.outstanding.card ≤ 1 := by
  obtain ⟨hl, hout⟩ := ledger_flush hd w
  have hexp := h.expected
  have hone := h.one
  rw [hout, Multiset.card_cons] at hexp hone
  rcases output_flushOwn hd w with ⟨hfull, -⟩ | ⟨q, hq, ho⟩
  · omega
  have hpend : (flushOwn w i l).cs.respQueue.pending =
      l.cs.respQueue.pending ++ [.fresh (l.sh.queue i).response] :=
    (congrArg (fun o => o.respQueue.pending) ho).trans (RespQueue.pending_of_enqueue hq)
  constructor
  · rw [show (flushOwn w i l).ledger.next = l.ledger.next from
        (congrArg Ledger.next hl).trans rfl,
      show (flushOwn w i l).ledger.expected = l.ledger.expected + 1 from
        congrArg Ledger.expected hl, hexp, UInt32.ofNat_add, UInt32.add_assoc,
      UInt32.add_comm 1]
    rfl
  · rw [hpend, List.length_append, List.length_singleton]
    omega

theorem counts (h : Polled t l) (w : ℕ) {e : LinkEvent W} (hA : Admissible l e)
    (hW : WholeSends t l e) (hP : Polls t l e) :
    (linkStep w t l e).ledger.next = (linkStep w t l e).ledger.expected +
        UInt32.ofNat (linkStep w t l e).ledger.outstanding.card ∧
      (linkStep w t l e).cs.respQueue.pending.length +
        (linkStep w t l e).ledger.outstanding.card ≤ 1 := by
  cases e with
  | others sh =>
    rw [linkStep, ledger_others hA]
    exact ⟨h.expected, h.one⟩
  | body bytes => exact ⟨h.expected, h.one⟩
  | react it =>
    obtain ⟨f, rfl, ha, hn⟩ := hP
    obtain ⟨hnil, h0⟩ := h.idle hn
    obtain ⟨hnext, hcard⟩ := h.ledger_accepted w ha h0
    refine ⟨hnext, ?_⟩
    rw [linkStep, respQueue_react hW.direct, hnil, List.length_nil, Nat.zero_add]
    exact hcard
  | work i =>
    rw [linkStep, ledger_work]
    exact ⟨h.expected, h.one⟩
  | flush w' i =>
    by_cases hd : l.deliverable i = true
    · exact h.counts_flush hd w'
    · rw [linkStep, flushOwn_of_not_deliverable (Bool.not_eq_true _ ▸ hd)]
      exact ⟨h.expected, h.one⟩
  | turn =>
    have hle : (writeTurn l).2.cs.respQueue.pending.length ≤ l.cs.respQueue.pending.length := by
      rcases writeTurn_cases l with ⟨-, h'⟩ | ⟨n, -, -, -, h'⟩ | ⟨-, -, turn, -, h'⟩ <;> rw [h']
      rw [pending_account_turn]
      exact length_drain_le _ _
    rw [linkStep, ledger_turn]
    exact ⟨h.expected, Nat.le_trans (Nat.add_le_add_right hle _) h.one⟩

theorem recognised_linkStep (w : ℕ) (t : RouterTable W) (l : Link W) (e : LinkEvent W) :
    (linkStep w t l e).cs.recognised = l.cs.recognised ++ framesOf e.items := by
  cases e with
  | react it => exact congrArg Received.recognised (tcpReact_received w t it l)
  | flush w' i => exact (congrArg Prod.snd (inbox_flushOwn w' i l)).trans (List.append_nil _).symm
  | turn =>
    exact (congrArg Received.recognised (writeTurn_received l)).trans (List.append_nil _).symm
  | _ => exact (List.append_nil _).symm

/-- The items of a step of the client are frames. -/
theorem items_eq {e : LinkEvent W} (hP : Polls t l e) :
    e.items = (framesOf e.items).map .frame := by
  cases e with
  | react it =>
    obtain ⟨f, rfl, -, -⟩ := hP
    rfl
  | _ => rfl

/-- A step of a client that waits. -/
theorem step (h : Polled t l) (w : ℕ) {e : LinkEvent W} (hA : Admissible l e)
    (hW : WholeSends t l e) (hP : Polls t l e) : Polled t (linkStep w t l e) := by
  have hC := h.inTurn hP
  have hans := h.answering.step w hA hW.direct hC
  rw [items_eq hP, ← List.map_append, ← recognised_linkStep w t l e] at hans
  have hcounts := h.counts w hA hW hP
  exact ⟨(sequenced_linkStep w t h.sequenced hA hW).1 hC, hans, hcounts.1, hcounts.2⟩

theorem run (h : Polled t l) {es : List (LinkEvent W)}
    (hA : Runs.Guarded (linkStep w t) Admissible l es)
    (hW : Runs.Guarded (linkStep w t) (WholeSends t) l es)
    (hP : Runs.Guarded (linkStep w t) (Polls t) l es) : Polled t (Runs.run (linkStep w t) l es) :=
  Runs.run_invariant (fun _ _ h hC => h.step w hC.1 hC.2.1 hC.2.2) h
    (Runs.guarded_and.2 ⟨hA, Runs.guarded_and.2 ⟨hW, hP⟩⟩)

/-- The client reads answers to its first requests. -/
theorem answered (h : Polled t l) : List.Forall₂ (Answered t)
    ((l.cs.recognised.map .frame).take l.repliesRead.length) l.repliesRead := by
  obtain ⟨replies, rest, hunpack, hanswers, -⟩ := h.answering.reads
  rw [Link.repliesRead, hunpack]
  exact hanswers

/-- The numbers of the tasks are those the flush expects. -/
theorem consecutive (h : Polled t l) : l.ledger.Consecutive := by
  obtain ⟨sent, hs⟩ := h.sequenced
  rw [Ledger.Consecutive, hs.expected_eq.2 h.expected]
  exact hs.outstanding

/-! ### The last answer -/

theorem flatMap_segment_bytes {slots : List RespSlot} (h : ∀ s ∈ slots, s.Whole) :
    (slots.map RespSlot.segment).flatMap Segment.bytes = owed slots := by
  rw [List.flatMap_map, owed]
  refine List.flatMap_congr fun s hs => ?_
  have hsent : s.sentLen = 0 := by simpa [RespSlot.unsent] using (h s hs).1
  rw [hsent, RespSlot.segment, Segment.whole, Segment.bytes, List.take_length]

theorem built_drainRing (l : Link W) : (drainRing l).cs.built = l.cs.built :=
  writeLoop_keeps (P := fun l' => l'.cs.built = l.cs.built)
    (fun l' h => (writeTurn_built l').trans h) 65 false rfl

/-- What the calls that bring the last answer keep : they bring no request, and the socket takes
everything. -/
structure Settling (t : RouterTable W) (reqs : List Frame) (l : Link W) : Prop where
  polled : Polled t l
  recognised : l.cs.recognised = reqs
  script : l.sh.script = []

theorem script_flushOwn (h : l.sh.script = []) (w : ℕ) (i : Fin asyncQueueDepth) :
    (flushOwn w i l).sh.script = [] := by
  unfold flushOwn flushDeliver
  simp only []
  split_ifs with hown hseq
  · exact h
  · cases l.cs.respQueue.enqueue (l.sh.queue i).response with
    | none => simp [sockSend, Shared.call, Link.build, h]
    | some q =>
      simp only [epollChangeMode]
      split_ifs <;> simpa [Link.build] using h
  · exact h

namespace Settling

variable {reqs : List Frame}

theorem step (h : Settling t reqs l) (w : ℕ) {e : LinkEvent W} (hA : Admissible l e)
    (hW : WholeSends t l e) (he : e.items = []) (hs : (linkStep w t l e).sh.script = []) :
    Settling t reqs (linkStep w t l e) := by
  have hP : Polls t l e := by
    cases e with
    | react it => cases he
    | _ => trivial
  refine ⟨h.polled.step w hA hW hP, ?_, hs⟩
  rw [recognised_linkStep, he, framesOf_nil, List.append_nil, h.recognised]

theorem drainRing (h : Polled t l) (hreqs : l.cs.recognised = reqs) :
    Settling t reqs (drainRing l) := by
  refine writeLoop_keeps (P := Settling t reqs) (fun l h => ?_) 65 false
    ⟨h.step 0 (e := .others { l.sh with script := [] }) (fun _ _ => rfl) False.elim trivial,
      hreqs, rfl⟩
  have hcall : l.turnCall.2 = l.sh := by simp [Link.turnCall, Shared.call, h.script]
  refine h.step 0 (e := .turn) trivial (wholeTurn_of_nextWhole (Shared.nextWhole_of_nil h.script))
    rfl ?_
  rcases writeTurn_cases l with ⟨-, h'⟩ | ⟨n, -, -, -, h'⟩ | ⟨-, -, turn, -, h'⟩ <;>
    rw [linkStep, h']
  · exact h.script
  · simp only [hcall, h.script]
  · simp only [hcall, h.script]

theorem flushSlots (h : Settling t reqs l) (w : ℕ) (is : List (Fin asyncQueueDepth)) :
    Settling t reqs (flushSlots w is l) := by
  induction is generalizing l with
  | nil => exact h
  | cons i is ih =>
    exact ih (h.step 0 (e := .flush w i) trivial (fun _ => Shared.nextWhole_of_nil h.script) rfl
      (script_flushOwn h.script w i))

end Settling

theorem workSlots (h : Polled t l) (is : List (Fin asyncQueueDepth)) :
    Polled t (workSlots is l) := by
  induction is generalizing l with
  | nil => exact h
  | cons i is ih => exact ih (h.step 0 (e := .work i) trivial False.elim trivial)

/-- Draining the ring leaves nothing owed. -/
theorem owed_drainRing (h : Polled t l) : owed (drainRing l).cs.respQueue.pending = [] := by
  have hbytes := (Settling.drainRing h rfl).polled.answering.bytes
  rw [built_drainRing, ← h.answering.bytes, drainRing_wire h.whole, List.flatMap_append,
    flatMap_segment_bytes h.whole] at hbytes
  exact List.append_right_eq_self.1 hbytes

/-- When nothing is outstanding the ring holds the last answer. -/
theorem answered_drainRing (h : Polled t l) (h0 : l.ledger.outstanding = 0) :
    List.Forall₂ (Answered t) (l.cs.recognised.map .frame) (drainRing l).repliesRead := by
  have hlast := Settling.drainRing h rfl
  obtain ⟨replies, rest, hunpack, hanswers, -, hall, -⟩ := hlast.polled.answering.reads
  have hcount := hlast.polled.answering.count
  rw [ledger_drainRing, h0, Multiset.card_zero, Nat.add_zero] at hcount
  rw [Link.repliesRead, hunpack]
  rwa [hall.2 h.owed_drainRing, ← hcount, List.take_length, hlast.recognised] at hanswers

/-- Once all tasks have run a flush delivers the last one. -/
theorem outstanding_flushRound (h : Polled t l) (hc : l.Completed) (w : ℕ) :
    (flushRound w l).ledger.outstanding = 0 := by
  by_cases h0 : l.ledger.outstanding = 0
  · have hle := card_flushSlots_le w (List.finRange asyncQueueDepth) (drainRing l)
    rw [ledger_drainRing, h0] at hle
    exact Multiset.card_eq_zero.1 (Nat.le_zero.1 hle)
  · have hlt := card_flushRound_lt w h.consecutive hc h0
    have hone := h.one
    exact Multiset.card_eq_zero.1 (by omega)

/-- The last answer is brought by one flush with the ring drained before and after it. -/
theorem all_answered (h : Polled t l) {is : List (Fin asyncQueueDepth)} (his : ∀ i, i ∈ is)
    (w : ℕ) : List.Forall₂ (Answered t) (l.cs.recognised.map .frame)
      (drainRing (flushRound w (Xlab.workSlots is l))).repliesRead := by
  have hwork := h.workSlots is
  have hflush : Settling t l.cs.recognised (flushRound w (Xlab.workSlots is l)) :=
    (Settling.drainRing hwork rfl).flushSlots w _
  have h0 := hwork.outstanding_flushRound (completed_workSlots his l) w
  have hanswers := hflush.polled.answered_drainRing h0
  rwa [hflush.recognised] at hanswers

end Polled

/-- A client that waits for its answers reads an answer to each of its first requests, in order, and
never more than one response waits or is outstanding. Once the background thread has been at every
slot, one flush with the ring drained before and after it has answered all requests. -/
theorem polling_client_served (w : ℕ) (t : RouterTable W) {l : Link W} (hl : l.Fresh)
    (es : List (LinkEvent W)) (hA : Runs.Guarded (linkStep w t) Admissible l es)
    (hW : Runs.Guarded (linkStep w t) (WholeSends t) l es)
    (hP : Runs.Guarded (linkStep w t) (Polls t) l es) :
    List.Forall₂ (Answered t)
        (((Runs.run (linkStep w t) l es).cs.recognised.map .frame).take
          (Runs.run (linkStep w t) l es).repliesRead.length)
        (Runs.run (linkStep w t) l es).repliesRead ∧
      (Runs.run (linkStep w t) l es).cs.respQueue.pending.length +
        (Runs.run (linkStep w t) l es).ledger.outstanding.card ≤ 1 ∧
      ∀ is : List (Fin asyncQueueDepth), (∀ i, i ∈ is) →
        List.Forall₂ (Answered t) ((Runs.run (linkStep w t) l es).cs.recognised.map .frame)
          (drainRing (flushRound w
            (workSlots is (Runs.run (linkStep w t) l es)))).repliesRead := by
  have h := (Polled.fresh (t := t) hl).run hA hW hP
  exact ⟨h.answered, h.one, fun is his => h.all_answered his w⟩

/-- A blocking command, whose task the background thread runs. -/
theorem polling_client_served_startRead :
    List.Forall₂ (Answered (cmdTable : RouterTable Unit)) [.frame startRead]
      (drainRing (flushRound 0 (workSlots (List.finRange _)
        (Runs.run (linkStep 0 cmdTable) idleLink
          [.react (.frame startRead), .work 0])))).repliesRead := by
  have hpolls : Polls cmdTable idleLink (.react (.frame startRead)) :=
    ⟨startRead, rfl, by decide, rfl⟩
  have hreqs : (Runs.run (linkStep 0 cmdTable) idleLink
      [.react (.frame startRead), .work 0]).cs.recognised = [startRead] := by
    rw [Runs.run_cons, Runs.run_cons, Runs.run_nil, Polled.recognised_linkStep,
      Polled.recognised_linkStep]
    rfl
  have h := (polling_client_served 0 cmdTable idleLink_fresh
    [.react (.frame startRead), .work 0] ⟨trivial, trivial, trivial⟩
    ⟨fun _ => Shared.nextWhole_of_nil rfl, False.elim, trivial⟩ ⟨hpolls, trivial, trivial⟩).2.2
      (List.finRange _) List.mem_finRange
  rwa [hreqs] at h

end Xlab
