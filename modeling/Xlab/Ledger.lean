import Xlab.Link
import Xlab.SeqRange

/-!
# Sequence numbers and outstanding tasks

The order of answers rests on three things : the next sequence number a session gives out,
the number its flush expects, and the numbers of the tasks it has in the task table. The
`Ledger` of a session is these three. A broken frame uses up a number, a submission adds it
to the outstanding ones, a direct answer makes the flush expect the number after it, and a
delivery takes the expected number off. `ledger_react`, `ledger_work`, `ledger_flush` and
`ledger_turn` say that the steps of the code do this to the ledger and nothing else.
-/

namespace Xlab

variable {W : Type}

/-- What sending does not touch : the counters, the task table, and the handlers' world and
calls. -/
structure Control (W : Type) where
  ident : SessionIdent
  nextReqSeq : UInt32
  respSeqExpected : UInt32
  queue : AsyncQueue W
  world : W
  invoked : List Invocation

/-- What sending does not touch. -/
def Link.control (l : Link W) : Control W :=
  ⟨l.cs.ident, l.cs.nextReqSeq, l.cs.respSeqExpected, l.sh.queue, l.sh.world, l.sh.invoked⟩

/-- The send side of a session. -/
structure Output where
  respQueue : RespQueue
  built : List Response
  wire : List Segment

/-- The send side of a session. -/
def Session.output (cs : Session) : Output :=
  ⟨cs.respQueue, cs.built, cs.wire⟩

/-! ## Sends do not touch the counters -/

theorem call_control (cs : Session) (len : ℕ) (sh : Shared W) :
    (⟨cs, (sh.call len).2⟩ : Link W).control = (⟨cs, sh⟩ : Link W).control := by
  rw [Shared.call_eq]
  rfl

theorem epollChangeMode_control (cs : Session) (w : ℕ) (fd : ℤ) (m : EpollMode) (sh : Shared W) :
    (⟨cs, epollChangeMode w fd m sh⟩ : Link W).control = (⟨cs, sh⟩ : Link W).control := by
  unfold epollChangeMode
  split_ifs <;> rfl

theorem sockSend_control (resp : Response) (l : Link W) :
    (sockSend resp l).2.control = l.control :=
  call_control _ _ _

theorem sendOrQueue_control (w : ℕ) (resp : Response) (l : Link W) :
    (sendOrQueue w resp l).2.control = l.control := by
  rw [← sockSend_control resp l]
  rcases sendOrQueue_cases w resp l with ⟨-, h⟩ | ⟨-, h | ⟨q, -, h⟩⟩ <;> rw [h]
  exact epollChangeMode_control _ _ _ _ _

theorem errorAnswer_control (entry : Option (RouterEntry W)) (f : Frame) (seq : UInt32)
    (l : Link W) : (errorAnswer entry f seq l).control = l.control :=
  sockSend_control _ _

theorem writeTurn_control (l : Link W) : (writeTurn l).2.control = l.control := by
  rcases writeTurn_cases l with ⟨-, h⟩ | ⟨n, -, -, -, h⟩ | ⟨-, -, turn, -, h⟩ <;> rw [h]
  · exact call_control _ _ _
  · exact call_control _ _ _

/-- The router runs the handler of the frame : its command is registered and its payload
length in range. -/
def routerAccepts (t : RouterTable W) (f : Frame) : Bool :=
  match routerLookup t f.cmd with
  | none => false
  | some e => decide (e.inRange f.payload.length)

theorem routerProcess_accepts {t : RouterTable W} {f : Frame} (h : routerAccepts t f = true)
    (seq : UInt32) (world : W) :
    ∃ resp, (routerProcess t f.cmd f.payload seq world).1 = .respond resp := by
  unfold routerAccepts at h
  cases he : routerLookup t f.cmd with
  | none => simp [he] at h
  | some e =>
    rw [he] at h
    exact ⟨_, by rw [routerProcess_of_inRange he (of_decide_eq_true h)]⟩

theorem routerProcess_rejects {t : RouterTable W} {f : Frame} (h : routerAccepts t f = false)
    (seq : UInt32) (world : W) :
    ∃ code, (routerProcess t f.cmd f.payload seq world).1 = .reject code := by
  unfold routerAccepts at h
  cases he : routerLookup t f.cmd with
  | none => exact ⟨_, by rw [routerProcess_of_none he]⟩
  | some e =>
    rw [he] at h
    exact ⟨_, by rw [routerProcess_of_not_inRange he (of_decide_eq_false h)]⟩

/-- A direct answer of a command that ran moves the expected number past it, an error
answer does not. -/
theorem directAnswer_control (w : ℕ) (t : RouterTable W) (f : Frame) (seq : UInt32) (l : Link W) :
    (directAnswer w t f seq l).control =
      { l.control with
        respSeqExpected := if routerAccepts t f then seq + 1 else l.cs.respSeqExpected
        world := (routerProcess t f.cmd f.payload seq l.sh.world).2.1
        invoked := l.sh.invoked ++ (routerProcess t f.cmd f.payload seq l.sh.world).2.2 } := by
  have hsync : (directAnswer w t f seq l).control = (syncAnswer w t f seq l).2.control := by
    unfold directAnswer
    simp only []
    split_ifs
    · rfl
    · exact errorAnswer_control _ _ _ _
  rw [hsync, syncAnswer]
  by_cases ha : routerAccepts t f = true
  · obtain ⟨resp, hr⟩ := routerProcess_accepts ha seq l.sh.world
    simp only [hr, if_pos ha]
    exact congrArg (fun c : Control W => { c with respSeqExpected := seq + 1 })
      (sendOrQueue_control w resp _)
  · obtain ⟨code, hr⟩ := routerProcess_rejects (Bool.not_eq_true _ ▸ ha) seq l.sh.world
    simp only [hr, if_neg ha]
    rfl

/-! ## The ledger -/

/-- The next sequence number, the one the flush expects, and those of the tasks in the
table. -/
@[ext]
structure Ledger where
  next : UInt32
  expected : UInt32
  outstanding : Multiset UInt32

/-- The tasks of the session in the table. -/
def Control.tasks (c : Control W) : Multiset (AsyncTask W) :=
  SlotTable.live (AsyncTask.own c.ident) c.queue

/-- The ledger. -/
def Control.ledger (c : Control W) : Ledger :=
  ⟨c.nextReqSeq, c.respSeqExpected, c.tasks.map AsyncTask.seq⟩

/-- The ledger of a session. -/
def Link.ledger (l : Link W) : Ledger :=
  l.control.ledger

namespace Ledger

/-- A broken frame is answered. -/
def skip (g : Ledger) : Ledger :=
  { g with next := g.next + 1 }

/-- A frame is submitted. -/
def submit (g : Ledger) : Ledger :=
  { g with next := g.next + 1, outstanding := g.next ::ₘ g.outstanding }

/-- A command that ran is answered directly. -/
def answer (g : Ledger) : Ledger :=
  { g with next := g.next + 1, expected := g.next + 1 }

/-- The expected task is delivered. -/
def deliver (g : Ledger) : Ledger :=
  { g with expected := g.expected + 1, outstanding := g.outstanding.erase g.expected }

end Ledger

theorem mem_tasks {c : Control W} {task : AsyncTask W} :
    task ∈ c.tasks ↔ ∃ i, (c.queue i).own c.ident = true ∧ c.queue i = task :=
  SlotTable.mem_live

theorem card_outstanding_le (l : Link W) : l.ledger.outstanding.card ≤ asyncQueueDepth := by
  rw [Link.ledger, Control.ledger, Multiset.card_map]
  exact SlotTable.card_live_le _

/-- The session has no task in the table. -/
theorem outstanding_eq_zero {l : Link W} :
    l.ledger.outstanding = 0 ↔ ∀ i, (l.sh.queue i).own l.cs.ident = false := by
  rw [Link.ledger, Control.ledger, Multiset.map_eq_zero]
  exact SlotTable.live_eq_zero

theorem idleLink_outstanding : idleLink.ledger.outstanding = 0 :=
  outstanding_eq_zero.2 idleLink_fresh.queue

/-- A submitted task is the session's, with the number its frame took. -/
theorem task_own (l : Link W) (f : Frame) (e : RouterEntry W) (i : Fin asyncQueueDepth) :
    (l.task f e i).own l.cs.ident = true := by
  simp [Link.task, AsyncTask.submitted, AsyncTask.own, AsyncTask.ownedBy]

theorem own_eq_false_of_not_valid {task : AsyncTask W} (h : task.valid = false)
    (id : SessionIdent) : task.own id = false := by
  simp [AsyncTask.own, h]

/-- What a reaction of the scan loop does to the ledger. -/
theorem ledger_react (w : ℕ) (t : RouterTable W) (it : Item) (l : Link W) :
    (tcpReact w t it l).ledger =
      match it with
      | .frame f =>
        if l.submits t f then l.ledger.submit
        else if routerAccepts t f then l.ledger.answer else l.ledger.skip
      | _ => l.ledger.skip := by
  cases it with
  | incomplete => exact congrArg Control.ledger (sockSend_control _ _)
  | chkErr => exact congrArg Control.ledger (sockSend_control _ _)
  | frame f =>
    by_cases hs : l.submits t f = true
    · obtain ⟨e, i, -, -, hi, h⟩ := tcpFrame_of_submits hs w
      have hfree := own_eq_false_of_not_valid (SlotTable.free_of_firstFree hi) l.cs.ident
      simp only [tcpReact, if_pos hs, h]
      refine Ledger.ext rfl rfl ?_
      have hfill := SlotTable.live_fill (p := AsyncTask.own l.cs.ident) hfree (task_own l f e i)
      exact (congrArg (Multiset.map AsyncTask.seq) hfill).trans (Multiset.map_cons _ _ _)
    · have hd := directAnswer_control w t f l.cs.nextReqSeq (l.recognise f)
      simp only [tcpReact, if_neg hs, tcpFrame_of_not_submits (Bool.not_eq_true _ ▸ hs)]
      rw [Link.ledger, hd]
      split_ifs <;> rfl

/-- The background thread changes no number. -/
theorem ledger_work (i : Fin asyncQueueDepth) (l : Link W) :
    (⟨l.cs, l.sh.work i⟩ : Link W).ledger = l.ledger := by
  refine Ledger.ext rfl rfl ?_
  simp only [Link.ledger, Control.ledger, Control.tasks, Link.control, Shared.work, asyncWorkSlot]
  split_ifs
  · exact SlotTable.map_live_update _ rfl rfl
  · rfl

/-- The rest of the gateway changes no number of the session. -/
theorem ledger_others {l : Link W} {sh : Shared W} (h : Admissible l (.others sh)) :
    (⟨l.cs, sh⟩ : Link W).ledger = l.ledger :=
  Ledger.ext rfl rfl (congrArg (Multiset.map AsyncTask.seq) (SlotTable.live_congr h))

theorem ledger_turn (l : Link W) : (writeTurn l).2.ledger = l.ledger :=
  congrArg Control.ledger (writeTurn_control l)

/-! ## Deliveries -/

/-- A flush at slot `i` delivers its task : completed, the session's, and expected. -/
def Link.deliverable (l : Link W) (i : Fin asyncQueueDepth) : Bool :=
  (l.sh.queue i).flushable && (l.sh.queue i).ownedBy l.cs.ident &&
    (l.sh.queue i).seq == l.cs.respSeqExpected

theorem Link.deliverable_own {l : Link W} {i : Fin asyncQueueDepth}
    (h : l.deliverable i = true) :
    ((l.sh.queue i).flushable && (l.sh.queue i).ownedBy l.cs.ident) = true :=
  (Bool.and_eq_true_iff.1 h).1

theorem Link.deliverable_seq {l : Link W} {i : Fin asyncQueueDepth}
    (h : l.deliverable i = true) : (l.sh.queue i).seq = l.cs.respSeqExpected :=
  eq_of_beq (Bool.and_eq_true_iff.1 h).2

/-- A flush at any other slot does nothing. -/
theorem flushOwn_of_not_deliverable {l : Link W} {i : Fin asyncQueueDepth}
    (h : l.deliverable i = false) (w : ℕ) : flushOwn w i l = l := by
  unfold Link.deliverable at h
  unfold flushOwn
  split_ifs with ho
  · rw [ho, Bool.true_and, beq_eq_false_iff_ne] at h
    rw [flushDeliver]
    exact if_pos h
  · rfl

theorem control_flushOwn {l : Link W} {i : Fin asyncQueueDepth} (h : l.deliverable i = true)
    (w : ℕ) : (flushOwn w i l).control =
      { l.control with
        respSeqExpected := l.cs.respSeqExpected + 1
        queue := l.sh.queue.free i } := by
  rw [flushOwn, if_pos (Link.deliverable_own h), flushDeliver]
  simp only [Link.deliverable_seq h, ne_eq, not_true_eq_false, if_false]
  cases l.cs.respQueue.enqueue (l.sh.queue i).response with
  | none =>
    exact congrArg (fun c : Control W => { c with
      respSeqExpected := l.cs.respSeqExpected + 1
      queue := c.queue.free i })
      (sockSend_control (l.sh.queue i).busy (l.build (l.sh.queue i).busy))
  | some q =>
    simp only []
    split_ifs
    · rfl
    · exact epollChangeMode_control _ _ _ _ _

/-- A delivery queues the response, or sends BUSY when the ring is full. -/
theorem output_flushOwn {l : Link W} {i : Fin asyncQueueDepth} (h : l.deliverable i = true)
    (w : ℕ) : (l.cs.respQueue.pending.length = 63 ∧ (flushOwn w i l).cs.output =
        (sockSend (l.sh.queue i).busy (l.build (l.sh.queue i).busy)).2.cs.output) ∨
      ∃ q, l.cs.respQueue.enqueue (l.sh.queue i).response = some q ∧
        (flushOwn w i l).cs.output = { l.cs.output with
          built := l.cs.output.built ++ [(l.sh.queue i).response]
          respQueue := q } := by
  rw [flushOwn, if_pos (Link.deliverable_own h), flushDeliver]
  simp only [Link.deliverable_seq h, ne_eq, not_true_eq_false, if_false]
  cases hq : l.cs.respQueue.enqueue (l.sh.queue i).response with
  | none => exact Or.inl ⟨(RespQueue.enqueue_eq_none _ _).1 hq, rfl⟩
  | some q => exact Or.inr ⟨q, rfl, rfl⟩

/-- A delivery takes the expected number off the outstanding ones. -/
theorem ledger_flush {l : Link W} {i : Fin asyncQueueDepth} (h : l.deliverable i = true) (w : ℕ) :
    (flushOwn w i l).ledger = l.ledger.deliver ∧
      l.ledger.outstanding = l.ledger.expected ::ₘ (flushOwn w i l).ledger.outstanding := by
  have hc := control_flushOwn h w
  obtain ⟨hf, hown⟩ := Bool.and_eq_true_iff.1 (Link.deliverable_own h)
  have hown' : (l.sh.queue i).own l.cs.ident = true :=
    Bool.and_eq_true_iff.2 ⟨AsyncTask.valid_of_flushable hf, hown⟩
  have hfreed : (l.sh.queue i).freed.own l.cs.ident = false := own_eq_false_of_not_valid rfl _
  have hlive := congrArg (Multiset.map AsyncTask.seq) (SlotTable.live_free hown' hfreed)
  rw [Multiset.map_cons, Link.deliverable_seq h] at hlive
  have hout : l.ledger.outstanding = l.ledger.expected ::ₘ (flushOwn w i l).ledger.outstanding := by
    rw [Link.ledger, Link.ledger, hc]
    exact hlive
  refine ⟨Ledger.ext ?_ ?_ ?_, hout⟩
  · exact (congrArg Control.nextReqSeq hc).trans rfl
  · exact (congrArg Control.respSeqExpected hc).trans rfl
  · rw [Ledger.deliver, hout, Multiset.erase_cons_head]

/-- The step answers the peer by a direct send. -/
def AnswersDirectly (t : RouterTable W) (l : Link W) : LinkEvent W → Prop
  | .react (.frame f) => l.submits t f = false
  | .react _ => True
  | .flush _ i => l.deliverable i = true ∧ l.cs.respQueue.pending.length = 63
  | _ => False

end Xlab
