import Xlab.Ledger
import Xlab.Roll

/-!
# Where a task belongs

A task carries the identity of the session it was submitted for and the socket of that
session. `Gateway.Routed` is what keeps the two in line in every state of a run : no identity
is used twice, and a valid task's session, while it is live, is on the task's socket.

A read of a session fills free slots of the task table with tasks of this session
(`QueueFills`), and a delivery frees a slot. So a task that is valid after a call on a session
was valid before, with the same routing, or was submitted for this session (`QueueGrows`).
`submits_step` says which session an event submits tasks for, and `Routed.step` that
every event keeps `Routed`.
-/

namespace Xlab

variable {W : Type}

/-! ## The task table under the calls -/

/-- The task `t'` was `t` before. -/
def SameRoute (t t' : AsyncTask W) : Prop :=
  t.valid = true ∧ t'.targetCs = t.targetCs ∧ t'.socketFd = t.socketFd

/-- The tasks of `q'` are tasks of `q`. -/
def QueueKeeps (q q' : AsyncQueue W) : Prop :=
  ∀ i, (q' i).valid = true → SameRoute (q i) (q' i)

/-- The tasks of `q'` are tasks of `q`, or tasks of session `id`. -/
def QueueGrows (id : SessionIdent) (q q' : AsyncQueue W) : Prop :=
  ∀ i, (q' i).valid = true → SameRoute (q i) (q' i) ∨
    ((q' i).targetCs = some id.sid ∧ (q' i).socketFd = id.socket)

/-- Free slots of `q` are filled with tasks of session `id`, and nothing else changes. -/
def QueueFills (id : SessionIdent) (q q' : AsyncQueue W) : Prop :=
  ∀ i, q' i = q i ∨ ((q i).valid = false ∧ (q' i).valid = true ∧
    (q' i).targetCs = some id.sid ∧ (q' i).socketFd = id.socket)

/-- Tasks of session `id` are added if there is one, and otherwise no task is. -/
def Submits : Option SessionIdent → AsyncQueue W → AsyncQueue W → Prop
  | none => QueueKeeps
  | some id => QueueFills id

theorem queueKeeps_of_eq {q q' : AsyncQueue W} (h : q' = q) : QueueKeeps q q' := by
  subst h
  exact fun _ hv => ⟨hv, rfl, rfl⟩

theorem QueueKeeps.trans {q q' q'' : AsyncQueue W} (h : QueueKeeps q q')
    (h' : QueueKeeps q' q'') : QueueKeeps q q'' := by
  intro i hv
  obtain ⟨hv', ht', hs'⟩ := h' i hv
  obtain ⟨hv'', ht, hs⟩ := h i hv'
  exact ⟨hv'', ht'.trans ht, hs'.trans hs⟩

theorem queueKeeps_free (q : AsyncQueue W) (i : Fin asyncQueueDepth) :
    QueueKeeps q (q.free i) := by
  intro j hv
  rw [AsyncQueue.free] at hv ⊢
  by_cases hj : j = i
  · rw [hj, Function.update_self] at hv
    cases hv
  · rw [Function.update_of_ne hj] at hv ⊢
    exact ⟨hv, rfl, rfl⟩

theorem queueKeeps_work (sh : Shared W) (i : Fin asyncQueueDepth) :
    QueueKeeps sh.queue (sh.work i).queue := by
  intro j hv
  by_cases hj : j = i
  · subst hj
    rw [work_queue_self] at hv ⊢
    split_ifs at hv ⊢ with hr
    · exact ⟨hv, rfl, rfl⟩
    · exact ⟨hv, rfl, rfl⟩
  · rw [work_queue_of_ne sh hj] at hv ⊢
    exact ⟨hv, rfl, rfl⟩

namespace QueueGrows

variable {id : SessionIdent} {q q' : AsyncQueue W}

theorem of_keeps (h : QueueKeeps q q') : QueueGrows id q q' :=
  fun i hv => Or.inl (h i hv)

theorem of_eq (h : q' = q) : QueueGrows id q q' :=
  of_keeps (queueKeeps_of_eq h)

end QueueGrows

namespace QueueFills

variable {id : SessionIdent} {q q' q'' : AsyncQueue W}

theorem of_eq (h : q' = q) : QueueFills id q q' :=
  fun i => Or.inl (congrFun h i)

theorem grows (h : QueueFills id q q') : QueueGrows id q q' := by
  intro i hv
  rcases h i with heq | ⟨-, -, hown⟩
  · rw [heq] at hv ⊢
    exact Or.inl ⟨hv, rfl, rfl⟩
  · exact Or.inr hown

theorem trans (h : QueueFills id q q') (h' : QueueFills id q' q'') : QueueFills id q q'' := by
  intro i
  rcases h' i with heq | ⟨hfree', hown'⟩
  · rw [heq]
    exact h i
  · rcases h i with heq | ⟨-, hv, -⟩
    · exact Or.inr ⟨heq ▸ hfree', hown'⟩
    · rw [hfree'] at hv
      cases hv

theorem update {i : Fin asyncQueueDepth} {task : AsyncTask W} (hfree : (q i).valid = false)
    (hv : task.valid = true) (ht : task.targetCs = some id.sid) (hs : task.socketFd = id.socket) :
    QueueFills id q (Function.update q i task) := by
  intro j
  by_cases hj : j = i
  · rw [hj, Function.update_self]
    exact Or.inr ⟨hfree, hv, ht, hs⟩
  · exact Or.inl (Function.update_of_ne hj _ _)

end QueueFills

theorem queue_of_control {l l' : Link W} (h : l'.control = l.control) :
    l'.sh.queue = l.sh.queue :=
  congrArg Control.queue h

theorem queueFills_tcpReact (w : ℕ) (t : RouterTable W) (it : Item) (l : Link W) :
    QueueFills l.cs.ident l.sh.queue (tcpReact w t it l).sh.queue := by
  cases it with
  | incomplete => exact .of_eq (congrArg Control.queue (sockSend_control _ _))
  | chkErr => exact .of_eq (congrArg Control.queue (sockSend_control _ _))
  | frame f =>
    by_cases hs : l.submits t f = true
    · obtain ⟨e, i, -, -, hi, h⟩ := tcpFrame_of_submits hs w
      have hq : (tcpReact w t (.frame f) l).sh.queue =
          Function.update l.sh.queue i (l.task f e i) := by rw [tcpReact, h]
      rw [hq]
      exact .update (SlotTable.free_of_firstFree hi) rfl rfl rfl
    · have hd := directAnswer_control w t f l.cs.nextReqSeq (l.recognise f)
      rw [tcpReact, tcpFrame_of_not_submits (Bool.not_eq_true _ ▸ hs)]
      exact .of_eq (congrArg Control.queue hd)

theorem ident_tcpReact (w : ℕ) (t : RouterTable W) (it : Item) (l : Link W) :
    (tcpReact w t it l).cs.ident = l.cs.ident :=
  congrArg Received.ident (tcpReact_received w t it l)

theorem queueFills_reactAll (w : ℕ) (t : RouterTable W) (items : List Item) (l : Link W) :
    QueueFills l.cs.ident l.sh.queue (reactAll w t items l).sh.queue ∧
      (reactAll w t items l).cs.ident = l.cs.ident := by
  induction items generalizing l with
  | nil => exact ⟨.of_eq rfl, rfl⟩
  | cons it items ih =>
    obtain ⟨hq, hid⟩ := ih (tcpReact w t it l)
    rw [ident_tcpReact] at hq hid
    exact ⟨(queueFills_tcpReact w t it l).trans hq, hid⟩

/-- A read submits tasks for its own session only. -/
theorem queueFills_connReadTcp (cfg : ServerConfig) (w : ℕ) (t : RouterTable W) (r : ReadOutcome)
    (l : Link W) : QueueFills l.cs.ident l.sh.queue (connReadTcp cfg w t r l).link.sh.queue ∧
      (connReadTcp cfg w t r l).link.cs.ident = l.cs.ident := by
  have hparse : ∀ chunk, QueueFills l.cs.ident l.sh.queue (connParse w t chunk l).sh.queue ∧
      (connParse w t chunk l).cs.ident = l.cs.ident := fun chunk => by
    rw [connParse_eq]
    exact queueFills_reactAll w t _ (l.setBody (l.cs.body ++ chunk))
  unfold connReadTcp connReadMax
  split
  · exact ⟨.of_eq rfl, rfl⟩
  · exact ⟨.of_eq rfl, rfl⟩
  · simp only []
    split_ifs
    · exact ⟨.of_eq rfl, rfl⟩
    · exact hparse _
    · exact hparse _

theorem queue_writeLoop (fuel : ℕ) (sentAny : Bool) (l : Link W) :
    (writeLoop fuel sentAny l).2.2.sh.queue = l.sh.queue :=
  writeLoop_keeps (P := fun l' => l'.sh.queue = l.sh.queue)
    (fun l' h => (queue_of_control (writeTurn_control l')).trans h) fuel sentAny rfl

/-- A write leaves the task table alone. -/
theorem queue_connWriteTcp (w : ℕ) (l : Link W) :
    (connWriteTcp w l).link.sh.queue = l.sh.queue ∧
      (connWriteTcp w l).link.cs.ident = l.cs.ident := by
  have hq := (handlerWrite_link w l).2
  rw [queue_writeLoop] at hq
  have hid : (handlerWrite w l).link.cs.ident = l.cs.ident :=
    congrArg Received.ident (handlerWrite_received w l)
  unfold connWriteTcp
  simp only []
  split_ifs
  · exact ⟨hq, hid⟩
  · exact ⟨(epollChangeMode_queue ..).trans hq, hid⟩

/-- A delivery frees the slot, or leaves the task for later. -/
theorem queue_flushDeliver (w : ℕ) (i : Fin asyncQueueDepth) (l : Link W) :
    ((l.sh.queue i).seq ≠ l.cs.respSeqExpected ∧ flushDeliver w i l = l) ∨
      ((l.sh.queue i).seq = l.cs.respSeqExpected ∧
        (flushDeliver w i l).sh.queue = l.sh.queue.free i ∧
        (flushDeliver w i l).cs.respSeqExpected = l.cs.respSeqExpected + 1) := by
  unfold flushDeliver
  by_cases hseq : (l.sh.queue i).seq = l.cs.respSeqExpected
  · refine Or.inr ⟨hseq, ?_⟩
    simp only [hseq, ne_eq, not_true_eq_false, if_false]
    cases l.cs.respQueue.enqueue (l.sh.queue i).response with
    | none =>
      have hc := queue_of_control
        (sockSend_control (l.sh.queue i).busy (l.build (l.sh.queue i).busy))
      exact ⟨congrArg (fun q : AsyncQueue W => q.free i) hc, rfl⟩
    | some q =>
      simp only []
      split_ifs
      · exact ⟨rfl, rfl⟩
      · exact ⟨epollChangeMode_queue .., rfl⟩
  · exact Or.inl ⟨hseq, if_pos hseq⟩

theorem ident_flushDeliver (w : ℕ) (i : Fin asyncQueueDepth) (l : Link W) :
    (flushDeliver w i l).cs.ident = l.cs.ident := by
  unfold flushDeliver
  simp only []
  split_ifs
  · rfl
  · split <;> rfl

theorem queueGrows_flushDeliver (w : ℕ) (i : Fin asyncQueueDepth) (l : Link W) :
    QueueGrows l.cs.ident l.sh.queue (flushDeliver w i l).sh.queue := by
  rcases queue_flushDeliver w i l with ⟨-, h⟩ | ⟨-, hq, -⟩
  · rw [h]
    exact .of_eq rfl
  · rw [hq]
    exact .of_keeps (queueKeeps_free _ i)

theorem queue_udpReact (tr : TransType) (t : RouterTable W) (it : Item) (s : Shared W × UInt32) :
    (udpReact tr t it s).1.queue = s.1.queue := by
  cases it with
  | incomplete => rfl
  | chkErr => rfl
  | frame f =>
    simp only [udpReact, udpFrame]
    split <;> rfl

/-- A datagram leaves the task table alone. -/
theorem queue_connReadUdp (tr : TransType) (t : RouterTable W) (datagram : List UInt8)
    (sh : Shared W) : (connReadUdp tr t datagram sh).queue = sh.queue := by
  have hfold : ∀ (items : List Item) (s : Shared W × UInt32),
      (items.foldl (fun s it => udpReact tr t it s) s).1.queue = s.1.queue := fun items => by
    induction items with
    | nil => exact fun _ => rfl
    | cons it items ih => exact fun s => (ih _).trans (queue_udpReact tr t it s)
  rw [connReadUdp_eq]
  exact hfold _ _

namespace Gateway

/-! ## The task table under the events -/

theorem shared_sessionRemove (w : ℕ) (fd : ℤ) (g : Gateway W) :
    (g.sessionRemove w fd).shared = g.shared := by
  unfold sessionRemove
  split <;> rfl

theorem shared_leave (w : ℕ) (fd : ℤ) (e : Exit W) (g : Gateway W) :
    (g.leave w fd e).2.shared = e.link.sh :=
  leave_keeps (P := fun g => g.shared = e.link.sh)
    (fun g h => (shared_sessionRemove w fd g).trans h) rfl

theorem shared_openSession {w : ℕ} {fd : ℤ} {g g' : Gateway W} {cs : Session}
    (h : g.openSession w fd = some (cs, g')) : g'.shared = g.shared := by
  rcases openSession_cases h with ⟨-, rfl⟩ | ⟨-, -, -, rfl⟩ <;> rfl

theorem queue_closeFailed (w : ℕ) (fd : ℤ) (res : ℤ × Gateway W) :
    (closeFailed w fd res).shared.queue = res.2.shared.queue := by
  unfold closeFailed
  split_ifs <;> rfl

theorem queue_acceptClient (s : Setup W) (fd : ℤ) (added : Bool) (g : Gateway W) :
    (g.acceptClient s fd added).shared.queue = g.shared.queue := by
  unfold acceptClient
  split
  · rfl
  · split_ifs <;> rfl

theorem queue_connReadDatagram (s : Setup W) (fd : ℤ) (r : ReadOutcome) (g : Gateway W) :
    (g.connReadDatagram s fd r).2.shared.queue = g.shared.queue := by
  unfold connReadDatagram
  split
  · rfl
  · split
    · rfl
    · rfl
    · simp only []
      split <;> exact queue_connReadUdp ..

theorem queue_connWrite (w : ℕ) (fd : ℤ) (g : Gateway W) :
    (g.connWrite w fd).2.shared.queue = g.shared.queue := by
  rcases connWrite_cases w fd g with ⟨-, h⟩ | ⟨-, -, h⟩ | ⟨cs, -, -, h⟩ <;> rw [h]
  · exact epollChangeMode_queue ..
  · rfl
  · rw [shared_leave]
    exact (queue_connWriteTcp w ⟨cs, g.shared⟩).1

theorem queue_connError (w : ℕ) (fd : ℤ) (g : Gateway W) :
    (g.connError w fd).2.shared.queue = g.shared.queue := by
  simp only [connError, shared_sessionRemove]
  rfl

theorem queueKeeps_flushSlot (w : ℕ) (i : Fin asyncQueueDepth) (g : Gateway W) :
    QueueKeeps g.shared.queue (g.flushSlot w i).shared.queue := by
  refine flushSlot_keeps (P := fun g' => QueueKeeps g.shared.queue g'.shared.queue)
    (queueKeeps_free _ i) (fun cs _ => ?_) (queueKeeps_of_eq rfl)
  rcases queue_flushDeliver w i ⟨cs, g.shared⟩ with ⟨-, h⟩ | ⟨-, hq, -⟩
  · exact queueKeeps_of_eq (congrArg (fun l : Link W => l.sh.queue) h)
  · exact (queueKeeps_free _ i).trans (queueKeeps_of_eq hq)

theorem queueKeeps_flushCompleted (w : ℕ) (g : Gateway W) :
    QueueKeeps g.shared.queue (g.flushCompleted w).shared.queue :=
  flushCompleted_keeps (P := fun g' => QueueKeeps g.shared.queue g'.shared.queue)
    (fun g' i h => h.trans (queueKeeps_flushSlot w i g')) (queueKeeps_of_eq rfl)

/-- The session whose connection an event reads. -/
def reader (s : Setup W) (g : Gateway W) : Event → Option SessionIdent
  | .epoll w fd .input _ =>
    if fd = s.eventFd ∨ g.trans.isDatagram fd then none
    else (g.openSession w fd).map fun p => p.1.ident
  | _ => none

theorem submits_connRead (s : Setup W) (w : ℕ) (fd : ℤ) (r : ReadOutcome) (g : Gateway W) :
    Submits (g.reader s (.epoll w fd .input r)) g.shared.queue
      (g.connRead s w fd r).2.shared.queue := by
  unfold connRead
  split_ifs with hev hdg
  · rw [reader, if_pos (Or.inl hev)]
    dsimp only
    exact queueKeeps_flushCompleted w g
  · rw [reader, if_pos (Or.inr hdg)]
    exact queueKeeps_of_eq (queue_connReadDatagram s fd r g)
  · rw [reader, if_neg (not_or.2 ⟨hev, hdg⟩)]
    cases ho : g.openSession w fd with
    | none => exact queueKeeps_of_eq rfl
    | some p =>
      obtain ⟨cs, g'⟩ := p
      have hfills := (queueFills_connReadTcp s.server w s.table r ⟨cs, g'.shared⟩).1
      simp only [shared_leave]
      rw [shared_openSession ho] at hfills ⊢
      exact hfills

/-- An event submits tasks for the session whose connection it reads, and for no other. -/
theorem submits_step (s : Setup W) (g : Gateway W) (e : Event) :
    Submits (g.reader s e) g.shared.queue (g.step s e).shared.queue := by
  cases e with
  | accept fd added => exact queueKeeps_of_eq (queue_acceptClient s fd added g)
  | epoll w fd ready r =>
    rw [step, epollDispatch.eq_def, queue_closeFailed]
    cases ready with
    | input => exact submits_connRead s w fd r g
    | output => exact queueKeeps_of_eq (queue_connWrite w fd g)
    | error => exact queueKeeps_of_eq (queue_connError w fd g)
  | work i => exact queueKeeps_work g.shared i
  | sockets script => exact queueKeeps_of_eq rfl

/-! ## The routing of tasks in the gateway -/

/-- No identity is used twice, and the session of a valid task, while it is live, is on the
task's socket. -/
structure Routed (g : Gateway W) : Prop where
  used : ∀ id ∈ g.roll.directory, id.sid < g.nextSid
  distinct : (g.roll.directory.map SessionIdent.sid).Nodup
  task : ∀ i, (g.shared.queue i).valid = true → ∃ sid, (g.shared.queue i).targetCs = some sid ∧
    sid < g.nextSid ∧
    ∀ id ∈ g.roll.directory, id.sid = sid → id.socket = (g.shared.queue i).socketFd

variable {g : Gateway W}

/-- Two sessions with the same identity number are the same. -/
theorem Routed.eq_of_sid (h : g.Routed) {a b : SessionIdent} (ha : a ∈ g.roll.directory)
    (hb : b ∈ g.roll.directory) (hab : a.sid = b.sid) : a = b :=
  List.inj_on_of_nodup_map h.distinct ha hb hab

/-- A call on a live session puts the session and the shared state back. -/
theorem Routed.put (h : g.Routed) {l : Link W} {id : SessionIdent} (hid : id ∈ g.roll.directory)
    (hq : QueueGrows id g.shared.queue l.sh.queue) : (g.put l).Routed where
  used := by
    rw [roll_put]
    exact h.used
  distinct := by
    rw [roll_put]
    exact h.distinct
  task i hv := by
    rw [roll_put]
    change (l.sh.queue i).valid = true at hv
    rcases hq i hv with ⟨hv', ht, hs⟩ | ⟨ht, hs⟩
    · obtain ⟨sid, ht', hlt, hsock⟩ := h.task i hv'
      exact ⟨sid, ht.trans ht', hlt, fun id hid hsid => (hsock id hid hsid).trans hs.symm⟩
    · refine ⟨id.sid, ht, h.used id hid, fun id' hid' hsid => ?_⟩
      rw [h.eq_of_sid hid' hid hsid]
      exact hs.symm

/-- Sessions are removed, and no task is added. -/
theorem Routed.mono (h : g.Routed) {g' : Gateway W}
    (hdir : g'.roll.directory.Sublist g.roll.directory)
    (hsid : g'.nextSid = g.nextSid) (hq : QueueKeeps g.shared.queue g'.shared.queue) :
    g'.Routed where
  used id hid := by
    rw [hsid]
    exact h.used id (hdir.subset hid)
  distinct := h.distinct.sublist (hdir.map _)
  task i hv := by
    rw [hsid]
    obtain ⟨hv', ht, hs⟩ := hq i hv
    obtain ⟨sid, ht', hlt, hsock⟩ := h.task i hv'
    exact ⟨sid, ht.trans ht', hlt, fun id hid hsid =>
      (hsock id (hdir.subset hid) hsid).trans hs.symm⟩

/-- A session is created with an identity never given before. -/
theorem Routed.addSession (h : g.Routed) {cs : Session} (hsid : cs.ident.sid = g.nextSid) :
    (g.addSession cs).Routed where
  used id hid := by
    rw [roll_addSession] at hid
    rcases List.mem_append.1 hid with hid | hid
    · exact Nat.lt_succ_of_lt (h.used id hid)
    · rw [List.mem_singleton.1 hid, hsid]
      exact Nat.lt_succ_self _
  distinct := by
    rw [roll_addSession, Roll.opened, List.map_append]
    refine List.nodup_append.2 ⟨h.distinct, List.nodup_singleton _, fun a ha b hb => ?_⟩
    obtain ⟨id, hid, rfl⟩ := List.mem_map.1 ha
    rw [List.mem_singleton.1 hb, hsid]
    exact Nat.ne_of_lt (h.used id hid)
  task i hv := by
    obtain ⟨sid, ht, hlt, hsock⟩ := h.task i hv
    refine ⟨sid, ht, Nat.lt_succ_of_lt hlt, fun id hid heq => ?_⟩
    rw [roll_addSession] at hid
    rcases List.mem_append.1 hid with hid | hid
    · exact hsock id hid heq
    · rw [List.mem_singleton.1 hid, hsid] at heq
      exact absurd heq (Nat.ne_of_gt hlt)

/-- The session a read works on, and the gateway with it. -/
theorem Routed.openSession (h : g.Routed) {w : ℕ} {fd : ℤ} {cs : Session} {g' : Gateway W}
    (ho : g.openSession w fd = some (cs, g')) : g'.Routed ∧ cs ∈ g'.sessions := by
  rcases openSession_cases ho with ⟨hget, rfl⟩ | ⟨-, -, rfl, rfl⟩
  · exact ⟨h, Registry.mem_of_find hget⟩
  · exact ⟨h.addSession rfl, List.mem_append_right _ List.mem_cons_self⟩

theorem sublist_sessionRemove (w : ℕ) (fd : ℤ) (g : Gateway W) :
    (g.sessionRemove w fd).roll.directory.Sublist g.roll.directory := by
  rw [roll_sessionRemove]
  exact List.eraseP_sublist ..

theorem Routed.sessionRemove (h : g.Routed) (w : ℕ) (fd : ℤ) : (g.sessionRemove w fd).Routed := by
  refine h.mono (sublist_sessionRemove w fd g) ?_ (queueKeeps_of_eq ?_)
  · unfold Gateway.sessionRemove
    split <;> rfl
  · rw [shared_sessionRemove]

theorem Routed.removeClient (h : g.Routed) (w : ℕ) (fd : ℤ) : (g.removeClient w fd).Routed := by
  refine h.mono ?_ rfl (queueKeeps_of_eq rfl)
  rw [roll_removeClient]
  exact List.Sublist.refl _

theorem Routed.leave (h : g.Routed) {id : SessionIdent} (hid : id ∈ g.roll.directory) (w : ℕ)
    (fd : ℤ) {e : Exit W} (hq : QueueGrows id g.shared.queue e.link.sh.queue) :
    (g.leave w fd e).2.Routed :=
  leave_keeps (fun _ h => h.sessionRemove w fd) (h.put hid hq)

theorem Routed.closeFailed (w : ℕ) (fd : ℤ) {res : ℤ × Gateway W} (h : res.2.Routed) :
    (closeFailed w fd res).Routed :=
  closeFailed_keeps (h.removeClient w fd) h

theorem mem_of_live {sid : Option ℕ} {cs : Session} (h : g.live sid = some cs) :
    cs ∈ g.sessions ∧ some cs.ident.sid = sid := by
  obtain ⟨n, rfl, hfind⟩ := Option.bind_eq_some_iff.1 h
  have hkey := Registry.find_key hfind
  exact ⟨Registry.mem_of_find hfind, congrArg some (by simpa using hkey)⟩

theorem mem_directory_of_flushTarget {w : ℕ} {task : AsyncTask W} {cs : Session}
    (h : g.flushTarget w task = some cs) : cs.ident ∈ g.roll.directory := by
  rcases flushTarget_cases h with hl | hget
  · exact List.mem_map_of_mem (mem_of_live hl).1
  · exact List.mem_map_of_mem (Registry.mem_of_find hget)

theorem Routed.flushSlot (h : g.Routed) (w : ℕ) (i : Fin asyncQueueDepth) :
    (g.flushSlot w i).Routed :=
  flushSlot_keeps (h.mono (List.Sublist.refl _) rfl (queueKeeps_free _ i))
    (fun cs ht =>
      h.put (mem_directory_of_flushTarget ht) (queueGrows_flushDeliver w i ⟨cs, g.shared⟩)) h

theorem Routed.flushCompleted (h : g.Routed) (w : ℕ) : (g.flushCompleted w).Routed :=
  flushCompleted_keeps (fun _ i h => h.flushSlot w i) h

theorem Routed.acceptClient (h : g.Routed) (s : Setup W) (fd : ℤ) (added : Bool) :
    (g.acceptClient s fd added).Routed := by
  refine h.mono (by rw [roll_acceptClient]) ?_ (queueKeeps_of_eq (queue_acceptClient s fd added g))
  unfold Gateway.acceptClient
  split
  · rfl
  · split_ifs <;> rfl

theorem Routed.connReadDatagram (h : g.Routed) (s : Setup W) (fd : ℤ) (r : ReadOutcome) :
    (g.connReadDatagram s fd r).2.Routed := by
  refine h.mono (by rw [roll_connReadDatagram]) ?_
    (queueKeeps_of_eq (queue_connReadDatagram s fd r g))
  unfold Gateway.connReadDatagram
  split
  · rfl
  · split <;> rfl

theorem Routed.connRead (h : g.Routed) (s : Setup W) (w : ℕ) (fd : ℤ) (r : ReadOutcome) :
    (g.connRead s w fd r).2.Routed := by
  refine connRead_keeps (fun _ => h.flushCompleted w) (h.connReadDatagram s fd r)
    (fun cs g' _ _ ho => ?_) h
  obtain ⟨h', hcs⟩ := h.openSession ho
  exact h'.leave (List.mem_map_of_mem hcs) w fd
    (queueFills_connReadTcp s.server w s.table r ⟨cs, g'.shared⟩).1.grows

theorem Routed.connWrite (h : g.Routed) (w : ℕ) (fd : ℤ) : (g.connWrite w fd).2.Routed := by
  have hmark : (g.setWorker w (schedUpdateConnStatus fd .process)).Routed :=
    h.mono (by rw [roll_updateConnStatus]) rfl (queueKeeps_of_eq rfl)
  rcases connWrite_cases w fd g with ⟨-, he⟩ | ⟨-, -, he⟩ | ⟨cs, -, hget, he⟩ <;> rw [he]
  · refine h.mono ?_ rfl (queueKeeps_of_eq (epollChangeMode_queue ..))
    rw [roll_shared, roll_setWorker]
  · exact hmark
  · have hcs : cs.ident ∈ g.roll.directory := List.mem_map_of_mem (Registry.mem_of_find hget)
    exact hmark.leave (by rw [roll_updateConnStatus]; exact hcs) w fd
      (.of_eq (queue_connWriteTcp w ⟨cs, g.shared⟩).1)

/-- Every event keeps the routing. -/
theorem Routed.step (h : g.Routed) (s : Setup W) (e : Event) : (g.step s e).Routed := by
  cases e with
  | accept fd added => exact h.acceptClient s fd added
  | epoll w fd ready r =>
    refine Routed.closeFailed w fd ?_
    cases ready with
    | input => exact h.connRead s w fd r
    | output => exact h.connWrite w fd
    | error => exact (h.removeClient w fd).sessionRemove w fd
  | work i => exact h.mono (List.Sublist.refl _) rfl (queueKeeps_work g.shared i)
  | sockets script => exact h.mono (List.Sublist.refl _) rfl (queueKeeps_of_eq rfl)

theorem Started.routed (h : g.Started) : g.Routed := by
  have hdir : g.roll.directory = [] := by simp [roll, h.sessions]
  refine ⟨by simp [hdir], by simp [hdir], fun i hv => ?_⟩
  rw [h.queue i] at hv
  cases hv

end Gateway

end Xlab
