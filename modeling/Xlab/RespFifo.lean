import Xlab.HandlerRead
import Xlab.Runs

/-!
# The response ring is a bounded queue

Five places put responses on the ring of a session, each with its own copy of the same
lines : the fallback of `xlab_conn_read` when the socket would block, the flush of the task
table, and the three answers of `xlab_handler_read`. `xlab_handler_write` takes them off
again. `RingAction` is one of these, or anything that happens to what is shared.

`RingAction.offer` is the response an action tries to queue. On the list of waiting
responses an action is then `offer`, which appends the response unless 63 wait already
(`pending_ringStep`). `RingRun` keeps the responses that were queued and the bytes
`xlab_handler_write` gave to the kernel next to the session, and `IsFifo` is what holds of
them after any actions (`ring_isFifo`).
-/

namespace Xlab

variable {W : Type}

/-! ## The actions on the ring -/

/-- What may happen around the ring of a session. -/
inductive RingAction (W : Type) where
  /-- The scan loop of `xlab_conn_read` reacts to an item. -/
  | item (it : Item)
  /-- A flush in the event loop of worker `w` is at a slot. -/
  | deliver (w : ℕ) (i : Fin asyncQueueDepth)
  /-- The loop of `xlab_handler_read` is at a byte. -/
  | byte (b : UInt8)
  /-- `xlab_handler_write` is called. -/
  | write
  /-- The rest of the gateway acts, and the socket gets ready for the calls of a new script. -/
  | others (sh : Shared W)

/-- An action on a session of worker `w`. -/
def ringStep (w : ℕ) (t : RouterTable W) (s : ReadLoop W) : RingAction W → ReadLoop W
  | .item it => { s with link := tcpReact w t it s.link }
  | .deliver w' i => { s with link := flushOwn w' i s.link }
  | .byte b => readByte w t b s
  | .write => { s with link := (handlerWrite w s.link).link }
  | .others sh => { s with link := { s.link with sh := sh } }

/-- The response the router makes, if it accepts the command. -/
def RouterRet.response : RouterRet → Option Response
  | .reject _ => none
  | .respond resp => some resp

/-- The response that is queued because the socket would block. -/
def itemOffer (t : RouterTable W) (l : Link W) : Item → Option Response
  | .frame f =>
    if l.submits t f then none
    else (routerProcess t f.cmd f.payload l.cs.nextReqSeq l.sh.world).1.response.filter
      fun resp => (l.sh.call resp.bytes.length).1.accepted ≠ some resp.bytes.length ∧
        (l.sh.call resp.bytes.length).1.errno = .eagain
  | _ => none

/-- The response of the task in slot `i`, if the session expects it next. -/
def slotOffer (i : Fin asyncQueueDepth) (l : Link W) : Option Response :=
  if (l.sh.queue i).flushable && (l.sh.queue i).ownedBy l.cs.ident then
    if (l.sh.queue i).seq = l.cs.respSeqExpected then some (l.sh.queue i).response else none
  else none

/-- The answer to a frame the byte parser gave. -/
def frameOffer (t : RouterTable W) (cmd : UInt8) (payload : List UInt8) (seq : UInt32)
    (l : Link W) : Option Response :=
  if (routerLookup t cmd).any RouterEntry.blocking then
    if (SlotTable.firstFree AsyncTask.valid l.sh.queue).isSome then none
    else some (routerBuildResponse cmdNone errChecksum [] seq)
  else (routerProcess t cmd payload seq l.sh.world).1.response

/-- The answer to a byte. -/
def byteOffer (t : RouterTable W) (b : UInt8) (s : ReadLoop W) : Option Response :=
  match (s.parse b).2 with
  | .ok cmd payload seq => frameOffer t cmd payload seq s.link
  | .chkErr => some (routerBuildResponse cmdNone errChecksum [] s.seq)
  | _ => none

/-- The response an action tries to queue. -/
def RingAction.offer (t : RouterTable W) (s : ReadLoop W) : RingAction W → Option Response
  | .item it => itemOffer t s.link it
  | .deliver _ i => slotOffer i s.link
  | .byte b => byteOffer t b s
  | _ => none

/-- `xlab_async_flush_completed` is a run of actions. -/
theorem flushCompleted_actions (w w' : ℕ) (t : RouterTable W) (s : ReadLoop W) :
    { s with link := flushCompleted w' s.link } =
      Runs.run (ringStep w t) s ((List.finRange asyncQueueDepth).map (.deliver w')) := by
  rw [flushCompleted]
  generalize List.finRange asyncQueueDepth = is
  induction is generalizing s with
  | nil => rfl
  | cons i is ih => exact ih { s with link := flushOwn w' i s.link }

/-- The loop of `xlab_handler_read` is a run of actions. -/
theorem readBytes_actions (w : ℕ) (t : RouterTable W) (bytes : List UInt8) (s : ReadLoop W) :
    readBytes w t bytes s = Runs.run (ringStep w t) s (bytes.map .byte) := by
  rw [Runs.run, List.foldl_map]
  rfl

/-- A call of `xlab_handler_read` does to the ring what a run of actions does. -/
theorem handlerRead_actions (w : ℕ) (t : RouterTable W) (r : ReadOutcome) (s : ReadLoop W) :
    ∃ bytes : List UInt8, (handlerRead w t r s).2.link.cs.respQueue =
      (Runs.run (ringStep w t) s (bytes.map .byte)).link.cs.respQueue := by
  cases r with
  | error e => cases e <;> exact ⟨[], rfl⟩
  | data bytes =>
    rw [handlerRead]
    simp only []
    split_ifs with hnil
    · exact ⟨[], rfl⟩
    · exact ⟨_, by rw [← readBytes_actions]; rfl⟩

/-! ## An action on the waiting responses -/

/-- Append a response unless 63 wait. -/
def offer (resp : Option Response) (waiting : List RespSlot) : List RespSlot :=
  match resp with
  | some resp => if waiting.length = 63 then waiting else waiting ++ [.fresh resp]
  | none => waiting

/-- The two outcomes of an enqueue. -/
theorem RespQueue.offer_cases (q : RespQueue) (resp : Response) :
    (q.enqueue resp = none ∧ offer (some resp) q.pending = q.pending) ∨
      ∃ q', q.enqueue resp = some q' ∧ q'.pending = offer (some resp) q.pending := by
  cases h : q.enqueue resp with
  | none => exact Or.inl ⟨rfl, if_pos ((q.enqueue_eq_none resp).1 h)⟩
  | some q' =>
    refine Or.inr ⟨q', rfl, ?_⟩
    have hroom : q.pending.length ≠ 63 := fun hfull => by
      rw [(q.enqueue_eq_none resp).2 hfull] at h
      cases h
    rw [pending_of_enqueue h, offer, if_neg hroom]

theorem readQueue_pending (w : ℕ) (resp : Response) (l : Link W) :
    (readQueue w resp l).cs.respQueue.pending = offer (some resp) l.cs.respQueue.pending := by
  rw [readQueue_respQueue]
  rcases l.cs.respQueue.offer_cases resp with ⟨h, hp⟩ | ⟨q, h, hp⟩ <;> rw [h]
  · exact hp.symm
  · exact hp

theorem flushOwn_pending (w : ℕ) (i : Fin asyncQueueDepth) (l : Link W) :
    (flushOwn w i l).cs.respQueue.pending = offer (slotOffer i l) l.cs.respQueue.pending := by
  rw [flushOwn, slotOffer]
  split_ifs with hown hseq
  · rw [flushDeliver, if_neg (not_not.2 hseq)]
    rcases l.cs.respQueue.offer_cases (l.sh.queue i).response with ⟨h, hp⟩ | ⟨q, h, hp⟩ <;>
      rw [h]
    · exact hp.symm
    · exact hp
  · rw [flushDeliver, if_pos hseq]
    rfl
  · rfl

theorem sendOrQueue_pending (w : ℕ) (resp : Response) (l : Link W) :
    (sendOrQueue w resp l).2.cs.respQueue.pending =
      offer ((some resp).filter fun resp =>
        (l.sh.call resp.bytes.length).1.accepted ≠ some resp.bytes.length ∧
          (l.sh.call resp.bytes.length).1.errno = .eagain) l.cs.respQueue.pending := by
  have hsend : (sockSend resp l).1 = (l.sh.call resp.bytes.length).1 := rfl
  have hqueue : (sockSend resp l).2.cs.respQueue = l.cs.respQueue := rfl
  unfold sendOrQueue
  simp only [hsend, hqueue]
  split_ifs with hall heagain
  · rw [Option.filter_some, if_neg (by simp [hall])]
    rfl
  · rw [Option.filter_some, if_pos (by simp [hall, heagain])]
    rcases l.cs.respQueue.offer_cases resp with ⟨h, hp⟩ | ⟨q, h, hp⟩ <;> rw [h]
    · exact hp.symm
    · exact hp
  · rw [Option.filter_some, if_neg (by simp [heagain])]
    rfl

/-- The outcome of a call depends on the script alone. -/
theorem Shared.call_fst_congr {sh sh' : Shared W} (h : sh.script = sh'.script) (len : ℕ) :
    (sh.call len).1 = (sh'.call len).1 := by
  unfold call
  rw [h]
  cases sh'.script <;> rfl

theorem errorAnswer_respQueue (entry : Option (RouterEntry W)) (f : Frame) (seq : UInt32)
    (l : Link W) : (errorAnswer entry f seq l).cs.respQueue = l.cs.respQueue :=
  rfl

theorem tcpReact_pending (w : ℕ) (t : RouterTable W) (it : Item) (l : Link W) :
    (tcpReact w t it l).cs.respQueue.pending =
      offer (itemOffer t l it) l.cs.respQueue.pending := by
  cases it with
  | incomplete => rfl
  | chkErr => rfl
  | frame f =>
    rw [tcpReact, itemOffer]
    split_ifs with hsub
    · obtain ⟨e, i, -, -, -, h⟩ := tcpFrame_of_submits hsub w
      rw [h]
      rfl
    · rw [tcpFrame_of_not_submits (by simpa using hsub), directAnswer, syncAnswer]
      have hworld : (l.recognise f).sh.world = l.sh.world := rfl
      rw [hworld]
      generalize routerProcess t f.cmd f.payload l.cs.nextReqSeq l.sh.world = p
      obtain ⟨ret, world, calls⟩ := p
      cases ret with
      | reject code => rfl
      | respond resp =>
        have hcall : ∀ sh : Shared W, sh.script = l.sh.script →
            (sh.call resp.bytes.length).1 = (l.sh.call resp.bytes.length).1 :=
          fun sh h => Shared.call_fst_congr h _
        have hsend := sendOrQueue_pending w resp (Link.build { l.recognise f with
          sh := { l.sh with world := world, invoked := l.sh.invoked ++ calls } } resp)
        simp only [Link.build, Option.filter_some, hcall] at hsend
        -- neither the sequence number nor the error sent afterwards touches the ring
        simp only [RouterRet.response, Option.filter_some]
        refine Eq.trans ?_ hsend
        split_ifs
        · rfl
        · rw [errorAnswer_respQueue]
          rfl

/-- With 63 responses waiting nothing is appended. -/
theorem offer_of_full {waiting : List RespSlot} (h : waiting.length = 63)
    (resp : Option Response) : offer resp waiting = waiting := by
  cases resp with
  | none => rfl
  | some resp => exact if_pos h

/-- What is owed after an offer. -/
theorem owed_offer (resp : Option Response) (waiting : List RespSlot) :
    owed (offer resp waiting) = owed waiting ++
      (if waiting.length = 63 then [] else resp.toList).flatMap Response.bytes := by
  cases resp with
  | none =>
    rw [Option.toList_none, ite_self]
    exact (List.append_nil _).symm
  | some resp =>
    rw [offer]
    split_ifs with hfull
    · exact (List.append_nil _).symm
    · rw [owed_append]
      rfl

theorem readSync_pending (w : ℕ) (t : RouterTable W) (cmd : UInt8) (payload : List UInt8)
    (seq : UInt32) (l : Link W) : (readSync w t cmd payload seq l).cs.respQueue.pending =
      offer (routerProcess t cmd payload seq l.sh.world).1.response l.cs.respQueue.pending := by
  rw [readSync]
  split_ifs with hfull
  · rw [nextHead_eq_nextTail, RespQueue.nextTail_eq_head] at hfull
    exact (offer_of_full hfull _).symm
  · generalize routerProcess t cmd payload seq l.sh.world = p
    obtain ⟨ret, world, calls⟩ := p
    cases ret with
    | reject code => rfl
    | respond resp => exact readQueue_pending w resp _

theorem readSubmit_pending (w : ℕ) (e : RouterEntry W) (cmd : UInt8) (payload : List UInt8)
    (seq : UInt32) (l : Link W) : (readSubmit w e cmd payload seq l).cs.respQueue.pending =
      offer (if (SlotTable.firstFree AsyncTask.valid l.sh.queue).isSome then none
        else some (routerBuildResponse cmdNone errChecksum [] seq)) l.cs.respQueue.pending := by
  unfold readSubmit asyncSubmit
  cases SlotTable.firstFree AsyncTask.valid l.sh.queue with
  | none => exact readQueue_pending w _ l
  | some i => rfl

theorem readFrame_pending (w : ℕ) (t : RouterTable W) (cmd : UInt8) (payload : List UInt8)
    (seq : UInt32) (l : Link W) : (readFrame w t cmd payload seq l).cs.respQueue.pending =
      offer (frameOffer t cmd payload seq l) l.cs.respQueue.pending := by
  rw [readFrame, frameOffer]
  cases routerLookup t cmd with
  | none => exact readSync_pending w t cmd payload seq l
  | some e =>
    simp only [Option.any_some]
    by_cases hb : e.blocking = true
    · rw [if_pos hb, if_pos hb]
      exact readSubmit_pending w e cmd payload seq l
    · rw [if_neg hb, if_neg hb]
      exact readSync_pending w t cmd payload seq l

theorem readByte_pending (w : ℕ) (t : RouterTable W) (b : UInt8) (s : ReadLoop W) :
    (readByte w t b s).link.cs.respQueue.pending =
      offer (byteOffer t b s) s.link.cs.respQueue.pending := by
  rw [readByte, byteOffer]
  cases (s.parse b).2 with
  | ok cmd payload seq => exact readFrame_pending w t cmd payload seq (s.numbered b)
  | chkErr => exact readQueue_pending w _ (s.numbered b)
  | incomplete => rfl
  | error => rfl

/-- An action other than a write offers its response to the waiting ones. -/
theorem pending_ringStep (w : ℕ) (t : RouterTable W) (s : ReadLoop W) {a : RingAction W}
    (ha : a ≠ .write) : (ringStep w t s a).link.cs.respQueue.pending =
      offer (a.offer t s) s.link.cs.respQueue.pending := by
  cases a with
  | item it => exact tcpReact_pending w t it s.link
  | deliver w' i => exact flushOwn_pending w' i s.link
  | byte b => exact readByte_pending w t b s
  | write => exact absurd rfl ha
  | others sh => rfl

/-! ## Responses have bytes -/

theorem RouterRet.response_bytes_ne_nil (t : RouterTable W) (cmd : UInt8) (payload : List UInt8)
    (seq : UInt32) (world : W) :
    ∀ resp ∈ (routerProcess t cmd payload seq world).1.response, resp.bytes ≠ [] := by
  intro resp hresp
  unfold routerProcess at hresp
  split at hresp
  · cases hresp
  · split at hresp
    · cases hresp
    · split at hresp
      · cases hresp
      · obtain rfl := Option.some.inj hresp
        exact routerBuildResponse_bytes_ne_nil _ _ (Nat.le_trans (HandlerResult.resp_le _)
          (by decide)) _

theorem AsyncTask.response_bytes_ne_nil (t : AsyncTask W) : t.response.bytes ≠ [] := by
  refine routerBuildResponse_bytes_ne_nil _ _ ?_ _
  have := t.respLen_le
  rw [List.length_take]
  omega

theorem frameOffer_bytes_ne_nil (t : RouterTable W) (cmd : UInt8) (payload : List UInt8)
    (seq : UInt32) (l : Link W) :
    ∀ resp ∈ frameOffer t cmd payload seq l, resp.bytes ≠ [] := by
  intro resp hresp
  unfold frameOffer at hresp
  split_ifs at hresp
  · cases hresp
  · obtain rfl := Option.some.inj hresp
    exact routerBuildResponse_bytes_ne_nil _ _ (Nat.zero_le _) _
  · exact RouterRet.response_bytes_ne_nil t cmd payload seq _ resp hresp

/-- What is offered to the ring is not empty. -/
theorem RingAction.offer_bytes_ne_nil (t : RouterTable W) (s : ReadLoop W) (a : RingAction W) :
    ∀ resp ∈ a.offer t s, resp.bytes ≠ [] := by
  intro resp hresp
  cases a with
  | item it =>
    cases it with
    | incomplete => cases hresp
    | chkErr => cases hresp
    | frame f =>
      simp only [offer, itemOffer] at hresp
      split_ifs at hresp
      · cases hresp
      · exact RouterRet.response_bytes_ne_nil t _ _ _ _ resp (Option.mem_filter_iff.1 hresp).1
  | deliver w i =>
    simp only [offer, slotOffer] at hresp
    split_ifs at hresp
    · obtain rfl := Option.some.inj hresp
      exact AsyncTask.response_bytes_ne_nil _
    · cases hresp
    · cases hresp
  | byte b =>
    simp only [offer, byteOffer] at hresp
    split at hresp
    · exact frameOffer_bytes_ne_nil t _ _ _ _ resp hresp
    · obtain rfl := Option.some.inj hresp
      exact routerBuildResponse_bytes_ne_nil _ _ (Nat.zero_le _) _
    · cases hresp
  | write => cases hresp
  | others sh => cases hresp

/-! ## Runs of actions -/

/-- The bytes `xlab_handler_write` gave to the kernel between two states. -/
def wireSince (l l' : Link W) : List UInt8 :=
  (l'.cs.wire.drop l.cs.wire.length).flatMap Segment.bytes

/-- A session, the responses that were put on its ring, and the bytes `xlab_handler_write`
gave to the kernel. -/
structure RingRun (W : Type) where
  state : ReadLoop W
  queued : List Response
  written : List UInt8

namespace RingRun

/-- The ring of the session. -/
def queue (r : RingRun W) : RespQueue :=
  r.state.link.cs.respQueue

/-- An action. Its response is put on the ring unless 63 wait. -/
def step (w : ℕ) (t : RouterTable W) (r : RingRun W) (a : RingAction W) : RingRun W where
  state := ringStep w t r.state a
  queued := r.queued ++
    if r.queue.pending.length = 63 then [] else (a.offer t r.state).toList
  written := r.written ++
    match a with
    | .write => wireSince r.state.link (ringStep w t r.state a).link
    | _ => []

/-- A session as `xlab_session_create` sets it up, next to anything. -/
def start (ident : SessionIdent) (seq : UInt32) (sh : Shared W) : RingRun W where
  state := ⟨.zeroed, seq, ⟨.create ident, sh⟩⟩
  queued := []
  written := []

end RingRun

/-- The bytes of a slot that were sent. -/
def RespSlot.sentBytes (s : RespSlot) : List UInt8 :=
  s.resp.bytes.take s.sentLen

/-- The slots from head to tail are the responses that were queued and are not fully sent,
oldest first : `done` are the fully sent ones, and the kernel has their bytes and what was
sent of the head slot. -/
structure IsFifo (queued : List Response) (written : List UInt8) (q : RespQueue) : Prop where
  head_lt : q.head.toNat < respQueueDepth
  tail_lt : q.tail.toNat < respQueueDepth
  length_le : q.pending.length ≤ 63
  contents : ∃ done, queued = done ++ q.pending.map RespSlot.resp ∧
    written = done.flatMap Response.bytes ++ (q.pending.take 1).flatMap RespSlot.sentBytes
  unsent : ∀ s ∈ q.pending.tail, s.sentLen = 0
  unfinished : ∀ s ∈ q.pending, s.sentLen < s.len

/-- What the actions keep of the waiting responses : they are the last ones queued, only the
head is partly sent, and none is finished. -/
structure Waiting (queued : List Response) (waiting : List RespSlot) : Prop where
  suffix : waiting.map RespSlot.resp <:+ queued
  unsent : ∀ s ∈ waiting.tail, s.sentLen = 0
  unfinished : ∀ s ∈ waiting, s.sentLen < s.len

namespace Waiting

variable {queued : List Response} {waiting : List RespSlot}

/-- A response more. -/
theorem append (h : Waiting queued waiting) {resp : Response} (hne : resp.bytes ≠ []) :
    Waiting (queued ++ [resp]) (waiting ++ [.fresh resp]) := by
  have hfresh : ∀ s ∈ [RespSlot.fresh resp], s.sentLen = 0 ∧ s.sentLen < s.len := fun s hs => by
    obtain rfl := List.mem_singleton.1 hs
    exact ⟨rfl, List.length_pos_iff.2 hne⟩
  obtain ⟨done, hdone⟩ := h.suffix
  refine ⟨⟨done, ?_⟩, fun s hs => ?_, fun s hs => ?_⟩
  · rw [List.map_append, ← List.append_assoc, hdone]
    rfl
  · cases waiting with
    | nil => cases hs
    | cons s₀ waiting =>
      rcases List.mem_append.1 hs with hs | hs
      · exact h.unsent s hs
      · exact (hfresh s hs).1
  · rcases List.mem_append.1 hs with hs | hs
    · exact h.unfinished s hs
    · exact (hfresh s hs).2

/-- A response offered to the ring. -/
theorem offer (h : Waiting queued waiting) {resp : Option Response}
    (hne : ∀ r ∈ resp, r.bytes ≠ []) :
    Waiting (queued ++ if waiting.length = 63 then [] else resp.toList)
      (offer resp waiting) := by
  cases resp with
  | none =>
    rw [Option.toList_none, ite_self, List.append_nil]
    exact h
  | some resp =>
    rw [Xlab.offer]
    split_ifs with hfull
    · rw [List.append_nil]
      exact h
    · exact h.append (hne resp rfl)

theorem sentLen_lt_of_drain (n : ℕ) (h : ∀ s ∈ waiting, s.sentLen < s.len) :
    ∀ s ∈ drain waiting n, s.sentLen < s.len := by
  induction waiting generalizing n with
  | nil => exact h
  | cons s₀ waiting ih =>
    intro s hs
    rw [drain] at hs
    split_ifs at hs with h0 hr
    · exact h s hs
    · exact ih _ (fun s hs => h s (List.mem_cons_of_mem _ hs)) s hs
    · rcases List.mem_cons.1 hs with rfl | hs
      · have hlt := h s₀ List.mem_cons_self
        simp only [RespSlot.advance, RespSlot.remaining, RespSlot.len] at hr hlt ⊢
        omega
      · exact h s (List.mem_cons_of_mem _ hs)

/-- Some bytes sent. -/
theorem drain (h : Waiting queued waiting) (n : ℕ) : Waiting queued (drain waiting n) := by
  obtain ⟨k, hk⟩ := drain_resp waiting n
  refine ⟨?_, fun s hs => h.unsent s (mem_tail_drain waiting n hs),
    sentLen_lt_of_drain n h.unfinished⟩
  rw [hk]
  exact (List.drop_suffix k _).trans h.suffix

/-- A call of `xlab_handler_write`. -/
theorem handlerWrite {l : Link W} (h : Waiting queued l.cs.respQueue.pending) (w : ℕ) :
    Waiting queued (handlerWrite w l).link.cs.respQueue.pending := by
  rw [(handlerWrite_link w l).1]
  refine writeLoop_keeps (P := fun l => Waiting queued l.cs.respQueue.pending)
    (fun l h => ?_) 65 false h
  rcases writeTurn_cases l with ⟨-, h'⟩ | ⟨n, -, -, -, h'⟩ | ⟨-, -, turn, -, h'⟩ <;> rw [h']
  · exact h
  · rw [pending_account_turn]
    exact h.drain n
  · exact h

/-- The bytes of the waiting responses : what was sent of the head, and what is owed. -/
theorem flatMap_bytes (h : Waiting queued waiting) :
    (waiting.map RespSlot.resp).flatMap Response.bytes =
      (waiting.take 1).flatMap RespSlot.sentBytes ++ owed waiting := by
  cases waiting with
  | nil => rfl
  | cons s waiting =>
    have htail : owed waiting = (waiting.map RespSlot.resp).flatMap Response.bytes := by
      rw [owed, List.flatMap_map]
      refine List.flatMap_congr fun s hs => ?_
      rw [h.unsent s hs, List.drop_zero]
    rw [List.map_cons, List.flatMap_cons, owed_cons, ← htail, List.take_succ_cons, List.take_zero,
      List.flatMap_cons, List.flatMap_nil, List.append_nil, ← List.append_assoc,
      RespSlot.sentBytes, List.take_append_drop]

end Waiting

/-- The invariant of the runs. -/
structure RingRun.Inv (r : RingRun W) : Prop where
  waiting : Waiting r.queued r.queue.pending
  bytes : r.written ++ owed r.queue.pending = r.queued.flatMap Response.bytes

theorem RingRun.inv_start (ident : SessionIdent) (seq : UInt32) (sh : Shared W) :
    (RingRun.start ident seq sh).Inv :=
  ⟨⟨List.suffix_refl _, fun _ h => absurd h List.not_mem_nil,
    fun _ h => absurd h List.not_mem_nil⟩, rfl⟩

theorem RingRun.Inv.isFifo {r : RingRun W} (h : r.Inv) : IsFifo r.queued r.written r.queue := by
  obtain ⟨done, hdone⟩ := h.waiting.suffix
  refine ⟨r.queue.head_lt, r.queue.tail_lt, r.queue.length_pending_le, ⟨done, hdone.symm, ?_⟩,
    h.waiting.unsent, h.waiting.unfinished⟩
  have hbytes := h.bytes
  rw [← hdone, List.flatMap_append, h.waiting.flatMap_bytes, ← List.append_assoc] at hbytes
  exact List.append_cancel_right hbytes

/-- An action keeps the invariant. -/
theorem RingRun.Inv.step {r : RingRun W} (h : r.Inv) (w : ℕ) (t : RouterTable W)
    (a : RingAction W) : (r.step w t a).Inv := by
  by_cases ha : a = .write
  · subst ha
    obtain ⟨taken, hwire, htaken⟩ := handlerWrite_conserved w r.state.link
    have hqueued : (r.step w t .write).queued = r.queued := by
      simp [RingRun.step, RingAction.offer]
    have hwritten : (r.step w t .write).written = r.written ++ taken.flatMap Segment.bytes := by
      simp only [RingRun.step, ringStep, wireSince, hwire, List.drop_left]
    refine ⟨?_, ?_⟩
    · rw [hqueued]
      exact h.waiting.handlerWrite w
    · rw [hqueued, hwritten, List.append_assoc, ← h.bytes]
      exact congrArg (r.written ++ ·) htaken
  · have hpend : (r.step w t a).queue.pending = offer (a.offer t r.state) r.queue.pending :=
      pending_ringStep w t r.state ha
    have hwritten : (r.step w t a).written = r.written := by
      cases a with
      | write => exact absurd rfl ha
      | _ => exact List.append_nil _
    have hne := RingAction.offer_bytes_ne_nil t r.state a
    have hqueued : (r.step w t a).queued = r.queued ++
      if r.queue.pending.length = 63 then [] else (a.offer t r.state).toList := rfl
    refine ⟨?_, ?_⟩
    · rw [hpend, hqueued]
      exact h.waiting.offer hne
    · rw [hpend, hqueued, hwritten, owed_offer, ← List.append_assoc, h.bytes, List.flatMap_append]

/-- After any interleaving of enqueues and drains on a new session, the ring is a queue of at
most 63 responses : what was queued and is not fully sent, in order and unchanged. While 63
wait, no action but a write changes a waiting slot. -/
theorem ring_isFifo (w : ℕ) (t : RouterTable W) (ident : SessionIdent) (seq : UInt32)
    (sh : Shared W) (actions : List (RingAction W)) :
    let r := Runs.run (RingRun.step w t) (.start ident seq sh) actions
    IsFifo r.queued r.written r.queue ∧
      (r.queue.pending.length = 63 → ∀ a, a ≠ .write →
        (r.step w t a).queue.pending = r.queue.pending) := by
  have hinv : (Runs.run (RingRun.step w t) (.start ident seq sh) actions).Inv :=
    Runs.run_keeps (fun _ a h => h.step w t a) (RingRun.inv_start ident seq sh) actions
  refine ⟨hinv.isFifo, fun hfull a ha => ?_⟩
  exact (pending_ringStep w t _ ha).trans (offer_of_full hfull _)

end Xlab
