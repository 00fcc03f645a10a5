import Xlab.Framing
import Xlab.InOrder
import Xlab.Replies

/-!
# What the answers say

A client sees two byte streams : the one it sends, which the scan loop cuts into items, and the one
it receives. `Answered` says what an item may be answered with : a frame with what the handler of
its command made of its own payload, or an error that names its command, and a broken frame with a
checksum error.

`Answering` is the invariant that ties the two together. The responses built are answers to the
first items, in order, and the tasks in the table were submitted for those after them. It is kept
by every step that is in turn, whatever `writev` takes. So `client_reads_answers` : whatever part of
the stream of responses has arrived, a client that decodes it reads answers to its first items, one
for each and in order.
-/

open Streams

namespace Xlab

variable {W : Type}

/-! ## Reading a response -/

theorem decodeReply_consumes : Consumes decodeReply := by
  intro xs b rest h
  match xs with
  | [] => cases h
  | [_] => cases h
  | head :: len :: xs =>
    rw [decodeReply] at h
    split_ifs at h with hlen hsum
    obtain ⟨r, -, hr⟩ := Option.map_eq_some_iff.1 h
    obtain rfl := congrArg Prod.snd hr
    simp only [List.length_drop, List.length_cons]
    omega

theorem decodeReply_local : Local decodeReply := by
  intro xs b rest ys h
  match xs with
  | [] => cases h
  | [_] => cases h
  | head :: len :: xs =>
    rw [decodeReply] at h
    split_ifs at h with hlen hsum
    have hle : len.toNat ≤ xs.length := Nat.le_of_not_lt hlen
    have hlen' : ¬(xs ++ ys).length < len.toNat := by
      rw [List.length_append]
      omega
    rw [List.cons_append, List.cons_append, decodeReply, List.take_append_of_le_length hle,
      List.drop_append_of_le_length hle, if_neg hlen', if_pos hsum]
    obtain ⟨r, hr, he⟩ := Option.map_eq_some_iff.1 h
    obtain ⟨rfl, rfl⟩ := Prod.mk.inj he
    rw [hr]
    rfl

/-- A response is read as success with its data, or as its error code, of which one byte is
sent. -/
theorem reads_response (cmd : UInt8) (err : ErrCode) {data : List UInt8} (hd : data.length ≤ 251)
    (seq : UInt32) : Reads decodeReply (routerBuildResponse cmd err data seq).bytes
      (if err = errOk then .ok cmd data else .err cmd (err % 256)) := by
  by_cases h : err = errOk
  · subst h
    exact reads_frame ⟨cmd, errOk, data, seq, by decide, fun _ => hd⟩
  · rw [routerBuildResponse_err h, if_neg h]
    refine ⟨List.cons_ne_nil _ _, decodeReply_withChecksum rfl ?_⟩
    rw [← UInt8.toNat_ofNat']
    rfl

/-! ## Answers -/

/-- What a handler reports, as the client reads it. -/
def HandlerResult.reply (cmd : UInt8) (r : HandlerResult) : Reply :=
  if r.errCode = errOk then .ok cmd r.resp else .err cmd (r.errCode % 256)

/-- What an item may be answered with. The handler of a blocking command runs whatever the length of
its payload. -/
def Answered (t : RouterTable W) : Item → Reply → Prop
  | .frame f, reply =>
    match routerLookup t f.cmd with
    | none => reply = .err f.cmd errUnknownCmd
    | some e =>
      (e.inRange f.payload.length ∨ e.blocking = true) ∧
          (∃ world, reply = (e.handler world f.payload).1.reply f.cmd) ∨
        ¬e.inRange f.payload.length ∧ reply = .err f.cmd errInternal
  | _, reply => reply = .err cmdNone errChecksum

/-- The response is read as an answer to the item. -/
def Response.Answers (t : RouterTable W) (it : Item) (resp : Response) : Prop :=
  ∃ reply, Answered t it reply ∧ Reads decodeReply resp.bytes reply

variable {w : ℕ} {t : RouterTable W} {f : Frame} {l : Link W}

theorem answers_handlerResult {e : RouterEntry W} (he : routerLookup t f.cmd = some e)
    (hrun : e.inRange f.payload.length ∨ e.blocking = true) (world : W) (seq : UInt32) :
    (routerBuildResponse f.cmd (e.handler world f.payload).1.errCode
      (e.handler world f.payload).1.resp seq).Answers t (.frame f) := by
  have hlen : (e.handler world f.payload).1.resp.length ≤ 251 :=
    Nat.le_trans (HandlerResult.resp_le _) (by decide)
  refine ⟨_, ?_, reads_response f.cmd _ hlen seq⟩
  rw [Answered, he]
  exact Or.inl ⟨hrun, world, rfl⟩

theorem answers_badFrame (seq : UInt32) {it : Item} (h : it = .incomplete ∨ it = .chkErr) :
    (routerBuildResponse cmdNone errChecksum [] seq).Answers t it := by
  refine ⟨_, ?_, reads_response cmdNone errChecksum (Nat.zero_le _) seq⟩
  rcases h with rfl | rfl <;> rfl

/-- A frame that is not submitted is answered by its direct response. -/
theorem answers_directResponse (t : RouterTable W) (f : Frame) (seq : UInt32) (world : W) :
    (directResponse t f seq world).Answers t (.frame f) := by
  rw [directResponse]
  cases he : routerLookup t f.cmd with
  | none =>
    rw [routerProcess_of_none he]
    refine ⟨_, ?_, reads_response f.cmd errUnknownCmd (Nat.zero_le _) seq⟩
    rw [Answered, he]
    rfl
  | some e =>
    by_cases hr : e.inRange f.payload.length
    · rw [routerProcess_of_inRange he hr]
      exact answers_handlerResult he (Or.inl hr) world seq
    · rw [routerProcess_of_not_inRange he hr]
      refine ⟨_, ?_, reads_response f.cmd errInternal (Nat.zero_le _) seq⟩
      rw [Answered, he]
      exact Or.inr ⟨hr, rfl⟩

theorem directAnswer_built (h : l.sh.nextWhole) (w : ℕ) (t : RouterTable W) (f : Frame)
    (seq : UInt32) : (directAnswer w t f seq l).cs.built =
      l.cs.built ++ [directResponse t f seq l.sh.world] := by
  rw [directAnswer, syncAnswer, directResponse]
  cases hp : (routerProcess t f.cmd f.payload seq l.sh.world).1 with
  | reject code => rfl
  | respond resp =>
    simp only []
    rw [sendOrQueue_whole (by exact h)]
    rfl

/-! ## Tasks -/

/-- The task was submitted for the frame, and if it has run it holds what its handler reported. -/
structure AsyncTask.For (t : RouterTable W) (f : Frame) (task : AsyncTask W) : Prop where
  entry : ∃ e, routerLookup t f.cmd = some e ∧ e.blocking = true ∧ task.handler = e.handler
  cmdCode : task.cmdCode = f.cmd
  args : task.args = f.payload
  result : task.completed = true → ∃ world,
    task.resultCode = (task.handler world f.payload).1.errCode ∧
      task.respData.take task.respLen.toNat = (task.handler world f.payload).1.resp

theorem AsyncTask.For.answers {task : AsyncTask W} (h : task.For t f)
    (hc : task.completed = true) : task.response.Answers t (.frame f) := by
  obtain ⟨e, he, hb, hhandler⟩ := h.entry
  obtain ⟨world, hcode, hdata⟩ := h.result hc
  rw [AsyncTask.response, h.cmdCode, hcode, hdata, hhandler]
  exact answers_handlerResult he (Or.inr hb) world task.seq

theorem AsyncTask.For.submitted {e : RouterEntry W} (he : routerLookup t f.cmd = some e)
    (hb : e.blocking = true) (i : Fin asyncQueueDepth) : (l.task f e i).For t f where
  entry := ⟨e, he, hb, rfl⟩
  cmdCode := rfl
  args := AsyncTask.submitted_args ..
  result := nofun

theorem AsyncTask.For.finished {task : AsyncTask W} (h : task.For t f) (world : W) :
    (task.finished (task.handler world task.args).1).For t f where
  entry := h.entry
  cmdCode := h.cmdCode
  args := h.args
  result _ := ⟨world, by rw [h.args]; rfl, by rw [AsyncTask.finished_data, h.args]; rfl⟩

/-! ## The invariant -/

/-- The items a step reacts to. -/
def LinkEvent.items : LinkEvent W → List Item
  | .react it => [it]
  | _ => []

/-- The items received are those answered, in order, and those the tasks in the table are for, and
the bytes of the answers have been taken or wait in the ring. -/
structure Answering (t : RouterTable W) (items : List Item) (l : Link W) : Prop where
  next : l.ledger.next = UInt32.ofNat items.length
  count : items.length = l.cs.built.length + l.ledger.outstanding.card
  built : List.Forall₂ (Response.Answers t) (items.take l.cs.built.length) l.cs.built
  tasks : ∀ i, (l.sh.queue i).own l.cs.ident = true → ∃ k f, l.cs.built.length ≤ k ∧
    items[k]? = some (.frame f) ∧ (l.sh.queue i).seq = UInt32.ofNat k ∧ (l.sh.queue i).For t f
  nodup : l.ledger.outstanding.Nodup
  bytes : l.cs.wire.flatMap Segment.bytes ++ owed l.cs.respQueue.pending =
    l.cs.built.flatMap Response.bytes

theorem writeTurn_built (l : Link W) : (writeTurn l).2.cs.built = l.cs.built := by
  rcases writeTurn_cases l with ⟨-, h'⟩ | ⟨n, -, -, -, h'⟩ | ⟨-, -, turn, -, h'⟩ <;> rw [h']

namespace Answering

variable {items : List Item}

theorem fresh (hl : l.Fresh) : Answering t [] l where
  next := congrArg Session.nextReqSeq hl.cs
  count := by
    rw [hl.cs, outstanding_eq_zero.2 hl.queue]
    rfl
  built := by
    rw [hl.cs]
    exact .nil
  tasks i hi := by
    rw [hl.queue i] at hi
    cases hi
  nodup := by
    rw [outstanding_eq_zero.2 hl.queue]
    exact Multiset.nodup_zero
  bytes := by rw [hl.cs]; rfl

/-- The items not answered yet are too few for their numbers to wrap around. -/
theorem eq_of_ofNat (h : Answering t items l) {j k : ℕ} (hk : l.cs.built.length ≤ k)
    (hk' : k < items.length) (hj : l.cs.built.length ≤ j) (hj' : j ≤ items.length)
    (he : UInt32.ofNat k = UInt32.ofNat j) : k = j := by
  have hcount := h.count
  have hcard : l.ledger.outstanding.card ≤ 512 := card_outstanding_le l
  rw [← UInt32.toNat_inj] at he
  simp only [UInt32.toNat_ofNat'] at he
  omega

theorem next_notMem (h : Answering t items l) : l.ledger.next ∉ l.ledger.outstanding := by
  intro hmem
  have hmem' : l.ledger.next ∈ l.control.tasks.map AsyncTask.seq := hmem
  obtain ⟨task, htask, hseq⟩ := Multiset.mem_map.1 hmem'
  obtain ⟨i, hown, rfl⟩ := mem_tasks.1 htask
  obtain ⟨k, f, hk, hget, hseq', -⟩ := h.tasks i hown
  have hlt := (List.getElem?_eq_some_iff.1 hget).1
  exact hlt.ne (h.eq_of_ofNat hk hlt (Nat.le_trans hk hlt.le) (Nat.le_refl _)
    (hseq'.symm.trans (hseq.trans h.next)))

/-- An item is answered at once while nothing waits. -/
theorem direct (h : Answering t items l) (hnil : l.cs.respQueue.pending = [])
    (h0 : l.ledger.outstanding = 0) {l' : Link W} {it : Item} {resp : Response}
    (hsent : l.Sent l' resp) (hbuilt : l'.cs.built = l.cs.built ++ [resp])
    (hresp : resp.Answers t it) (hnext : l'.ledger.next = l.ledger.next + 1)
    (hout : l'.ledger.outstanding = l.ledger.outstanding) : Answering t (items ++ [it]) l' := by
  have hlen : items.length = l.cs.built.length := by
    rw [h.count, h0, Multiset.card_zero, Nat.add_zero]
  have hall := h.built
  rw [← hlen, List.take_length] at hall
  refine ⟨?_, ?_, ?_, fun i hi => ?_, ?_, ?_⟩
  · rw [hnext, h.next, List.length_append, List.length_singleton, UInt32.ofNat_add]
    rfl
  · rw [hbuilt, hout, h0, List.length_append, List.length_append, hlen]
    rfl
  · rw [hbuilt, List.take_of_length_le (by simp [hlen])]
    exact List.rel_append hall (.cons hresp .nil)
  · rw [outstanding_eq_zero.1 (hout.trans h0) i] at hi
    cases hi
  · rw [hout]
    exact h.nodup
  · have hbytes := h.bytes
    rw [hnil, owed_nil, List.append_nil] at hbytes
    rw [hsent.wire, hsent.respQueue, hnil, owed_nil, List.append_nil, hbuilt, List.flatMap_append,
      List.flatMap_append, hbytes]
    simp

theorem submit (h : Answering t items l) (hs : l.submits t f = true) (w : ℕ) :
    Answering t (items ++ [.frame f]) (tcpReact w t (.frame f) l) := by
  have hl := ledger_react w t (.frame f) l
  simp only [if_pos hs] at hl
  obtain ⟨e, i, he, hb, hi, h'⟩ := tcpFrame_of_submits hs w
  have hlen : (items ++ [Item.frame f]).length = items.length + 1 := List.length_append
  rw [tcpReact, h'] at hl ⊢
  refine ⟨?_, ?_, ?_, fun j hj => ?_, ?_, h.bytes⟩
  · rw [hl, hlen, UInt32.ofNat_add]
    exact congrArg (· + 1) h.next
  · rw [hl, hlen, h.count, Ledger.submit, Multiset.card_cons, Nat.add_assoc,
      show (l.recognise f).cs.built = l.cs.built from rfl]
  · have hle : l.cs.built.length ≤ items.length := by
      have := h.count
      omega
    exact (List.take_append_of_le_length hle).symm ▸ h.built
  · by_cases hji : j = i
    · subst hji
      have hself : Function.update l.sh.queue j (l.task f e j) j = l.task f e j :=
        Function.update_self ..
      refine ⟨items.length, f, Nat.le.intro h.count.symm, List.getElem?_concat_length, ?_, ?_⟩
      · exact (congrArg AsyncTask.seq hself).trans h.next
      · show (Function.update l.sh.queue j (l.task f e j) j).For t f
        rw [hself]
        exact .submitted he hb j
    · simp only [Function.update_of_ne hji] at hj ⊢
      obtain ⟨k, f', hk, hget, hseq, hfor⟩ := h.tasks j hj
      exact ⟨k, f', hk, (List.getElem?_append_left (List.getElem?_eq_some_iff.1 hget).1).trans hget,
        hseq, hfor⟩
  · rw [hl]
    exact Multiset.nodup_cons.2 ⟨h.next_notMem, h.nodup⟩

theorem broken (h : Answering t items l) (hS : l.sh.nextWhole) {it : Item}
    (hit : it = .incomplete ∨ it = .chkErr)
    (hC : l.cs.respQueue.pending = [] ∧ l.ledger.outstanding = 0) :
    Answering t (items ++ [it]) (badFrame l) := by
  have hl : (badFrame l).ledger = l.ledger.skip := congrArg Control.ledger (sockSend_control _ _)
  exact h.direct hC.1 hC.2 (sent_badFrame hS) rfl (answers_badFrame _ hit) (by rw [hl]; rfl)
    (by rw [hl]; rfl)

/-- A reaction in turn. -/
theorem react (h : Answering t items l) (w : ℕ) {it : Item}
    (hS : DirectSendsWhole t l (.react it)) (hC : InTurn t l (.react it)) :
    Answering t (items ++ [it]) (tcpReact w t it l) := by
  cases it with
  | incomplete => exact h.broken (hS trivial) (Or.inl rfl) hC
  | chkErr => exact h.broken (hS trivial) (Or.inr rfl) hC
  | frame f =>
    by_cases hs : l.submits t f = true
    · exact h.submit hs w
    · obtain ⟨hnil, h0⟩ := hC.resolve_left hs
      have hl := ledger_react w t (.frame f) l
      have hs' : l.submits t f = false := Bool.not_eq_true _ ▸ hs
      have hrun := tcpFrame_of_not_submits hs' w
      have hsent := (directAnswer_sent (l := l.recognise f) (hS hs') w t f l.cs.nextReqSeq).1
      have hbuilt := directAnswer_built (l := l.recognise f) (hS hs') w t f l.cs.nextReqSeq
      rw [← hrun] at hsent hbuilt
      simp only [if_neg hs, tcpReact] at hl
      rw [tcpReact]
      exact h.direct hnil h0 ⟨hsent.wire, hsent.respQueue, hsent.script⟩ hbuilt
        (answers_directResponse t f _ _) (by rw [hl]; split_ifs <;> rfl)
        (by rw [hl]; split_ifs <;> rfl)

/-- The task of the next item is delivered into a ring that has room. -/
theorem deliver (h : Answering t items l) {i : Fin asyncQueueDepth}
    (hd : l.deliverable i = true) (hroom : l.cs.respQueue.pending.length ≠ 63)
    (hnext : l.ledger.next = l.ledger.expected + UInt32.ofNat l.ledger.outstanding.card) (w : ℕ) :
    Answering t items (flushOwn w i l) := by
  obtain ⟨hl, hout⟩ := ledger_flush hd w
  have hc := control_flushOwn hd w
  rcases output_flushOwn hd w with ⟨hfull, -⟩ | ⟨q, hq, ho⟩
  · exact absurd hfull hroom
  have hbuilt : (flushOwn w i l).cs.built = l.cs.built ++ [(l.sh.queue i).response] :=
    congrArg Output.built ho
  have hpend : (flushOwn w i l).cs.respQueue.pending =
      l.cs.respQueue.pending ++ [.fresh (l.sh.queue i).response] :=
    (congrArg (fun o => o.respQueue.pending) ho).trans (RespQueue.pending_of_enqueue hq)
  have hid : (flushOwn w i l).cs.ident = l.cs.ident := (congrArg Control.ident hc).trans rfl
  have hqueue : (flushOwn w i l).sh.queue = l.sh.queue.free i :=
    (congrArg Control.queue hc).trans rfl
  obtain ⟨hf, hown⟩ := Bool.and_eq_true_iff.1 (Link.deliverable_own hd)
  obtain ⟨k, f, hk, hget, hseq, hfor⟩ := h.tasks i
    (Bool.and_eq_true_iff.2 ⟨AsyncTask.valid_of_flushable hf, hown⟩)
  have hexp : UInt32.ofNat l.cs.built.length = l.ledger.expected := by
    rw [h.next, h.count, UInt32.ofNat_add, UInt32.add_left_inj] at hnext
    exact hnext
  -- of the items not answered yet the task is for the first
  obtain rfl : k = l.cs.built.length := h.eq_of_ofNat hk (List.getElem?_eq_some_iff.1 hget).1
    (Nat.le_refl _) (Nat.le.intro h.count.symm)
    (hseq.symm.trans ((Link.deliverable_seq hd).trans hexp.symm))
  have hnodup := h.nodup
  rw [hout, Multiset.nodup_cons] at hnodup
  refine ⟨?_, ?_, ?_, fun j hj => ?_, hnodup.2, ?_⟩
  · rw [hl]
    exact h.next
  · rw [h.count, hout, hbuilt, List.length_append, Multiset.card_cons, List.length_singleton]
    omega
  · rw [hbuilt, List.length_append, List.length_singleton, List.take_add_one, hget]
    exact List.rel_append h.built
      (.cons (hfor.answers (Bool.and_eq_true_iff.1 hf).2) .nil)
  · have hmem : ((flushOwn w i l).sh.queue j).seq ∈ (flushOwn w i l).ledger.outstanding :=
      Multiset.mem_map_of_mem _ (mem_tasks.2 ⟨j, hj, rfl⟩)
    rw [hid, hqueue, AsyncQueue.free] at hj
    rw [hqueue, AsyncQueue.free] at hmem ⊢
    by_cases hji : j = i
    · subst hji
      rw [Function.update_self, own_eq_false_of_not_valid rfl] at hj
      cases hj
    · rw [Function.update_of_ne hji] at hj hmem ⊢
      obtain ⟨k, f', hk', hget', hseq', hfor'⟩ := h.tasks j hj
      refine ⟨k, f', ?_, hget', hseq', hfor'⟩
      rw [hbuilt, List.length_append, List.length_singleton]
      refine Nat.lt_of_le_of_ne hk' fun he => hnodup.1 ?_
      rw [← hexp, he, ← hseq']
      exact hmem
  · rw [hpend, owed_append, ← List.append_assoc, show (flushOwn w i l).cs.wire = l.cs.wire from
      congrArg Output.wire ho, h.bytes, hbuilt, List.flatMap_append]
    simp [owed, RespSlot.fresh]

/-- A turn of the write loop moves bytes from the ring to the wire. -/
theorem turn (h : Answering t items l) : Answering t items (writeTurn l).2 := by
  have hc := writeTurn_control l
  have hid : (writeTurn l).2.cs.ident = l.cs.ident := congrArg Control.ident hc
  have hqueue : (writeTurn l).2.sh.queue = l.sh.queue := congrArg Control.queue hc
  have hbuilt := writeTurn_built l
  have hconserved : Conserved [] (l.cs.built.flatMap Response.bytes) l := ⟨l.cs.wire, rfl, h.bytes⟩
  obtain ⟨taken, hwire, hbytes⟩ := hconserved.turn
  rw [List.nil_append] at hwire
  refine ⟨?_, ?_, ?_, ?_, ?_, ?_⟩
  · rw [ledger_turn]
    exact h.next
  · rw [ledger_turn, hbuilt]
    exact h.count
  · rw [hbuilt]
    exact h.built
  · rw [hid, hqueue, hbuilt]
    exact h.tasks
  · rw [ledger_turn]
    exact h.nodup
  · rw [hwire, hbuilt]
    exact hbytes

/-- The tasks of the session are in the table as before, or have run. -/
theorem withShared (h : Answering t items l) {sh : Shared W}
    (hl : (⟨l.cs, sh⟩ : Link W).ledger = l.ledger)
    (htasks : ∀ i, (sh.queue i).own l.cs.ident = true → ∃ k f, l.cs.built.length ≤ k ∧
      items[k]? = some (.frame f) ∧ (sh.queue i).seq = UInt32.ofNat k ∧ (sh.queue i).For t f) :
    Answering t items ⟨l.cs, sh⟩ where
  next := by
    rw [hl]
    exact h.next
  count := by
    rw [hl]
    exact h.count
  built := h.built
  tasks := htasks
  nodup := by
    rw [hl]
    exact h.nodup
  bytes := h.bytes

/-- The background thread runs handlers on the payloads of their frames. -/
theorem work (h : Answering t items l) (i : Fin asyncQueueDepth) :
    Answering t items ⟨l.cs, l.sh.work i⟩ := by
  refine h.withShared (ledger_work i l) fun j hj => ?_
  by_cases hji : j = i
  · subst hji
    simp only [work_queue_self] at hj ⊢
    split_ifs at hj ⊢
    · obtain ⟨k, f, hk, hget, hseq, hfor⟩ := h.tasks j hj
      exact ⟨k, f, hk, hget, hseq, hfor.finished l.sh.world⟩
    · exact h.tasks j hj
  · simp only [work_queue_of_ne _ hji] at hj ⊢
    exact h.tasks j hj

theorem others (h : Answering t items l) {sh : Shared W} (hA : Admissible l (.others sh)) :
    Answering t items ⟨l.cs, sh⟩ := by
  refine h.withShared (ledger_others hA) fun j hj => ?_
  have hsame := hA j (Or.inl hj)
  rw [hsame] at hj ⊢
  exact h.tasks j hj

/-- A step in turn. -/
theorem step (h : Answering t items l) (w : ℕ) {e : LinkEvent W} (hA : Admissible l e)
    (hS : DirectSendsWhole t l e) (hC : InTurn t l e) :
    Answering t (items ++ e.items) (linkStep w t l e) := by
  cases e with
  | others sh => exact (List.append_nil items).symm ▸ h.others hA
  | body bytes =>
    exact (List.append_nil items).symm ▸ ⟨h.next, h.count, h.built, h.tasks, h.nodup, h.bytes⟩
  | react it => exact h.react w hS hC
  | work i => exact (List.append_nil items).symm ▸ h.work i
  | flush w' i =>
    refine (List.append_nil items).symm ▸ ?_
    by_cases hd : l.deliverable i = true
    · exact h.deliver hd (hC hd).1 (hC hd).2 w'
    · rw [linkStep, flushOwn_of_not_deliverable (Bool.not_eq_true _ ▸ hd)]
      exact h
  | turn => exact (List.append_nil items).symm ▸ h.turn

theorem run {es : List (LinkEvent W)} (h : Answering t items l)
    (hA : Runs.Guarded (linkStep w t) Admissible l es)
    (hS : Runs.Guarded (linkStep w t) (DirectSendsWhole t) l es)
    (hC : Runs.Guarded (linkStep w t) (InTurn t) l es) :
    Answering t (items ++ es.flatMap LinkEvent.items) (Runs.run (linkStep w t) l es) := by
  induction es generalizing items l with
  | nil => exact (List.append_nil items).symm ▸ h
  | cons e es ih =>
    rw [List.flatMap_cons, ← List.append_assoc]
    exact ih (h.step w hA.1 hS.1 hC.1) hA.2 hS.2 hC.2

end Answering

/-! ## What the client reads -/

/-- Responses that are answers, each with the reply it is read as. -/
theorem exists_replies {items : List Item} {resps : List Response}
    (h : List.Forall₂ (Response.Answers t) items resps) :
    ∃ calls : List (Response × Reply), calls.map Prod.fst = resps ∧
      List.Forall₂ (Answered t) items (calls.map Prod.snd) ∧
        ∀ c ∈ calls, Reads decodeReply c.1.bytes c.2 := by
  induction h with
  | nil => exact ⟨[], rfl, .nil, List.forall_mem_nil _⟩
  | @cons it resp items resps hresp _ ih =>
    obtain ⟨reply, hreply, hread⟩ := hresp
    obtain ⟨calls, rfl, hcalls, hreads⟩ := ih
    exact ⟨(resp, reply) :: calls, rfl, .cons hreply hcalls,
      List.forall_mem_cons.2 ⟨hread, hreads⟩⟩

/-- The client reads answers to the first items, and to all that are answered when nothing is
owed. -/
theorem Answering.reads {items : List Item} (h : Answering t items l) :
    ∃ replies rest, unpack decodeReply l.cs.output.bytes = (replies, rest) ∧
      List.Forall₂ (Answered t) (items.take replies.length) replies ∧
      replies.length ≤ l.cs.built.length ∧
      (replies.length = l.cs.built.length ↔ owed l.cs.respQueue.pending = []) ∧
        (owed l.cs.respQueue.pending = [] → rest = []) := by
  obtain ⟨calls, hresps, hanswers, hreads⟩ := exists_replies h.built
  have hlen : calls.length = l.cs.built.length := by rw [← hresps, List.length_map]
  have hbytes : l.cs.output.bytes ++ owed l.cs.respQueue.pending =
      calls.flatMap fun c => c.1.bytes := by
    have hstream : calls.flatMap (fun c => c.1.bytes) = l.cs.built.flatMap Response.bytes := by
      rw [← hresps, List.flatMap_map]
    exact h.bytes.trans hstream.symm
  obtain ⟨n, rest, hunpack, hxs⟩ := unpack_prefix_flatMap decodeReply_consumes decodeReply_local
    hreads ⟨_, hbytes⟩
  have hall : owed l.cs.respQueue.pending = [] →
      ((calls.take n).map Prod.snd, rest) = (calls.map Prod.snd, []) := fun hnil => by
    have hnone : decodeReply [] = none := rfl
    rw [← hunpack, ← unpack_flatMap hnone hreads, ← hbytes, hnil, List.append_nil]
  refine ⟨_, rest, hunpack, ?_, ?_, ⟨fun heq => ?_, fun hnil => ?_⟩, fun hnil =>
    congrArg Prod.snd (hall hnil)⟩
  · have htake := List.forall₂_take n hanswers
    rw [List.take_take] at htake
    rw [List.map_take, List.length_take, List.length_map, hlen]
    exact htake
  · rw [List.length_map, List.length_take, hlen]
    exact Nat.min_le_right _ _
  · rw [List.length_map, ← hlen, List.length_take] at heq
    rw [List.take_of_length_le (by omega)] at hxs
    rw [hxs, List.append_assoc] at hbytes
    exact (List.append_eq_nil_iff.1 (List.append_right_eq_self.1 hbytes)).2
  · rw [(Prod.mk.inj (hall hnil)).1, List.length_map, hlen]

/-- In a run of a session in turn whose direct sends take everything, the client reads an answer to
each of its first items, in order, and to all of them when nothing waits and no task is
outstanding. -/
theorem client_reads_answers (w : ℕ) (t : RouterTable W) {l : Link W} (hl : l.Fresh)
    (es : List (LinkEvent W)) (hA : Runs.Guarded (linkStep w t) Admissible l es)
    (hS : Runs.Guarded (linkStep w t) (DirectSendsWhole t) l es)
    (hC : Runs.Guarded (linkStep w t) (InTurn t) l es) :
    ∃ replies rest,
      unpack decodeReply (Runs.run (linkStep w t) l es).cs.output.bytes = (replies, rest) ∧
      List.Forall₂ (Answered t) ((es.flatMap LinkEvent.items).take replies.length) replies ∧
      ((Runs.run (linkStep w t) l es).cs.respQueue.pending = [] →
        (Runs.run (linkStep w t) l es).ledger.outstanding = 0 →
          replies.length = (es.flatMap LinkEvent.items).length ∧ rest = []) := by
  have h := (Answering.fresh (t := t) hl).run hA hS hC
  rw [List.nil_append] at h
  obtain ⟨replies, rest, hunpack, hanswers, -, hall⟩ := h.reads
  refine ⟨replies, rest, hunpack, hanswers, fun hnil h0 => ?_⟩
  rw [hnil] at hall
  rw [hall.1.2 rfl, h.count, h0, Multiset.card_zero, Nat.add_zero]
  exact ⟨rfl, hall.2 rfl⟩

/-- A version request, answered at once, then a blocking command, whose task is run, flushed and
sent. -/
theorem client_reads_answers_getVer_startRead :
    ∃ replies, unpack decodeReply (Runs.run (linkStep 0 cmdTable) idleLink
        [.react (.frame getVer), .react (.frame startRead), .work 0, .flush 0 0,
          .turn]).cs.output.bytes = (replies, []) ∧
      List.Forall₂ (Answered (cmdTable : RouterTable Unit))
        [.frame getVer, .frame startRead] replies := by
  have hs : (linkStep 0 cmdTable idleLink (.react (.frame getVer))).submits cmdTable startRead =
      true := by decide +kernel
  obtain ⟨replies, rest, hunpack, hanswers, hall⟩ := client_reads_answers 0 cmdTable
    idleLink_fresh [.react (.frame getVer), .react (.frame startRead), .work 0, .flush 0 0, .turn]
    ⟨trivial, trivial, trivial, trivial, trivial, trivial⟩
    ⟨fun _ => Shared.nextWhole_of_nil rfl, fun hd => absurd (hs.symm.trans hd) (by decide),
      False.elim, fun _ => Shared.nextWhole_of_nil (by decide +kernel), False.elim, trivial⟩
    ⟨Or.inr ⟨rfl, idleLink_outstanding⟩, Or.inl hs, trivial,
      fun _ => ⟨by decide +kernel, by decide +kernel⟩, trivial, trivial⟩
  obtain ⟨hlen, rfl⟩ := hall (by decide +kernel) (by decide +kernel)
  refine ⟨replies, hunpack, ?_⟩
  rwa [hlen, List.take_length] at hanswers

end Xlab
