import Xlab.Delivery
import Xlab.DirectAnswer

/-!
# Answers in the order of the requests

Responses leave a session by three channels : the direct sends of a read, the ring, and the
BUSY answers of a flush. `Output.InOrder` says that the responses on the wire are those to
the requests `0, 1, …, k − 1`, each taken whole.

`Sequenced` is the invariant behind it : the responses on the wire, then those in the ring, then
the outstanding tasks have consecutive numbers up to the next one. A step keeps it exactly
when it is `InTurn` : it answers directly only when nothing waits and no task is outstanding,
and delivers only the oldest task, into a ring that has room. `in_order_iff` : in a run whose
sends take whole frames the answers are in order at every moment, and stay so when the ring
is drained, exactly when every step is in turn.
-/

open SeqRange

namespace Xlab

variable {W : Type}

/-! ## Whole slots -/

/-- A slot of which nothing has been sent and something has to be. -/
def RespSlot.Whole (s : RespSlot) : Prop :=
  s.unsent = true ∧ s.resp.bytes ≠ []

/-- The slot taken in one call. -/
def RespSlot.segment (s : RespSlot) : Segment :=
  .whole s.resp

theorem RespSlot.Whole.len_pos {s : RespSlot} (h : s.Whole) : 0 < s.len :=
  List.length_pos_iff.2 h.2

theorem RespSlot.Whole.remaining {s : RespSlot} (h : s.Whole) : s.remaining = s.len := by
  have hs : s.sentLen = 0 := by simpa [RespSlot.unsent] using h.1
  simp [RespSlot.remaining, hs]

theorem takeSegments_zero (iov : List RespSlot) : takeSegments iov 0 = [] := by
  cases iov <;> rfl

theorem drain_zero (slots : List RespSlot) : drain slots 0 = slots := by
  cases slots <;> rfl

/-- A call that takes the slots `a` in full takes a whole segment of each. -/
theorem takeSegments_append (a b : List RespSlot) (ha : ∀ s ∈ a, s.Whole) :
    takeSegments (a ++ b) (a.map RespSlot.len).sum = a.map RespSlot.segment := by
  induction a with
  | nil => exact takeSegments_zero b
  | cons s a ih =>
    have hs := (ha s List.mem_cons_self).len_pos
    rw [List.cons_append, takeSegments, List.map_cons, List.sum_cons, if_neg (by omega),
      Nat.min_eq_right (by omega), Nat.add_sub_cancel_left,
      ih fun t ht => ha t (List.mem_cons_of_mem s ht)]
    rfl

theorem drain_append (a b : List RespSlot) (ha : ∀ s ∈ a, s.Whole) :
    drain (a ++ b) (a.map RespSlot.len).sum = b := by
  induction a with
  | nil => exact drain_zero b
  | cons s a ih =>
    have hs := (ha s List.mem_cons_self).len_pos
    have hr := (ha s List.mem_cons_self).remaining
    rw [List.cons_append, drain, List.map_cons, List.sum_cons, if_neg (by omega),
      dif_pos (by omega), hr, Nat.add_sub_cancel_left,
      ih fun t ht => ha t (List.mem_cons_of_mem s ht)]

theorem iov_of_whole {l : Link W} (h : ∀ s ∈ l.cs.respQueue.pending, s.Whole) :
    l.iov = l.cs.respQueue.pending.take 3 := by
  rw [Link.iov, List.takeWhile_eq_self_iff]
  exact fun s hs => (h s (List.mem_of_mem_take hs)).1

theorem whole_iov {l : Link W} (h : ∀ s ∈ l.cs.respQueue.pending, s.Whole) :
    ∀ s ∈ l.iov, s.Whole :=
  fun s hs => h s ((prefix_iov l).subset hs)

theorem iov_append_drop {l : Link W} (h : ∀ s ∈ l.cs.respQueue.pending, s.Whole) :
    l.iov ++ l.cs.respQueue.pending.drop 3 = l.cs.respQueue.pending := by
  rw [iov_of_whole h, List.take_append_drop]

/-- A call that takes everything takes the slots it was offered off the ring. -/
theorem pending_account_iov {l : Link W} (h : ∀ s ∈ l.cs.respQueue.pending, s.Whole) :
    (account respQueueDepth (l.iov.map RespSlot.len).sum l.cs.respQueue).pending =
      l.cs.respQueue.pending.drop 3 := by
  rw [pending_account_turn]
  conv_lhs => rw [← iov_append_drop h]
  exact drain_append _ _ (whole_iov h)

theorem takeSegments_iov {l : Link W} (h : ∀ s ∈ l.cs.respQueue.pending, s.Whole) :
    takeSegments l.iov (l.iov.map RespSlot.len).sum = l.iov.map RespSlot.segment := by
  have htake := takeSegments_append l.iov [] (whole_iov h)
  rwa [List.append_nil] at htake

/-- A socket that takes everything takes every whole slot of the ring. -/
theorem writeLoop_of_whole (fuel : ℕ) (sentAny : Bool) {l : Link W} (hs : l.sh.script = [])
    (h : ∀ s ∈ l.cs.respQueue.pending, s.Whole)
    (hfuel : l.cs.respQueue.pending.length ≤ fuel) :
    (writeLoop fuel sentAny l).2.2.cs.wire =
      l.cs.wire ++ l.cs.respQueue.pending.map RespSlot.segment := by
  induction fuel generalizing sentAny l with
  | zero =>
    rw [List.eq_nil_of_length_eq_zero (Nat.le_zero.1 hfuel)]
    exact (List.append_nil _).symm
  | succ fuel ih =>
    have hcall : l.turnCall = (⟨some (l.iov.map RespSlot.len).sum, .other⟩, l.sh) := by
      simp [Link.turnCall, Shared.call, hs]
    have hpend := pending_account_iov h
    rcases writeTurn_cases l with ⟨hnil, ht⟩ | ⟨n, hn, -, hacc, ht⟩ | ⟨hne, hzero, -⟩
    · have hp : l.cs.respQueue.pending = [] := by simpa [iov_of_whole h] using hnil
      rw [writeLoop, ht, hp]
      exact (List.append_nil _).symm
    · obtain rfl : (l.iov.map RespSlot.len).sum = n := by
        rw [hcall] at hacc
        exact Option.some.inj hacc
      rw [writeLoop, ht, ih true (by rw [hcall]; exact hs)]
      · simp only [hpend, takeSegments_iov h]
        rw [List.append_assoc, ← List.map_append, iov_append_drop h]
      · rw [hpend]
        exact fun s hm => h s (List.mem_of_mem_drop hm)
      · rw [hpend, List.length_drop]
        omega
    · have h0 := hzero _ (congrArg (fun r => r.1.accepted) hcall)
      obtain ⟨s, rest, hs'⟩ := List.exists_cons_of_ne_nil hne
      have hpos := (whole_iov h s (hs' ▸ List.mem_cons_self)).len_pos
      rw [hs', List.map_cons, List.sum_cons] at h0
      omega

theorem drainRing_wire {l : Link W} (h : ∀ s ∈ l.cs.respQueue.pending, s.Whole) :
    (drainRing l).cs.wire = l.cs.wire ++ l.cs.respQueue.pending.map RespSlot.segment :=
  writeLoop_of_whole 65 false (l := { l with sh := { l.sh with script := [] } }) rfl h
    (Nat.le_trans (RespQueue.length_pending_le _) (by decide))

/-! ## The order of the answers -/

/-- The responses on the wire are those to the requests `0, 1, …, k − 1` for some `k`, each
taken whole. -/
def Output.InOrder (o : Output) : Prop :=
  ∃ resps : List Response, o.wire = resps.map Segment.whole ∧
    resps.map Response.seq = from32 0 resps.length

/-- The numbers of the responses on the wire, then those in the ring, then the outstanding
tasks are consecutive, and nothing in the ring is partly sent. -/
structure Sequenced (o : Output) (g : Ledger) (sent : List Response) : Prop where
  wire : o.wire = sent.map Segment.whole
  whole : ∀ s ∈ o.respQueue.pending, s.Whole
  seqs : (sent ++ o.respQueue.pending.map RespSlot.resp).map Response.seq =
    from32 0 (sent.length + o.respQueue.pending.length)
  outstanding : g.outstanding =
    (from32 (UInt32.ofNat (sent.length + o.respQueue.pending.length)) g.outstanding.card :
      Multiset UInt32)
  next : g.next =
    UInt32.ofNat (sent.length + o.respQueue.pending.length + g.outstanding.card)

/-- A session whose responses are in sequence. -/
def Link.Sequenced (l : Link W) : Prop :=
  ∃ sent, Xlab.Sequenced l.cs.output l.ledger sent

/-- The responses on the wire are in order, and stay so when the ring is drained. -/
def Link.Ordered (l : Link W) : Prop :=
  l.cs.output.InOrder ∧ (drainRing l).cs.output.InOrder

theorem whole_injective : Function.Injective Segment.whole := fun _ _ h =>
  congrArg Segment.resp h

/-- One more response on the wire is the next in order exactly when it has the next
number. -/
theorem inOrder_concat {o : Output} {sent : List Response} {resp : Response}
    (hw : o.wire = (sent ++ [resp]).map Segment.whole)
    (hs : sent.map Response.seq = from32 0 sent.length) :
    o.InOrder ↔ resp.seq = UInt32.ofNat sent.length := by
  have hlast : (sent ++ [resp]).map Response.seq = from32 0 (sent ++ [resp]).length ↔
      resp.seq = UInt32.ofNat sent.length := by
    rw [List.length_append, List.length_singleton, from32_concat, List.map_append, hs,
      List.map_singleton, List.append_cancel_left_eq, List.singleton_inj, UInt32.zero_add]
  rw [← hlast]
  constructor
  · rintro ⟨resps, hw', hseq⟩
    obtain rfl := whole_injective.list_map (hw'.symm.trans hw)
    exact hseq
  · exact fun h => ⟨_, hw, h⟩

namespace Sequenced

variable {o : Output} {g : Ledger} {sent : List Response}

theorem sent_seqs (h : Xlab.Sequenced o g sent) :
    sent.map Response.seq = from32 0 sent.length := by
  have hs := h.seqs
  rw [List.map_append, ← from32_append] at hs
  exact (List.append_inj hs (by simp)).1

theorem inOrder (h : Xlab.Sequenced o g sent) : o.InOrder :=
  ⟨sent, h.wire, h.sent_seqs⟩

/-- The ring drained onto the wire is in order. -/
theorem drained (h : Xlab.Sequenced o g sent) {o' : Output}
    (hw : o'.wire = o.wire ++ o.respQueue.pending.map RespSlot.segment) : o'.InOrder := by
  refine ⟨sent ++ o.respQueue.pending.map RespSlot.resp, ?_, ?_⟩
  · rw [hw, h.wire, List.map_append, List.map_map]
    rfl
  · rw [h.seqs, List.length_append, List.length_map]

/-- The next number is the next on the wire only if nothing waits and no task is outstanding :
at most 63 + 512 numbers are between the two. -/
theorem next_eq (h : Xlab.Sequenced o g sent) (hcard : g.outstanding.card ≤ 512) :
    g.next = UInt32.ofNat sent.length ↔ o.respQueue.pending = [] ∧ g.outstanding = 0 := by
  have hring := o.respQueue.length_pending_le
  rw [h.next, ← List.length_eq_zero_iff, ← Multiset.card_eq_zero, ← UInt32.toNat_inj]
  simp only [UInt32.toNat_ofNat']
  omega

/-- The expected number is the one after those sent and waiting. -/
theorem expected_eq (h : Xlab.Sequenced o g sent) :
    g.expected = UInt32.ofNat (sent.length + o.respQueue.pending.length) ↔
      g.next = g.expected + UInt32.ofNat g.outstanding.card := by
  rw [h.next, UInt32.ofNat_add _ g.outstanding.card, UInt32.add_left_inj, eq_comm]

/-- A frame is submitted. -/
theorem submit (h : Xlab.Sequenced o g sent) : Xlab.Sequenced o g.submit sent where
  wire := h.wire
  whole := h.whole
  seqs := h.seqs
  outstanding := by
    simp only [Ledger.submit, Multiset.card_cons]
    rw [from32_concat, ← Multiset.coe_add, Multiset.coe_singleton, Multiset.add_comm,
      Multiset.singleton_add, ← h.outstanding, h.next, UInt32.ofNat_add]
  next := by
    simp only [Ledger.submit, Multiset.card_cons]
    rw [h.next, ← Nat.add_assoc, UInt32.ofNat_add _ 1]
    rfl

/-- The next frame is answered directly while nothing waits. -/
theorem answer (h : Xlab.Sequenced o g sent) (hnil : o.respQueue.pending = [])
    (h0 : g.outstanding = 0) {o' : Output} {g' : Ledger} {resp : Response}
    (hw : o'.wire = o.wire ++ [.whole resp]) (hq : o'.respQueue = o.respQueue)
    (hseq : resp.seq = g.next) (hnext : g'.next = g.next + 1)
    (hout : g'.outstanding = g.outstanding) : Xlab.Sequenced o' g' (sent ++ [resp]) where
  wire := by rw [hw, h.wire, List.map_append]; rfl
  whole := by rw [hq]; exact h.whole
  seqs := by
    have hn := h.next
    rw [hnil, h0] at hn
    rw [hq, hnil, List.map_nil, List.append_nil, List.map_append, h.sent_seqs]
    simp only [List.length_append, List.length_singleton, List.length_nil, Nat.add_zero]
    rw [from32_concat, UInt32.zero_add, List.map_singleton, hseq, hn]
    rfl
  outstanding := by rw [hout, h0]; rfl
  next := by
    rw [hnext, h.next, hout, hq, hnil, h0]
    simp [UInt32.ofNat_add]

/-- The oldest task is delivered into the ring. -/
theorem deliver (h : Xlab.Sequenced o g sent) {o' : Output} {g' : Ledger} {resp : Response}
    (hw : o'.wire = o.wire) (hq : o'.respQueue.pending = o.respQueue.pending ++ [.fresh resp])
    (hne : resp.bytes ≠ []) (hseq : resp.seq = g.expected) (hnext : g'.next = g.next)
    (hout : g.outstanding = g.expected ::ₘ g'.outstanding)
    (he : g.expected = UInt32.ofNat (sent.length + o.respQueue.pending.length)) :
    Xlab.Sequenced o' g' sent where
  wire := hw.trans h.wire
  whole := by
    rw [hq]
    intro s hs
    rcases List.mem_append.1 hs with hs | hs
    · exact h.whole s hs
    · rw [List.mem_singleton.1 hs]
      exact ⟨rfl, hne⟩
  seqs := by
    have hr : sent ++ o'.respQueue.pending.map RespSlot.resp =
        sent ++ o.respQueue.pending.map RespSlot.resp ++ [resp] := by
      rw [hq, List.map_append, List.append_assoc]
      rfl
    rw [hr, List.map_append, h.seqs, hq, List.length_append, List.length_singleton,
      ← Nat.add_assoc, from32_concat, UInt32.zero_add, ← he, ← hseq]
    rfl
  outstanding := by
    have ho := h.outstanding
    rw [hout, Multiset.card_cons, from32_succ, ← he, ← Multiset.cons_coe,
      Multiset.cons_inj_right, he] at ho
    rw [hq, List.length_append, List.length_singleton, ← Nat.add_assoc, UInt32.ofNat_add]
    exact ho
  next := by
    rw [hnext, h.next, hout, Multiset.card_cons, hq, List.length_append, List.length_singleton]
    congr 1
    omega

/-- A turn moves whole slots from the front of the ring to the wire. -/
theorem turn (h : Xlab.Sequenced o g sent) {o' : Output} {a b : List RespSlot}
    (hp : o.respQueue.pending = a ++ b) (hw : o'.wire = o.wire ++ a.map RespSlot.segment)
    (hq : o'.respQueue.pending = b) :
    Xlab.Sequenced o' g (sent ++ a.map RespSlot.resp) := by
  have hlen : (sent ++ a.map RespSlot.resp).length + b.length =
      sent.length + (a ++ b).length := by
    simp only [List.length_append, List.length_map]
    omega
  have hseqs := h.seqs
  have hout := h.outstanding
  have hnext := h.next
  rw [hp, ← hlen] at hseqs hout hnext
  rw [← hq] at hseqs hout hnext
  refine ⟨?_, ?_, ?_, hout, hnext⟩
  · rw [hw, h.wire, List.map_append, List.map_map]
    rfl
  · exact fun s hs => h.whole s (hp ▸ List.mem_append_right a (hq ▸ hs))
  · rw [hq] at hseqs ⊢
    rwa [List.append_assoc, ← List.map_append]

end Sequenced

/-! ## The steps -/

/-- The direct send of the step, if it makes one, takes its whole response. -/
def DirectSendsWhole (t : RouterTable W) (l : Link W) (e : LinkEvent W) : Prop :=
  AnswersDirectly t l e → l.sh.nextWhole

/-- The `writev` of a turn takes some number of the slots it is offered, whole. -/
def WholeTurn (l : Link W) : Prop :=
  ∀ n, l.turnCall.1.accepted = some n → ∃ j, n = ((l.iov.take j).map RespSlot.len).sum

/-- Every call of the step takes whole frames : a direct send takes its response, a `writev`
some number of the slots it is offered. -/
def WholeSends (t : RouterTable W) (l : Link W) : LinkEvent W → Prop
  | .turn => WholeTurn l
  | e => DirectSendsWhole t l e

theorem WholeSends.direct {t : RouterTable W} {l : Link W} {e : LinkEvent W}
    (h : WholeSends t l e) : DirectSendsWhole t l e := by
  cases e with
  | turn => exact False.elim
  | _ => exact h

/-- The step is in turn : it answers directly only when nothing waits in the ring and no
task is outstanding, and delivers only the oldest task, into a ring that has room. -/
def InTurn (t : RouterTable W) (l : Link W) : LinkEvent W → Prop
  | .react (.frame f) => l.submits t f = true ∨
      l.cs.respQueue.pending = [] ∧ l.ledger.outstanding = 0
  | .react _ => l.cs.respQueue.pending = [] ∧ l.ledger.outstanding = 0
  | .flush _ i => l.deliverable i = true → l.cs.respQueue.pending.length ≠ 63 ∧
      l.ledger.next = l.ledger.expected + UInt32.ofNat l.ledger.outstanding.card
  | _ => True

theorem ordered_of_sequenced {l : Link W} (h : l.Sequenced) : l.Ordered := by
  obtain ⟨sent, hs⟩ := h
  exact ⟨hs.inOrder, hs.drained (drainRing_wire hs.whole)⟩

/-- The next frame is answered directly. -/
theorem sequenced_of_sent {l : Link W} (l' : Link W) {resp : Response} (h : l.Sequenced)
    (hsent : l.Sent l' resp) (hseq : resp.seq = l.ledger.next)
    (hnext : l'.ledger.next = l.ledger.next + 1)
    (hout : l'.ledger.outstanding = l.ledger.outstanding) :
    (l.cs.respQueue.pending = [] ∧ l.ledger.outstanding = 0 → l'.Sequenced) ∧
      (l'.Ordered → l.cs.respQueue.pending = [] ∧ l.ledger.outstanding = 0) := by
  obtain ⟨sent, hs⟩ := h
  constructor
  · rintro ⟨hnil, h0⟩
    exact ⟨_, hs.answer hnil h0 hsent.wire hsent.respQueue hseq hnext hout⟩
  · rintro ⟨hord, -⟩
    have hw : l'.cs.output.wire = (sent ++ [resp]).map Segment.whole := by
      rw [List.map_append, ← hs.wire]
      exact hsent.wire
    rw [inOrder_concat hw hs.sent_seqs, hseq] at hord
    exact (hs.next_eq (card_outstanding_le l)).1 hord

theorem directResponse_seq (t : RouterTable W) (f : Frame) (seq : UInt32) (world : W) :
    (directResponse t f seq world).seq = seq := by
  rw [directResponse]
  cases he : routerLookup t f.cmd with
  | none =>
    rw [routerProcess_of_none he]
    exact routerBuildResponse_seq _ _ _ _
  | some e =>
    by_cases hr : e.inRange f.payload.length
    · rw [routerProcess_of_inRange he hr]
      exact routerBuildResponse_seq _ _ _ _
    · rw [routerProcess_of_not_inRange he hr]
      exact routerBuildResponse_seq _ _ _ _

theorem sequenced_badFrame {w : ℕ} {t : RouterTable W} {l : Link W} (h : l.Sequenced)
    (hW : l.sh.nextWhole) (it : Item) (hit : tcpReact w t it l = badFrame l)
    (hl : (tcpReact w t it l).ledger = l.ledger.skip) :
    (l.cs.respQueue.pending = [] ∧ l.ledger.outstanding = 0 → (tcpReact w t it l).Sequenced) ∧
      ((tcpReact w t it l).Ordered → l.cs.respQueue.pending = [] ∧ l.ledger.outstanding = 0) := by
  refine sequenced_of_sent _ h (hit ▸ sent_badFrame hW) (routerBuildResponse_seq _ _ _ _) ?_ ?_
  · rw [hl]
    rfl
  · rw [hl]
    rfl

/-- The reactions of the scan loop. -/
theorem sequenced_react (w : ℕ) {t : RouterTable W} {l : Link W} (h : l.Sequenced) (it : Item)
    (hW : DirectSendsWhole t l (.react it)) :
    (InTurn t l (.react it) → (tcpReact w t it l).Sequenced) ∧
      ((tcpReact w t it l).Ordered → InTurn t l (.react it)) := by
  have hl := ledger_react w t it l
  cases it with
  | incomplete => exact sequenced_badFrame h (hW trivial) .incomplete rfl hl
  | chkErr => exact sequenced_badFrame h (hW trivial) .chkErr rfl hl
  | frame f =>
    simp only [InTurn]
    by_cases hs : l.submits t f = true
    · refine ⟨fun _ => ?_, fun _ => Or.inl hs⟩
      obtain ⟨sent, hseq⟩ := h
      simp only [if_pos hs] at hl
      obtain ⟨_, _, -, -, -, h'⟩ := tcpFrame_of_submits hs w
      refine ⟨sent, ?_⟩
      rw [hl, tcpReact, h']
      exact hseq.submit
    · simp only [if_neg hs] at hl
      have hs' : l.submits t f = false := Bool.not_eq_true _ ▸ hs
      have hsent := (directAnswer_sent (l := l.recognise f) (hW hs') w t f l.cs.nextReqSeq).1
      rw [← tcpFrame_of_not_submits hs' w] at hsent
      have hd := sequenced_of_sent (tcpReact w t (.frame f) l) h
        ⟨hsent.wire, hsent.respQueue, hsent.script⟩ (directResponse_seq _ _ _ _)
        (by rw [hl]; split_ifs <;> rfl) (by rw [hl]; split_ifs <;> rfl)
      exact ⟨fun hC => hd.1 (hC.resolve_left hs), fun hord => Or.inr (hd.2 hord)⟩

/-- A response to a task is not empty. -/
theorem response_bytes_ne_nil (task : AsyncTask W) : task.response.bytes ≠ [] := by
  refine routerBuildResponse_bytes_ne_nil _ _ ?_ _
  calc (task.respData.take task.respLen.toNat).length
      ≤ task.respLen.toNat := List.length_take_le _ _
    _ ≤ 64 := task.respLen_le
    _ ≤ 251 := by decide

/-- A flush that finds the ring full sends BUSY past the 63 responses in it. -/
theorem not_ordered_busy {l l' : Link W} (h : l.Sequenced) (hW : l.sh.nextWhole)
    {i : Fin asyncQueueDepth} (hd : l.deliverable i = true)
    (hfull : l.cs.respQueue.pending.length = 63)
    (ho : l'.cs.output =
      (sockSend (l.sh.queue i).busy (l.build (l.sh.queue i).busy)).2.cs.output) :
    ¬l'.Ordered := by
  rintro ⟨hord, -⟩
  obtain ⟨sent, hs⟩ := h
  have hw : l'.cs.output.wire = (sent ++ [(l.sh.queue i).busy]).map Segment.whole := by
    rw [ho, List.map_append, ← hs.wire]
    exact (sent_sockSend hW _).wire
  have hbusy : (l.sh.queue i).busy.seq = l.ledger.expected :=
    (routerBuildResponse_seq _ _ _ _).trans (Link.deliverable_seq hd)
  rw [inOrder_concat hw hs.sent_seqs, hbusy] at hord
  have hmem : l.ledger.expected ∈ l.ledger.outstanding := by
    rw [(ledger_flush hd 0).2]
    exact Multiset.mem_cons_self _ _
  rw [hs.outstanding] at hmem
  obtain ⟨k, hk, he⟩ := mem_from32.1 (Multiset.mem_coe.1 hmem)
  have hcard : l.ledger.outstanding.card ≤ 512 := card_outstanding_le l
  have hfull' : l.cs.output.respQueue.pending.length = 63 := hfull
  rw [he, hfull', ← UInt32.toNat_inj] at hord
  simp only [UInt32.toNat_add, UInt32.toNat_ofNat'] at hord
  omega

/-- A response queued behind those in the ring is the next in order, once the ring is
drained, exactly when it has the number after theirs. -/
theorem ordered_enqueue {l l' : Link W} {sent : List Response} {resp : Response}
    (hs : Xlab.Sequenced l.cs.output l.ledger sent) (hne : resp.bytes ≠ [])
    (hwire : l'.cs.wire = l.cs.wire)
    (hq : l'.cs.respQueue.pending = l.cs.respQueue.pending ++ [.fresh resp]) (h : l'.Ordered) :
    resp.seq = UInt32.ofNat (sent.length + l.cs.respQueue.pending.length) := by
  have hwhole : ∀ s ∈ l'.cs.respQueue.pending, s.Whole := by
    intro s hm
    rcases List.mem_append.1 (hq ▸ hm) with hm | hm
    · exact hs.whole s hm
    · rw [List.mem_singleton.1 hm]
      exact ⟨rfl, hne⟩
  have hw : (drainRing l').cs.output.wire =
      (sent ++ l.cs.respQueue.pending.map RespSlot.resp ++ [resp]).map Segment.whole := by
    have hw0 : l.cs.wire = sent.map Segment.whole := hs.wire
    refine (drainRing_wire hwhole).trans ?_
    rw [hwire, hw0, hq]
    simp [RespSlot.segment, RespSlot.fresh, Function.comp_def]
  have hsent : (sent ++ l.cs.respQueue.pending.map RespSlot.resp).map Response.seq =
      from32 0 (sent ++ l.cs.respQueue.pending.map RespSlot.resp).length := by
    rw [List.length_append, List.length_map]
    exact hs.seqs
  have hseq := (inOrder_concat hw hsent).1 h.2
  rwa [List.length_append, List.length_map] at hseq

/-- A delivery. -/
theorem sequenced_deliver (w : ℕ) {t : RouterTable W} {l : Link W} (h : l.Sequenced)
    {i : Fin asyncQueueDepth} (hW : DirectSendsWhole t l (.flush w i))
    (hd : l.deliverable i = true) :
    (l.cs.respQueue.pending.length ≠ 63 ∧
        l.ledger.next = l.ledger.expected + UInt32.ofNat l.ledger.outstanding.card →
      (flushOwn w i l).Sequenced) ∧
    ((flushOwn w i l).Ordered → l.cs.respQueue.pending.length ≠ 63 ∧
        l.ledger.next = l.ledger.expected + UInt32.ofNat l.ledger.outstanding.card) := by
  obtain ⟨hl, hout⟩ := ledger_flush hd w
  rcases output_flushOwn hd w with ⟨hfull, ho⟩ | ⟨q, hq, ho⟩
  · exact ⟨fun hC => absurd hfull hC.1, fun hord =>
      absurd hord (not_ordered_busy h (hW ⟨hd, hfull⟩) hd hfull ho)⟩
  · obtain ⟨sent, hs⟩ := h
    have hroom : l.cs.respQueue.pending.length ≠ 63 := fun hfull => by
      rw [(RespQueue.enqueue_eq_none _ (l.sh.queue i).response).2 hfull] at hq
      cases hq
    have hwire : (flushOwn w i l).cs.output.wire = l.cs.output.wire := by rw [ho]
    have hpend : (flushOwn w i l).cs.output.respQueue.pending =
        l.cs.output.respQueue.pending ++ [.fresh (l.sh.queue i).response] := by
      rw [ho]
      exact RespQueue.pending_of_enqueue hq
    have hseq : (l.sh.queue i).response.seq = l.ledger.expected :=
      (routerBuildResponse_seq _ _ _ _).trans (Link.deliverable_seq hd)
    have hne := response_bytes_ne_nil (l.sh.queue i)
    constructor
    · rintro ⟨-, hn⟩
      exact ⟨sent, hs.deliver hwire hpend hne hseq
        ((congrArg Ledger.next hl).trans rfl) hout
        (hs.expected_eq.2 hn)⟩
    · intro hord
      exact ⟨hroom, hs.expected_eq.1 (hseq ▸ ordered_enqueue hs hne hwire hpend hord)⟩

/-- A turn of the write loop. -/
theorem sequenced_turn {l : Link W} (h : l.Sequenced) (hW : WholeTurn l) :
    (writeTurn l).2.Sequenced := by
  have hl := ledger_turn l
  obtain ⟨sent, hs⟩ := h
  rcases writeTurn_cases l with ⟨-, h'⟩ | ⟨n, -, -, hacc, h'⟩ | ⟨-, -, turn, -, h'⟩ <;>
    rw [Link.Sequenced, hl, h']
  · exact ⟨sent, hs⟩
  · obtain ⟨j, rfl⟩ := hW n hacc
    obtain ⟨rest, hrest⟩ := prefix_iov l
    have hsplit : l.iov.take j ++ (l.iov.drop j ++ rest) = l.cs.respQueue.pending := by
      rw [← List.append_assoc, List.take_append_drop, hrest]
    have hwhole : ∀ s ∈ l.iov.take j, s.Whole := fun s hm =>
      hs.whole s ((prefix_iov l).subset (List.mem_of_mem_take hm))
    refine ⟨_, hs.turn hsplit.symm ?_ ?_⟩
    · have htake := takeSegments_append (l.iov.take j) (l.iov.drop j) hwhole
      rw [List.take_append_drop] at htake
      exact congrArg (l.cs.wire ++ ·) htake
    · refine (pending_account_turn _ _).trans ?_
      rw [← hsplit]
      exact drain_append _ _ hwhole
  · exact ⟨sent, hs⟩

/-- A step keeps the sequence exactly when it is in turn. -/
theorem sequenced_linkStep (w : ℕ) (t : RouterTable W) {l : Link W} {e : LinkEvent W}
    (h : l.Sequenced) (hA : Admissible l e) (hW : WholeSends t l e) :
    (InTurn t l e → (linkStep w t l e).Sequenced) ∧
      ((linkStep w t l e).Ordered → InTurn t l e) := by
  cases e with
  | others sh =>
    refine ⟨fun _ => ?_, fun _ => trivial⟩
    rw [Link.Sequenced, linkStep, ledger_others hA]
    exact h
  | body bytes => exact ⟨fun _ => h, fun _ => trivial⟩
  | react it => exact sequenced_react w h it hW
  | work i =>
    refine ⟨fun _ => ?_, fun _ => trivial⟩
    rw [Link.Sequenced, linkStep, ledger_work]
    exact h
  | flush w' i =>
    by_cases hd : l.deliverable i = true
    · have hdel := sequenced_deliver w' h hW hd
      exact ⟨fun hC => hdel.1 (hC hd), fun hord _ => hdel.2 hord⟩
    · have hd' := Bool.not_eq_true _ ▸ hd
      rw [linkStep, flushOwn_of_not_deliverable hd']
      exact ⟨fun _ => h, fun _ hdel => absurd hdel hd⟩
  | turn => exact ⟨fun _ => sequenced_turn h hW, fun _ => trivial⟩

theorem sequenced_fresh {l : Link W} (hl : l.Fresh) : l.Sequenced := by
  have h0 : l.ledger.outstanding = 0 := outstanding_eq_zero.2 hl.queue
  have hcs := hl.cs
  have hnext : l.ledger.next = 0 := congrArg Session.nextReqSeq hcs
  refine ⟨[], ?_, ?_, ?_, ?_, ?_⟩
  · rw [hcs]; rfl
  · rw [hcs]; simp [Session.output, Session.create]
  · rw [hcs]; rfl
  · rw [h0]; rfl
  · rw [hnext, h0, hcs]; rfl

/-- In a run whose sends take whole frames the responses on the wire are at every moment those
to the first requests, in order, and stay so when the ring is drained, exactly when every
step of the run is in turn. -/
theorem in_order_iff (w : ℕ) (t : RouterTable W) {l : Link W} (hl : l.Fresh)
    (es : List (LinkEvent W)) (hA : Runs.Guarded (linkStep w t) Admissible l es)
    (hW : Runs.Guarded (linkStep w t) (WholeSends t) l es) :
    (∀ pre, pre <+: es → (Runs.run (linkStep w t) l pre).Ordered) ↔
      Runs.Guarded (linkStep w t) (InTurn t) l es := by
  refine Runs.prefixes_iff_guarded (P := Link.Ordered) (I := Link.Sequenced)
    (A := fun l e => Admissible l e ∧ WholeSends t l e) (fun l h => ordered_of_sequenced h) ?_ ?_
    (sequenced_fresh hl) (Runs.guarded_and.2 ⟨hA, hW⟩)
  · exact fun l e h hAW hC => (sequenced_linkStep w t h hAW.1 hAW.2).1 hC
  · exact fun l e h hAW hP => (sequenced_linkStep w t h hAW.1 hAW.2).2 hP

/-- A version request, answered at once, then a blocking command. -/
theorem in_order_getVer_startRead :
    (Runs.run (linkStep 0 cmdTable) idleLink
      [.react (.frame getVer), .react (.frame startRead)]).Ordered := by
  have hs : (linkStep 0 cmdTable idleLink (.react (.frame getVer))).submits cmdTable startRead =
      true := by decide +kernel
  refine (in_order_iff 0 cmdTable idleLink_fresh
    [.react (.frame getVer), .react (.frame startRead)]
    ⟨trivial, trivial, trivial⟩ ⟨?_, ?_, trivial⟩).2 ⟨?_, Or.inl hs, trivial⟩ _
    (List.prefix_refl _)
  · exact fun _ => Shared.nextWhole_of_nil rfl
  · exact fun hd => absurd (hs.symm.trans hd) (by decide)
  · exact Or.inr ⟨rfl, idleLink_outstanding⟩

/-- A blocking command takes number 0, and the version request behind it is answered first. -/
theorem version_overtakes_startRead :
    ¬∀ (l : Link Unit) (es : List (LinkEvent Unit)), l.Fresh →
      Runs.Guarded (linkStep 0 cmdTable) Admissible l es →
        Runs.Guarded (linkStep 0 cmdTable) (WholeSends cmdTable) l es →
          (Runs.run (linkStep 0 cmdTable) l es).cs.output.InOrder := by
  intro h
  have hscript : (linkStep 0 cmdTable idleLink (.react (.frame startRead))).sh.script = [] := by
    decide +kernel
  obtain ⟨resps, hw, hseq⟩ := h idleLink [.react (.frame startRead), .react (.frame getVer)]
    idleLink_fresh ⟨trivial, trivial, trivial⟩
    ⟨fun _ => Shared.nextWhole_of_nil rfl, fun _ => Shared.nextWhole_of_nil hscript, trivial⟩
  have hwire : (Runs.run (linkStep 0 cmdTable) idleLink
      [.react (.frame startRead), .react (.frame getVer)]).cs.output.wire =
        [Segment.whole (routerBuildResponse cmdGetVer errOk [0x01, 0x02, 0x00] 1)] := by
    decide +kernel
  obtain rfl : [routerBuildResponse cmdGetVer errOk [0x01, 0x02, 0x00] 1] = resps :=
    whole_injective.list_map (hwire.symm.trans hw)
  revert hseq
  decide

end Xlab
