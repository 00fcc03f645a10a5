import Mathlib.Algebra.GroupWithZero.Nat
import Mathlib.Data.List.TakeWhile
import Xlab.ConnRead

/-!
# Writing the response ring

`xlab_handler_write` gathers up to three unsent slots from the head of the ring, offers them
to `writev`, and accounts for what was taken slot by slot. It repeats this until the ring
is empty, the socket takes nothing, or the head slot is partly sent.

`drain` is the accounting on the list of waiting responses, and `pending_account` says
the loop over the ring does that. `takeSegments_owed` is the conservation of bytes in one
turn : what the kernel took followed by what is still owed is what was owed before.
`connWriteTcp` is `xlab_conn_write` on a connection that has a session.
-/

namespace Xlab

variable {W : Type}

/-! ## One turn of the loop -/

/-- The slots gathered from `scanHead` on, at most `n`. -/
def gather (q : RespQueue) : ℕ → UInt8 → List RespSlot
  | 0, _ => []
  | n + 1, scanHead =>
    if scanHead = q.tail then []
    else if (q.slots scanHead.toNat).sentLen = 0 then
      q.slots scanHead.toNat :: gather q n (nextHead scanHead)
    else []

/-- `slot->sent_len = slot->len`. -/
def RespSlot.whole (s : RespSlot) : RespSlot :=
  ⟨s.resp, s.len, Nat.le_refl _⟩

/-- `slot->len - slot->sent_len`. -/
def RespSlot.remaining (s : RespSlot) : ℕ :=
  s.len - s.sentLen

/-- `slot->sent_len + sent`, where less than the rest of the slot was sent. -/
def RespSlot.advance (s : RespSlot) (sent : ℕ) (h : ¬s.remaining ≤ sent) : RespSlot :=
  ⟨s.resp, s.sentLen + sent, by
    have := s.sentLen_le
    unfold remaining len at h
    omega⟩

/-- The loop that moves the head over what was sent. -/
def account : ℕ → ℕ → RespQueue → RespQueue
  | 0, _, q => q
  | fuel + 1, sent, q =>
    if 0 < sent ∧ q.head ≠ q.tail then
      let slot := q.slots q.head.toNat
      if h : slot.remaining ≤ sent then
        account fuel (sent - slot.remaining) (q.setHead slot.whole).dropHead
      else q.setHead (slot.advance sent h)
    else q

/-- The bytes a `writev` that took `n` bytes took of each slot. -/
def takeSegments : List RespSlot → ℕ → List Segment
  | [], _ => []
  | s :: ss, n => if n = 0 then [] else ⟨s.resp, 0, min n s.len⟩ :: takeSegments ss (n - s.len)

/-- `writev(socket, iov, iov_cnt)`. -/
def sockWritev (iov : List RespSlot) (l : Link W) : IoReturn × Link W :=
  let r := l.sh.call (iov.map RespSlot.len).sum
  (r.1, ⟨{ l.cs with wire := l.cs.wire ++ r.1.accepted.elim [] (takeSegments iov) }, r.2⟩)

/-- How a turn of the loop goes on : another turn, leave the loop, or a fatal error. -/
inductive Turn where
  | again
  | leave
  | fatal
  deriving DecidableEq, Repr

/-- One turn of the loop. -/
def writeTurn (l : Link W) : Turn × Link W :=
  let q := l.cs.respQueue
  if q.head = q.tail then (.leave, l)
  else
    let iov := gather q 3 q.head
    if iov = [] then (.leave, l)
    else
      let r := sockWritev iov l
      match r.1.accepted with
      | some n =>
        if 0 < n then
          (.again, { r.2 with cs := { r.2.cs with respQueue := account respQueueDepth n q } })
        else (.leave, r.2)
      | none => (if r.1.errno = .eagain then .leave else .fatal, r.2)

/-- The loop, with `sent_any` and whether it met a fatal error. -/
def writeLoop : ℕ → Bool → Link W → Bool × Bool × Link W
  | 0, sentAny, l => (sentAny, false, l)
  | fuel + 1, sentAny, l =>
    match writeTurn l with
    | (.again, l) => writeLoop fuel true l
    | (.leave, l) => (sentAny, false, l)
    | (.fatal, l) => (sentAny, true, l)

/-- `xlab_handler_write`. A turn that sends takes a slot off the ring or leaves its head
partly sent, so 65 turns are enough. -/
def handlerWrite (w : ℕ) (l : Link W) : Exit W :=
  let r := writeLoop 65 false l
  let l := r.2.2
  if r.2.1 then ⟨-1, 1, l⟩
  else
    let sh :=
      if l.cs.respQueue.head = l.cs.respQueue.tail then
        epollChangeMode w l.cs.ident.socket .read l.sh
      else l.sh
    ⟨if r.1 then 0 else -1, 0, ⟨l.cs, sh⟩⟩

/-- `xlab_conn_write` on a registered connection that has a session. -/
def connWriteTcp (w : ℕ) (l : Link W) : Exit W :=
  let e := handlerWrite w l
  if e.ret < 0 then ⟨-1, e.removals + 1, e.link⟩
  else
    let l := e.link.setBody []
    ⟨0, e.removals, { l with sh := epollChangeMode w l.cs.ident.socket .read l.sh }⟩

/-! ## The turn on the list of waiting responses -/

/-- The slot has not been touched by a send. -/
def RespSlot.unsent (s : RespSlot) : Bool :=
  s.sentLen == 0

/-- The accounting on the waiting responses. -/
def drain : List RespSlot → ℕ → List RespSlot
  | [], _ => []
  | s :: ss, n =>
    if n = 0 then s :: ss
    else if h : s.remaining ≤ n then drain ss (n - s.remaining)
    else s.advance n h :: ss

/-- The bytes still to be sent. -/
def owed (slots : List RespSlot) : List UInt8 :=
  slots.flatMap fun s => s.resp.bytes.drop s.sentLen

@[simp] theorem owed_nil : owed [] = [] :=
  rfl

@[simp] theorem owed_cons (s : RespSlot) (ss : List RespSlot) :
    owed (s :: ss) = s.resp.bytes.drop s.sentLen ++ owed ss :=
  rfl

@[simp] theorem owed_append (ss ts : List RespSlot) : owed (ss ++ ts) = owed ss ++ owed ts :=
  List.flatMap_append

theorem gather_dropHead (q : RespQueue) (n : ℕ) (i : UInt8) :
    gather q.dropHead n i = gather q n i := by
  induction n generalizing i with
  | zero => rfl
  | succ n ih => simp only [gather, ih]; rfl

/-- What is gathered from the head : the unsent slots at the front of the ring. -/
theorem gather_head (q : RespQueue) (n : ℕ) :
    gather q n q.head = (q.pending.take n).takeWhile RespSlot.unsent := by
  induction n generalizing q with
  | zero => simp [gather]
  | succ n ih =>
    rw [gather]
    split_ifs with hne hs
    · simp [q.pending_eq_nil.2 hne]
    · rw [RespQueue.pending_cons hne, List.take_succ_cons, List.takeWhile_cons_of_pos (by simpa
        [RespSlot.unsent] using hs), ← ih q.dropHead, gather_dropHead]
      rfl
    · rw [RespQueue.pending_cons hne, List.take_succ_cons, List.takeWhile_cons_of_neg (by simpa
        [RespSlot.unsent] using hs)]

theorem pending_setHead_dropHead {q : RespQueue} (h : q.head ≠ q.tail) (s : RespSlot) :
    (q.setHead s).dropHead.pending = q.dropHead.pending := by
  have h1 := RespQueue.pending_setHead h s
  rw [RespQueue.pending_cons (q := q.setHead s) h] at h1
  exact (List.cons.inj h1).2

/-- The loop over the ring is the accounting on the waiting responses. -/
theorem pending_account (fuel n : ℕ) (q : RespQueue) (hfuel : q.pending.length ≤ fuel) :
    (account fuel n q).pending = drain q.pending n := by
  induction fuel generalizing n q with
  | zero =>
    rw [List.eq_nil_of_length_eq_zero (Nat.le_zero.1 hfuel)]
    exact List.eq_nil_of_length_eq_zero (Nat.le_zero.1 hfuel)
  | succ fuel ih =>
    by_cases hq : q.head = q.tail
    · rw [account, if_neg (by simp [hq]), q.pending_eq_nil.2 hq]
      rfl
    · have hcons := RespQueue.pending_cons hq
      rw [hcons, drain, account]
      by_cases hn : n = 0
      · rw [if_neg (by omega), if_pos hn, hcons]
      · rw [if_pos ⟨Nat.pos_of_ne_zero hn, hq⟩, if_neg hn]
        simp only []
        split_ifs with hr
        · rw [hcons, List.length_cons] at hfuel
          have hpend := pending_setHead_dropHead hq (q.slots q.head.toNat).whole
          rw [ih _ _ (by rw [hpend]; omega), hpend]
        · exact RespQueue.pending_setHead hq _

/-- The accounting of a turn on the waiting responses. -/
theorem pending_account_turn (q : RespQueue) (n : ℕ) :
    (account respQueueDepth n q).pending = drain q.pending n :=
  pending_account _ _ _ (Nat.le_trans q.length_pending_le (by decide))

/-- One turn conserves bytes : what was taken followed by what is owed afterwards is what
was owed before. -/
theorem takeSegments_owed (iov rest : List RespSlot) (n : ℕ)
    (hiov : ∀ s ∈ iov, s.unsent = true) (hn : n ≤ (iov.map RespSlot.len).sum) :
    (takeSegments iov n).flatMap Segment.bytes ++ owed (drain (iov ++ rest) n) =
      owed (iov ++ rest) := by
  induction iov generalizing n with
  | nil =>
    obtain rfl : n = 0 := by simpa using hn
    cases rest <;> simp [takeSegments, drain]
  | cons s iov ih =>
    have hs : s.sentLen = 0 := by simpa [RespSlot.unsent] using hiov s List.mem_cons_self
    have hrem : s.remaining = s.len := by simp [RespSlot.remaining, hs]
    rw [takeSegments, List.cons_append, drain]
    by_cases h0 : n = 0
    · simp [h0]
    · rw [if_neg h0, if_neg h0]
      split_ifs with hlen <;> rw [hrem] at hlen
      · have hmin : min n s.len = s.resp.bytes.length := Nat.min_eq_right hlen
        rw [List.map_cons, List.sum_cons] at hn
        rw [hrem, List.flatMap_cons, List.append_assoc,
          ih (n - s.len) (fun t ht => hiov t (List.mem_cons_of_mem s ht)) (by omega), owed_cons]
        simp [Segment.bytes, hmin, hs]
      · have hmin : min n s.len = n := Nat.min_eq_left (by omega)
        have hnil : takeSegments iov (n - s.len) = [] := by
          rw [show n - s.len = 0 by omega]
          cases iov <;> rfl
        rw [List.flatMap_cons, hnil, owed_cons, owed_cons, ← List.take_append_drop n s.resp.bytes]
        simp [Segment.bytes, hmin, RespSlot.advance, hs, -List.take_append_drop]

/-- The accounting drops responses from the front. -/
theorem drain_resp (slots : List RespSlot) (n : ℕ) :
    ∃ k, (drain slots n).map RespSlot.resp = (slots.map RespSlot.resp).drop k := by
  induction slots generalizing n with
  | nil => exact ⟨0, rfl⟩
  | cons s slots ih =>
    rw [drain]
    split_ifs
    · exact ⟨0, rfl⟩
    · obtain ⟨k, hk⟩ := ih (n - s.remaining)
      exact ⟨k + 1, hk⟩
    · exact ⟨0, rfl⟩

/-- It touches the slot it ends in only. -/
theorem mem_tail_drain (slots : List RespSlot) (n : ℕ) {s : RespSlot}
    (h : s ∈ (drain slots n).tail) : s ∈ slots.tail := by
  induction slots generalizing n with
  | nil => exact h
  | cons t slots ih =>
    rw [drain] at h
    split_ifs at h
    · exact h
    · exact List.mem_of_mem_tail (ih _ h)
    · exact h

/-- The slots a turn offers. -/
def Link.iov (l : Link W) : List RespSlot :=
  (l.cs.respQueue.pending.take 3).takeWhile RespSlot.unsent

theorem iov_unsent (l : Link W) : ∀ s ∈ l.iov, s.unsent = true :=
  fun _ hs => List.mem_takeWhile_imp hs

theorem prefix_iov (l : Link W) : l.iov <+: l.cs.respQueue.pending :=
  (List.takeWhile_prefix _).trans (List.take_prefix 3 _)

theorem call_accepted_le {sh : Shared W} {len n : ℕ} (h : (sh.call len).1.accepted = some n) :
    n ≤ len := by
  unfold Shared.call IoOutcome.offer at h
  split at h
  · exact (Option.some.inj h).ge
  · split at h
    · exact (Option.some.inj h).ge
    · have := Option.some.inj h
      omega
    · cases h

/-- The slots a turn offers, and the outcome of its `writev`. -/
def Link.turnCall (l : Link W) : IoReturn × Shared W :=
  l.sh.call (l.iov.map RespSlot.len).sum

/-- What a turn does : nothing when no slot is offered, else it sends and accounts for what
was taken, or uses up an outcome that took nothing. -/
theorem writeTurn_cases (l : Link W) :
    (l.iov = [] ∧ writeTurn l = (.leave, l)) ∨
    (∃ n, 0 < n ∧ n ≤ (l.iov.map RespSlot.len).sum ∧ l.turnCall.1.accepted = some n ∧
      writeTurn l = (.again, ⟨{ l.cs with
        wire := l.cs.wire ++ takeSegments l.iov n
        respQueue := account respQueueDepth n l.cs.respQueue }, l.turnCall.2⟩)) ∨
    (l.iov ≠ [] ∧ (∀ n, l.turnCall.1.accepted = some n → n = 0) ∧
      ∃ turn, turn ≠ .again ∧ writeTurn l = (turn, ⟨l.cs, l.turnCall.2⟩)) := by
  have hiov : gather l.cs.respQueue 3 l.cs.respQueue.head = l.iov := gather_head _ 3
  rw [writeTurn]
  simp only [hiov, sockWritev]
  by_cases hq : l.cs.respQueue.head = l.cs.respQueue.tail
  · refine Or.inl ⟨?_, by rw [if_pos hq]⟩
    rw [Link.iov, l.cs.respQueue.pending_eq_nil.2 hq]
    rfl
  by_cases hnil : l.iov = []
  · exact Or.inl ⟨hnil, by rw [if_neg hq, if_pos hnil]⟩
  rw [if_neg hq, if_neg hnil, ← Link.turnCall]
  generalize hc : l.turnCall = c
  obtain ⟨⟨acc, errno⟩, sh⟩ := c
  cases acc with
  | none =>
    refine Or.inr (Or.inr ⟨hnil, by simp, if errno = .eagain then .leave else .fatal, ?_, by simp⟩)
    split_ifs <;> simp
  | some n =>
    have hle : n ≤ (l.iov.map RespSlot.len).sum :=
      call_accepted_le (congrArg (fun c => c.1.accepted) hc)
    simp only [Option.elim_some]
    split_ifs with hn
    · exact Or.inr (Or.inl ⟨n, hn, hle, rfl, rfl⟩)
    · obtain rfl : n = 0 := by omega
      have h0 : takeSegments l.iov 0 = [] := by cases l.iov <;> rfl
      exact Or.inr (Or.inr ⟨hnil, by simp, .leave, by simp, by simp [h0]⟩)

/-! ## The loop ends -/

theorem length_drain_le : ∀ (ss : List RespSlot) (n : ℕ), (drain ss n).length ≤ ss.length
  | [], _ => Nat.le_refl _
  | s :: ss, n => by
    rw [drain]
    split_ifs
    · exact Nat.le_refl _
    · exact Nat.le_succ_of_le (length_drain_le ss _)
    · exact Nat.le_refl _

/-- A bound on the turns the loop still takes. -/
def Link.turnsLeft (l : Link W) : ℕ :=
  if l.iov = [] then 0 else l.cs.respQueue.pending.length

/-- A turn that sends takes a slot off the ring, or leaves its head partly sent and the next
turn offers nothing. -/
theorem turnsLeft_lt {l l' : Link W} (h : writeTurn l = (.again, l')) :
    l'.turnsLeft < l.turnsLeft := by
  rcases writeTurn_cases l with ⟨-, h'⟩ | ⟨n, hn, hle, -, h'⟩ | ⟨-, -, turn, hne, h'⟩ <;>
    rw [h'] at h
  · cases h
  · obtain rfl := (Prod.mk.inj h).2
    have hpend := pending_account_turn l.cs.respQueue n
    have hiov : l.iov ≠ [] := by
      intro h0
      rw [h0] at hle
      simp only [List.map_nil, List.sum_nil] at hle
      omega
    have hnil : l.cs.respQueue.pending ≠ [] := fun h0 => hiov (by rw [Link.iov, h0]; rfl)
    have hpos := List.length_pos_iff.2 hnil
    obtain ⟨s, ss, hss⟩ := List.exists_cons_of_ne_nil hnil
    rw [Link.turnsLeft, Link.turnsLeft, if_neg hiov, Link.iov, hpend]
    split_ifs with h0
    · exact hpos
    · rw [hss, drain, if_neg (by omega)] at h0 ⊢
      split_ifs at h0 ⊢ with hr
      · exact Nat.lt_succ_of_le (length_drain_le ss _)
      · refine absurd ?_ h0
        rw [List.take_succ_cons, List.takeWhile_cons_of_neg]
        simp only [RespSlot.unsent, RespSlot.advance, beq_iff_eq]
        omega
  · exact absurd (Prod.mk.inj h).1 hne

theorem turnsLeft_eq_zero {l : Link W} : l.turnsLeft = 0 ↔ l.iov = [] := by
  unfold Link.turnsLeft
  split_ifs with h
  · simp [h]
  · have hnil : l.cs.respQueue.pending ≠ [] := fun h0 => h (by rw [Link.iov, h0]; rfl)
    simp [h, hnil]

theorem writeLoop_of_iov_nil {l : Link W} (h0 : l.iov = []) (fuel : ℕ) (sentAny : Bool) :
    writeLoop fuel sentAny l = (sentAny, false, l) := by
  cases fuel with
  | zero => rfl
  | succ fuel =>
    rcases writeTurn_cases l with ⟨-, h⟩ | ⟨i, hi, hle, -, -⟩ | ⟨hne, -⟩
    · rw [writeLoop, h]
    · rw [h0] at hle
      simp only [List.map_nil, List.sum_nil] at hle
      omega
    · exact absurd h0 hne

/-- Fuel past the bound changes nothing, so the loop of `handlerWrite` ends by itself. -/
theorem writeLoop_fuel (m n : ℕ) (sentAny : Bool) (l : Link W) (hm : l.turnsLeft ≤ m)
    (hn : l.turnsLeft ≤ n) : writeLoop m sentAny l = writeLoop n sentAny l := by
  induction m generalizing n sentAny l with
  | zero =>
    have h0 := turnsLeft_eq_zero.1 (Nat.le_zero.1 hm)
    rw [writeLoop_of_iov_nil h0, writeLoop_of_iov_nil h0]
  | succ m ih =>
    cases n with
    | zero =>
      have h0 := turnsLeft_eq_zero.1 (Nat.le_zero.1 hn)
      rw [writeLoop_of_iov_nil h0, writeLoop_of_iov_nil h0]
    | succ n =>
      rw [writeLoop, writeLoop]
      cases ht : writeTurn l with
      | mk turn l' =>
        cases turn with
        | again =>
          have hlt := turnsLeft_lt ht
          exact ih n true l' (by omega) (by omega)
        | leave => rfl
        | fatal => rfl

theorem turnsLeft_le (l : Link W) : l.turnsLeft ≤ 63 := by
  unfold Link.turnsLeft
  split_ifs
  · exact Nat.zero_le _
  · exact RespQueue.length_pending_le _

/-- The loop is a number of turns. -/
theorem writeLoop_iterate (fuel : ℕ) (sentAny : Bool) (l : Link W) :
    ∃ k, (writeLoop fuel sentAny l).2.2 = (fun l => (writeTurn l).2)^[k] l := by
  induction fuel generalizing sentAny l with
  | zero => exact ⟨0, rfl⟩
  | succ fuel ih =>
    rw [writeLoop]
    cases ht : writeTurn l with
    | mk turn l' =>
      have hl' : l' = (writeTurn l).2 := by rw [ht]
      cases turn with
      | again =>
        obtain ⟨k, hk⟩ := ih true l'
        exact ⟨k + 1, by rw [hk, hl']; rfl⟩
      | leave => exact ⟨1, hl'⟩
      | fatal => exact ⟨1, hl'⟩

/-- The loop keeps what a turn keeps. -/
theorem writeLoop_keeps {P : Link W → Prop} (hturn : ∀ l, P l → P (writeTurn l).2) (fuel : ℕ)
    (sentAny : Bool) {l : Link W} (h : P l) : P (writeLoop fuel sentAny l).2.2 := by
  obtain ⟨k, hk⟩ := writeLoop_iterate fuel sentAny l
  rw [hk]
  exact Function.Iterate.rec P h hturn k

/-- Writing does not touch the receive side. -/
theorem writeTurn_received (l : Link W) : (writeTurn l).2.cs.received = l.cs.received := by
  rcases writeTurn_cases l with ⟨-, h⟩ | ⟨n, -, -, -, h⟩ | ⟨-, -, turn, -, h⟩ <;>
    exact congrArg (fun r => r.2.cs.received) h

theorem writeLoop_received (fuel : ℕ) (sentAny : Bool) (l : Link W) :
    (writeLoop fuel sentAny l).2.2.cs.received = l.cs.received :=
  writeLoop_keeps (P := fun l' => l'.cs.received = l.cs.received)
    (fun l' h => (writeTurn_received l').trans h) fuel sentAny rfl

@[simp] theorem epollChangeMode_queue (w : ℕ) (fd : ℤ) (m : EpollMode) (sh : Shared W) :
    (epollChangeMode w fd m sh).queue = sh.queue := by
  unfold epollChangeMode
  split_ifs <;> rfl

/-- After the loop only the interest changes. -/
theorem handlerWrite_link (w : ℕ) (l : Link W) :
    (handlerWrite w l).link.cs = (writeLoop 65 false l).2.2.cs ∧
      (handlerWrite w l).link.sh.queue = (writeLoop 65 false l).2.2.sh.queue := by
  unfold handlerWrite
  simp only []
  split_ifs <;> simp

theorem handlerWrite_shared (w : ℕ) (l : Link W) :
    (handlerWrite w l).link.sh = (writeLoop 65 false l).2.2.sh ∨
      (handlerWrite w l).link.sh = epollChangeMode w (writeLoop 65 false l).2.2.cs.ident.socket
        .read (writeLoop 65 false l).2.2.sh := by
  unfold handlerWrite
  simp only []
  split_ifs
  · exact Or.inl rfl
  · exact Or.inr rfl
  · exact Or.inl rfl
  · exact Or.inr rfl
  · exact Or.inl rfl

theorem handlerWrite_received (w : ℕ) (l : Link W) :
    (handlerWrite w l).link.cs.received = l.cs.received := by
  rw [(handlerWrite_link w l).1, writeLoop_received]

/-! ## A call conserves bytes -/

/-- The state before turn `k` of the loop. -/
def Link.turns (l : Link W) (k : ℕ) : Link W :=
  (fun l => (writeTurn l).2)^[k] l

theorem Link.turns_succ (l : Link W) (k : ℕ) : l.turns (k + 1) = (writeTurn l).2.turns k :=
  Function.iterate_succ_apply ..

/-- The loop is left at its turn `k`, the first one that does not ask for another. -/
structure LeftAt (l : Link W) (k : ℕ) : Prop where
  again : ∀ j < k, (writeTurn (l.turns j)).1 = .again
  left : (writeTurn (l.turns k)).1 ≠ .again

/-- With enough fuel the loop is left at some turn, and gives what that turn leaves. -/
theorem writeLoop_leftAt (fuel : ℕ) (sentAny : Bool) (l : Link W) (h : l.turnsLeft ≤ fuel) :
    ∃ k ≤ fuel, LeftAt l k ∧ (writeLoop fuel sentAny l).2.2 = l.turns (k + 1) := by
  induction fuel generalizing sentAny l with
  | zero =>
    have hnil := turnsLeft_eq_zero.1 (Nat.le_zero.1 h)
    have hturn : writeTurn l = (.leave, l) := by
      rcases writeTurn_cases l with ⟨-, h'⟩ | ⟨n, hn, hle, -⟩ | ⟨hne, -⟩
      · exact h'
      · rw [hnil] at hle
        simp only [List.map_nil, List.sum_nil] at hle
        omega
      · exact absurd hnil hne
    refine ⟨0, Nat.le_refl 0, ⟨fun j hj => absurd hj (Nat.not_lt_zero j), ?_⟩, ?_⟩
    · rw [show l.turns 0 = l from rfl, hturn]
      exact Turn.noConfusion
    · rw [Link.turns_succ, hturn]
      rfl
  | succ fuel ih =>
    rw [writeLoop]
    cases ht : writeTurn l with
    | mk turn l' =>
      have hl' : l' = (writeTurn l).2 := by rw [ht]
      have hstop : turn ≠ .again → LeftAt l 0 ∧ l' = l.turns 1 := fun hne =>
        ⟨⟨fun j hj => absurd hj (Nat.not_lt_zero j), by
          rwa [show l.turns 0 = l from rfl, ht]⟩, hl'⟩
      cases turn with
      | again =>
        have hlt := turnsLeft_lt ht
        obtain ⟨k, hk, hleft, heq⟩ := ih true l' (by omega)
        refine ⟨k + 1, by omega, ⟨fun j hj => ?_, ?_⟩, ?_⟩
        · cases j with
          | zero => rw [show l.turns 0 = l from rfl, ht]
          | succ j =>
            rw [Link.turns_succ, ← hl']
            exact hleft.again j (by omega)
        · rw [Link.turns_succ, ← hl']
          exact hleft.left
        · rw [Link.turns_succ, ← hl']
          exact heq
      | leave => exact ⟨0, Nat.zero_le _, hstop (by decide)⟩
      | fatal => exact ⟨0, Nat.zero_le _, hstop (by decide)⟩

/-- What the kernel took since the wire was `wire`, followed by what the ring still owes, is
`bytes`. -/
def Conserved (wire : List Segment) (bytes : List UInt8) (l : Link W) : Prop :=
  ∃ taken, l.cs.wire = wire ++ taken ∧
    taken.flatMap Segment.bytes ++ owed l.cs.respQueue.pending = bytes

/-- A turn conserves bytes. -/
theorem Conserved.turn {wire : List Segment} {bytes : List UInt8} {l : Link W}
    (h : Conserved wire bytes l) : Conserved wire bytes (writeTurn l).2 := by
  obtain ⟨taken, hwire, hbytes⟩ := h
  rcases writeTurn_cases l with ⟨-, h'⟩ | ⟨n, -, hle, -, h'⟩ | ⟨-, -, turn, -, h'⟩
  · rw [h']
    exact ⟨taken, hwire, hbytes⟩
  · rw [h']
    obtain ⟨rest, hrest⟩ := prefix_iov l
    have hturn := takeSegments_owed l.iov rest n (iov_unsent l) hle
    rw [hrest] at hturn
    refine ⟨taken ++ takeSegments l.iov n, ?_, ?_⟩
    · rw [← List.append_assoc, ← hwire]
    · rw [pending_account_turn, List.flatMap_append, List.append_assoc, hturn, hbytes]
  · rw [h']
    exact ⟨taken, hwire, hbytes⟩

theorem handlerWrite_conserved (w : ℕ) (l : Link W) :
    Conserved l.cs.wire (owed l.cs.respQueue.pending) (handlerWrite w l).link := by
  have hloop : Conserved l.cs.wire (owed l.cs.respQueue.pending) (writeLoop 65 false l).2.2 :=
    writeLoop_keeps (P := Conserved l.cs.wire (owed l.cs.respQueue.pending))
      (fun _ h => h.turn) 65 false ⟨[], (List.append_nil _).symm, rfl⟩
  unfold Conserved at hloop ⊢
  rwa [(handlerWrite_link w l).1]

/-- From any ring and under any outcomes of `writev`, a call of `xlab_handler_write` ends after
at most 64 turns. The bytes it gave to the kernel followed by those still waiting are the
bytes that waited before, and no slot counts more bytes sent than it has. -/
theorem handlerWrite_conserves (w : ℕ) (l : Link W) :
    (∃ k < 64, LeftAt l k ∧ (handlerWrite w l).link.cs = (l.turns (k + 1)).cs) ∧
      Conserved l.cs.wire (owed l.cs.respQueue.pending) (handlerWrite w l).link ∧
      ∀ i, ((handlerWrite w l).link.cs.respQueue.slots i).sentLen ≤
        ((handlerWrite w l).link.cs.respQueue.slots i).len := by
  refine ⟨?_, handlerWrite_conserved w l, fun i => RespSlot.sentLen_le _⟩
  obtain ⟨k, hk, hleft, heq⟩ := writeLoop_leftAt 63 false l (turnsLeft_le l)
  have hfuel := writeLoop_fuel 65 63 false l
    (Nat.le_trans (turnsLeft_le l) (by decide)) (turnsLeft_le l)
  exact ⟨k, by omega, hleft, by rw [(handlerWrite_link w l).1, hfuel, heq]⟩

end Xlab
