import Xlab.Async
import Xlab.RingBuffer

/-!
# Sessions and their response rings

A session holds the bytes received and not yet parsed, the counters of requests, and a
ring of 64 responses waiting for the socket. `RespQueue` keeps both indices of the ring
below 64, and `pending` lists the waiting responses from oldest to newest. `enqueue`
appends to it (`pending_of_enqueue`).

A `Link` is one session together with what it shares with the rest of the gateway. The
fields `recognised`, `built` and `wire` of a session are history : the frames it parsed,
the responses built for it, and the bytes the kernel took for its socket. The code has
none of them and no function reads them.
-/

namespace Xlab

/-- `XLAB_RESP_QUEUE_DEPTH`. -/
abbrev respQueueDepth : ℕ := 64

/-- `resp_slot_t`, up to its `len` bytes. -/
structure RespSlot where
  resp : Response
  sentLen : ℕ
  sentLen_le : sentLen ≤ resp.bytes.length
  deriving DecidableEq, Repr

/-- `slot->len`. -/
def RespSlot.len (s : RespSlot) : ℕ :=
  s.resp.bytes.length

/-- A slot just written. -/
def RespSlot.fresh (resp : Response) : RespSlot :=
  ⟨resp, 0, Nat.zero_le _⟩

/-- `(uint8_t)(i + 1) % XLAB_RESP_QUEUE_DEPTH`, the form at the enqueues of
`xlab_conn_read` and `xlab_async_flush_completed`. -/
def nextTail (i : UInt8) : UInt8 :=
  (i + 1) % 64

/-- `(uint8_t)((i + 1) % XLAB_RESP_QUEUE_DEPTH)`, the form in `xlab_handler_write`. -/
def nextHead (i : UInt8) : UInt8 :=
  UInt8.ofNat ((i.toNat + 1) % respQueueDepth)

theorem toNat_nextTail (i : UInt8) :
    (nextTail i).toNat = RingBuffer.next respQueueDepth i.toNat := by
  simp only [nextTail, RingBuffer.next, respQueueDepth, UInt8.toNat_mod, UInt8.toNat_add,
    UInt8.reduceToNat]
  omega

theorem toNat_nextHead (i : UInt8) :
    (nextHead i).toNat = RingBuffer.next respQueueDepth i.toNat := by
  simp only [nextHead, RingBuffer.next, respQueueDepth, UInt8.toNat_ofNat']
  omega

/-- `resp_queue`, `resp_q_head` and `resp_q_tail` of a session. -/
structure RespQueue where
  slots : ℕ → RespSlot
  head : UInt8
  tail : UInt8
  head_lt : head.toNat < respQueueDepth
  tail_lt : tail.toNat < respQueueDepth

namespace RespQueue

/-- The ring of a new session. The slots are not initialised. -/
def empty : RespQueue where
  slots _ := .fresh ⟨0, []⟩
  head := 0
  tail := 0
  head_lt := by decide
  tail_lt := by decide

variable (q : RespQueue)

/-- The waiting responses, oldest first. -/
def pending : List RespSlot :=
  RingBuffer.contents q.slots respQueueDepth q.head.toNat q.tail.toNat

/-- Write the tail slot and advance the tail. `none` when the tail would meet the head. -/
def enqueue (resp : Response) : Option RespQueue :=
  if nextTail q.tail = q.head then none
  else some
    { slots := Function.update q.slots q.tail.toNat (.fresh resp)
      head := q.head
      tail := nextTail q.tail
      head_lt := q.head_lt
      tail_lt := by
        rw [toNat_nextTail]
        exact RingBuffer.next_lt (by decide) _ }

/-- Rewrite the head slot. -/
def setHead (s : RespSlot) : RespQueue :=
  { q with slots := Function.update q.slots q.head.toNat s }

/-- Advance the head. -/
def dropHead : RespQueue :=
  { q with
    head := nextHead q.head
    head_lt := by
      rw [toNat_nextHead]
      exact RingBuffer.next_lt (by decide) _ }

@[simp] theorem pending_empty : empty.pending = [] :=
  rfl

theorem pending_eq_nil : q.pending = [] ↔ q.head = q.tail := by
  rw [pending, RingBuffer.contents_eq_nil _ q.head_lt, UInt8.toNat_inj]

theorem length_pending_le : q.pending.length ≤ 63 := by
  rw [pending, RingBuffer.length_contents]
  exact Nat.le_of_lt_succ (RingBuffer.count_lt q.head_lt q.tail_lt)

theorem nextTail_eq_head : nextTail q.tail = q.head ↔ q.pending.length = 63 := by
  rw [← UInt8.toNat_inj, toNat_nextTail, RingBuffer.count_eq_of_full q.head_lt q.tail_lt,
    pending, RingBuffer.length_contents, respQueueDepth]

/-- An enqueue is refused exactly when 63 responses wait. -/
theorem enqueue_eq_none (resp : Response) : q.enqueue resp = none ↔ q.pending.length = 63 := by
  rw [enqueue, ← nextTail_eq_head]
  split_ifs with h <;> simp [h]

variable {q}

/-- An accepted enqueue appends the response, unsent. -/
theorem pending_of_enqueue {q' : RespQueue} {resp : Response} (h : q.enqueue resp = some q') :
    q'.pending = q.pending ++ [.fresh resp] := by
  unfold enqueue at h
  split_ifs at h with hn
  obtain rfl := Option.some.inj h
  have hne : RingBuffer.next respQueueDepth q.tail.toNat ≠ q.head.toNat := by
    rwa [← toNat_nextTail, Ne, UInt8.toNat_inj]
  simp only [pending, toNat_nextTail]
  exact RingBuffer.contents_push _ _ q.head_lt q.tail_lt hne

theorem pending_cons (h : q.head ≠ q.tail) :
    q.pending = q.slots q.head.toNat :: q.dropHead.pending := by
  have hne : q.head.toNat ≠ q.tail.toNat := by rwa [Ne, UInt8.toNat_inj]
  simp only [pending, dropHead, toNat_nextHead]
  exact RingBuffer.contents_pop _ q.head_lt q.tail_lt hne

theorem pending_setHead (h : q.head ≠ q.tail) (s : RespSlot) :
    (q.setHead s).pending = s :: q.dropHead.pending := by
  have hne : q.head.toNat ≠ q.tail.toNat := by rwa [Ne, UInt8.toNat_inj]
  simp only [pending, setHead, dropHead, toNat_nextHead]
  exact RingBuffer.contents_set_head _ _ q.head_lt q.tail_lt hne

end RespQueue

/-! ## Sessions -/

/-- What identifies a session : the session itself, the worker whose list holds it, and its
socket. -/
structure SessionIdent where
  sid : ℕ
  owner : ℕ
  socket : ℤ
  deriving DecidableEq, Repr

/-- The bytes `[start, stop)` of a response, taken by the kernel in one call. -/
structure Segment where
  resp : Response
  start : ℕ
  stop : ℕ
  deriving DecidableEq, Repr

/-- The bytes of a segment. -/
def Segment.bytes (s : Segment) : List UInt8 :=
  (s.resp.bytes.take s.stop).drop s.start

/-- `struct xlab_client_session`. `body` is `body[0 .. body_length)`. -/
structure Session where
  ident : SessionIdent
  body : List UInt8
  nextReqSeq : UInt32
  respQueue : RespQueue
  respSeqExpected : UInt32
  recognised : List Frame
  built : List Response
  wire : List Segment

/-- The session `xlab_session_create` sets up. -/
def Session.create (ident : SessionIdent) : Session where
  ident := ident
  body := []
  nextReqSeq := 0
  respQueue := .empty
  respSeqExpected := 0
  recognised := []
  built := []
  wire := []

/-! ## The shared state and the socket calls -/

/-- The values of `errno` the code tells apart. `EWOULDBLOCK` is `EAGAIN`. -/
inductive Errno where
  | eagain
  | other
  deriving DecidableEq, Repr

/-- What a `send` or `writev` takes : everything, a proper prefix of `n + 1` bytes or the most
there is, or nothing with a return of −1. -/
inductive Taken where
  | all
  | part (n : ℕ)
  | fail
  deriving DecidableEq, Repr

/-- The outcome of a socket call, and the value of `errno` after it. A call that succeeds
leaves `errno` as it was, so any value. -/
structure IoOutcome where
  taken : Taken
  errno : Errno
  deriving DecidableEq, Repr

/-- What a socket call gives back : the number of bytes it took, `none` for −1, and `errno`. -/
structure IoReturn where
  accepted : Option ℕ
  errno : Errno
  deriving DecidableEq, Repr

/-- The return of a call that offers `len` bytes. -/
def IoOutcome.offer (o : IoOutcome) (len : ℕ) : IoReturn :=
  match o.taken with
  | .all => ⟨some len, o.errno⟩
  | .part n => ⟨some (min (n + 1) (len - 1)), o.errno⟩
  | .fail => ⟨none, o.errno⟩

/-- `XLAB_EPOLL_READ` and `XLAB_EPOLL_WRITE`. -/
inductive EpollMode where
  | read
  | write
  deriving DecidableEq, Repr

/-- `xlab_trans_type_e`. -/
inductive TransType where
  | tcp
  | udp
  | uart
  deriving DecidableEq, Repr

/-- What the sessions share. `interest w fd` is the mode of `fd` in the epoll instance of
worker `w`. `script` gives the outcomes of the coming socket calls, and a call past its end
takes everything. `invoked` and `datagrams` are history : the handler calls, and the
responses handed to a transport driver. -/
structure Shared (W : Type) where
  world : W
  queue : AsyncQueue W
  interest : ℕ → ℤ → Option EpollMode
  script : List IoOutcome
  invoked : List Invocation
  datagrams : List (TransType × Response)

variable {W : Type}

/-- `xlab_epoll_change_mode` on the epoll instance of worker `w`. It fails on a descriptor
that is not registered there. -/
def epollChangeMode (w : ℕ) (fd : ℤ) (m : EpollMode) (sh : Shared W) : Shared W :=
  if sh.interest w fd = none then sh
  else { sh with interest := Function.update sh.interest w (Function.update (sh.interest w) fd m) }

/-- The next call, which offers `len` bytes. -/
def Shared.call (len : ℕ) (sh : Shared W) : IoReturn × Shared W :=
  match sh.script with
  | [] => (⟨some len, .other⟩, sh)
  | o :: rest => (o.offer len, { sh with script := rest })

/-- The coming calls take everything they are offered. -/
def Shared.takesAll (sh : Shared W) : Prop :=
  ∀ o ∈ sh.script, o.taken = .all

/-- The next call takes everything it is offered. -/
def Shared.nextWhole (sh : Shared W) : Prop :=
  ∀ o ∈ sh.script.head?, o.taken = .all

theorem Shared.takesAll.nextWhole {sh : Shared W} (h : sh.takesAll) : sh.nextWhole :=
  fun o ho => h o (List.mem_of_mem_head? ho)

theorem Shared.nextWhole_of_nil {sh : Shared W} (h : sh.script = []) : sh.nextWhole := by
  intro o ho
  rw [h] at ho
  cases ho

theorem Shared.script_call (len : ℕ) (sh : Shared W) :
    (sh.call len).2.script = sh.script.tail := by
  unfold call
  cases hs : sh.script with
  | nil => exact hs
  | cons o rest => rfl

theorem Shared.nextWhole.call {sh : Shared W} (h : sh.nextWhole) (len : ℕ) :
    (sh.call len).1.accepted = some len := by
  unfold nextWhole at h
  unfold Shared.call
  cases hs : sh.script with
  | nil => rfl
  | cons o rest =>
    have ho := h o (by rw [hs]; rfl)
    simp [IoOutcome.offer, ho]

/-- A call changes the script only. -/
theorem Shared.call_eq (len : ℕ) (sh : Shared W) :
    (sh.call len).2 = { sh with script := (sh.call len).2.script } := by
  unfold call
  split <;> rfl

/-- One session and what it shares. -/
structure Link (W : Type) where
  cs : Session
  sh : Shared W

/-- `send(cs->socket, …, MSG_NOSIGNAL)`. -/
def sockSend (resp : Response) (l : Link W) : IoReturn × Link W :=
  let r := l.sh.call resp.bytes.length
  (r.1, ⟨{ l.cs with wire := l.cs.wire ++ r.1.accepted.toList.map (Segment.mk resp 0) }, r.2⟩)

/-- A new session on socket 7 of worker 0 in an idle gateway. -/
def idleLink : Link Unit where
  cs := .create ⟨0, 0, 7⟩
  sh :=
    { world := ()
      queue := .init
      interest := fun _ _ => none
      script := []
      invoked := []
      datagrams := [] }

end Xlab
