import Xlab.Router
import Xlab.SlotTable

/-!
# The asynchronous task table

512 slots shared by the event loops and one background thread, under one lock. A blocking
command takes the first slot that is not `valid`. The background thread runs the handler
of every slot that is `valid` and not `completed`. A flush reads the completed slots and
frees them.

`targetCs` is the identity of the session the task was submitted for. In the code it is a
pointer, and a session that was removed is found by no identity.
-/

namespace Xlab

/-- `XLAB_ASYNC_QUEUE_DEPTH`. -/
abbrev asyncQueueDepth : ℕ := 512

/-- `xlab_async_task_t`. Bytes past `paramLen` and `respLen` are left from earlier tasks
of the slot. `resp_data` has room for 64 bytes. -/
structure AsyncTask (W : Type) where
  socketFd : ℤ
  sessionId : UInt32
  seq : UInt32
  cmdCode : UInt8
  params : List UInt8
  paramLen : UInt8
  handler : Handler W
  resultCode : ErrCode
  respData : List UInt8
  respLen : UInt8
  respLen_le : respLen.toNat ≤ 64
  valid : Bool
  completed : Bool
  targetCs : Option ℕ

/-- `g_async_queue`. -/
abbrev AsyncQueue (W : Type) := Fin asyncQueueDepth → AsyncTask W

variable {W : Type}

/-- A zeroed slot. -/
def AsyncTask.zero : AsyncTask W where
  socketFd := 0
  sessionId := 0
  seq := 0
  cmdCode := 0
  params := []
  paramLen := 0
  handler := fun world _ => (.bare 0, world)
  resultCode := errOk
  respData := []
  respLen := 0
  respLen_le := by decide
  valid := false
  completed := false
  targetCs := none

/-- The table as `xlab_async_init` leaves it. -/
def AsyncQueue.init : AsyncQueue W :=
  fun _ => .zero

/-- `memcpy` to the front of a buffer. -/
def overwrite (old new : List UInt8) : List UInt8 :=
  new ++ old.drop new.length

@[simp] theorem take_overwrite (old new : List UInt8) :
    (overwrite old new).take new.length = new := by
  simp [overwrite]

/-- The slot `xlab_async_submit` writes. -/
def AsyncTask.submitted (t : AsyncTask W) (socketFd : ℤ) (sessionId seq : UInt32)
    (cmdCode : UInt8) (params : List UInt8) (handler : Handler W) (target : Option ℕ) :
    AsyncTask W :=
  { t with
    socketFd := socketFd
    sessionId := sessionId
    seq := seq
    cmdCode := cmdCode
    paramLen := UInt8.ofNat params.length
    params := overwrite t.params params
    handler := handler
    valid := true
    completed := false
    targetCs := target }

/-- `xlab_async_submit` : the table with the task in its first free slot, or `none` where
the code returns −1. `target` is what `xlab_session_get(socket_fd)` returns. -/
def asyncSubmit (q : AsyncQueue W) (socketFd : ℤ) (sessionId seq : UInt32) (cmdCode : UInt8)
    (params : List UInt8) (handler : Handler W) (target : Option ℕ) : Option (AsyncQueue W) :=
  (SlotTable.firstFree AsyncTask.valid q).map fun i =>
    Function.update q i
      ((q i).submitted socketFd sessionId seq cmdCode params handler target)

/-- The parameters the background thread passes to the handler. -/
def AsyncTask.args (t : AsyncTask W) : List UInt8 :=
  t.params.take t.paramLen.toNat

/-- The slot after its handler ran. -/
def AsyncTask.finished (t : AsyncTask W) (r : HandlerResult) : AsyncTask W :=
  { t with
    resultCode := r.errCode
    respData := if 0 < r.resp.length then overwrite t.respData r.resp else t.respData
    respLen := UInt8.ofNat r.resp.length
    respLen_le := by
      have := r.resp_le
      simp only [UInt8.toNat_ofNat']
      omega
    completed := true }

/-- The slot is submitted and its handler has not run. -/
def AsyncTask.ready (t : AsyncTask W) : Bool :=
  t.valid && !t.completed

/-- One turn of the execution loop of `xlab_async_worker_loop`. -/
def asyncWorkSlot (i : Fin asyncQueueDepth) (q : AsyncQueue W) (world : W) :
    AsyncQueue W × W × List Invocation :=
  if (q i).ready then
    let r := (q i).handler world (q i).args
    (Function.update q i ((q i).finished r.1), r.2, [((q i).cmdCode, (q i).args)])
  else (q, world, [])

/-- A slot freed by a flush. -/
def AsyncTask.freed (t : AsyncTask W) : AsyncTask W :=
  { t with valid := false, completed := false }

/-- The task is submitted, finished and not yet flushed. -/
def AsyncTask.flushable (t : AsyncTask W) : Bool :=
  t.valid && t.completed

theorem AsyncTask.valid_of_flushable {t : AsyncTask W} (h : t.flushable = true) :
    t.valid = true :=
  (Bool.and_eq_true_iff.1 h).1

/-- The response data of a finished task : what its own handler run reported. -/
theorem AsyncTask.finished_data (t : AsyncTask W) (r : HandlerResult) :
    (t.finished r).respData.take (t.finished r).respLen.toNat = r.resp := by
  have hlen : (UInt8.ofNat r.resp.length).toNat = r.resp.length := by
    have := r.resp_le
    simp only [UInt8.toNat_ofNat']
    omega
  simp only [finished, hlen]
  split_ifs with h
  · exact take_overwrite _ _
  · simp [List.eq_nil_of_length_eq_zero (Nat.eq_zero_of_not_pos h)]

/-- The parameters of a submitted task, whatever was in the slot before. -/
theorem AsyncTask.submitted_args_of_le (t : AsyncTask W) (socketFd : ℤ) (sessionId seq : UInt32)
    (cmdCode : UInt8) {params : List UInt8} (h : params.length ≤ 251) (handler : Handler W)
    (target : Option ℕ) :
    (t.submitted socketFd sessionId seq cmdCode params handler target).args = params := by
  have hlen : (UInt8.ofNat params.length).toNat = params.length := by
    simp only [UInt8.toNat_ofNat']
    omega
  simp [args, submitted, hlen]

/-- The parameters of a submitted task : the payload of its frame. -/
theorem AsyncTask.submitted_args (t : AsyncTask W) (socketFd : ℤ) (sessionId seq : UInt32)
    (f : Frame) (handler : Handler W) (target : Option ℕ) :
    (t.submitted socketFd sessionId seq f.cmd f.payload handler target).args = f.payload :=
  t.submitted_args_of_le socketFd sessionId seq f.cmd (Nat.le_trans f.payload_le (by decide))
    handler target

end Xlab
