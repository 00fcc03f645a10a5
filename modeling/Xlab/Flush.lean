import Xlab.HandlerWrite

/-!
# Flushing completed tasks

`xlab_async_flush_completed` goes over the task table. For a completed task it looks for
the session the task was submitted for, and passes over the task unless it is the one the
session expects next. It then queues the response on the session's ring, or answers BUSY
when the ring is full, and frees the slot. `flushDeliver` is this for one slot and the session
found. `flushOwn` is the turn of the loop for one session : it delivers the session's own
tasks, found by identity and socket, and leaves the others alone.
-/

namespace Xlab

variable {W : Type}

/-- The slot with the task at `i` freed. -/
def AsyncQueue.free (q : AsyncQueue W) (i : Fin asyncQueueDepth) : AsyncQueue W :=
  Function.update q i (q i).freed

/-- The response of a completed task. -/
def AsyncTask.response (t : AsyncTask W) : Response :=
  routerBuildResponse t.cmdCode t.resultCode (t.respData.take t.respLen.toNat) t.seq

/-- The BUSY answer to a task. -/
def AsyncTask.busy (t : AsyncTask W) : Response :=
  routerBuildResponse t.cmdCode errBusBusy [] t.seq

/-- Deliver the task in slot `i` to the session, in the event loop of worker `w`. -/
def flushDeliver (w : ℕ) (i : Fin asyncQueueDepth) (l : Link W) : Link W :=
  let task := l.sh.queue i
  if task.seq ≠ l.cs.respSeqExpected then l
  else
    match l.cs.respQueue.enqueue task.response with
    | none =>
      let l := (sockSend task.busy (l.build task.busy)).2
      ⟨{ l.cs with respSeqExpected := task.seq + 1 },
        { l.sh with queue := l.sh.queue.free i }⟩
    | some q =>
      let l := l.build task.response
      let sh := { l.sh with queue := l.sh.queue.free i }
      ⟨{ l.cs with respQueue := q, respSeqExpected := l.cs.respSeqExpected + 1 },
        if q.head ≠ q.tail then epollChangeMode w l.cs.ident.socket .write sh else sh⟩

/-- The task was submitted for the session on its socket. -/
def AsyncTask.ownedBy (id : SessionIdent) (t : AsyncTask W) : Bool :=
  t.targetCs == some id.sid && t.socketFd == id.socket

/-- The turn of the flush loop for the tasks of one session. -/
def flushOwn (w : ℕ) (i : Fin asyncQueueDepth) (l : Link W) : Link W :=
  if (l.sh.queue i).flushable && (l.sh.queue i).ownedBy l.cs.ident then flushDeliver w i l else l

/-- `xlab_async_flush_completed` as it acts on one session. -/
def flushCompleted (w : ℕ) (l : Link W) : Link W :=
  (List.finRange asyncQueueDepth).foldl (fun l i => flushOwn w i l) l

/-- The background thread at slot `i`. -/
def Shared.work (sh : Shared W) (i : Fin asyncQueueDepth) : Shared W :=
  let r := asyncWorkSlot i sh.queue sh.world
  { sh with queue := r.1, world := r.2.1, invoked := sh.invoked ++ r.2.2 }

theorem work_queue_self (sh : Shared W) (i : Fin asyncQueueDepth) : (sh.work i).queue i =
    if (sh.queue i).ready then
      (sh.queue i).finished ((sh.queue i).handler sh.world (sh.queue i).args).1
    else sh.queue i := by
  unfold Shared.work asyncWorkSlot
  split_ifs
  · exact Function.update_self ..
  · rfl

theorem work_queue_of_ne (sh : Shared W) {i j : Fin asyncQueueDepth} (h : j ≠ i) :
    (sh.work i).queue j = sh.queue j := by
  unfold Shared.work asyncWorkSlot
  split_ifs
  · exact Function.update_of_ne h _ _
  · rfl

/-- One batch of `xlab_async_worker_loop`. -/
def asyncWorkerBatch (sh : Shared W) : Shared W :=
  (List.finRange asyncQueueDepth).foldl Shared.work sh

end Xlab
