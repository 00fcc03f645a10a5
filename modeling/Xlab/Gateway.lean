import Xlab.Flush
import Xlab.Registry
import Xlab.Scheduler
import Xlab.Trans

/-!
# The gateway

The workers, their connections and sessions, and what they share. A session is found by its
socket in the list of the worker that looks (`sessionGet`), created at the first read of a
connection, and removed by the handlers. The connection is closed by another function, which
knows nothing of sessions. `epollDispatch` is one event of an event loop : the handler, and
the close handler when the handler returned a negative value.

`flushSlot` is the turn of a flush for one task. It takes the session the task was
submitted for if it is still there, else the session its own worker has on the task's
socket, and discards the task when there is none.

Sessions are never given the identity of an earlier one, so a task finds no session by the
identity of one that was removed.
-/

namespace Xlab

/-- What does not change while the gateway runs. -/
structure Setup (W : Type) where
  server : ServerConfig
  sched : SchedConfig
  table : RouterTable W
  eventFd : ℤ

/-- The state of the gateway. `sessions` are the sessions of all workers, in the order they were
created. -/
structure Gateway (W : Type) where
  shared : Shared W
  sessions : List Session
  nextSid : ℕ
  workers : ℕ → Worker
  trans : Trans

/-- The session is in the list of worker `w`, with socket `fd`. -/
def SessionIdent.isAt (w : ℕ) (fd : ℤ) (id : SessionIdent) : Bool :=
  id.owner == w && id.socket == fd

namespace Gateway

variable {W : Type}

/-! ## Sessions -/

/-- `xlab_session_get` in worker `w`. -/
def sessionGet (g : Gateway W) (w : ℕ) (fd : ℤ) : Option Session :=
  Registry.find Session.ident (SessionIdent.isAt w fd) g.sessions

/-- A new session in the list. -/
def addSession (cs : Session) (g : Gateway W) : Gateway W :=
  { g with sessions := g.sessions ++ [cs], nextSid := g.nextSid + 1 }

/-- `xlab_session_create` in worker `w`, `none` where the code returns `NULL`. -/
def sessionCreate (w : ℕ) (fd : ℤ) (g : Gateway W) : Option (Session × Gateway W) :=
  match schedGetConnection (g.workers w) fd with
  | none => none
  | some _ =>
    let cs := Session.create ⟨g.nextSid, w, fd⟩
    some (cs, g.addSession cs)

/-- `xlab_session_remove` in worker `w`. -/
def sessionRemove (w : ℕ) (fd : ℤ) (g : Gateway W) : Gateway W :=
  match g.sessionGet w fd with
  | none => g
  | some _ =>
    { g with
      sessions := Registry.remove Session.ident (SessionIdent.isAt w fd) g.sessions
      trans := g.trans.fdMapRemove fd }

/-- A session and the shared state put back after a call. -/
def put (l : Link W) (g : Gateway W) : Gateway W :=
  { g with shared := l.sh, sessions := Registry.store Session.ident l.cs g.sessions }

/-- The gateway after a handler of worker `w` is done with the session on `fd`. -/
def leave (w : ℕ) (fd : ℤ) (e : Exit W) (g : Gateway W) : ℤ × Gateway W :=
  (e.ret, (sessionRemove w fd)^[e.removals] (g.put e.link))

/-! ## Connections -/

/-- Worker `w` changed by `f`. -/
def setWorker (w : ℕ) (f : Worker → Worker) (g : Gateway W) : Gateway W :=
  { g with workers := Function.update g.workers w (f (g.workers w)) }

/-- `close(fd)` takes the descriptor out of every epoll instance. -/
def closeFd (fd : ℤ) (g : Gateway W) : Gateway W :=
  { g with shared := { g.shared with
      interest := fun w => Function.update (g.shared.interest w) fd none } }

/-- `xlab_epoll_add` of a descriptor for writing. -/
def arm (w : ℕ) (fd : ℤ) (g : Gateway W) : Gateway W :=
  { g with shared := { g.shared with
      interest := Function.update g.shared.interest w
        (Function.update (g.shared.interest w) fd (some .write)) } }

/-- `xlab_sched_remove_client`. -/
def removeClient (w : ℕ) (fd : ℤ) (g : Gateway W) : Gateway W :=
  (g.closeFd fd).setWorker w (schedRemoveClient fd)

/-- The acceptor with a new descriptor : `xlab_sched_add_client`, and `close` when there is
no worker for it. `added` tells whether `epoll_ctl` succeeded. -/
def acceptClient (s : Setup W) (fd : ℤ) (added : Bool) (g : Gateway W) : Gateway W :=
  match nextTarget s.sched g.workers with
  | none => g.closeFd fd
  | some w =>
    if added then
      (g.arm w fd).setWorker w fun k =>
        { k with acceptedConnections := k.acceptedConnections + 1 }
    else g.closeFd fd

/-! ## Flushing -/

/-- The live session with an identity. -/
def live (g : Gateway W) (sid : Option ℕ) : Option Session :=
  sid.bind fun sid => Registry.find Session.ident (fun id => id.sid == sid) g.sessions

/-- The session `xlab_async_flush_completed` takes for a task in worker `w`. The identity of a
removed session matches none, where the code reads the freed record. -/
def flushTarget (g : Gateway W) (w : ℕ) (task : AsyncTask W) : Option Session :=
  match g.live task.targetCs with
  | none => g.sessionGet w task.socketFd
  | some cs => if cs.ident.socket = task.socketFd then some cs else g.sessionGet w task.socketFd

/-- The turn of the flush loop for slot `i`, in worker `w`. -/
def flushSlot (w : ℕ) (i : Fin asyncQueueDepth) (g : Gateway W) : Gateway W :=
  if (g.shared.queue i).flushable then
    match g.flushTarget w (g.shared.queue i) with
    | none => { g with shared := { g.shared with queue := g.shared.queue.free i } }
    | some cs => g.put (flushDeliver w i ⟨cs, g.shared⟩)
  else g

/-- `xlab_async_flush_completed` in worker `w`. -/
def flushCompleted (w : ℕ) (g : Gateway W) : Gateway W :=
  (List.finRange asyncQueueDepth).foldl (fun g i => g.flushSlot w i) g

/-! ## Handlers -/

/-- The UDP/UART branch of `xlab_conn_read`, where the socket gives `r`. The drivers turn
`EAGAIN` into a read of no bytes. -/
def connReadDatagram (s : Setup W) (fd : ℤ) (r : ReadOutcome) (g : Gateway W) :
    ℤ × Gateway W :=
  match g.trans.driver TransOps.read fd with
  | none => (-1, g)
  | some _ =>
    match r with
    | .error .eagain => (0, g)
    | .error .other => (-1, g)
    | .data bytes =>
      let shared :=
        match g.trans.driver TransOps.write fd with
        | some tr => connReadUdp tr s.table bytes g.shared
        | none => { connReadUdp .udp s.table bytes g.shared with datagrams := g.shared.datagrams }
      ((bytes.take 256).length, { g with shared := shared })

/-- The session a read works on : the one found, or a new one. -/
def openSession (w : ℕ) (fd : ℤ) (g : Gateway W) : Option (Session × Gateway W) :=
  match g.sessionGet w fd with
  | some cs => some (cs, g)
  | none => g.sessionCreate w fd

/-- `xlab_conn_read` in worker `w`, where the socket gives `r`. -/
def connRead (s : Setup W) (w : ℕ) (fd : ℤ) (r : ReadOutcome) (g : Gateway W) : ℤ × Gateway W :=
  if fd = s.eventFd then (0, g.flushCompleted w)
  else if g.trans.isDatagram fd then connReadDatagram s fd r g
  else
    match g.openSession w fd with
    | none => (-1, g)
    | some (cs, g) => g.leave w fd (connReadTcp s.server w s.table r ⟨cs, g.shared⟩)

/-- `xlab_conn_write` in worker `w`. -/
def connWrite (w : ℕ) (fd : ℤ) (g : Gateway W) : ℤ × Gateway W :=
  match schedGetConnection (g.workers w) fd with
  | none =>
    let g := g.setWorker w (schedRegisterClient fd)
    (0, { g with shared := epollChangeMode w fd .read g.shared })
  | some _ =>
    let g := g.setWorker w (schedUpdateConnStatus fd .process)
    match g.sessionGet w fd with
    | none => (-1, g)
    | some cs => g.leave w fd (connWriteTcp w ⟨cs, g.shared⟩)

/-- `xlab_conn_error` in worker `w`. -/
def connError (w : ℕ) (fd : ℤ) (g : Gateway W) : ℤ × Gateway W :=
  (0, (g.removeClient w fd).sessionRemove w fd)

/-- `xlab_conn_close` in worker `w`. -/
def connClose (w : ℕ) (fd : ℤ) (g : Gateway W) : Gateway W :=
  g.removeClient w fd

/-- Which handler an epoll event goes to. -/
inductive Ready where
  | input
  | output
  | error
  deriving DecidableEq, Repr

/-- The close handler, called when a handler returned a negative value. -/
def closeFailed (w : ℕ) (fd : ℤ) (res : ℤ × Gateway W) : Gateway W :=
  if res.1 < 0 then res.2.connClose w fd else res.2

/-- One event of the loop in `xlab_epoll_init` of worker `w`. -/
def epollDispatch (s : Setup W) (w : ℕ) (fd : ℤ) (ready : Ready) (r : ReadOutcome)
    (g : Gateway W) : Gateway W :=
  closeFailed w fd <|
    match ready with
    | .input => g.connRead s w fd r
    | .output => g.connWrite w fd
    | .error => g.connError w fd

theorem closeFailed_of_neg {w : ℕ} {fd : ℤ} {res : ℤ × Gateway W} (h : res.1 < 0) :
    closeFailed w fd res = res.2.connClose w fd :=
  if_pos h

theorem closeFailed_of_nonneg {w : ℕ} {fd : ℤ} {res : ℤ × Gateway W} (h : 0 ≤ res.1) :
    closeFailed w fd res = res.2 :=
  if_neg (Int.not_lt.2 h)

/-! ## What an operation keeps -/

/-- A task goes to the session that submitted it, or to the one on its socket. -/
theorem flushTarget_cases {w : ℕ} {task : AsyncTask W} {g : Gateway W} {cs : Session}
    (h : g.flushTarget w task = some cs) :
    g.live task.targetCs = some cs ∨ g.sessionGet w task.socketFd = some cs := by
  unfold flushTarget at h
  cases hl : g.live task.targetCs with
  | none => exact Or.inr (by simpa [hl] using h)
  | some cs' =>
    simp only [hl] at h
    split_ifs at h
    · exact Or.inl h
    · exact Or.inr h

/-- The turn for a slot frees it, or delivers its task to the session the flush takes. -/
theorem flushSlot_keeps {P : Gateway W → Prop} {w : ℕ} {i : Fin asyncQueueDepth} {g : Gateway W}
    (hfree : P { g with shared := { g.shared with queue := g.shared.queue.free i } })
    (hdeliver : ∀ cs, g.flushTarget w (g.shared.queue i) = some cs →
      P (g.put (flushDeliver w i ⟨cs, g.shared⟩))) (h : P g) : P (g.flushSlot w i) := by
  unfold flushSlot
  split_ifs
  · cases ht : g.flushTarget w (g.shared.queue i) with
    | none => exact hfree
    | some cs => exact hdeliver cs ht
  · exact h

/-- A flush keeps what the turn for each slot keeps. -/
theorem flushCompleted_keeps {P : Gateway W → Prop} {w : ℕ} {g : Gateway W}
    (hslot : ∀ g i, P g → P (g.flushSlot w i)) (h : P g) : P (g.flushCompleted w) :=
  List.foldlRecOn _ _ h fun g hg i _ => hslot g i hg

/-- A handler that leaves keeps what the removal of a session keeps. -/
theorem leave_keeps {P : Gateway W → Prop} {w : ℕ} {fd : ℤ} {e : Exit W} {g : Gateway W}
    (hremove : ∀ g, P g → P (g.sessionRemove w fd)) (h : P (g.put e.link)) :
    P (g.leave w fd e).2 :=
  Function.Iterate.rec P h hremove e.removals

theorem closeFailed_keeps {P : Gateway W → Prop} {w : ℕ} {fd : ℤ} {res : ℤ × Gateway W}
    (hclose : P (res.2.removeClient w fd)) (h : P res.2) : P (closeFailed w fd res) := by
  unfold closeFailed
  split_ifs
  · exact hclose
  · exact h

/-- A read event is a flush or a datagram, or goes to the session of a connection. -/
theorem connRead_keeps {P : Gateway W → Prop} {s : Setup W} {w : ℕ} {fd : ℤ} {r : ReadOutcome}
    {g : Gateway W} (hflush : fd = s.eventFd → P (g.flushCompleted w))
    (hdatagram : P (g.connReadDatagram s fd r).2)
    (hread : ∀ cs g', fd ≠ s.eventFd → ¬g.trans.isDatagram fd = true →
      g.openSession w fd = some (cs, g') →
        P (g'.leave w fd (connReadTcp s.server w s.table r ⟨cs, g'.shared⟩)).2)
    (h : P g) : P (g.connRead s w fd r).2 := by
  unfold connRead
  split_ifs with hev hdg
  · dsimp only
    exact hflush hev
  · exact hdatagram
  · cases ho : g.openSession w fd with
    | none => exact h
    | some p =>
      obtain ⟨cs, g'⟩ := p
      exact hread cs g' hev hdg ho

/-! ## Runs -/

/-- An event of the gateway. -/
inductive Event where
  /-- A connection is accepted. -/
  | accept (fd : ℤ) (added : Bool)
  /-- An event loop handles an event. -/
  | epoll (w : ℕ) (fd : ℤ) (ready : Ready) (r : ReadOutcome)
  /-- The background thread is at a slot. -/
  | work (i : Fin asyncQueueDepth)
  /-- The sockets get ready for the calls of a new script. -/
  | sockets (script : List IoOutcome)

/-- One event of the gateway. -/
def step (s : Setup W) (g : Gateway W) : Event → Gateway W
  | .accept fd added => g.acceptClient s fd added
  | .epoll w fd ready r => g.epollDispatch s w fd ready r
  | .work i => { g with shared := g.shared.work i }
  | .sockets script => { g with shared := { g.shared with script := script } }

/-- The gateway before its first event. -/
structure Started (g : Gateway W) : Prop where
  sessions : g.sessions = []
  busy : ∀ w, (g.workers w).busyQueue = []
  queue : ∀ i, (g.shared.queue i).valid = false

end Gateway

/-! ## An idle gateway -/

/-- One worker, and the commands of the `cmd_*.c` files. -/
def idleSetup : Setup Unit where
  server := ⟨32768, by decide⟩
  sched := ⟨1, 4⟩
  table := cmdTable
  eventFd := 3

/-- The first slot of the task table. -/
def firstSlot : Fin asyncQueueDepth :=
  ⟨0, Nat.zero_lt_succ 511⟩

/-- A gateway that has just started, with a UDP socket. -/
def idleGateway : Gateway Unit where
  shared := idleLink.sh
  sessions := []
  nextSid := 0
  workers := fun _ => Worker.init 4
  trans := Trans.fdMapAdd
    { ops := fun type => if type = .udp then some ⟨true, true⟩ else none
      fds := fun type => if type = .udp then 5 else -1
      fdMap := [] } 5 sessionIdUdp

theorem idleGateway_started : idleGateway.Started :=
  ⟨rfl, fun _ => rfl, fun _ => rfl⟩

end Xlab
