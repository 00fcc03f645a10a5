import Mathlib.Data.Int.Notation
import Mathlib.Data.List.Nodup
import Mathlib.Tactic.Common

/-!
# The connections of a worker

A worker has a fixed number of connection nodes, each in its queue of available or its queue
of busy nodes. The first write event of a descriptor moves the first available node to the
end of the busy queue, and the end of a connection moves its node back. The acceptor counts
the connections it gave to a worker, and the worker those it closed.
-/

namespace Xlab

/-- `XLAB_SCHEDULER_CONN_AVAILABLE`, `XLAB_SCHEDULER_CONN_PENDING` and
`XLAB_SCHEDULER_CONN_PROCESS`. -/
inductive ConnStatus where
  | available
  | pending
  | process
  deriving DecidableEq, Repr

/-- `struct sched_connection`. -/
structure SchedConnection where
  node : ℕ
  socket : ℤ
  status : ConnStatus
  deriving DecidableEq, Repr

/-- `struct sched_list_node`. -/
structure Worker where
  acceptedConnections : UInt64
  closedConnections : UInt64
  busyQueue : List SchedConnection
  avQueue : List SchedConnection

/-- The worker as `xlab_sched_register_thread` leaves it. -/
def Worker.init (capacity : ℕ) : Worker where
  acceptedConnections := 0
  closedConnections := 0
  busyQueue := []
  avQueue := (List.range capacity).map fun i => ⟨i, -1, .available⟩

/-- The settings the scheduler reads. -/
structure SchedConfig where
  workers : ℕ
  workerCapacity : UInt64

/-- `accepted_connections - closed_connections`. -/
def Worker.load (w : Worker) : UInt64 :=
  w.acceptedConnections - w.closedConnections

/-- The loop of `_next_target` over the workers after the first. It stops at a worker
without connections. -/
def leastLoaded (load : ℕ → UInt64) : List ℕ → ℕ → UInt64 → ℕ × UInt64
  | [], target, cur => (target, cur)
  | i :: is, target, cur =>
    if load i < cur then
      if load i = 0 then (i, load i) else leastLoaded load is i (load i)
    else leastLoaded load is target cur

/-- `_next_target`, `none` where the code returns −1. -/
def nextTarget (cfg : SchedConfig) (workers : ℕ → Worker) : Option ℕ :=
  let load i := (workers i).load
  if load 0 = 0 then some 0
  else
    let r := leastLoaded load (List.range' 1 (cfg.workers - 1)) 0 (load 0)
    if cfg.workerCapacity ≤ r.2 then none else some r.1

/-- `xlab_sched_get_connection`. -/
def schedGetConnection (w : Worker) (fd : ℤ) : Option SchedConnection :=
  w.busyQueue.find? fun c => c.socket == fd

/-- `xlab_sched_register_client`. It takes the first available node without looking whether
there is one. The acceptor gives a worker no more connections than it has nodes, and the model
leaves the worker alone where the code would take the list head for a node. -/
def schedRegisterClient (fd : ℤ) (w : Worker) : Worker :=
  match w.avQueue with
  | [] => w
  | c :: av =>
    { w with
      avQueue := av
      busyQueue := w.busyQueue ++ [{ c with socket := fd, status := .pending }] }

/-- `xlab_sched_remove_client` after it closed the descriptor. -/
def schedRemoveClient (fd : ℤ) (w : Worker) : Worker :=
  match schedGetConnection w fd with
  | none => w
  | some c =>
    { w with
      closedConnections := w.closedConnections + 1
      busyQueue := w.busyQueue.eraseP fun c => c.socket == fd
      avQueue := w.avQueue ++ [{ c with socket := -1, status := .available }] }

/-- The loop of `xlab_sched_update_conn_status` over the busy queue. -/
def updateStatus (fd : ℤ) (status : ConnStatus) : List SchedConnection → List SchedConnection
  | [] => []
  | c :: cs =>
    if c.socket = fd then { c with status := status } :: cs else c :: updateStatus fd status cs

/-- `xlab_sched_update_conn_status`. -/
def schedUpdateConnStatus (fd : ℤ) (status : ConnStatus) (w : Worker) : Worker :=
  { w with busyQueue := updateStatus fd status w.busyQueue }

/-- The descriptors of the busy queue. -/
def Worker.sockets (w : Worker) : List ℤ :=
  w.busyQueue.map SchedConnection.socket

theorem schedGetConnection_eq_none {w : Worker} {fd : ℤ} :
    schedGetConnection w fd = none ↔ fd ∉ w.sockets := by
  simp [schedGetConnection, Worker.sockets]

theorem registerClient_of_nil {w : Worker} (h : w.avQueue = []) (fd : ℤ) :
    schedRegisterClient fd w = w := by
  rw [schedRegisterClient, h]

/-- The first available node becomes a busy one. -/
theorem registerClient_of_ne_nil {w : Worker} (h : w.avQueue ≠ []) (fd : ℤ) :
    ∃ c av, w.avQueue = c :: av ∧ schedRegisterClient fd w = { w with
      avQueue := av
      busyQueue := w.busyQueue ++ [{ c with socket := fd, status := .pending }] } := by
  obtain ⟨c, av, hav⟩ := List.exists_cons_of_ne_nil h
  exact ⟨c, av, hav, by rw [schedRegisterClient, hav]⟩

theorem sockets_registerClient_of_ne_nil {w : Worker} (h : w.avQueue ≠ []) (fd : ℤ) :
    (schedRegisterClient fd w).sockets = w.sockets ++ [fd] := by
  obtain ⟨c, av, -, hw⟩ := registerClient_of_ne_nil h fd
  rw [hw]
  simp [Worker.sockets]

theorem sockets_registerClient (fd : ℤ) (w : Worker) :
    (schedRegisterClient fd w).sockets = w.sockets ∨
      (schedRegisterClient fd w).sockets = w.sockets ++ [fd] := by
  by_cases h : w.avQueue = []
  · exact Or.inl (by rw [registerClient_of_nil h])
  · exact Or.inr (sockets_registerClient_of_ne_nil h fd)

theorem nodup_registerClient {fd : ℤ} {w : Worker} (h : w.sockets.Nodup) (hfd : fd ∉ w.sockets) :
    (schedRegisterClient fd w).sockets.Nodup := by
  rcases sockets_registerClient fd w with he | he <;> rw [he]
  · exact h
  · exact List.nodup_append_comm.1 (List.nodup_cons.2 ⟨hfd, h⟩)

/-- A node must be available for a connection that is new. -/
theorem mem_sockets_registerClient {fd fd' : ℤ} {w : Worker}
    (h : fd' ∈ (schedRegisterClient fd w).sockets) :
    fd' ∈ w.sockets ∨ fd' = fd ∧ w.avQueue ≠ [] := by
  by_cases hav : w.avQueue = []
  · rw [registerClient_of_nil hav] at h
    exact Or.inl h
  · rw [sockets_registerClient_of_ne_nil hav, List.mem_append, List.mem_singleton] at h
    exact h.imp id fun hfd => ⟨hfd, hav⟩

theorem sockets_removeClient (fd : ℤ) (w : Worker) :
    (schedRemoveClient fd w).sockets = w.sockets.erase fd := by
  unfold schedRemoveClient
  cases h : schedGetConnection w fd with
  | none => exact (List.erase_of_not_mem (schedGetConnection_eq_none.1 h)).symm
  | some c =>
    rw [List.erase_eq_eraseP', Worker.sockets, Worker.sockets, List.eraseP_map]
    rfl

/-- A change of status leaves the nodes and the sockets where they are. -/
theorem map_updateStatus {β : Type*} (f : SchedConnection → β)
    (hf : ∀ c status, f { c with status := status } = f c) (fd : ℤ) (status : ConnStatus)
    (cs : List SchedConnection) : (updateStatus fd status cs).map f = cs.map f := by
  induction cs with
  | nil => rfl
  | cons c cs ih =>
    rw [updateStatus]
    split_ifs
    · rw [List.map_cons, List.map_cons, hf]
    · rw [List.map_cons, List.map_cons, ih]

@[simp] theorem sockets_updateConnStatus (fd : ℤ) (status : ConnStatus) (w : Worker) :
    (schedUpdateConnStatus fd status w).sockets = w.sockets :=
  map_updateStatus SchedConnection.socket (fun _ _ => rfl) fd status w.busyQueue

end Xlab
