import Xlab.Watching
import Xlab.Runs

/-!
# The capacity of a worker

A worker has `worker_capacity` nodes, and `xlab_sched_register_client` takes the first available
one without looking whether there is one. What protects it is in another thread and in other
terms : the acceptor gives a connection only to a worker whose counters differ by less than the
capacity. It adds the descriptor to the epoll instance before it counts it, so the worker may
register the connection, and even close it, before it is counted.

`Worker.Within` is the inequality that survives this : the busy nodes and the descriptors that wait
for their first write event are no more than the counters say, with one more while the acceptor
has not counted. `connections_partitioned` : whatever the order of the steps of the
acceptor and the events of the workers, the two queues of each worker partition its nodes, and
there is an available node whenever a connection is registered.
-/

namespace Xlab

variable {W : Type}

/-! ## The queues of a worker -/

namespace Worker

/-- The two queues partition the nodes, the busy sockets are distinct, and the available nodes are
reset. -/
structure Partitioned (capacity : ℕ) (k : Worker) : Prop where
  nodes : ((k.avQueue ++ k.busyQueue).map SchedConnection.node).Perm (List.range capacity)
  distinct : k.sockets.Nodup
  available : ∀ c ∈ k.avQueue, c.socket = -1 ∧ c.status = .available

theorem perm_eraseP_of_find {p : SchedConnection → Bool} {cs : List SchedConnection}
    {c : SchedConnection} (h : cs.find? p = some c) : cs.Perm (c :: cs.eraseP p) := by
  obtain ⟨hp, pre, post, rfl, hpre⟩ := List.find?_eq_some_iff_append.1 h
  have hnot : ∀ b ∈ pre, ¬p b = true := fun b hb => by simpa using hpre b hb
  rw [List.eraseP_append_right _ hnot, List.eraseP_cons_of_pos hp]
  exact List.perm_middle

theorem partitioned_init (capacity : ℕ) : (init capacity).Partitioned capacity where
  nodes := by simp [init, Function.comp_def]
  distinct := List.nodup_nil
  available c hc := by
    obtain ⟨i, -, rfl⟩ := List.mem_map.1 hc
    exact ⟨rfl, rfl⟩

namespace Partitioned

variable {capacity : ℕ} {k : Worker} {fd : ℤ}

theorem length_add (h : k.Partitioned capacity) :
    k.avQueue.length + k.busyQueue.length = capacity := by
  have hlen := h.nodes.length_eq
  rwa [List.length_map, List.length_append, List.length_range] at hlen

theorem register (h : k.Partitioned capacity) (hfd : fd ∉ k.sockets) :
    (schedRegisterClient fd k).Partitioned capacity := by
  have hnodup := nodup_registerClient h.distinct hfd
  by_cases hnil : k.avQueue = []
  · rw [registerClient_of_nil hnil]
    exact h
  · obtain ⟨c, av, hav, hk⟩ := registerClient_of_ne_nil hnil fd
    rw [hk] at hnodup ⊢
    refine ⟨?_, hnodup, fun c' hc' => h.available c' (hav ▸ List.mem_cons_of_mem c hc')⟩
    refine List.Perm.trans ?_ h.nodes
    rw [hav, List.map_append, List.map_append, List.map_append, ← List.append_assoc]
    exact List.perm_append_comm

theorem remove (h : k.Partitioned capacity) (fd : ℤ) :
    (schedRemoveClient fd k).Partitioned capacity := by
  have hsock := sockets_removeClient fd k
  unfold schedRemoveClient at hsock ⊢
  cases hc : schedGetConnection k fd with
  | none => exact h
  | some c =>
    rw [hc] at hsock
    refine ⟨List.Perm.trans ?_ h.nodes, hsock ▸ h.distinct.erase fd, fun c' hc' => ?_⟩
    · have hperm := (perm_eraseP_of_find hc).map SchedConnection.node
      rw [List.map_append, List.map_append, List.map_append, List.append_assoc]
      exact (List.Perm.refl _).append hperm.symm
    · rcases List.mem_append.1 hc' with hc' | hc'
      · exact h.available c' hc'
      · rw [List.mem_singleton.1 hc']
        exact ⟨rfl, rfl⟩

theorem updateConnStatus (h : k.Partitioned capacity) (fd : ℤ) (status : ConnStatus) :
    (schedUpdateConnStatus fd status k).Partitioned capacity where
  nodes := by
    rw [schedUpdateConnStatus, List.map_append,
      map_updateStatus SchedConnection.node (fun _ _ => rfl), ← List.map_append]
    exact h.nodes
  distinct := by
    rw [sockets_updateConnStatus]
    exact h.distinct
  available := h.available

end Partitioned

/-! ## The counters of a worker -/

/-- `sched->accepted_connections++`. -/
def countAccepted (k : Worker) : Worker :=
  { k with acceptedConnections := k.acceptedConnections + 1 }

/-- The queues partition the nodes, what is watched for reading is registered or `shared`, and the
busy nodes and the descriptors that wait for their first write event are at most what the
counters say with `extra` more, and that is at most `limit`. -/
structure Within (capacity : ℕ) (shared : ℤ → Prop) (interest : ℤ → Option EpollMode)
    (extra : UInt64) (limit : ℕ) (k : Worker) : Prop where
  partitioned : k.Partitioned capacity
  reading : ∀ fd, interest fd = some .read → fd ∈ k.sockets ∨ shared fd
  counted : ∃ fds : List ℤ, (∀ fd, interest fd = some .write → fd ∉ k.sockets → fd ∈ fds) ∧
    k.busyQueue.length + fds.length ≤ (k.load + extra).toNat
  limited : (k.load + extra).toNat ≤ limit

namespace Within

variable {capacity limit : ℕ} {shared : ℤ → Prop} {interest interest' : ℤ → Option EpollMode}
  {extra : UInt64} {k : Worker} {fd : ℤ}

/-- A worker has an available node for a descriptor that waits for its first write event. -/
theorem avQueue_ne_nil (h : Within capacity shared interest extra limit k) (hlim : limit ≤ capacity)
    (hfd : interest fd = some .write) (hnew : fd ∉ k.sockets) : k.avQueue ≠ [] := by
  obtain ⟨fds, hmem, hlen⟩ := h.counted
  have hpos : 0 < fds.length := List.length_pos_of_mem (hmem fd hfd hnew)
  have hadd := h.partitioned.length_add
  have hlim' := h.limited
  intro hnil
  rw [hnil, List.length_nil] at hadd
  omega

/-- No descriptor joins those that wait for their first write event, and what is newly watched for
reading is registered. -/
theorem mono (h : Within capacity shared interest extra limit k)
    (hwrite : ∀ fd, interest' fd = some .write → fd ∉ k.sockets → interest fd = some .write)
    (hread : ∀ fd, interest' fd = some .read → interest fd = some .read ∨ fd ∈ k.sockets) :
    Within capacity shared interest' extra limit k where
  partitioned := h.partitioned
  reading fd hfd := by
    rcases hread fd hfd with hr | hmem
    · exact h.reading fd hr
    · exact Or.inl hmem
  counted := by
    obtain ⟨fds, hmem, hlen⟩ := h.counted
    exact ⟨fds, fun fd hfd hnew => hmem fd (hwrite fd hfd hnew) hnew, hlen⟩
  limited := h.limited

/-- A descriptor that is watched and not registered waits for its first write event. -/
theorem write_of_watched (h : Within capacity shared interest extra limit k)
    (hwatched : interest fd ≠ none) (hnew : fd ∉ k.sockets) (hshared : ¬shared fd) :
    interest fd = some .write := by
  obtain ⟨m, hm⟩ := Option.ne_none_iff_exists'.1 hwatched
  cases m with
  | read => exact absurd ((h.reading fd hm).resolve_left hnew) hshared
  | write => exact hm

/-- The mode of one descriptor changes, and only to writing if it is not registered. -/
theorem tune (h : Within capacity shared interest extra limit k)
    (hothers : ∀ fd' ≠ fd, interest' fd' = interest fd')
    (hwatched : interest' fd = none ↔ interest fd = none) (hshared : ¬shared fd)
    (hmode : fd ∈ k.sockets ∨ interest' fd = interest fd ∨ interest' fd = some .write) :
    Within capacity shared interest' extra limit k := by
  refine h.mono (fun fd' hw hnew => ?_) fun fd' hr => ?_
  · by_cases he : fd' = fd
    · subst he
      exact h.write_of_watched (fun hn => by simp [hwatched.2 hn] at hw) hnew hshared
    · exact (hothers fd' he).symm.trans hw
  · by_cases he : fd' = fd
    · subst he
      rcases hmode with hmem | hsame | hwrite
      · exact Or.inr hmem
      · exact Or.inl (hsame.symm.trans hr)
      · exact absurd (hwrite.symm.trans hr) (by simp)
    · exact Or.inl ((hothers fd' he).symm.trans hr)

/-- What is watched once `fd` is closed was watched before. -/
theorem of_update_none {fd' : ℤ} {m : EpollMode}
    (h : Function.update interest fd none fd' = some m) : fd' ≠ fd ∧ interest fd' = some m := by
  rw [Function.update_apply] at h
  split_ifs at h with he
  exact ⟨he, h⟩

theorem close (h : Within capacity shared interest extra limit k) (fd : ℤ) :
    Within capacity shared (Function.update interest fd none) extra limit k :=
  h.mono (fun _ hm _ => (of_update_none hm).2) fun _ hm => Or.inl (of_update_none hm).2

theorem updateConnStatus (h : Within capacity shared interest extra limit k) (fd : ℤ)
    (status : ConnStatus) :
    Within capacity shared interest extra limit (schedUpdateConnStatus fd status k) where
  partitioned := h.partitioned.updateConnStatus fd status
  reading := by
    rw [sockets_updateConnStatus]
    exact h.reading
  counted := by
    have hlen : (schedUpdateConnStatus fd status k).busyQueue.length = k.busyQueue.length := by
      have := congrArg List.length (sockets_updateConnStatus fd status k)
      simpa [sockets] using this
    rw [sockets_updateConnStatus, hlen]
    exact h.counted
  limited := h.limited

/-- The first write event takes a descriptor from those that wait to the busy nodes. -/
theorem register (h : Within capacity shared interest extra limit k) (hlim : limit ≤ capacity)
    (hfd : interest fd = some .write) (hnew : fd ∉ k.sockets) :
    Within capacity shared (Function.update interest fd (some .read)) extra limit
      (schedRegisterClient fd k) := by
  have hav := h.avQueue_ne_nil hlim hfd hnew
  obtain ⟨c, av, -, hk⟩ := registerClient_of_ne_nil hav fd
  have hsock := sockets_registerClient_of_ne_nil hav fd
  obtain ⟨fds, hmem, hlen⟩ := h.counted
  have hin := hmem fd hfd hnew
  refine ⟨h.partitioned.register hnew, fun fd' hr => ?_,
    ⟨fds.erase fd, fun fd' hw hn => ?_, ?_⟩, ?_⟩
  · rw [hsock]
    by_cases he : fd' = fd
    · exact Or.inl (by simp [he])
    · rw [Function.update_of_ne he] at hr
      exact (h.reading fd' hr).imp (List.mem_append_left _) id
  · rw [hsock, List.mem_append, List.mem_singleton, not_or] at hn
    rw [Function.update_of_ne hn.2] at hw
    exact (List.mem_erase_of_ne hn.2).2 (hmem fd' hw hn.1)
  · have hpos : 0 < fds.length := List.length_pos_of_mem hin
    rw [hk, List.length_erase_of_mem hin]
    simp only [List.length_append, List.length_singleton]
    change _ ≤ (k.load + extra).toNat
    omega
  · rw [hk]
    exact h.limited

/-- One connection more is counted as closed. -/
theorem toNat_load_closed {k' : Worker} (hacc : k'.acceptedConnections = k.acceptedConnections)
    (hclosed : k'.closedConnections = k.closedConnections + 1)
    (hpos : 1 ≤ (k.load + extra).toNat) :
    (k'.load + extra).toNat = (k.load + extra).toNat - 1 := by
  have hload : k'.load + extra = k.load + extra - 1 := by
    simp only [load, hacc, hclosed]
    grind
  have hone : (1 : UInt64) ≤ k.load + extra := UInt64.le_iff_toNat_le.2 hpos
  rw [hload, UInt64.toNat_sub_of_le _ _ hone, UInt64.toNat_one]

/-- A connection is closed. If it was registered it is counted as closed and its node is free. -/
theorem remove (h : Within capacity shared interest extra limit k) (fd : ℤ) :
    Within capacity shared (Function.update interest fd none) extra limit
      (schedRemoveClient fd k) := by
  have hpart := h.partitioned.remove fd
  have hsock := sockets_removeClient fd k
  cases hc : schedGetConnection k fd with
  | none =>
    have hk : schedRemoveClient fd k = k := by rw [schedRemoveClient, hc]
    rw [hk]
    exact h.close fd
  | some c =>
    have hperm := (perm_eraseP_of_find hc).length_eq
    rw [List.length_cons] at hperm
    have hk : schedRemoveClient fd k = { k with
        closedConnections := k.closedConnections + 1
        busyQueue := k.busyQueue.eraseP fun c => c.socket == fd
        avQueue := k.avQueue ++ [{ c with socket := -1, status := .available }] } := by
      rw [schedRemoveClient, hc]
    obtain ⟨fds, hmem, hlen⟩ := h.counted
    -- one busy node less and one connection closed
    have hload : ((schedRemoveClient fd k).load + extra).toNat = (k.load + extra).toNat - 1 :=
      toNat_load_closed (by rw [hk]) (by rw [hk]) (by omega)
    refine ⟨hpart, fun fd' hr => ?_, ⟨fds, fun fd' hw hn => ?_, ?_⟩, ?_⟩
    · obtain ⟨hne, hr⟩ := of_update_none hr
      rw [hsock]
      exact (h.reading fd' hr).imp (List.mem_erase_of_ne hne).2 id
    · obtain ⟨hne, hw⟩ := of_update_none hw
      rw [hsock] at hn
      exact hmem fd' hw fun hin => hn ((List.mem_erase_of_ne hne).2 hin)
    · rw [hload, hk]
      change (k.busyQueue.eraseP fun c => c.socket == fd).length + fds.length ≤ _
      omega
    · rw [hload]
      exact (Nat.sub_le _ _).trans h.limited

/-- The acceptor adds a descriptor to the epoll instance. -/
theorem arm (h : Within capacity shared interest 0 limit k) (fd : ℤ) (hlim : limit < capacity)
    (hcap : capacity < UInt64.size) :
    Within capacity shared (Function.update interest fd (some .write)) 1 (limit + 1) k := by
  have hlim' := h.limited
  have hload : (k.load + 1).toNat = (k.load + 0).toNat + 1 := by
    rw [UInt64.add_zero] at hlim' ⊢
    rw [UInt64.toNat_add, UInt64.toNat_one]
    exact Nat.mod_eq_of_lt (show k.load.toNat + 1 < UInt64.size by omega)
  obtain ⟨fds, hmem, hlen⟩ := h.counted
  refine ⟨h.partitioned, fun fd' hr => ?_, ⟨fd :: fds, fun fd' hw hn => ?_, ?_⟩, ?_⟩
  · rw [Function.update_apply] at hr
    split_ifs at hr
    · cases hr
    · exact h.reading fd' hr
  · rw [Function.update_apply] at hw
    split_ifs at hw with he
    · exact List.mem_cons.2 (Or.inl he)
    · exact List.mem_cons_of_mem fd (hmem fd' hw hn)
  · rw [hload, List.length_cons]
    omega
  · rw [hload]
    omega

/-- The acceptor counts the connection it added. -/
theorem count (h : Within capacity shared interest 1 limit k) :
    Within capacity shared interest 0 limit k.countAccepted := by
  have hload : k.countAccepted.load + 0 = k.load + 1 := by
    simp only [load, countAccepted]
    grind
  exact ⟨⟨h.partitioned.nodes, h.partitioned.distinct, h.partitioned.available⟩, h.reading,
    hload ▸ h.counted, hload ▸ h.limited⟩

theorem relimit (h : Within capacity shared interest extra limit k) {limit' : ℕ}
    (hlim : (k.load + extra).toNat ≤ limit') : Within capacity shared interest extra limit' k :=
  ⟨h.partitioned, h.reading, h.counted, hlim⟩

end Within

end Worker

/-! ## The acceptor -/

theorem leastLoaded_snd (load : ℕ → UInt64) (is : List ℕ) {target : ℕ} {cur : UInt64}
    (h : cur = load target) :
    (leastLoaded load is target cur).2 = load (leastLoaded load is target cur).1 := by
  induction is generalizing target cur with
  | nil => exact h
  | cons i is ih =>
    rw [leastLoaded]
    split_ifs
    · rfl
    · exact ih rfl
    · exact ih h

/-- A worker that is chosen has fewer connections than nodes. -/
theorem load_lt_of_nextTarget {cfg : SchedConfig} {workers : ℕ → Worker} {w : ℕ}
    (hcap : 1 ≤ cfg.workerCapacity) (h : nextTarget cfg workers = some w) :
    (workers w).load.toNat < cfg.workerCapacity.toNat := by
  unfold nextTarget at h
  simp only [] at h
  split_ifs at h with h0 hfull
  · obtain rfl := Option.some.inj h
    rw [h0]
    exact UInt64.le_iff_toNat_le.1 hcap
  · obtain rfl := Option.some.inj h
    rw [← leastLoaded_snd (fun i => (workers i).load) _ rfl]
    exact UInt64.lt_iff_toNat_lt.1 (UInt64.not_le.1 hfull)

/-- Where the acceptor is in `xlab_server_loop` : at `accept`, past `_next_target` with the
worker it chose for a descriptor, or past `xlab_epoll_add`. -/
inductive Acceptor where
  | idle
  | chosen (w : ℕ) (fd : ℤ)
  | added (w : ℕ)
  deriving DecidableEq, Repr

/-- The gateway, and where its acceptor is. -/
structure Server (W : Type) where
  gateway : Gateway W
  acceptor : Acceptor

/-- A step of the acceptor, or an event of the rest of the gateway. -/
inductive ServerEvent where
  /-- A connection is accepted, and `_next_target` looks for a worker. -/
  | accept (fd : ℤ)
  /-- `xlab_epoll_add`, which succeeds or not. -/
  | epollAdd (added : Bool)
  /-- `accepted_connections++`. -/
  | count
  /-- An event loop handles an event. -/
  | epoll (w : ℕ) (fd : ℤ) (ready : Gateway.Ready) (r : ReadOutcome)
  /-- The background thread is at a slot. -/
  | work (i : Fin asyncQueueDepth)
  /-- The sockets get ready for the calls of a new script. -/
  | sockets (script : List IoOutcome)

/-- One step. The acceptor closes a descriptor it found no worker for or could not add. -/
def serverStep (s : Setup W) (p : Server W) : ServerEvent → Server W
  | .accept fd =>
    match p.acceptor with
    | .idle =>
      match nextTarget s.sched p.gateway.workers with
      | none => ⟨p.gateway.closeFd fd, .idle⟩
      | some w => ⟨p.gateway, .chosen w fd⟩
    | _ => p
  | .epollAdd added =>
    match p.acceptor with
    | .chosen w fd =>
      if added then ⟨p.gateway.arm w fd, .added w⟩ else ⟨p.gateway.closeFd fd, .idle⟩
    | _ => p
  | .count =>
    match p.acceptor with
    | .added w => ⟨p.gateway.setWorker w Worker.countAccepted, .idle⟩
    | _ => p
  | .epoll w fd ready r => { p with gateway := p.gateway.step s (.epoll w fd ready r) }
  | .work i => { p with gateway := p.gateway.step s (.work i) }
  | .sockets script => { p with gateway := p.gateway.step s (.sockets script) }

/-- The three steps of the acceptor with nothing between them are `acceptClient`. -/
theorem accept_steps (s : Setup W) (g : Gateway W) (fd : ℤ) (added : Bool) :
    Runs.run (serverStep s) ⟨g, .idle⟩ [.accept fd, .epollAdd added, .count] =
      ⟨g.acceptClient s fd added, .idle⟩ := by
  simp only [Runs.run_cons, Runs.run_nil, serverStep, Gateway.acceptClient]
  cases nextTarget s.sched g.workers with
  | none => rfl
  | some w => cases added <;> rfl

/-- The kernel can deliver the event. -/
def ServerPossible (p : Server W) : ServerEvent → Prop
  | .epoll w fd ready r => p.gateway.Possible (.epoll w fd ready r)
  | _ => True

/-- The connections of worker `w` the acceptor added and did not count. -/
def Acceptor.uncounted : Acceptor → ℕ → UInt64
  | .added w, w' => if w' = w then 1 else 0
  | _, _ => 0

/-- The most connections worker `w` may have. One less while the acceptor is about to add
another. -/
def Acceptor.limit (capacity : ℕ) : Acceptor → ℕ → ℕ
  | .chosen w _, w' => if w' = w then capacity - 1 else capacity
  | _, _ => capacity

namespace Gateway

/-- The descriptors that are no connections : the `eventfd`, the UDP and the UART descriptor. -/
def IsShared (s : Setup W) (tr : Trans) (fd : ℤ) : Prop :=
  fd = s.eventFd ∨ tr.isDatagram fd = true

/-- Every worker is within its capacity, and sessions are on sockets of connections. -/
structure Counted (s : Setup W) (extra : ℕ → UInt64) (limit : ℕ → ℕ) (g : Gateway W) : Prop where
  within : ∀ w, (g.workers w).Within s.sched.workerCapacity.toNat (IsShared s g.trans)
    (g.shared.interest w) (extra w) (limit w)
  session : ∀ cs ∈ g.sessions, ¬IsShared s g.trans cs.ident.socket

namespace Counted

variable {s : Setup W} {extra : ℕ → UInt64} {limit : ℕ → ℕ} {g : Gateway W}

theorem of_interest (h : Counted s extra limit g) {sh : Shared W}
    (hi : sh.interest = g.shared.interest) : Counted s extra limit { g with shared := sh } :=
  ⟨fun w => by rw [hi]; exact h.within w, h.session⟩

/-- Calls change the mode of the socket of a session, and only to writing if it is the socket of
no connection of the worker. -/
theorem put (h : Counted s extra limit g) {w : ℕ} {cs : Session} {l : Link W}
    (hcs : cs ∈ g.sessions) (hid : l.cs.ident = cs.ident)
    (ht : Tunes w cs.ident.socket g.shared l.sh)
    (hmode : cs.ident.socket ∈ (g.workers w).sockets ∨
      l.sh.interest w cs.ident.socket = g.shared.interest w cs.ident.socket ∨
      l.sh.interest w cs.ident.socket = some .write) : Counted s extra limit (g.put l) := by
  refine ⟨fun w' => ?_, fun y hy => ?_⟩
  · by_cases hw : w' = w
    · subst hw
      exact (h.within w').tune (fun fd hne => ht.others w' fd fun _ => hne) ht.watched
        (h.session cs hcs) hmode
    · have hsame : l.sh.interest w' = g.shared.interest w' :=
        funext fun fd => ht.others w' fd fun he => absurd he hw
      change (g.workers w').Within _ _ (l.sh.interest w') _ _
      rw [hsame]
      exact h.within w'
  · rcases Registry.eq_of_mem_store hy with rfl | ⟨hy, -⟩
    · rw [hid]
      exact h.session cs hcs
    · exact h.session y hy

theorem sessionRemove (h : Counted s extra limit g) (w : ℕ) (fd : ℤ) :
    Counted s extra limit (g.sessionRemove w fd) := by
  unfold Gateway.sessionRemove
  split
  · exact h
  · exact ⟨h.within, fun cs hcs => h.session cs (List.mem_of_mem_eraseP hcs)⟩

theorem removeClient (h : Counted s extra limit g) (w : ℕ) (fd : ℤ) :
    Counted s extra limit (g.removeClient w fd) := by
  refine ⟨fun w' => ?_, h.session⟩
  by_cases hw : w' = w
  · subst hw
    have hk : (g.removeClient w' fd).workers w' = schedRemoveClient fd (g.workers w') := by
      simp [Gateway.removeClient, setWorker, closeFd]
    rw [hk]
    exact (h.within w').remove fd
  · have hk : (g.removeClient w fd).workers w' = g.workers w' := by
      simp [Gateway.removeClient, setWorker, closeFd, hw]
    rw [hk]
    exact (h.within w').close fd

theorem updateConnStatus (h : Counted s extra limit g) (w : ℕ) (fd : ℤ) (status : ConnStatus) :
    Counted s extra limit (g.setWorker w (schedUpdateConnStatus fd status)) := by
  refine ⟨fun w' => ?_, h.session⟩
  by_cases hw : w' = w
  · subst hw
    have hk : (g.setWorker w' (schedUpdateConnStatus fd status)).workers w' =
        schedUpdateConnStatus fd status (g.workers w') := by simp [setWorker]
    rw [hk]
    exact (h.within w').updateConnStatus fd status
  · have hk : (g.setWorker w (schedUpdateConnStatus fd status)).workers w' = g.workers w' := by
      simp [setWorker, hw]
    rw [hk]
    exact h.within w'

theorem leave {w : ℕ} {fd : ℤ} {e : Exit W} (hput : Counted s extra limit (g.put e.link)) :
    Counted s extra limit (g.leave w fd e).2 :=
  leave_keeps (fun _ h => h.sessionRemove w fd) hput

theorem closeFailed {w : ℕ} {fd : ℤ} {res : ℤ × Gateway W} (h : Counted s extra limit res.2) :
    Counted s extra limit (closeFailed w fd res) :=
  closeFailed_keeps (h.removeClient w fd) h

theorem flushSlot (h : Counted s extra limit g) (w : ℕ) (i : Fin asyncQueueDepth) :
    Counted s extra limit (g.flushSlot w i) := by
  refine flushSlot_keeps (h.of_interest rfl) (fun cs ht => ?_) h
  have harms := arms_flushDeliver w i ⟨cs, g.shared⟩
  exact h.put (Registry.mem_of_find (session_of_flushTarget ht)) harms.ident harms.tunes
    (Or.inr harms.raises)

theorem flushCompleted (h : Counted s extra limit g) (w : ℕ) :
    Counted s extra limit (g.flushCompleted w) :=
  flushCompleted_keeps (fun _ i h => h.flushSlot w i) h

/-- A session is created for a connection. -/
theorem addSession (h : Counted s extra limit g) {w : ℕ} {fd : ℤ}
    (hfd : ¬IsShared s g.trans fd) :
    Counted s extra limit (g.addSession (Session.create ⟨g.nextSid, w, fd⟩)) := by
  refine ⟨h.within, fun cs hcs => ?_⟩
  rcases List.mem_append.1 hcs with hcs | hcs
  · exact h.session cs hcs
  · rw [List.mem_singleton.1 hcs]
    exact hfd

theorem connRead (h : Counted s extra limit g) (w : ℕ) (fd : ℤ) (r : ReadOutcome) :
    Counted s extra limit (g.connRead s w fd r).2 := by
  refine connRead_keeps (fun _ => h.flushCompleted w) ?_ (fun cs g' hev hdg ho => ?_) h
  · rw [connReadDatagram_eq]
    exact h.of_interest (interest_connReadDatagram s fd r g)
  · obtain ⟨h', hcs⟩ : Counted s extra limit g' ∧ cs ∈ g'.sessions := by
      rcases openSession_cases ho with ⟨hget, rfl⟩ | ⟨-, -, rfl, rfl⟩
      · exact ⟨h, Registry.mem_of_find hget⟩
      · exact ⟨h.addSession (not_or.2 ⟨hev, hdg⟩), List.mem_append_right _ List.mem_cons_self⟩
    have harms := arms_connReadTcp s.server w s.table r ⟨cs, g'.shared⟩
    exact leave (h'.put hcs harms.ident harms.tunes (Or.inr harms.raises))

theorem connWrite (h : Counted s extra limit g) {w : ℕ} {fd : ℤ}
    (hlim : limit w ≤ s.sched.workerCapacity.toNat)
    (hp : g.shared.interest w fd = some .write) :
    Counted s extra limit (g.connWrite w fd).2 := by
  have hmark := h.updateConnStatus w fd .process
  rcases connWrite_cases w fd g with ⟨hfd, he⟩ | ⟨-, -, he⟩ | ⟨cs, hfd, hget, he⟩ <;> rw [he]
  · refine ⟨fun w' => ?_, h.session⟩
    change ((g.setWorker w (schedRegisterClient fd)).workers w').Within _ _
      ((epollChangeMode w fd .read g.shared).interest w') _ _
    rw [epollChangeMode_interest_of_some hp]
    by_cases hw : w' = w
    · subst hw
      simp only [setWorker, Function.update_self]
      exact (h.within w').register hlim hp hfd
    · simp only [setWorker, Function.update_of_ne hw]
      exact h.within w'
  · exact hmark
  · refine leave (hmark.put (Registry.mem_of_find hget) (connWriteTcp_ident w ⟨cs, g.shared⟩)
      (connWriteTcp_tunes w ⟨cs, g.shared⟩) (Or.inl ?_))
    rw [sockets_setWorker_status, (Roll.isAt_iff.1 (Registry.find_key hget)).2]
    exact hfd

/-- Every event of an event loop keeps the workers within their capacity. -/
theorem epollDispatch (h : Counted s extra limit g) {w : ℕ} {fd : ℤ} {ready : Ready}
    {r : ReadOutcome} (hlim : limit w ≤ s.sched.workerCapacity.toNat)
    (hp : g.Possible (.epoll w fd ready r)) :
    Counted s extra limit (g.epollDispatch s w fd ready r) := by
  rw [epollDispatch.eq_def]
  refine closeFailed ?_
  cases ready with
  | input => exact h.connRead w fd r
  | output => exact h.connWrite hlim hp
  | error => exact (h.removeClient w fd).sessionRemove w fd

theorem closeFd (h : Counted s extra limit g) (fd : ℤ) : Counted s extra limit (g.closeFd fd) :=
  ⟨fun w => (h.within w).close fd, h.session⟩

end Counted

end Gateway

/-! ## Runs -/

/-- The workers are within their capacity, as far as the acceptor has come. -/
def Server.Sound (s : Setup W) (p : Server W) : Prop :=
  p.gateway.Counted s p.acceptor.uncounted (p.acceptor.limit s.sched.workerCapacity.toNat)

theorem Acceptor.limit_le (a : Acceptor) (capacity w : ℕ) : a.limit capacity w ≤ capacity := by
  unfold limit
  split
  · split_ifs
    · exact Nat.sub_le _ _
    · exact Nat.le_refl _
  · exact Nat.le_refl _

theorem sound_accept {s : Setup W} (hcap : 1 ≤ s.sched.workerCapacity) {g : Gateway W}
    (h : (⟨g, .idle⟩ : Server W).Sound s) (fd : ℤ) :
    (serverStep s ⟨g, .idle⟩ (.accept fd)).Sound s := by
  simp only [serverStep]
  cases ht : nextTarget s.sched g.workers with
  | none => exact Gateway.Counted.closeFd h fd
  | some w =>
    have hload := load_lt_of_nextTarget hcap ht
    refine ⟨fun w' => (h.within w').relimit ?_, h.session⟩
    have hlim := (h.within w').limited
    simp only [Acceptor.limit, Acceptor.uncounted] at hlim ⊢
    split_ifs with hw
    · subst hw
      rw [UInt64.add_zero]
      omega
    · exact hlim

theorem sound_epollAdd {s : Setup W} (hcap : 1 ≤ s.sched.workerCapacity) {g : Gateway W} {w : ℕ}
    {fd : ℤ} (h : (⟨g, .chosen w fd⟩ : Server W).Sound s) (added : Bool) :
    (serverStep s ⟨g, .chosen w fd⟩ (.epollAdd added)).Sound s := by
  have hpos := UInt64.le_iff_toNat_le.1 hcap
  rw [UInt64.toNat_one] at hpos
  cases added with
  | false =>
    refine ⟨fun w' => ((h.within w').close fd).relimit ?_, h.session⟩
    exact (h.within w').limited.trans (Acceptor.limit_le _ _ _)
  | true =>
    refine ⟨fun w' => ?_, h.session⟩
    have hwithin := h.within w'
    by_cases hw : w' = w
    · subst hw
      simp only [Acceptor.limit, Acceptor.uncounted, if_true] at hwithin
      have harm := hwithin.arm fd (show s.sched.workerCapacity.toNat - 1 < _ by omega)
        (UInt64.toNat_lt_size _)
      rw [Nat.sub_add_cancel hpos] at harm
      simpa [serverStep, Gateway.arm, Acceptor.uncounted, Acceptor.limit] using harm
    · simpa [serverStep, Gateway.arm, Acceptor.uncounted, Acceptor.limit, hw] using hwithin

theorem sound_count {s : Setup W} {g : Gateway W} {w : ℕ}
    (h : (⟨g, .added w⟩ : Server W).Sound s) : (serverStep s ⟨g, .added w⟩ .count).Sound s := by
  refine ⟨fun w' => ?_, h.session⟩
  have hwithin := h.within w'
  by_cases hw : w' = w
  · subst hw
    simp only [Acceptor.limit, Acceptor.uncounted, if_true] at hwithin
    simpa [serverStep, Gateway.setWorker, Acceptor.uncounted, Acceptor.limit] using hwithin.count
  · simpa [serverStep, Gateway.setWorker, Acceptor.uncounted, Acceptor.limit, hw] using hwithin

theorem sound_step {s : Setup W} (hcap : 1 ≤ s.sched.workerCapacity) {p : Server W}
    {e : ServerEvent}
    (h : p.Sound s) (hp : ServerPossible p e) : (serverStep s p e).Sound s := by
  obtain ⟨g, a⟩ := p
  cases e with
  | accept fd =>
    cases a with
    | idle => exact sound_accept hcap h fd
    | chosen w fd' => exact h
    | added w => exact h
  | epollAdd added =>
    cases a with
    | idle => exact h
    | chosen w fd => exact sound_epollAdd hcap h added
    | added w => exact h
  | count =>
    cases a with
    | idle => exact h
    | chosen w fd => exact h
    | added w => exact sound_count h
  | epoll w fd ready r => exact Gateway.Counted.epollDispatch h (a.limit_le _ w) hp
  | work i => exact Gateway.Counted.of_interest h (by unfold Shared.work; rfl)
  | sockets script => exact Gateway.Counted.of_interest h rfl

/-- A gateway before its first event. Its event loops watch the `eventfd`, the UDP and the UART
descriptor. -/
structure Gateway.Opened (s : Setup W) (g : Gateway W) : Prop where
  sessions : g.sessions = []
  workers : ∀ w, g.workers w = Worker.init s.sched.workerCapacity.toNat
  watched : ∀ w fd m, g.shared.interest w fd = some m → m = .read ∧ IsShared s g.trans fd

theorem Gateway.Opened.sound {s : Setup W} {g : Gateway W} (hg : g.Opened s) :
    (⟨g, .idle⟩ : Server W).Sound s := by
  refine ⟨fun w => ?_, by simp [hg.sessions]⟩
  rw [hg.workers]
  refine ⟨Worker.partitioned_init _, fun fd hr => Or.inr (hg.watched w fd _ hr).2,
    ⟨[], fun fd hw => ?_, ?_⟩, ?_⟩
  · exact absurd (hg.watched w fd _ hw).1 (by simp)
  · simp [Worker.init]
  · simp [Worker.init, Worker.load, Acceptor.uncounted]

/-- In a run of the server from its start, in whatever order the acceptor and the event loops make
their steps, the two queues of every worker partition its nodes, busy sockets are distinct and
available nodes are reset, and a first write event finds an available node. -/
theorem connections_partitioned (s : Setup W) (hcap : 1 ≤ s.sched.workerCapacity) {g : Gateway W}
    (hg : g.Opened s) (es : List ServerEvent)
    (hes : Runs.Guarded (serverStep s) ServerPossible ⟨g, .idle⟩ es) :
    (∀ w, ((Runs.run (serverStep s) ⟨g, .idle⟩ es).gateway.workers w).Partitioned
        s.sched.workerCapacity.toNat) ∧
      ∀ w fd r, ServerPossible (Runs.run (serverStep s) ⟨g, .idle⟩ es) (.epoll w fd .output r) →
        fd ∉ ((Runs.run (serverStep s) ⟨g, .idle⟩ es).gateway.workers w).sockets →
          ((Runs.run (serverStep s) ⟨g, .idle⟩ es).gateway.workers w).avQueue ≠ [] := by
  have hsound : (Runs.run (serverStep s) ⟨g, .idle⟩ es).Sound s :=
    Runs.run_invariant (I := fun p : Server W => p.Sound s) (fun _ _ h hp => sound_step hcap h hp)
      hg.sound hes
  generalize Runs.run (serverStep s) ⟨g, .idle⟩ es = p at hsound
  refine ⟨fun w => (hsound.within w).partitioned, fun w fd r hp hfd => ?_⟩
  exact (hsound.within w).avQueue_ne_nil (p.acceptor.limit_le _ w) hp hfd

theorem launchedGateway_opened : launchedGateway.Opened idleSetup where
  sessions := rfl
  workers _ := rfl
  watched w fd m hm := by
    rw [launchedGateway_interest] at hm
    split_ifs at hm with hwatched
    refine ⟨(Option.some.inj hm).symm, ?_⟩
    rcases hwatched.2 with rfl | rfl
    · exact Or.inl rfl
    · exact Or.inr (by decide)

/-- A client is registered and leaves before the acceptor counts it. -/
def earlyClient : List ServerEvent :=
  [.accept 7, .epollAdd true, .epoll 0 7 .output (.data []), .epoll 0 7 .error (.data []), .count]

theorem connections_partitioned_earlyClient :
    ((Runs.run (serverStep idleSetup) ⟨launchedGateway, .idle⟩ earlyClient).gateway.workers
      0).Partitioned 4 := by
  refine (connections_partitioned idleSetup (by decide) launchedGateway_opened earlyClient
    ⟨trivial, trivial, ?_, ?_, trivial, trivial⟩).1 0
  · unfold ServerPossible Gateway.Possible
    decide +kernel
  · unfold ServerPossible Gateway.Possible
    decide +kernel

end Xlab
