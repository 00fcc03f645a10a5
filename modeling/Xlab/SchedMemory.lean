import Xlab.LoadCounters
import Xlab.ServerLists
import Xlab.Simulation

/-!
# The connection nodes in memory

A worker allocates an array of connection nodes once, in `xlab_sched_register_thread`, and from
then on only moves them between two lists of links and writes their fields. `Worker` is what the
rest of the development reasons about : two sequences of records.

`schedMemory_refines` : after any number of registrations, removals and changes of status the
memory holds the worker the sequences say, no link is followed that is not there, every loop ends
within one turn more than there are nodes, and a lookup finds the node of the record it should.
-/

open Circle

namespace Xlab

variable {α : Type*}

/-- Where the two heads and the nodes of a worker are : different records of memory. -/
structure SchedLayout (α : Type*) where
  av : α
  busy : α
  array : ℕ → α
  heads_ne : av ≠ busy
  av_ne : ∀ i, array i ≠ av
  busy_ne : ∀ i, array i ≠ busy
  injective : Function.Injective array

/-- The memory of a worker : the links of all records, the fields of its nodes, and its
counters. -/
structure SchedMemory (α : Type*) where
  links : Heap α
  socket : α → ℤ
  status : α → ConnStatus
  acceptedConnections : UInt64
  closedConnections : UInt64

namespace SchedMemory

variable [DecidableEq α] (L : SchedLayout α)

/-- The fields of a node are written. -/
def setNode (a : α) (fd : ℤ) (status : ConnStatus) (m : SchedMemory α) : SchedMemory α :=
  { m with socket := Function.update m.socket a fd, status := Function.update m.status a status }

/-- The loop of `xlab_sched_register_thread`, at node `i` with `n` turns to go. -/
def initNodes : ℕ → ℕ → SchedMemory α → Except Fault (SchedMemory α)
  | _, 0, m => .ok m
  | i, n + 1, m => do
    let m := m.setNode (L.array i) (-1) .available
    let links ← listAdd (L.array i) L.av m.links
    initNodes (i + 1) n { m with links := links }

/-- The lists of `xlab_sched_register_thread`. -/
def registerThread (capacity : ℕ) (m : SchedMemory α) : Except Fault (SchedMemory α) := do
  let links ← listInit L.busy m.links
  let links ← listInit L.av links
  initNodes L 0 capacity { m with links := links }

/-- `xlab_sched_get_connection`. -/
def getConnection (fuel : ℕ) (fd : ℤ) (m : SchedMemory α) : Option (Except Fault (Option α)) :=
  listFind (fun a => m.socket a == fd) L.busy fuel m.links

/-- `xlab_sched_register_client`. -/
def registerClient (fd : ℤ) (m : SchedMemory α) : Except Fault (SchedMemory α) :=
  match m.links.next L.av with
  | none => .error .nullPointer
  | some entry => do
    let links ← listMove entry L.busy m.links
    return setNode entry fd .pending { m with links := links }

/-- `xlab_sched_remove_client` after it closed the descriptor. -/
def removeClient (fuel : ℕ) (fd : ℤ) (m : SchedMemory α) :
    Option (Except Fault (SchedMemory α)) :=
  match m.getConnection L fuel fd with
  | none => none
  | some (.error f) => some (.error f)
  | some (.ok none) => some (.ok m)
  | some (.ok (some entry)) => some do
    let m := setNode entry (-1) .available
      { m with closedConnections := m.closedConnections + 1 }
    let links ← listMove entry L.av m.links
    return { m with links := links }

/-- `xlab_sched_update_conn_status`. -/
def updateConnStatus (fuel : ℕ) (fd : ℤ) (status : ConnStatus) (m : SchedMemory α) :
    Option (Except Fault (SchedMemory α)) :=
  match m.getConnection L fuel fd with
  | none => none
  | some (.error f) => some (.error f)
  | some (.ok none) => some (.ok m)
  | some (.ok (some entry)) =>
    some (.ok { m with status := Function.update m.status entry status })

end SchedMemory

/-- A call that changes the nodes or the counters of a worker. -/
inductive SchedOp where
  | count
  | register (fd : ℤ)
  | remove (fd : ℤ)
  | update (fd : ℤ) (status : ConnStatus)
  deriving DecidableEq, Repr

/-- The call on the sequences. -/
def schedStep (w : Worker) : SchedOp → Worker
  | .count => w.countAccepted
  | .register fd => schedRegisterClient fd w
  | .remove fd => schedRemoveClient fd w
  | .update fd status => schedUpdateConnStatus fd status w

namespace SchedMemory

variable [DecidableEq α] (L : SchedLayout α)

/-- The call on the memory. -/
def step (fuel : ℕ) (m : SchedMemory α) : SchedOp → Option (Except Fault (SchedMemory α))
  | .count => some (.ok { m with acceptedConnections := m.acceptedConnections + 1 })
  | .register fd => some (m.registerClient L fd)
  | .remove fd => m.removeClient L fuel fd
  | .update fd status => m.updateConnStatus L fuel fd status

/-- The calls in order. -/
def run (fuel : ℕ) : SchedMemory α → List SchedOp → Option (Except Fault (SchedMemory α))
  | m, [] => some (.ok m)
  | m, op :: ops =>
    match m.step L fuel op with
    | none => none
    | some (.error f) => some (.error f)
    | some (.ok m') => run fuel m' ops

end SchedMemory

/-! ## What the memory holds -/

/-- The memory holds the worker. -/
structure Worker.InMemory (L : SchedLayout α) (w : Worker) (m : SchedMemory α) : Prop where
  linked : ∃ q, Represents m.links [L.av, L.busy] q ∧ w.Linked L.array L.av L.busy q
  node : ∀ c ∈ w.avQueue ++ w.busyQueue,
    m.socket (L.array c.node) = c.socket ∧ m.status (L.array c.node) = c.status
  accepted : m.acceptedConnections = w.acceptedConnections
  closed : m.closedConnections = w.closedConnections

/-! ### Loops with more turns than they need -/

theorem findTurns_mono [DecidableEq α] {P : α → Bool} {head c : α} {h : Heap α} {n n' : ℕ}
    (hle : n ≤ n') {r : Except Fault (Option α)} (hr : findTurns P head h n c = some r) :
    findTurns P head h n' c = some r := by
  induction n generalizing n' c with
  | zero => cases hr
  | succ n ih =>
    obtain ⟨n', rfl⟩ : ∃ k, n' = k + 1 := ⟨n' - 1, by omega⟩
    rw [findTurns] at hr ⊢
    split_ifs at hr ⊢ with hhead hp
    · exact hr
    · exact hr
    · cases hnext : h.next c with
      | none =>
        rw [hnext] at hr
        exact hr
      | some d =>
        rw [hnext] at hr
        exact ih (Nat.le_of_succ_le_succ hle) hr

/-- A lookup in a list needs one turn more than the list is long. -/
theorem Represents.listFind_of_length_lt [DecidableEq α] {h : Heap α} {heads : List α}
    {q : Queues α} {l : α} {xs : List α} (P : α → Bool) (hr : Represents h heads q)
    (hl : q l = some xs) {fuel : ℕ} (hfuel : xs.length < fuel) :
    Xlab.listFind P l fuel h = some (.ok (xs.find? P)) := by
  have hnext := (hr.circle l xs hl).next_eq
  obtain ⟨c, -, hc⟩ := (hr.circle l xs hl).exists_next List.mem_cons_self
  rw [Xlab.listFind]
  simp only [hc.1]
  exact findTurns_mono hfuel (Represents.findTurns P [] hr hl (hnext.symm.trans hc.1))

namespace Worker

variable [DecidableEq α] {L : SchedLayout α} {w : Worker} {m : SchedMemory α}

omit [DecidableEq α] in
/-- The records of the two queues are at different places. -/
theorem InMemory.nodup (h : w.InMemory L m) :
    ((w.avQueue ++ w.busyQueue).map fun c => L.array c.node).Nodup := by
  obtain ⟨q, hr, hw⟩ := h.linked
  rw [List.map_append]
  refine List.nodup_append.2 ⟨?_, ?_, fun a ha b hb hab => ?_⟩
  · exact (List.nodup_cons.1 (hr.circle _ _ hw.available).nodup).2
  · exact (List.nodup_cons.1 (hr.circle _ _ hw.busy).nodup).2
  · exact hr.disjoint _ _ hw.available _ _ hw.busy hw.ne (List.mem_cons_of_mem _ ha)
      (List.mem_cons_of_mem _ (hab ▸ hb))

omit [DecidableEq α] in
theorem InMemory.socket_eq (h : w.InMemory L m) (fd : ℤ) :
    ∀ c ∈ w.busyQueue, (m.socket (L.array c.node) == fd) = (c.socket == fd) := by
  intro c hc
  rw [(h.node c (List.mem_append_right _ hc)).1]

omit [DecidableEq α] in
theorem InMemory.find_array (h : w.InMemory L m) (fd : ℤ) :
    (w.busyQueue.map fun c => L.array c.node).find? (fun a => m.socket a == fd) =
      (schedGetConnection w fd).map fun c => L.array c.node := by
  rw [List.find?_map, schedGetConnection]
  exact congrArg _ (List.find?_congr (h.socket_eq fd))

/-- A lookup finds the node of the record the worker has. -/
theorem InMemory.getConnection (h : w.InMemory L m) {fuel : ℕ}
    (hfuel : w.busyQueue.length < fuel) (fd : ℤ) : m.getConnection L fuel fd =
      some (.ok ((schedGetConnection w fd).map fun c => L.array c.node)) := by
  obtain ⟨q, hr, hw⟩ := h.linked
  rw [SchedMemory.getConnection, hr.listFind_of_length_lt _ hw.busy (by rwa [List.length_map]),
    h.find_array]

omit [DecidableEq α] in
theorem InMemory.mem_iff_of_array {c d : SchedConnection} {cs : List SchedConnection}
    (h : w.InMemory L m) (hold : (w.avQueue ++ w.busyQueue).Perm (c :: cs)) (hd : d ∈ cs) :
    L.array d.node ≠ L.array c.node := by
  have hnodup := (hold.map fun c => L.array c.node).nodup h.nodup
  rw [List.map_cons, List.nodup_cons] at hnodup
  exact fun he => hnodup.1 (he ▸ List.mem_map_of_mem hd)

/-- A call writes the fields of the node of one record, and the worker has that record changed. -/
theorem InMemory.node_update (h : w.InMemory L m) (w' : Worker) (c : SchedConnection)
    (cs : List SchedConnection) (fd : ℤ) (status : ConnStatus)
    (hold : (w.avQueue ++ w.busyQueue).Perm (c :: cs))
    (hnew : (w'.avQueue ++ w'.busyQueue).Perm ({ c with socket := fd, status := status } :: cs)) :
    ∀ d ∈ w'.avQueue ++ w'.busyQueue,
      Function.update m.socket (L.array c.node) fd (L.array d.node) = d.socket ∧
        Function.update m.status (L.array c.node) status (L.array d.node) = d.status := by
  intro d hd
  rcases List.mem_cons.1 (hnew.mem_iff.1 hd) with rfl | hd
  · exact ⟨Function.update_self .., Function.update_self ..⟩
  · have hne := h.mem_iff_of_array hold hd
    rw [Function.update_of_ne hne, Function.update_of_ne hne]
    exact h.node d (hold.mem_iff.2 (List.mem_cons_of_mem c hd))

/-! ### The calls -/

theorem InMemory.registerClient (h : w.InMemory L m) (hfree : w.avQueue ≠ []) (fd : ℤ) :
    ∃ m', m.registerClient L fd = .ok m' ∧ (schedRegisterClient fd w).InMemory L m' := by
  obtain ⟨q, hr, hw⟩ := h.linked
  obtain ⟨c, av, hav, hreg⟩ := registerClient_of_ne_nil hfree fd
  have hnext : m.links.next L.av = some (L.array c.node) :=
    (hr.circle _ _ hw.available).next_eq.trans (by rw [hav]; rfl)
  obtain ⟨links, q', hrun, hr', hw'⟩ : ∃ links q', schedRegisterLinks L.av L.busy m.links =
      .ok links ∧ Represents links [L.av, L.busy] q' ∧
        (schedRegisterClient fd w).Linked L.array L.av L.busy q' :=
    schedRegisterLinks_eq_ok hr hw hfree
  have hmove : Xlab.listMove (L.array c.node) L.busy m.links = .ok links := by
    rw [schedRegisterLinks, hnext] at hrun
    exact hrun
  refine ⟨SchedMemory.setNode (L.array c.node) fd .pending { m with links := links }, ?_,
    ⟨q', hr', hw'⟩, ?_, ?_, ?_⟩
  · rw [SchedMemory.registerClient, hnext]
    simp only [hmove]
    rfl
  · refine h.node_update _ c (av ++ w.busyQueue) _ _ (by rw [hav]; rfl) ?_
    rw [hreg, ← List.append_assoc]
    exact List.perm_append_singleton _ _
  · rw [hreg]
    exact h.accepted
  · rw [hreg]
    exact h.closed

/-- The record that is found, and the others. -/
theorem perm_of_getConnection {c : SchedConnection} {fd : ℤ}
    (hc : schedGetConnection w fd = some c) : (w.avQueue ++ w.busyQueue).Perm
      (c :: (w.avQueue ++ w.busyQueue.eraseP fun c => c.socket == fd)) :=
  ((perm_eraseP_of_find hc).append_left _).trans List.perm_middle

theorem InMemory.removeClient (h : w.InMemory L m) {fuel : ℕ}
    (hfuel : w.busyQueue.length < fuel) (fd : ℤ) :
    ∃ m', m.removeClient L fuel fd = some (.ok m') ∧ (schedRemoveClient fd w).InMemory L m' := by
  obtain ⟨q, hr, hw⟩ := h.linked
  rw [SchedMemory.removeClient, h.getConnection hfuel, schedRemoveClient]
  cases hc : schedGetConnection w fd with
  | none => exact ⟨m, rfl, h⟩
  | some c =>
    have hmem : L.array c.node ∈ w.busyQueue.map fun c => L.array c.node :=
      List.mem_map_of_mem (List.mem_of_find?_eq_some hc)
    obtain ⟨links, hrun, hr'⟩ := hr.listMove hw.busy hmem hw.available hw.ne.symm
    have hfind := h.find_array fd
    rw [hc, Option.map_some] at hfind
    have herase : (w.busyQueue.map fun c => L.array c.node).erase (L.array c.node) =
        (w.busyQueue.eraseP fun c => c.socket == fd).map fun c => L.array c.node := by
      rw [← eraseP_of_find? hfind, List.eraseP_map]
      exact congrArg _ (eraseP_congr (h.socket_eq fd))
    refine ⟨{ SchedMemory.setNode (L.array c.node) (-1) .available
        { m with closedConnections := m.closedConnections + 1 } with links := links },
      ?_, ⟨_, hr', hw.ne, ?_, ?_⟩, ?_, h.accepted, ?_⟩
    · simp only [Option.map_some, SchedMemory.setNode, hrun]
      rfl
    · rw [Function.update_self]
      simp
    · rw [Function.update_of_ne hw.ne.symm, Function.update_self, herase]
    · refine h.node_update _ _ _ _ _ (perm_of_getConnection hc) ?_
      rw [List.append_assoc, List.singleton_append]
      exact List.perm_middle
    · exact congrArg (· + 1) h.closed

theorem updateStatus_eq_self {fd : ℤ} (status : ConnStatus) {cs : List SchedConnection}
    (h : cs.find? (fun c => c.socket == fd) = none) : updateStatus fd status cs = cs := by
  induction cs with
  | nil => rfl
  | cons c cs ih =>
    rw [List.find?_eq_none, List.forall_mem_cons] at h
    rw [updateStatus, if_neg (by simpa using h.1), ih (List.find?_eq_none.2 h.2)]

/-- The first record of the descriptor is changed. -/
theorem exists_updateStatus {fd : ℤ} (status : ConnStatus) {c : SchedConnection}
    {cs : List SchedConnection} (h : cs.find? (fun c => c.socket == fd) = some c) :
    ∃ pre post, cs = pre ++ c :: post ∧
      updateStatus fd status cs = pre ++ { c with socket := fd, status := status } :: post := by
  obtain ⟨hp, pre, post, rfl, hpre⟩ := List.find?_eq_some_iff_append.1 h
  refine ⟨pre, post, rfl, ?_⟩
  have hc : c.socket = fd := by simpa using hp
  clear h
  induction pre with
  | nil => rw [List.nil_append, List.nil_append, updateStatus, if_pos hc, ← hc]
  | cons d pre ih =>
    rw [List.forall_mem_cons] at hpre
    rw [List.cons_append, updateStatus, if_neg (by simpa using hpre.1), ih hpre.2,
      List.cons_append]

theorem InMemory.updateConnStatus (h : w.InMemory L m) {fuel : ℕ}
    (hfuel : w.busyQueue.length < fuel) (fd : ℤ) (status : ConnStatus) :
    ∃ m', m.updateConnStatus L fuel fd status = some (.ok m') ∧
      (schedUpdateConnStatus fd status w).InMemory L m' := by
  obtain ⟨q, hr, hw⟩ := h.linked
  rw [SchedMemory.updateConnStatus, h.getConnection hfuel, schedUpdateConnStatus]
  cases hc : schedGetConnection w fd with
  | none => exact ⟨m, rfl, by rwa [updateStatus_eq_self status hc]⟩
  | some c =>
    obtain ⟨pre, post, hbusy, hupdate⟩ := exists_updateStatus status hc
    have hsocket : m.socket (L.array c.node) = fd := by
      rw [(h.node c (List.mem_append_right _ (List.mem_of_find?_eq_some hc))).1]
      simpa using List.find?_some hc
    have hsame : Function.update m.socket (L.array c.node) fd = m.socket := by
      rw [← hsocket, Function.update_eq_self]
    refine ⟨_, rfl, ⟨q, hr, hw.ne, hw.available, ?_⟩, ?_, h.accepted, h.closed⟩
    · rw [map_updateStatus (fun c => L.array c.node) fun _ _ => rfl]
      exact hw.busy
    · have hnode := h.node_update (schedUpdateConnStatus fd status w) c (w.avQueue ++ pre ++ post)
        fd status ?_ ?_
      · rwa [hsame] at hnode
      · rw [hbusy, ← List.append_assoc]
        exact List.perm_middle
      · rw [schedUpdateConnStatus, hupdate, ← List.append_assoc]
        exact List.perm_middle

/-! ### The nodes of a new worker -/

theorem init_succ (i : ℕ) : init (i + 1) =
    { init i with avQueue := (init i).avQueue ++ [⟨i, -1, .available⟩] } := by
  simp [init, List.range_succ]

omit [DecidableEq α] in
/-- A node the loop has not come to is in no list. -/
theorem unlisted_array {q : Queues α} {i : ℕ} {h : Heap α}
    (hr : Represents h [L.av, L.busy] q)
    (hw : (init i).Linked L.array L.av L.busy q) {n : ℕ} (hn : i ≤ n) :
    Unlisted h [L.av, L.busy] (L.array n) := by
  refine hr.unlisted_iff.2 fun l xs hl hmem => ?_
  rcases List.mem_cons.1 hmem with rfl | hx
  · have hhead := hr.mem_heads hl
    simp [L.av_ne, L.busy_ne] at hhead
  · have hhead := hr.mem_heads hl
    simp only [List.mem_cons, List.not_mem_nil, or_false] at hhead
    rcases hhead with rfl | rfl
    · obtain rfl := Option.some.inj (hw.available.symm.trans hl)
      simp only [init, List.map_map, List.mem_map, List.mem_range, Function.comp_apply] at hx
      obtain ⟨j, hj, he⟩ := hx
      exact absurd (L.injective he) (by omega)
    · obtain rfl := Option.some.inj (hw.busy.symm.trans hl)
      exact absurd hx List.not_mem_nil

/-- The loop adds one node after the other. -/
theorem InMemory.initNodes {n i : ℕ} {m : SchedMemory α} (h : (init i).InMemory L m) :
    ∃ m', SchedMemory.initNodes L i n m = .ok m' ∧ (init (i + n)).InMemory L m' := by
  induction n generalizing i m with
  | zero => exact ⟨m, rfl, h⟩
  | succ n ih =>
    obtain ⟨q, hr, hw⟩ := h.linked
    obtain ⟨links, hrun, hr'⟩ := hr.listAdd hw.available (unlisted_array hr hw (Nat.le_refl i))
    have hnext : (init (i + 1)).InMemory L
        { m.setNode (L.array i) (-1) .available with links := links } := by
      refine ⟨⟨_, hr', hw.ne, ?_, ?_⟩, ?_, h.accepted, h.closed⟩
      · rw [Function.update_self, init_succ]
        simp
      · rw [Function.update_of_ne hw.ne.symm, hw.busy]
        rfl
      · intro c hc
        rw [init_succ, List.append_assoc, List.mem_append] at hc
        rcases hc with hc | hc
        · have hne : L.array c.node ≠ L.array i := by
            obtain ⟨j, hj, rfl⟩ := List.mem_map.1 hc
            exact fun he => (List.mem_range.1 hj).ne (L.injective he)
          simp only [SchedMemory.setNode, Function.update_of_ne hne]
          exact h.node c (List.mem_append_left _ hc)
        · obtain rfl : c = ⟨i, -1, .available⟩ := by simpa [init] using hc
          exact ⟨Function.update_self .., Function.update_self ..⟩
    obtain ⟨m', hloop, hm'⟩ := ih hnext
    refine ⟨m', ?_, ?_⟩
    · rw [SchedMemory.initNodes]
      simp only [SchedMemory.setNode, hrun]
      exact hloop
    · rwa [Nat.add_right_comm] at hm'

/-- The memory of a worker when its thread has registered. -/
theorem InMemory.registerThread (m : SchedMemory α) (hacc : m.acceptedConnections = 0)
    (hclosed : m.closedConnections = 0) (capacity : ℕ) :
    ∃ m', SchedMemory.registerThread L capacity m = .ok m' ∧
      (init capacity).InMemory L m' := by
  obtain ⟨h₁, hrun₁, hr₁⟩ := (represents_empty m.links).listInit (l := L.busy)
    ⟨List.not_mem_nil, List.forall_mem_nil _⟩
  have hfree : Unlisted h₁ [L.busy] L.av :=
    hr₁.unlisted_iff.2 (Represents.forall_update (by simpa using L.heads_ne)
      fun _ _ _ hm => nomatch hm)
  obtain ⟨h₂, hrun₂, hr₂⟩ := hr₁.listInit hfree
  have hzero : (init 0).InMemory L { m with links := h₂ } := by
    refine ⟨⟨_, hr₂, L.heads_ne, Function.update_self _ _ _, ?_⟩, nofun, hacc, hclosed⟩
    rw [Function.update_of_ne L.heads_ne.symm, Function.update_self]
    rfl
  obtain ⟨m', hloop, hm'⟩ := hzero.initNodes (n := capacity)
  refine ⟨m', ?_, Nat.zero_add capacity ▸ hm'⟩
  rw [SchedMemory.registerThread, hrun₁]
  simp only [bind, Except.bind, hrun₂]
  exact hloop

/-! ### Runs of calls -/

/-- A node is available when a connection is registered. -/
def Frees (w : Worker) : SchedOp → Prop
  | .register _ => w.avQueue ≠ []
  | _ => True

omit [DecidableEq α] in
/-- No call loses a node. -/
theorem length_schedStep (w : Worker) (op : SchedOp) :
    (schedStep w op).avQueue.length + (schedStep w op).busyQueue.length =
      w.avQueue.length + w.busyQueue.length := by
  cases op with
  | count => rfl
  | register fd =>
    by_cases hav : w.avQueue = []
    · rw [schedStep, registerClient_of_nil hav]
    · obtain ⟨c, av, havq, hreg⟩ := registerClient_of_ne_nil hav fd
      rw [schedStep, hreg, havq]
      simp only [List.length_append, List.length_cons, List.length_nil]
      omega
  | remove fd =>
    rw [schedStep, schedRemoveClient]
    cases hc : schedGetConnection w fd with
    | none => rfl
    | some c =>
      have hlen := (perm_eraseP_of_find hc).length_eq
      simp only [List.length_append, List.length_cons, List.length_nil] at hlen ⊢
      omega
  | update fd status =>
    have hlen := congrArg List.length
      (map_updateStatus SchedConnection.node (fun _ _ => rfl) fd status w.busyQueue)
    rw [List.length_map, List.length_map] at hlen
    exact congrArg _ hlen

theorem InMemory.step (h : w.InMemory L m) {capacity : ℕ}
    (hlen : w.avQueue.length + w.busyQueue.length = capacity) {op : SchedOp} (hop : w.Frees op) :
    ∃ m', m.step L (capacity + 1) op = some (.ok m') ∧ (schedStep w op).InMemory L m' := by
  have hfuel : w.busyQueue.length < capacity + 1 := by omega
  cases op with
  | count =>
    obtain ⟨q, hr, hw⟩ := h.linked
    exact ⟨_, rfl, ⟨q, hr, hw.ne, hw.available, hw.busy⟩, h.node, congrArg (· + 1) h.accepted,
      h.closed⟩
  | register fd =>
    obtain ⟨m', hrun, hm'⟩ := h.registerClient hop fd
    exact ⟨m', congrArg some hrun, hm'⟩
  | remove fd => exact h.removeClient hfuel fd
  | update fd status => exact h.updateConnStatus hfuel fd status

theorem InMemory.run {ops : List SchedOp} {w : Worker} {m : SchedMemory α} (h : w.InMemory L m)
    {capacity : ℕ} (hlen : w.avQueue.length + w.busyQueue.length = capacity)
    (hops : Runs.Guarded schedStep Frees w ops) :
    ∃ m', m.run L (capacity + 1) ops = some (.ok m') ∧
      (Runs.run schedStep w ops).InMemory L m' := by
  induction ops generalizing w m with
  | nil => exact ⟨m, rfl, h⟩
  | cons op ops ih =>
    obtain ⟨m₁, hstep, h₁⟩ := h.step hlen hops.1
    obtain ⟨m', hrun, hm'⟩ := ih h₁ ((length_schedStep w op).trans hlen) hops.2
    refine ⟨m', ?_, hm'⟩
    rw [SchedMemory.run, hstep]
    exact hrun

end Worker

/-! ## The calls of the server -/

namespace Gateway

variable {W : Type}

/-- The call of the close handler. -/
def closeCalls (fd : ℤ) (res : ℤ × Gateway W) : List SchedOp :=
  if res.1 < 0 then [.remove fd] else []

/-- The call of `xlab_conn_write`. -/
def writeCall (w : ℕ) (fd : ℤ) (g : Gateway W) : SchedOp :=
  match schedGetConnection (g.workers w) fd with
  | none => .register fd
  | some _ => .update fd .process

/-- The calls on the nodes of worker `w` in one event of its loop. -/
def dispatchCalls (s : Setup W) (w : ℕ) (fd : ℤ) (ready : Ready) (r : ReadOutcome)
    (g : Gateway W) : List SchedOp :=
  match ready with
  | .input => closeCalls fd (g.connRead s w fd r)
  | .output => g.writeCall w fd :: closeCalls fd (g.connWrite w fd)
  | .error => .remove fd :: closeCalls fd (g.connError w fd)

end Gateway

/-- The calls on the nodes of worker `w` in one step of the server. -/
def serverCalls {W : Type} (s : Setup W) (w : ℕ) (p : Server W) : ServerEvent → List SchedOp
  | .epoll w' fd ready r => if w' = w then p.gateway.dispatchCalls s w fd ready r else []
  | .count =>
    match p.acceptor with
    | .added w' => if w' = w then [.count] else []
    | _ => []
  | _ => []

namespace Gateway

variable {W : Type} {s : Setup W} {g : Gateway W} {w w' : ℕ} {fd : ℤ} {r : ReadOutcome}

theorem workers_closeFailed (res : ℤ × Gateway W) :
    (closeFailed w fd res).workers = Function.update res.2.workers w
      (Runs.run schedStep (res.2.workers w) (closeCalls fd res)) := by
  unfold closeFailed closeCalls
  split_ifs
  · rfl
  · exact (Function.update_eq_self w _).symm

theorem workers_connWrite (g : Gateway W) (w : ℕ) (fd : ℤ) :
    (g.connWrite w fd).2.workers =
      Function.update g.workers w (schedStep (g.workers w) (g.writeCall w fd)) := by
  unfold writeCall
  rcases connWrite_cases w fd g with ⟨hfd, he⟩ | ⟨hfd, -, he⟩ | ⟨cs, hfd, -, he⟩
  · rw [he, schedGetConnection_eq_none.2 hfd]
    rfl
  · obtain ⟨c, hc⟩ := Option.ne_none_iff_exists'.1 (mt schedGetConnection_eq_none.1 (not_not.2 hfd))
    rw [he, hc]
    rfl
  · obtain ⟨c, hc⟩ := Option.ne_none_iff_exists'.1 (mt schedGetConnection_eq_none.1 (not_not.2 hfd))
    rw [he, hc, workers_leave]
    rfl

/-- An event of the loop of worker `w` does to its nodes what its calls do, and leaves those of
the others alone. -/
theorem workers_dispatch (s : Setup W) (g : Gateway W) (w : ℕ) (fd : ℤ) (ready : Ready)
    (r : ReadOutcome) : (g.epollDispatch s w fd ready r).workers = Function.update g.workers w
      (Runs.run schedStep (g.workers w) (g.dispatchCalls s w fd ready r)) := by
  rw [epollDispatch.eq_def, workers_closeFailed]
  cases ready with
  | input =>
    simp only [workers_connRead]
    rfl
  | output =>
    simp only [workers_connWrite, Function.update_idem, Function.update_self]
    rfl
  | error =>
    have herror : (g.connError w fd).2.workers =
        Function.update g.workers w (schedStep (g.workers w) (.remove fd)) :=
      (workers_sessionRemove w fd _).1
    simp only [herror, Function.update_idem, Function.update_self]
    rfl

/-- A first write event finds an available node, and the other calls need none. -/
theorem frees_dispatch {ready : Ready} (h : ready = .output →
    fd ∉ (g.workers w).sockets → (g.workers w).avQueue ≠ []) :
    Runs.Guarded schedStep Worker.Frees (g.workers w) (g.dispatchCalls s w fd ready r) := by
  have hclose : ∀ (k : Worker) (res : ℤ × Gateway W),
      Runs.Guarded schedStep Worker.Frees k (closeCalls fd res) := by
    intro k res
    refine Runs.guarded_of_forall (fun op hop k => ?_) k
    rw [closeCalls] at hop
    split_ifs at hop
    · obtain rfl := List.mem_singleton.1 hop
      trivial
    · cases hop
  cases ready with
  | input => exact hclose _ _
  | output =>
    refine ⟨?_, hclose _ _⟩
    rw [writeCall]
    cases hc : schedGetConnection (g.workers w) fd with
    | none => exact h rfl (schedGetConnection_eq_none.1 hc)
    | some c => trivial
  | error => exact ⟨trivial, hclose _ _⟩

end Gateway

section Server

variable {W : Type} {s : Setup W}

/-- Before it counts, the acceptor changes nothing but what the epoll instances watch. -/
theorem gateway_accept (s : Setup W) (p : Server W) (fd : ℤ) :
    ∃ sh, (serverStep s p (.accept fd)).gateway = { p.gateway with shared := sh } := by
  obtain ⟨g, a⟩ := p
  cases a with
  | idle =>
    simp only [serverStep]
    cases nextTarget s.sched g.workers <;> exact ⟨_, rfl⟩
  | chosen w fd' => exact ⟨_, rfl⟩
  | added w => exact ⟨_, rfl⟩

theorem gateway_epollAdd (s : Setup W) (p : Server W) (added : Bool) :
    ∃ sh, (serverStep s p (.epollAdd added)).gateway = { p.gateway with shared := sh } := by
  obtain ⟨g, a⟩ := p
  cases a with
  | idle => exact ⟨_, rfl⟩
  | chosen w fd => cases added <;> exact ⟨_, rfl⟩
  | added w => exact ⟨_, rfl⟩

theorem workers_serverStep (s : Setup W) (p : Server W) (w : ℕ) (e : ServerEvent) :
    (serverStep s p e).gateway.workers w =
      Runs.run schedStep (p.gateway.workers w) (serverCalls s w p e) := by
  obtain ⟨g, a⟩ := p
  cases e with
  | accept fd =>
    obtain ⟨sh, h⟩ := gateway_accept s ⟨g, a⟩ fd
    rw [h]
    rfl
  | epollAdd added =>
    obtain ⟨sh, h⟩ := gateway_epollAdd s ⟨g, a⟩ added
    rw [h]
    cases a <;> rfl
  | count =>
    cases a with
    | idle => rfl
    | chosen w' fd => rfl
    | added w' =>
      simp only [serverStep, serverCalls, Gateway.setWorker]
      split_ifs with hw
      · subst hw
        exact Function.update_self ..
      · exact Function.update_of_ne (Ne.symm hw) _ _
  | epoll w' fd ready r =>
    simp only [serverStep, serverCalls, Gateway.step, Gateway.workers_dispatch]
    split_ifs with hw
    · subst hw
      exact Function.update_self ..
    · exact Function.update_of_ne (Ne.symm hw) _ _
  | work i => rfl
  | sockets script => rfl

/-- The steps of the server are runs of the calls on one of its workers. -/
theorem serverCalls_simulate (hcap : 1 ≤ s.sched.workerCapacity) (w : ℕ) :
    Simulation.Simulates (serverStep s) schedStep (serverCalls s w)
      (fun p k => p.gateway.workers w = k ∧ p.Sound s) ServerPossible Worker.Frees where
  guarded := by
    rintro ⟨g, a⟩ k e ⟨rfl, hsound⟩ hp
    cases e with
    | epoll w' fd ready r =>
      simp only [serverCalls]
      split_ifs with hw
      · subst hw
        refine Gateway.frees_dispatch ?_
        rintro rfl hfd
        exact (hsound.within w').avQueue_ne_nil (a.limit_le _ w') hp hfd
      · trivial
    | count =>
      simp only [serverCalls]
      split
      · split_ifs <;> trivial
      · trivial
    | accept fd => trivial
    | epollAdd added => trivial
    | work i => trivial
    | sockets script => trivial
  related := by
    rintro p k e ⟨rfl, hsound⟩ hp
    exact ⟨workers_serverStep s p w e, sound_step hcap hsound hp⟩

/-- In a run of the server from its start, in whatever order the acceptor and the event loops make
their steps, the calls on the nodes of a worker find the links they follow, and no loop takes
more turns than there are nodes and a head. The memory then holds the worker of the model, and a
lookup finds the node of the record it should. -/
theorem schedMemory_refines [DecidableEq α] (s : Setup W) (hcap : 1 ≤ s.sched.workerCapacity)
    {g : Gateway W} (hg : g.Opened s) (es : List ServerEvent)
    (hes : Runs.Guarded (serverStep s) ServerPossible ⟨g, .idle⟩ es) (w : ℕ) (L : SchedLayout α)
    (m : SchedMemory α) (hacc : m.acceptedConnections = 0) (hclosed : m.closedConnections = 0) :
    ∃ m₀ m', m.registerThread L s.sched.workerCapacity.toNat = .ok m₀ ∧
      m₀.run L (s.sched.workerCapacity.toNat + 1)
        (Simulation.trace (serverStep s) (serverCalls s w) ⟨g, .idle⟩ es) = some (.ok m') ∧
      ((Runs.run (serverStep s) ⟨g, .idle⟩ es).gateway.workers w).InMemory L m' ∧
      ∀ fd, m'.getConnection L (s.sched.workerCapacity.toNat + 1) fd = some (.ok
        ((schedGetConnection ((Runs.run (serverStep s) ⟨g, .idle⟩ es).gateway.workers w) fd).map
          fun c => L.array c.node)) := by
  obtain ⟨m₀, hinit, h₀⟩ := Worker.InMemory.registerThread m hacc hclosed
    s.sched.workerCapacity.toNat (L := L)
  obtain ⟨hfrees, hrun, hsound⟩ := (serverCalls_simulate hcap w).run ⟨hg.workers w, hg.sound⟩ hes
  have hlen : (Worker.init s.sched.workerCapacity.toNat).avQueue.length +
      (Worker.init s.sched.workerCapacity.toNat).busyQueue.length =
        s.sched.workerCapacity.toNat := by
    simp [Worker.init]
  obtain ⟨m', hmem, hm'⟩ := h₀.run hlen hfrees
  rw [← hrun] at hm'
  have hparts := (hsound.within w).partitioned.length_add
  refine ⟨m₀, m', hinit, hmem, hm', hm'.getConnection ?_⟩
  omega

/-- The heads are at the first two addresses, and the nodes behind them. -/
def flatLayout : SchedLayout ℕ where
  av := 0
  busy := 1
  array i := i + 2
  heads_ne := by decide
  av_ne _ := by omega
  busy_ne _ := by omega
  injective _ _ h := by simpa using h

/-- A client that leaves before it is counted, in a memory of zeros. -/
theorem schedMemory_refines_earlyClient : ∃ m' : SchedMemory ℕ,
    ((Runs.run (serverStep idleSetup) ⟨launchedGateway, .idle⟩ earlyClient).gateway.workers
      0).InMemory flatLayout m' := by
  have hes : Runs.Guarded (serverStep idleSetup) ServerPossible ⟨launchedGateway, .idle⟩
      earlyClient := by
    refine ⟨trivial, trivial, ?_, ?_, trivial, trivial⟩
    · unfold ServerPossible Gateway.Possible
      decide +kernel
    · unfold ServerPossible Gateway.Possible
      decide +kernel
  obtain ⟨-, m', -, -, hm', -⟩ := schedMemory_refines idleSetup (by decide) launchedGateway_opened
    earlyClient hes 0 flatLayout ⟨fun _ => ⟨none, none⟩, 0, fun _ => .available, 0, 0⟩ rfl rfl
  exact ⟨m', hm'⟩

end Server

end Xlab
