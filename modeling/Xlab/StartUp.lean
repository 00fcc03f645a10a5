import Xlab.CStrings
import Xlab.EventLoop
import Mathlib.Data.List.Count

/-!
# Starting the workers

The main thread launches one thread for each worker, and waits until every node of `sched_list`
is marked initialized before it accepts connections. The threads take their index from one
counter, under a lock, set up their node, fill their epoll instance, and mark the node.

An epoll instance or a thread that cannot be created is passed over in silence, and so is a
descriptor that cannot be added to an epoll instance. `startUp_launched` : if the main thread comes
to accept, then every launch succeeded, every node belongs to a thread of its own, every loop
watches what could be added to its instance, and the loops are as `LoopsLaunched` asks for exactly
when the eventfd and the UDP descriptor could each be added to some instance. `accepts_iff` : once
all threads there are have come to their loop, the main thread comes to accept exactly when every
launch succeeded.
-/

open CStr

namespace Xlab

/-- Where a thread is in `xlab_sched_launch_worker_loop`, with its index in `sched_list`. -/
inductive ThreadPhase where
  | created
  | registered (wid : ℤ)
  | listed (wid : ℤ)
  | watching (wid : ℤ)
  | looping (wid : ℤ)
  deriving DecidableEq, Repr

/-- A worker thread, with the epoll descriptor it was given. -/
structure WorkerThread where
  efd : ℤ
  phase : ThreadPhase
  deriving DecidableEq, Repr

/-- `struct sched_list_node`, as far as the start sets it. `lists` are the queues and counters,
`none` while the links are zero. -/
structure SchedNode where
  idx : ℤ
  tid : Option ℕ
  epollFd : ℤ
  initialized : Bool
  lists : Option Worker

/-- A node of the zeroed array `xlab_sched_init` allocates. -/
def SchedNode.zero : SchedNode :=
  ⟨0, none, 0, false, none⟩

namespace ThreadPhase

/-- The index of the thread, once it has one. -/
def index : ThreadPhase → Option ℤ
  | .created => none
  | .registered wid => some wid
  | .listed wid => some wid
  | .watching wid => some wid
  | .looping wid => some wid

/-- The queues of its node are there. -/
def hasLists : ThreadPhase → Bool
  | .created | .registered _ => false
  | .listed _ | .watching _ | .looping _ => true

/-- Its epoll instance is filled. -/
def hasWatches : ThreadPhase → Bool
  | .created | .registered _ | .listed _ => false
  | .watching _ | .looping _ => true

/-- It is in the event loop. -/
def inLoop : ThreadPhase → Bool
  | .looping _ => true
  | _ => false

end ThreadPhase

/-- What the start reads. The number of workers is a `short`. `added efd fd` tells whether the
kernel adds `fd` to the epoll instance `efd`. -/
structure StartConfig (W : Type) where
  setup : Setup W
  trans : Trans
  capacity : ℤ
  added : ℤ → ℤ → Bool
  workers_lt : setup.sched.workers < 2 ^ 15

/-- The main thread has called `xlab_sched_launch_thread` `launched` times. `wid` is the static
counter, `watches` the contents of the epoll instances, and `accessed` are the indices of
`sched_list` that were used. -/
structure StartUp where
  launched : ℕ
  threads : List WorkerThread
  wid : ℕ
  nodes : ℤ → SchedNode
  watches : ℤ → ℤ → Option EpollMode
  accessed : List ℤ
  accepting : Bool

/-- The node of thread `t`, whose index is `k`. -/
def WorkerThread.node (capacity : ℤ) (t : ℕ) (th : WorkerThread) (k : ℤ) : SchedNode where
  idx := k
  tid := some t
  epollFd := th.efd
  initialized := th.phase.inLoop
  lists := if th.phase.hasLists then some (Worker.init capacity.toNat) else none

/-- A step of the main thread or of a worker thread. -/
inductive StartEvent where
  /-- `xlab_sched_launch_thread` : what `epoll_create` returns, and whether the thread could be
  created. -/
  | launch (efd : ℤ) (created : Bool)
  /-- Thread `t` goes on to its next phase. -/
  | turn (t : ℕ)
  /-- The main thread counts the initialized nodes. -/
  | poll
  deriving DecidableEq, Repr

variable {W : Type}

namespace StartUp

/-- The state after `xlab_sched_init`. -/
def init : StartUp where
  launched := 0
  threads := []
  wid := 0
  nodes := fun _ => .zero
  watches := fun _ _ => none
  accessed := []
  accepting := false

/-- The part of `xlab_sched_register_thread` under the lock. -/
def register (t : ℕ) (efd : ℤ) (st : StartUp) : StartUp :=
  { st with
    wid := st.wid + 1
    nodes := Function.update st.nodes st.wid
      { st.nodes st.wid with idx := toShort st.wid, tid := some t, epollFd := efd }
    threads := st.threads.set t ⟨efd, .registered st.wid⟩
    accessed := st.accessed ++ [(st.wid : ℤ)] }

/-- The rest of it : the queues of the node, and the index it returns. -/
def initLists (capacity : ℤ) (t : ℕ) (efd sl : ℤ) (st : StartUp) : StartUp :=
  { st with
    nodes := Function.update st.nodes sl
      { st.nodes sl with lists := some (Worker.init capacity.toNat) }
    threads := st.threads.set t ⟨efd, .listed (st.nodes sl).idx⟩
    accessed := st.accessed ++ [sl] }

/-- The thread fills the epoll instance of its node. -/
def addWatches (c : StartConfig W) (t : ℕ) (efd wid : ℤ) (st : StartUp) : StartUp :=
  { st with
    watches := Function.update st.watches (st.nodes wid).epollFd
      (launchWatches c.setup.eventFd c.trans (c.added (st.nodes wid).epollFd)
        (st.watches (st.nodes wid).epollFd))
    threads := st.threads.set t ⟨efd, .watching wid⟩
    accessed := st.accessed ++ [wid] }

/-- The start of `xlab_epoll_init`. -/
def enterLoop (t : ℕ) (efd wid : ℤ) (st : StartUp) : StartUp :=
  { st with
    nodes := Function.update st.nodes wid { st.nodes wid with initialized := true }
    threads := st.threads.set t ⟨efd, .looping wid⟩
    accessed := st.accessed ++ [wid] }

/-- The next phase of a thread. -/
def threadTurn (c : StartConfig W) (t : ℕ) (th : WorkerThread) (st : StartUp) : StartUp :=
  match th.phase with
  | .created => st.register t th.efd
  | .registered sl => st.initLists c.capacity t th.efd sl
  | .listed wid => st.addWatches c t th.efd wid
  | .watching wid => st.enterLoop t th.efd wid
  | .looping _ => st

/-- `ready` in the waiting loop of the main thread. -/
def readyCount (workers : ℕ) (st : StartUp) : ℕ :=
  (List.range workers).countP fun i : ℕ => (st.nodes i).initialized

/-- One step of the start. The main thread counts when it has launched the threads. -/
def step (c : StartConfig W) (st : StartUp) : StartEvent → StartUp
  | .launch efd created =>
    if st.launched < c.setup.sched.workers then
      { st with
        launched := st.launched + 1
        threads :=
          if 1 ≤ efd ∧ created = true then st.threads ++ [⟨efd, .created⟩] else st.threads }
    else st
  | .turn t =>
    match st.threads[t]? with
    | none => st
    | some th => st.threadTurn c t th
  | .poll =>
    if st.launched = c.setup.sched.workers then
      { st with
        accessed := st.accessed ++ (List.range c.setup.sched.workers).map fun i : ℕ => (i : ℤ)
        accepting := st.accepting || st.readyCount c.setup.sched.workers = c.setup.sched.workers }
    else st

/-- What the kernel promises : a new epoll descriptor is none of those in use, and there is none
for a size that is not positive. -/
def Allowed (c : StartConfig W) (st : StartUp) : StartEvent → Prop
  | .launch efd _ => efd ∉ st.threads.map WorkerThread.efd ∧ (0 ≤ efd → 0 < c.capacity)
  | _ => True

/-! ## What holds all along -/

/-- Every thread that has an index has a node of its own, set up as far as the thread has come, and
all else is as it was. -/
structure Sound (c : StartConfig W) (st : StartUp) : Prop where
  launched : st.launched ≤ c.setup.sched.workers
  threads : st.threads.length ≤ st.launched
  counted : st.wid = st.threads.countP fun th => th.phase.index.isSome
  distinct : (st.threads.map WorkerThread.efd).Nodup
  capacity : st.threads ≠ [] → 0 < c.capacity
  node : ∀ (t : ℕ) (th : WorkerThread) k, st.threads[t]? = some th → th.phase.index = some k →
    0 ≤ k ∧ k < st.wid ∧ st.nodes k = th.node c.capacity t k
  taken : ∀ k : ℕ, k < st.wid →
    ∃ (t : ℕ) (th : WorkerThread), st.threads[t]? = some th ∧ th.phase.index = some (k : ℤ)
  unused : ∀ k : ℤ, st.wid ≤ k → st.nodes k = .zero
  watched : ∀ (t : ℕ) (th : WorkerThread), st.threads[t]? = some th → st.watches th.efd =
    if th.phase.hasWatches then
      launchWatches c.setup.eventFd c.trans (c.added th.efd) fun _ => none
    else fun _ => none
  unwatched : ∀ efd, efd ∉ st.threads.map WorkerThread.efd → st.watches efd = fun _ => none
  accessed : ∀ k ∈ st.accessed, 0 ≤ k ∧ k < c.setup.sched.workers
  accepting : st.accepting = true →
    ∀ k < c.setup.sched.workers, (st.nodes (k : ℤ)).initialized = true

theorem sound_init (c : StartConfig W) : Sound c .init where
  launched := Nat.zero_le _
  threads := le_rfl
  counted := rfl
  distinct := List.nodup_nil
  capacity h := absurd rfl h
  node _ _ _ h := nomatch h
  taken _ h := absurd h (Nat.not_lt_zero _)
  unused _ _ := rfl
  watched _ _ h := nomatch h
  unwatched _ _ := rfl
  accessed _ h := nomatch h
  accepting h := nomatch h

variable {c : StartConfig W} {st st' : StartUp}

namespace Sound

theorem wid_le (h : Sound c st) : st.wid ≤ c.setup.sched.workers := by
  have hcount := List.countP_le_length (p := fun th : WorkerThread => th.phase.index.isSome)
    (l := st.threads)
  have hthreads := h.threads
  have hlaunched := h.launched
  rw [← h.counted] at hcount
  omega

/-- Threads have different epoll descriptors. -/
theorem eq_of_efd (h : Sound c st) {t t' : ℕ} {th th' : WorkerThread}
    (ht : st.threads[t]? = some th) (ht' : st.threads[t']? = some th') (he : th.efd = th'.efd) :
    t = t' := by
  obtain ⟨hlt, -⟩ := List.getElem?_eq_some_iff.1 ht
  refine (List.getElem?_inj (i := t) (j := t') ?_ h.distinct).1 ?_
  · rwa [List.length_map]
  · rw [List.getElem?_map, List.getElem?_map, ht, ht', Option.map_some, Option.map_some, he]

/-- Threads have different nodes. -/
theorem eq_of_index (h : Sound c st) {t t' : ℕ} {th th' : WorkerThread} {k : ℤ}
    (ht : st.threads[t]? = some th) (ht' : st.threads[t']? = some th')
    (hk : th.phase.index = some k) (hk' : th'.phase.index = some k) : t = t' := by
  have hnode := (h.node t th k ht hk).2.2.symm.trans (h.node t' th' k ht' hk').2.2
  exact Option.some.inj (congrArg SchedNode.tid hnode)

/-- A thread without an index leaves room for one. -/
theorem wid_lt (h : Sound c st) {t : ℕ} {th : WorkerThread} (ht : st.threads[t]? = some th)
    (hk : th.phase.index = none) : st.wid < c.setup.sched.workers := by
  have hcount : st.wid < st.threads.length := by
    rw [h.counted, List.countP_lt_length_iff]
    exact ⟨th, List.mem_of_getElem? ht, by simp [hk]⟩
  exact hcount.trans_le (h.threads.trans h.launched)

/-- One thread goes on : its node is that of its new phase, and its index is new or as before. -/
theorem replace (h : Sound c st) {t : ℕ} {th : WorkerThread} (ht : st.threads[t]? = some th)
    (th' : WorkerThread) (hefd : th'.efd = th.efd) {k : ℤ} (hk : th'.phase.index = some k)
    (hold : (th.phase.index = some k ∧ st'.wid = st.wid) ∨
      (th.phase.index = none ∧ k = st.wid ∧ st'.wid = st.wid + 1))
    (hloop : th.phase.inLoop = true → th'.phase.inLoop = true)
    (hlaunched : st'.launched = st.launched) (hthreads : st'.threads = st.threads.set t th')
    (hnodes : st'.nodes = Function.update st.nodes k (th'.node c.capacity t k))
    (hwatches : st'.watches = Function.update st.watches th.efd
      (if th'.phase.hasWatches then
        launchWatches c.setup.eventFd c.trans (c.added th.efd) fun _ => none
      else fun _ => none))
    (haccessed : st'.accessed = st.accessed ++ [k]) (haccepting : st'.accepting = st.accepting) :
    Sound c st' := by
  obtain ⟨hlt, hget⟩ := List.getElem?_eq_some_iff.1 ht
  have hother : ∀ t', t' ≠ t → st'.threads[t']? = st.threads[t']? := fun t' hne => by
    rw [hthreads, List.getElem?_set_ne hne.symm]
  have hself : st'.threads[t]? = some th' := by
    rw [hthreads, List.getElem?_set_self hlt]
  have hefds : st'.threads.map WorkerThread.efd = st.threads.map WorkerThread.efd := by
    refine List.ext_getElem? fun t' => ?_
    rw [List.getElem?_map, List.getElem?_map]
    by_cases hne : t' = t
    · rw [hne, hself, ht, Option.map_some, Option.map_some, hefd]
    · rw [hother t' hne]
  have hkwid : 0 ≤ k ∧ k < st'.wid ∧ k < c.setup.sched.workers := by
    rcases hold with ⟨hk', hwid⟩ | ⟨hnone, hk', hwid⟩
    · have hnode := h.node t th k ht hk'
      have hle := h.wid_le
      omega
    · have hroom := h.wid_lt ht hnone
      omega
  have hwid_le : st.wid ≤ st'.wid := by
    rcases hold with ⟨-, hwid⟩ | ⟨-, -, hwid⟩ <;> omega
  -- the other threads have other nodes
  have hindex : ∀ (t' : ℕ) (th'' : WorkerThread) k', t' ≠ t → st.threads[t']? = some th'' →
      th''.phase.index = some k' → k' ≠ k := by
    rintro t' th'' k' hne ht' hk' rfl
    rcases hold with ⟨hk'', -⟩ | ⟨-, hwid, -⟩
    · exact hne (h.eq_of_index ht' ht hk' hk'')
    · have hnode := h.node t' th'' _ ht' hk'
      omega
  refine ⟨hlaunched ▸ h.launched, ?_, ?_, hefds ▸ h.distinct, fun _ => h.capacity ?_, ?_, ?_, ?_,
    ?_, ?_, ?_, ?_⟩
  · rw [hthreads, List.length_set, hlaunched]
    exact h.threads
  · rw [hthreads, List.countP_set hlt, hget, ← h.counted, hk]
    rcases hold with ⟨hk', hwid⟩ | ⟨hnone, -, hwid⟩
    · have hpos : 0 < st.wid := by
        have hnode := h.node t th k ht hk'
        omega
      simp only [hk', Option.isSome_some, if_true]
      omega
    · simp only [hnone, Option.isSome_none, Option.isSome_some, if_true]
      simpa using hwid
  · exact fun hnil => by rw [hnil] at hlt; exact Nat.not_lt_zero _ hlt
  · intro t' th'' k' ht' hk'
    by_cases hne : t' = t
    · subst hne
      obtain rfl := Option.some.inj (hself.symm.trans ht')
      obtain rfl := Option.some.inj (hk.symm.trans hk')
      exact ⟨hkwid.1, hkwid.2.1, by rw [hnodes, Function.update_self]⟩
    · rw [hother t' hne] at ht'
      have hnode := h.node t' th'' k' ht' hk'
      refine ⟨hnode.1, by omega, ?_⟩
      rw [hnodes, Function.update_of_ne (hindex t' th'' k' hne ht' hk')]
      exact hnode.2.2
  · intro k' hk'
    by_cases hnew : (k' : ℤ) = k
    · exact ⟨t, th', hself, by rw [hk, hnew]⟩
    · have hlt' : k' < st.wid := by
        rcases hold with ⟨-, hwid⟩ | ⟨-, hnew', hwid⟩ <;> omega
      obtain ⟨t', th'', ht', hk''⟩ := h.taken k' hlt'
      have hne : t' ≠ t := by
        rintro rfl
        obtain rfl := Option.some.inj (ht'.symm.trans ht)
        rcases hold with ⟨hk', -⟩ | ⟨hnone, -⟩
        · exact hnew (Option.some.inj (hk''.symm.trans hk'))
        · rw [hnone] at hk''
          cases hk''
      exact ⟨t', th'', (hother t' hne).trans ht', hk''⟩
  · intro k' hk'
    have hne : k' ≠ k := by omega
    rw [hnodes, Function.update_of_ne hne]
    refine h.unused k' (le_trans ?_ hk')
    exact_mod_cast hwid_le
  · intro t' th'' ht'
    by_cases hne : t' = t
    · subst hne
      obtain rfl := Option.some.inj (hself.symm.trans ht')
      rw [hwatches, hefd, Function.update_self]
    · rw [hother t' hne] at ht'
      have hefd' : th''.efd ≠ th.efd := fun he => hne (h.eq_of_efd ht' ht he)
      rw [hwatches, Function.update_of_ne hefd']
      exact h.watched t' th'' ht'
  · intro efd hmem
    rw [hefds] at hmem
    have hne : efd ≠ th.efd := by
      rintro rfl
      exact hmem (List.mem_map_of_mem (List.mem_of_getElem? ht))
    rw [hwatches, Function.update_of_ne hne]
    exact h.unwatched efd hmem
  · intro a ha
    rw [haccessed, List.mem_append, List.mem_singleton] at ha
    rcases ha with ha | rfl
    · exact h.accessed a ha
    · exact ⟨hkwid.1, hkwid.2.2⟩
  · intro hacc k' hk'
    have hinit := h.accepting (haccepting ▸ hacc) k' hk'
    rw [hnodes]
    by_cases hne : (k' : ℤ) = k
    · rw [hne, Function.update_self]
      refine hloop ?_
      rw [hne] at hinit
      rcases hold with ⟨hk'', -⟩ | ⟨-, hwid, -⟩
      · rw [(h.node t th k ht hk'').2.2] at hinit
        exact hinit
      · rw [h.unused k hwid.ge] at hinit
        cases hinit
    · rw [Function.update_of_ne hne]
      exact hinit

/-- Every phase of a thread keeps all. -/
theorem threadTurn (h : Sound c st) {t : ℕ} {th : WorkerThread} (ht : st.threads[t]? = some th) :
    Sound c (st.threadTurn c t th) := by
  have hwatch := h.watched t th ht
  have hnode := h.node t th
  have hcases := h.wid_lt ht
  have hself : ∀ efd, st.watches = Function.update st.watches efd (st.watches efd) := fun efd =>
    (Function.update_eq_self efd st.watches).symm
  obtain ⟨efd, phase⟩ := th
  cases phase with
  | created =>
    have hroom := hcases rfl
    have hshort : toShort st.wid = st.wid :=
      toShort_of_range (by omega) (by have := c.workers_lt; omega)
    refine h.replace ht ⟨efd, .registered st.wid⟩ rfl rfl (Or.inr ⟨rfl, rfl, rfl⟩) nofun
      rfl rfl ?_ ?_ rfl rfl
    · simp only [StartUp.threadTurn, register, hshort, h.unused _ le_rfl]
      rfl
    · rw [show (StartUp.threadTurn c t ⟨efd, .created⟩ st).watches = st.watches from rfl]
      exact (hself efd).trans (congrArg _ hwatch)
  | registered wid =>
    obtain ⟨-, -, hn⟩ := hnode wid ht rfl
    have hidx : (st.nodes wid).idx = wid := by rw [hn]; rfl
    refine h.replace ht ⟨efd, .listed wid⟩ rfl rfl (Or.inl ⟨rfl, rfl⟩) nofun
      rfl ?_ ?_ ?_ rfl rfl
    · simp only [StartUp.threadTurn, initLists, hidx]
    · simp only [StartUp.threadTurn, initLists, hn]
      rfl
    · rw [show (StartUp.threadTurn c t ⟨efd, .registered wid⟩ st).watches = st.watches from rfl]
      exact (hself efd).trans (congrArg _ hwatch)
  | listed wid =>
    obtain ⟨-, -, hn⟩ := hnode wid ht rfl
    have hefd : (st.nodes wid).epollFd = efd := by rw [hn]; rfl
    refine h.replace ht ⟨efd, .watching wid⟩ rfl rfl (Or.inl ⟨rfl, rfl⟩) nofun
      rfl rfl ?_ ?_ rfl rfl
    · exact (Function.update_eq_self_iff.2 hn.symm).symm
    · simp only [StartUp.threadTurn, addWatches, hefd]
      rw [show st.watches efd = fun _ => none from hwatch]
      rfl
  | watching wid =>
    obtain ⟨-, -, hn⟩ := hnode wid ht rfl
    refine h.replace ht ⟨efd, .looping wid⟩ rfl rfl (Or.inl ⟨rfl, rfl⟩) nofun
      rfl rfl ?_ ?_ rfl rfl
    · simp only [StartUp.threadTurn, enterLoop, hn]
      rfl
    · rw [show (StartUp.threadTurn c t ⟨efd, .watching wid⟩ st).watches = st.watches from rfl]
      exact (hself efd).trans (congrArg _ hwatch)
  | looping wid => exact h

/-- Another thread is launched, or is not. -/
theorem launch (h : Sound c st) {efd : ℤ} {created : Bool}
    (ha : Allowed c st (.launch efd created)) : Sound c (st.step c (.launch efd created)) := by
  unfold StartUp.step
  simp only []
  split_ifs with hroom hthread
  · have hget : ∀ (t : ℕ) (th : WorkerThread),
        (st.threads ++ [⟨efd, .created⟩])[t]? = some th →
          st.threads[t]? = some th ∨ th = ⟨efd, .created⟩ := by
      intro t th ht
      rw [List.getElem?_append] at ht
      split_ifs at ht
      · exact Or.inl ht
      · exact Or.inr (List.mem_singleton.1 (List.mem_of_getElem? ht))
    have hold : ∀ (t : ℕ) (th : WorkerThread), st.threads[t]? = some th →
        (st.threads ++ [⟨efd, .created⟩])[t]? = some th := fun t th ht => by
      obtain ⟨hlt, -⟩ := List.getElem?_eq_some_iff.1 ht
      rwa [List.getElem?_append_left hlt]
    refine ⟨hroom, ?_, ?_, ?_, fun _ => ha.2 (by omega), ?_, ?_, h.unused, ?_, ?_, h.accessed,
      h.accepting⟩
    · have hthreads := h.threads
      simp only [List.length_append, List.length_singleton]
      omega
    · rw [List.countP_append, ← h.counted]
      rfl
    · rw [List.map_append, List.map_singleton, List.nodup_append_comm]
      exact List.nodup_cons.2 ⟨ha.1, h.distinct⟩
    · intro t th k ht hk
      rcases hget t th ht with ht | rfl
      · exact h.node t th k ht hk
      · cases hk
    · intro k hk
      obtain ⟨t, th, ht, hk'⟩ := h.taken k hk
      exact ⟨t, th, hold t th ht, hk'⟩
    · intro t th ht
      rcases hget t th ht with ht | rfl
      · exact h.watched t th ht
      · exact h.unwatched efd ha.1
    · intro efd' hmem
      rw [List.map_append, List.mem_append, not_or] at hmem
      exact h.unwatched efd' hmem.1
  · exact ⟨hroom, h.threads.trans (Nat.le_succ _), h.counted, h.distinct, h.capacity, h.node,
      h.taken, h.unused, h.watched, h.unwatched, h.accessed, h.accepting⟩
  · exact h

theorem readyCount_eq (st : StartUp) (workers : ℕ) : st.readyCount workers = workers ↔
    ∀ k < workers, (st.nodes (k : ℤ)).initialized = true := by
  have hlen := List.countP_eq_length (p := fun i : ℕ => (st.nodes i).initialized)
    (l := List.range workers)
  rw [List.length_range] at hlen
  rw [readyCount, hlen]
  simp

theorem poll (h : Sound c st) : Sound c (st.step c .poll) := by
  unfold StartUp.step
  simp only []
  split_ifs
  · refine ⟨h.launched, h.threads, h.counted, h.distinct, h.capacity, h.node, h.taken, h.unused,
      h.watched, h.unwatched, fun k hk => ?_, fun hacc => ?_⟩
    · rcases List.mem_append.1 hk with hk | hk
      · exact h.accessed k hk
      · obtain ⟨i, hi, rfl⟩ := List.mem_map.1 hk
        rw [List.mem_range] at hi
        exact ⟨Int.natCast_nonneg i, by exact_mod_cast hi⟩
    · rw [Bool.or_eq_true, decide_eq_true_iff, readyCount_eq] at hacc
      exact hacc.elim h.accepting id
  · exact h

theorem step (h : Sound c st) {e : StartEvent} (ha : Allowed c st e) : Sound c (st.step c e) := by
  cases e with
  | launch efd created => exact h.launch ha
  | poll => exact h.poll
  | turn t =>
    unfold StartUp.step
    cases ht : st.threads[t]? with
    | none =>
      simp only [ht]
      exact h
    | some th =>
      simp only [ht]
      exact h.threadTurn ht

theorem of_run {es : List StartEvent} (hes : Runs.Guarded (StartUp.step c) (Allowed c) .init es) :
    Sound c (Runs.run (StartUp.step c) .init es) :=
  Runs.run_invariant (I := Sound c) (fun _ _ h ha => h.step ha) (sound_init c) hes

/-- When the main thread accepts, every node belongs to a thread in its event loop. -/
theorem accepted (h : Sound c st) (hacc : st.accepting = true) :
    st.threads.length = c.setup.sched.workers ∧
      ∀ k : ℕ, k < c.setup.sched.workers → ∃ (t : ℕ) (efd : ℤ),
        st.threads[t]? = some ⟨efd, .looping k⟩ ∧
          st.nodes k = ⟨k, some t, efd, true, some (Worker.init c.capacity.toNat)⟩ := by
  have hwid : st.wid = c.setup.sched.workers := by
    refine le_antisymm h.wid_le (not_lt.1 fun hlt => ?_)
    have hinit := h.accepting hacc st.wid hlt
    rw [h.unused st.wid le_rfl] at hinit
    cases hinit
  refine ⟨?_, fun k hk => ?_⟩
  · have hcount := List.countP_le_length (p := fun th : WorkerThread => th.phase.index.isSome)
      (l := st.threads)
    rw [← h.counted, hwid] at hcount
    exact le_antisymm (h.threads.trans h.launched) hcount
  · obtain ⟨t, ⟨efd, phase⟩, ht, hindex⟩ := h.taken k (hwid ▸ hk)
    have hnode := (h.node t _ k ht hindex).2.2
    have hinit := h.accepting hacc k hk
    rw [hnode] at hinit
    cases phase with
    | looping wid =>
      obtain rfl := Option.some.inj hindex
      exact ⟨t, efd, ht, hnode⟩
    | created => cases hinit
    | registered => cases hinit
    | listed => cases hinit
    | watching => cases hinit

end Sound

/-! ## The gateway when it starts to accept -/

/-- The gateway with the workers and the epoll instances of the start. -/
def gateway (c : StartConfig W) (g : Gateway W) (st : StartUp) : Gateway W :=
  { g with
    trans := c.trans
    workers := fun w => (st.nodes (w : ℤ)).lists.getD (Worker.init c.capacity.toNat)
    shared := { g.shared with
      interest := fun w => if w < c.setup.sched.workers then st.watches (st.nodes (w : ℤ)).epollFd
        else fun _ => none } }

end StartUp

/-- What the main thread has set up before : a UDP socket with its driver, no UART, an eventfd, and
at least one worker to launch. -/
structure StartConfig.Serves (c : StartConfig W) : Prop where
  workers : 1 ≤ c.setup.sched.workers
  udp : 0 < c.trans.fds .udp
  uart : c.trans.fds .uart ≤ 0
  event : 0 < c.setup.eventFd
  other : c.setup.eventFd ≠ c.trans.fds .udp
  driver : (c.trans.driver TransOps.read (c.trans.fds .udp)).isSome = true

namespace StartUp

variable {c : StartConfig W} {st : StartUp}

theorem launchAdd_eq (added : ℤ → Bool) (fd : ℤ) (m : ℤ → Option EpollMode) (fd' : ℤ) :
    launchAdd added fd m fd' = if fd' = fd ∧ added fd = true then some .read else m fd' := by
  unfold launchAdd
  by_cases ha : added fd = true <;> simp [ha, Function.update_apply]

theorem launchWatches_eq (hc : c.Serves) (added : ℤ → Bool) (fd : ℤ) :
    launchWatches c.setup.eventFd c.trans added (fun _ => none) fd =
      if (fd = c.setup.eventFd ∨ fd = c.trans.fds .udp) ∧ added fd = true then some .read
      else none := by
  simp only [launchWatches, if_pos hc.udp, if_pos hc.event, if_neg (not_lt.2 hc.uart),
    launchAdd_eq]
  by_cases hev : fd = c.setup.eventFd
  · subst hev
    simp [hc.other]
  · by_cases hudp : fd = c.trans.fds .udp
    · subst hudp
      simp [hev]
    · simp [hev, hudp]

/-- In the gateway of a start that came to accept every worker watches the eventfd and the UDP
descriptor, where these could be added to its epoll instance. -/
theorem Sound.interest_gateway (h : Sound c st) (hacc : st.accepting = true) (hc : c.Serves)
    (g : Gateway W) (w : ℕ) (fd : ℤ) : (gateway c g st).shared.interest w fd =
      if w < c.setup.sched.workers ∧ (fd = c.setup.eventFd ∨ fd = c.trans.fds .udp) ∧
        c.added (st.nodes w).epollFd fd = true then some .read else none := by
  by_cases hw : w < c.setup.sched.workers
  · obtain ⟨t, efd, ht, hnode⟩ := (h.accepted hacc).2 w hw
    simp only [gateway, hnode, hw, true_and]
    rw [h.watched t _ ht, ← launchWatches_eq hc]
    rfl
  · simp only [gateway, hw, false_and, if_false]

theorem Sound.workers_gateway (h : Sound c st) (g : Gateway W) (w : ℕ) :
    (gateway c g st).workers w = Worker.init c.capacity.toNat := by
  simp only [gateway]
  rcases Nat.lt_or_ge w st.wid with hw | hw
  · obtain ⟨t, th, ht, hindex⟩ := h.taken w hw
    rw [(h.node t th w ht hindex).2.2, WorkerThread.node]
    split_ifs <;> rfl
  · rw [h.unused w (by exact_mod_cast hw)]
    rfl

/-- Some worker could add the descriptor to its epoll instance. -/
def AddedBySome (c : StartConfig W) (st : StartUp) (fd : ℤ) : Prop :=
  ∃ k < c.setup.sched.workers, c.added (st.nodes (k : ℤ)).epollFd fd = true

/-- The loops watch what they must exactly when some worker could add the UDP descriptor and some
worker the eventfd. -/
theorem Sound.launched_iff (h : Sound c st) (hacc : st.accepting = true) (hc : c.Serves)
    {g : Gateway W} (hg : g.Started) : Gateway.LoopsLaunched c.setup (gateway c g st) ↔
      AddedBySome c st (c.trans.fds .udp) ∧ AddedBySome c st c.setup.eventFd := by
  have hinterest := h.interest_gateway hacc hc g
  have hread : ∀ w fd, (gateway c g st).shared.interest w fd ≠ some .write := by
    intro w fd
    rw [hinterest]
    split_ifs <;> simp
  have hsome : ∀ w fd, (gateway c g st).shared.interest w fd = some .read →
      AddedBySome c st fd := by
    intro w fd hw
    rw [hinterest] at hw
    split_ifs at hw with hadded
    exact ⟨w, hadded.1, hadded.2.2⟩
  constructor
  · intro hl
    obtain ⟨w, hw⟩ := hl.udp.watched
    obtain ⟨w', hw'⟩ := hl.watched
    exact ⟨hsome w _ hw, hsome w' _ hw'⟩
  · rintro ⟨⟨k, hk, hudp⟩, k', hk', hevent⟩
    refine ⟨⟨⟨hg.sessions, fun w => ?_, hg.queue⟩, hc.other, ⟨k, ?_⟩, fun w => hread w _,
      hc.driver⟩, ⟨k', ?_⟩, fun w => hread w _, fun w fd hw => ?_⟩
    · rw [h.workers_gateway]
      rfl
    · exact (hinterest k _).trans (if_pos ⟨hk, Or.inr rfl, hudp⟩)
    · exact (hinterest k' _).trans (if_pos ⟨hk', Or.inl rfl, hevent⟩)
    · rw [hinterest] at hw
      split_ifs at hw with hadded
      · exact hadded.2.1
      · exact absurd rfl hw

/-- If the main thread comes to accept connections, whatever the order of the threads, then every
launch made a thread, each node of `sched_list` is that of one thread with its own index, with all
its connection nodes available, each loop watches the eventfd and the UDP descriptor if it could add
them, and the loops are launched exactly when each of the two could be added by some worker. -/
theorem startUp_launched (hc : c.Serves) {g : Gateway W} (hg : g.Started) {es : List StartEvent}
    (hes : Runs.Guarded (StartUp.step c) (Allowed c) .init es)
    (hacc : (Runs.run (StartUp.step c) .init es).accepting = true) :
    (Runs.run (StartUp.step c) .init es).threads.length = c.setup.sched.workers ∧
      (∀ k : ℕ, k < c.setup.sched.workers → ∃ (t : ℕ) (efd : ℤ),
        (Runs.run (StartUp.step c) .init es).threads[t]? = some ⟨efd, .looping k⟩ ∧
          (Runs.run (StartUp.step c) .init es).nodes k =
            ⟨k, some t, efd, true, some (Worker.init c.capacity.toNat)⟩) ∧
      0 < c.capacity ∧
      (∀ (w : ℕ) (fd : ℤ),
        (gateway c g (Runs.run (StartUp.step c) .init es)).shared.interest w fd =
          if w < c.setup.sched.workers ∧ (fd = c.setup.eventFd ∨ fd = c.trans.fds .udp) ∧
            c.added ((Runs.run (StartUp.step c) .init es).nodes w).epollFd fd = true then some .read
          else none) ∧
      (Gateway.LoopsLaunched c.setup (gateway c g (Runs.run (StartUp.step c) .init es)) ↔
        AddedBySome c (Runs.run (StartUp.step c) .init es) (c.trans.fds .udp) ∧
          AddedBySome c (Runs.run (StartUp.step c) .init es) c.setup.eventFd) := by
  have h := Sound.of_run hes
  obtain ⟨hlen, hnodes⟩ := h.accepted hacc
  exact ⟨hlen, hnodes, h.capacity (List.ne_nil_of_length_pos (hlen ▸ hc.workers)),
    h.interest_gateway hacc hc g, h.launched_iff hacc hc hg⟩

/-- Two workers. The UDP descriptor cannot be added to the epoll instance 6. -/
def twoStart : StartConfig Unit where
  setup := { idleSetup with sched := ⟨2, 4⟩ }
  trans := idleGateway.trans
  capacity := 4
  added efd fd := efd != 6 || fd != 5
  workers_lt := by decide

theorem twoStart_serves : twoStart.Serves := by
  constructor <;> decide +kernel

/-- The two workers are launched. -/
def twoLaunches : List StartEvent :=
  [.launch 4 true, .launch 6 true]

/-- They come to their loops by turns, the second one first. -/
def twoThreads : List StartEvent :=
  [.turn 1, .turn 0, .turn 0, .poll, .turn 1, .turn 1, .turn 0, .turn 1, .turn 0]

theorem allowed_twoThreads : Runs.Guarded (StartUp.step twoStart) (Allowed twoStart) .init
    (twoLaunches ++ twoThreads) :=
  ⟨⟨by decide, fun _ => by decide⟩, ⟨by decide, fun _ => by decide⟩, trivial, trivial, trivial,
    trivial, trivial, trivial, trivial, trivial, trivial, trivial⟩

theorem allowed_polled : Runs.Guarded (StartUp.step twoStart) (Allowed twoStart) .init
    (twoLaunches ++ twoThreads ++ [.poll]) := by
  rw [Runs.guarded_append]
  exact ⟨allowed_twoThreads, trivial, trivial⟩

theorem startUp_launched_twoThreads : Gateway.LoopsLaunched twoStart.setup
    (gateway twoStart idleGateway
      (Runs.run (StartUp.step twoStart) .init (twoLaunches ++ twoThreads ++ [.poll]))) :=
  (startUp_launched twoStart_serves idleGateway_started allowed_polled
    (by decide +kernel)).2.2.2.2.2 ⟨⟨1, by decide +kernel⟩, ⟨0, by decide +kernel⟩⟩

/-- Whatever the order of the threads, `sched_list` is used only inside its bounds, and no two
threads have the same index. -/
theorem indices_apart {es : List StartEvent}
    (hes : Runs.Guarded (StartUp.step c) (Allowed c) .init es) :
    (∀ k ∈ (Runs.run (StartUp.step c) .init es).accessed, 0 ≤ k ∧ k < c.setup.sched.workers) ∧
      ∀ (t t' : ℕ) (th th' : WorkerThread) (k : ℤ),
        (Runs.run (StartUp.step c) .init es).threads[t]? = some th →
        (Runs.run (StartUp.step c) .init es).threads[t']? = some th' →
          th.phase.index = some k → th'.phase.index = some k → t = t' :=
  have h := Sound.of_run hes
  ⟨h.accessed, fun _ _ _ _ _ ht ht' hk hk' => h.eq_of_index ht ht' hk hk'⟩

theorem indices_apart_twoThreads :
    (Runs.run (StartUp.step twoStart) .init (twoLaunches ++ twoThreads)).threads.map
        (fun th => th.phase.index) = [some 1, some 0] ∧
      ∀ k ∈ (Runs.run (StartUp.step twoStart) .init (twoLaunches ++ twoThreads)).accessed,
        0 ≤ k ∧ k < 2 :=
  ⟨by decide +kernel, (indices_apart allowed_twoThreads).1⟩

/-! ## When it starts to accept -/

/-- The turns a thread has still to take. -/
def turnsLeft : ThreadPhase → ℕ
  | .created => 4
  | .registered _ => 3
  | .listed _ => 2
  | .watching _ => 1
  | .looping _ => 0

theorem turnsLeft_eq_zero {phase : ThreadPhase} : turnsLeft phase = 0 ↔ phase.inLoop = true := by
  cases phase <;> simp [turnsLeft, ThreadPhase.inLoop]

/-- A turn brings its thread on and leaves the others where they are. -/
theorem threads_threadTurn (c : StartConfig W) {t : ℕ} {th : WorkerThread}
    (ht : st.threads[t]? = some th) : ∃ phase, turnsLeft phase = turnsLeft th.phase - 1 ∧
      (st.threadTurn c t th).threads = st.threads.set t ⟨th.efd, phase⟩ := by
  obtain ⟨efd, phase⟩ := th
  cases phase with
  | created => exact ⟨.registered st.wid, rfl, rfl⟩
  | registered sl => exact ⟨.listed (st.nodes sl).idx, rfl, rfl⟩
  | listed wid => exact ⟨.watching wid, rfl, rfl⟩
  | watching wid => exact ⟨.looping wid, rfl, rfl⟩
  | looping wid =>
    obtain ⟨hlt, hget⟩ := List.getElem?_eq_some_iff.1 ht
    have hset : st.threads.set t ⟨efd, .looping wid⟩ = st.threads := by
      rw [← hget, List.set_getElem_self]
    exact ⟨.looping wid, rfl, hset.symm⟩

/-- Once all threads are launched, there are no more. -/
theorem launched_step (hlaunched : st.launched = c.setup.sched.workers) (e : StartEvent) :
    (st.step c e).launched = c.setup.sched.workers ∧
      (st.step c e).threads.length = st.threads.length := by
  cases e with
  | launch efd created =>
    have hroom : ¬st.launched < c.setup.sched.workers := by omega
    rw [StartUp.step, if_neg hroom]
    exact ⟨hlaunched, rfl⟩
  | poll =>
    rw [StartUp.step, if_pos hlaunched]
    exact ⟨hlaunched, rfl⟩
  | turn t =>
    unfold StartUp.step
    simp only []
    cases ht : st.threads[t]? with
    | none => exact ⟨hlaunched, rfl⟩
    | some th =>
      obtain ⟨phase, -, hthreads⟩ := threads_threadTurn c ht
      have hlaunched' : (st.threadTurn c t th).launched = st.launched := by
        unfold StartUp.threadTurn
        split <;> rfl
      exact ⟨hlaunched'.trans hlaunched, by simp only [hthreads, List.length_set]⟩

theorem launched_run (hlaunched : st.launched = c.setup.sched.workers) (es : List StartEvent) :
    (Runs.run (StartUp.step c) st es).launched = c.setup.sched.workers ∧
      (Runs.run (StartUp.step c) st es).threads.length = st.threads.length :=
  Runs.run_keeps (I := fun st' : StartUp => st'.launched = c.setup.sched.workers ∧
      st'.threads.length = st.threads.length)
    (fun _ e h => (launched_step h.1 e).imp id fun hlen => hlen.trans h.2) ⟨hlaunched, rfl⟩ es

/-- A step brings on the thread whose turn it is. -/
theorem turnsLeft_step (hlaunched : st.launched = c.setup.sched.workers) (e : StartEvent) {t : ℕ}
    {th : WorkerThread} (ht : st.threads[t]? = some th) :
    ∃ th', (st.step c e).threads[t]? = some th' ∧
      turnsLeft th'.phase = turnsLeft th.phase - if e = .turn t then 1 else 0 := by
  cases e with
  | launch efd created =>
    have hroom : ¬st.launched < c.setup.sched.workers := by omega
    rw [StartUp.step, if_neg hroom]
    exact ⟨th, ht, rfl⟩
  | poll =>
    rw [StartUp.step, if_pos hlaunched]
    exact ⟨th, ht, rfl⟩
  | turn t' =>
    have hevent : StartEvent.turn t' = .turn t ↔ t' = t := ⟨StartEvent.turn.inj, congrArg _⟩
    simp only [hevent]
    by_cases hne : t' = t
    · subst hne
      obtain ⟨phase, hturns, hthreads⟩ := threads_threadTurn c ht
      obtain ⟨hlt, -⟩ := List.getElem?_eq_some_iff.1 ht
      refine ⟨⟨th.efd, phase⟩, ?_, by rw [if_pos rfl]; exact hturns⟩
      unfold StartUp.step
      simp only [ht, hthreads]
      exact List.getElem?_set_self hlt
    · refine ⟨th, ?_, by rw [if_neg hne, Nat.sub_zero]⟩
      unfold StartUp.step
      simp only []
      cases ht' : st.threads[t']? with
      | none => exact ht
      | some th₀ =>
        obtain ⟨phase, -, hthreads⟩ := threads_threadTurn c ht'
        simp only [hthreads, List.getElem?_set_ne hne, ht]

theorem turnsLeft_run (hlaunched : st.launched = c.setup.sched.workers) (es : List StartEvent)
    {t : ℕ} {th : WorkerThread} (ht : st.threads[t]? = some th) :
    ∃ th', (Runs.run (StartUp.step c) st es).threads[t]? = some th' ∧
      turnsLeft th'.phase = turnsLeft th.phase - es.count (.turn t) := by
  induction es generalizing st th with
  | nil => exact ⟨th, ht, rfl⟩
  | cons e es ih =>
    obtain ⟨th', ht', hturns⟩ := turnsLeft_step hlaunched e ht
    obtain ⟨th'', ht'', hturns'⟩ := ih (launched_step hlaunched e).1 ht'
    refine ⟨th'', ht'', ?_⟩
    rw [hturns', hturns, List.count_cons, Nat.sub_sub, Nat.add_comm]
    congr 2
    by_cases he : e = .turn t <;> simp [he]

/-- Once the main thread has launched the workers, and each thread there is had four turns in
whatever order, the next count lets it accept exactly when every launch made a thread. -/
theorem accepts_iff (es fs : List StartEvent)
    (hes : Runs.Guarded (StartUp.step c) (Allowed c) .init (es ++ fs))
    (hlaunched : (Runs.run (StartUp.step c) .init es).launched = c.setup.sched.workers)
    (hturns : ∀ t < (Runs.run (StartUp.step c) .init es).threads.length, 4 ≤ fs.count (.turn t)) :
    (Runs.run (StartUp.step c) .init (es ++ fs ++ [.poll])).accepting = true ↔
      (Runs.run (StartUp.step c) .init es).threads.length = c.setup.sched.workers := by
  have h := Sound.of_run hes
  have hpoll : Sound c (Runs.run (StartUp.step c) .init (es ++ fs ++ [.poll])) := by
    rw [Runs.run_append]
    exact h.step (e := .poll) trivial
  obtain ⟨hlaunched', hlen⟩ := launched_run hlaunched fs
  rw [← Runs.run_append] at hlaunched' hlen
  constructor
  · intro hacc
    have hthreads := (hpoll.accepted hacc).1
    rw [Runs.run_append, Runs.run_cons, Runs.run_nil, StartUp.step, if_pos hlaunched'] at hthreads
    exact hlen.symm.trans hthreads
  · intro hthreads
    have hloop : ∀ (t : ℕ) (th : WorkerThread),
        (Runs.run (StartUp.step c) .init (es ++ fs)).threads[t]? = some th →
          th.phase.inLoop = true := by
      intro t th ht
      obtain ⟨hlt, -⟩ := List.getElem?_eq_some_iff.1 ht
      rw [hlen] at hlt
      obtain ⟨th', ht', hleft⟩ := turnsLeft_run hlaunched fs
        (List.getElem?_eq_getElem hlt)
      rw [← Runs.run_append, ht] at ht'
      obtain rfl := Option.some.inj ht'
      have hfour : ∀ phase, turnsLeft phase ≤ 4 := fun phase => by
        cases phase <;> simp [turnsLeft]
      have hcount := hturns t hlt
      refine turnsLeft_eq_zero.1 (hleft.trans (Nat.sub_eq_zero_of_le ?_))
      exact (hfour _).trans hcount
    have hwid : (Runs.run (StartUp.step c) .init (es ++ fs)).wid = c.setup.sched.workers := by
      rw [h.counted, ← hthreads, ← hlen, List.countP_eq_length]
      intro th hth
      obtain ⟨t, ht⟩ := List.getElem?_of_mem hth
      have hin := hloop t th ht
      cases hphase : th.phase <;> rw [hphase] at hin <;> first | rfl | cases hin
    rw [Runs.run_append, Runs.run_cons, Runs.run_nil, StartUp.step, if_pos hlaunched']
    simp only [Bool.or_eq_true, decide_eq_true_iff, Sound.readyCount_eq]
    refine Or.inr fun k hk => ?_
    obtain ⟨t, th, ht, hindex⟩ := h.taken k (hwid ▸ hk)
    rw [(h.node t th k ht hindex).2.2]
    exact hloop t th ht

theorem accepts_iff_twoThreads : (Runs.run (StartUp.step twoStart) .init
    (twoLaunches ++ twoThreads ++ [.poll])).accepting = true :=
  (accepts_iff twoLaunches twoThreads allowed_twoThreads (by decide) (by decide)).2 (by decide)

end StartUp

end Xlab
