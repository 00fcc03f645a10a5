import Xlab.Confinement

/-!
# One session of the gateway

The runs of `linkStep` follow one session next to anything the rest of the gateway does. This
is what the gateway does to each of its sessions. `Reached` says that a session, next to what
is shared, is at the end of such a run from its creation, and `Started.reached` that every
session of a run of the gateway is, as long as no flush meets an heir. What holds of every
run of one session thereby holds of every session of the gateway.
-/

namespace Xlab

variable {W : Type}

/-! ## The tasks of a session -/

/-- The tasks of session `id` are the same in both tables. -/
def SameTasks (id : SessionIdent) (q q' : AsyncQueue W) : Prop :=
  ∀ i, (q' i).own id = true ∨ (q i).own id = true → q' i = q i

theorem own_iff {id : SessionIdent} {task : AsyncTask W} : task.own id = true ↔
    task.valid = true ∧ task.targetCs = some id.sid ∧ task.socketFd = id.socket := by
  simp [AsyncTask.own, AsyncTask.ownedBy]

theorem sameTasks_of_eq {id : SessionIdent} {q q' : AsyncQueue W} (h : q' = q) :
    SameTasks id q q' :=
  fun i _ => congrFun h i

/-- A slot freed is none of the session's. -/
theorem sameTasks_free {id : SessionIdent} {q : AsyncQueue W} {i : Fin asyncQueueDepth}
    (h : (q i).targetCs ≠ some id.sid) : SameTasks id q (q.free i) := by
  intro j hj
  have hji : j ≠ i := by
    rintro rfl
    rcases hj with hj | hj
    · rw [own_iff, AsyncQueue.free, Function.update_self] at hj
      cases hj.1
    · exact h (own_iff.1 hj).2.1
  exact Function.update_of_ne hji _ _

/-- What another session submits is none of the session's. -/
theorem QueueFills.sameTasks {id id' : SessionIdent} {q q' : AsyncQueue W}
    (h : QueueFills id' q q') (hne : id'.sid ≠ id.sid) : SameTasks id q q' := by
  intro i hi
  rcases h i with heq | ⟨hfree, -, ht, -⟩
  · exact heq
  · rcases hi with hi | hi
    · have ht' := (own_iff.1 hi).2.1
      rw [ht] at ht'
      exact absurd (Option.some.inj ht') hne
    · rw [(own_iff.1 hi).1] at hfree
      cases hfree

/-- A property of a session that the steps of others keep. -/
def OthersKeep (P : Link W → Prop) : Prop :=
  ∀ cs sh sh', SameTasks cs.ident sh.queue sh'.queue → P ⟨cs, sh⟩ → P ⟨cs, sh'⟩

/-- A flush at a slot that is none of the session's does nothing to it. -/
theorem flushOwn_of_not_own {l : Link W} {i : Fin asyncQueueDepth}
    (h : (l.sh.queue i).flushable = true → (l.sh.queue i).targetCs ≠ some l.cs.ident.sid) (w : ℕ) :
    flushOwn w i l = l := by
  rw [flushOwn, if_neg]
  intro hown
  obtain ⟨hf, hown⟩ := Bool.and_eq_true_iff.1 hown
  refine h hf ?_
  simpa using (Bool.and_eq_true_iff.1 hown).1

theorem ident_flushOwn (w : ℕ) (i : Fin asyncQueueDepth) (l : Link W) :
    (flushOwn w i l).cs.ident = l.cs.ident := by
  unfold flushOwn
  split_ifs
  · exact ident_flushDeliver w i l
  · rfl

namespace Gateway

/-- Every session of the gateway, next to what is shared, has the property. -/
def AllSessions (P : Link W → Prop) (g : Gateway W) : Prop :=
  ∀ cs ∈ g.sessions, P ⟨cs, g.shared⟩

variable {g : Gateway W} {w : ℕ} {P Q : Link W → Prop}

/-- Sessions are removed, and the task table stays. -/
theorem AllSessions.mono (hP : OthersKeep P) (h : g.AllSessions P) {g' : Gateway W}
    (hsub : ∀ cs ∈ g'.sessions, cs ∈ g.sessions) (hq : g'.shared.queue = g.shared.queue) :
    g'.AllSessions P :=
  fun cs hcs => hP cs _ _ (sameTasks_of_eq hq) (h cs (hsub cs hcs))

/-- A session is put back after a call that left the tasks of the others alone. -/
theorem AllSessions.put (hP : OthersKeep P) {l : Link W} (hl : P l)
    (h : ∀ cs ∈ g.sessions, cs.ident ≠ l.cs.ident →
      P ⟨cs, g.shared⟩ ∧ SameTasks cs.ident g.shared.queue l.sh.queue) :
    (g.put l).AllSessions P := by
  intro cs hcs
  rcases Registry.eq_of_mem_store hcs with rfl | ⟨hcs, hne⟩
  · exact hl
  · obtain ⟨hcs', hq⟩ := h cs hcs hne
    exact hP cs _ _ hq hcs'

/-- The turn of a flush for a slot, without an heir, is the turn for each session. -/
theorem AllSessions.flushSlot (hQ : OthersKeep Q) {i : Fin asyncQueueDepth}
    (hPQ : ∀ l, P l → Q (flushOwn w i l)) (h : g.AllSessions P) (hr : g.Routed)
    (hheir : Heirless w g i) : (g.flushSlot w i).AllSessions Q := by
  have hkept : ∀ cs ∈ g.sessions, ((g.shared.queue i).flushable = true →
      (g.shared.queue i).targetCs ≠ some cs.ident.sid) → Q ⟨cs, g.shared⟩ := by
    intro cs hcs hne
    have hQ' := hPQ _ (h cs hcs)
    rwa [flushOwn_of_not_own hne] at hQ'
  by_cases hf : (g.shared.queue i).flushable = true
  · have hv := AsyncTask.valid_of_flushable hf
    cases hl : g.live (g.shared.queue i).targetCs with
    | none =>
      have hgone := live_eq_none.1 hl
      rw [flushSlot_of_none hf ((flushTarget_of_gone hl).trans (hheir hf hl))]
      intro cs hcs
      have hne : (g.shared.queue i).targetCs ≠ some cs.ident.sid :=
        fun ht => hgone cs.ident (List.mem_map_of_mem hcs) ht.symm
      exact hQ cs _ _ (sameTasks_free hne) (hkept cs hcs fun _ => hne)
    | some cs =>
      obtain ⟨hcs, hsid⟩ := mem_of_live hl
      have hdeliver : flushOwn w i ⟨cs, g.shared⟩ = flushDeliver w i ⟨cs, g.shared⟩ := by
        have hown : (g.shared.queue i).ownedBy cs.ident = true := by
          simp [AsyncTask.ownedBy, hsid, hr.socket_of_live hv hl]
        rw [flushOwn, if_pos (Bool.and_eq_true_iff.2 ⟨hf, hown⟩)]
      rw [flushSlot_of_some hf (hr.flushTarget_eq hv hl)]
      refine AllSessions.put hQ (hdeliver ▸ hPQ _ (h cs hcs)) fun cs' hcs' hne => ?_
      have hne' : (g.shared.queue i).targetCs ≠ some cs'.ident.sid := by
        intro ht
        refine hne ?_
        rw [ident_flushDeliver]
        exact hr.eq_of_sid (List.mem_map_of_mem hcs') (List.mem_map_of_mem hcs)
          (Option.some.inj (ht.symm.trans hsid.symm))
      refine ⟨hkept cs' hcs' fun _ => hne', ?_⟩
      rcases queue_flushDeliver w i ⟨cs, g.shared⟩ with ⟨-, hsame⟩ | ⟨-, hfreed, -⟩
      · exact sameTasks_of_eq (congrArg (fun l : Link W => l.sh.queue) hsame)
      · rw [hfreed]
        exact sameTasks_free hne'
  · rw [Gateway.flushSlot, if_neg hf]
    exact fun cs hcs => hkept cs hcs fun hf' => absurd hf' hf

end Gateway

/-! ## Sessions that follow `linkStep` -/

/-- The session is at the end of a run of steps from its creation. -/
def Reached (t : RouterTable W) (l : Link W) : Prop :=
  ∃ l₀ : Link W, l₀.Fresh ∧ l₀.cs.ident = l.cs.ident ∧ Leads l.cs.ident.owner t l₀ l

variable {t : RouterTable W}

theorem Reached.leads {l l' : Link W} (h : Reached t l) (hid : l'.cs.ident = l.cs.ident)
    (hl : Leads l.cs.ident.owner t l l') : Reached t l' := by
  obtain ⟨l₀, hfresh, hid₀, hl₀⟩ := h
  exact ⟨l₀, hfresh, hid₀.trans hid.symm, hid ▸ hl₀.trans hl⟩

theorem Reached.others {cs : Session} {sh sh' : Shared W} (h : Reached t ⟨cs, sh⟩)
    (hq : SameTasks cs.ident sh.queue sh'.queue) : Reached t ⟨cs, sh'⟩ :=
  h.leads rfl (.of_step (.others sh') hq)

theorem reached_of_fresh {l : Link W} (h : l.Fresh) : Reached t l :=
  ⟨l, h, rfl, .refl⟩

namespace Gateway

/-- Every session of the gateway is reached. -/
def AllReached (t : RouterTable W) (g : Gateway W) : Prop :=
  ∀ cs ∈ g.sessions, Reached t ⟨cs, g.shared⟩

variable {g : Gateway W} {w : ℕ}

theorem othersKeep_reached : OthersKeep (Reached t) :=
  fun _ _ _ hq h => h.others hq

/-- Sessions are removed, and the task table stays. -/
theorem AllReached.mono (h : g.AllReached t) {g' : Gateway W}
    (hsub : ∀ cs ∈ g'.sessions, cs ∈ g.sessions) (hq : g'.shared.queue = g.shared.queue) :
    g'.AllReached t :=
  AllSessions.mono othersKeep_reached h hsub hq

/-- A session is put back after a call that left the tasks of the others alone. -/
theorem AllReached.put (h : g.AllReached t) {l : Link W} (hl : Reached t l)
    (hq : ∀ cs ∈ g.sessions, cs.ident ≠ l.cs.ident →
      SameTasks cs.ident g.shared.queue l.sh.queue) : (g.put l).AllReached t :=
  AllSessions.put othersKeep_reached hl fun cs hcs hne => ⟨h cs hcs, hq cs hcs hne⟩

/-! ## A flush -/

theorem AllReached.flushSlot (h : g.AllReached t) (hr : g.Routed) {i : Fin asyncQueueDepth}
    (hheir : Heirless w g i) : (g.flushSlot w i).AllReached t := by
  refine AllSessions.flushSlot othersKeep_reached (fun l hl => ?_) h hr hheir
  exact hl.leads (ident_flushOwn w i l) (.of_step (.flush w i) trivial)

theorem AllReached.flushCompleted (h : g.AllReached t) (hr : g.Routed)
    (hheirs : ∀ i, Heirless w g i) : (g.flushCompleted w).AllReached t := by
  have hturns : ∀ is : List (Fin asyncQueueDepth), is.Nodup → ∀ g : Gateway W,
      g.AllReached t → g.Routed → (∀ i ∈ is, Heirless w g i) →
        (is.foldl (fun g i => g.flushSlot w i) g).AllReached t := fun is => by
    induction is with
    | nil => exact fun _ g h _ _ => h
    | cons i is ih =>
      intro hnodup g h hr hheirs
      obtain ⟨hi, hnodup⟩ := List.nodup_cons.1 hnodup
      refine ih hnodup _ (h.flushSlot hr (hheirs i List.mem_cons_self)) (hr.flushSlot w i)
        fun j hj => ?_
      have hij : i ≠ j := by
        rintro rfl
        exact hi hj
      exact (heirless_flushSlot hij).2 (hheirs j (List.mem_cons_of_mem _ hj))
  exact hturns _ (List.nodup_finRange _) g h hr fun i _ => hheirs i

/-! ## The handlers -/

theorem sessions_connReadDatagram (s : Setup W) (fd : ℤ) (r : ReadOutcome) (g : Gateway W) :
    (g.connReadDatagram s fd r).2.sessions = g.sessions := by
  unfold Gateway.connReadDatagram
  split
  · rfl
  · split <;> rfl

theorem sessions_acceptClient (s : Setup W) (fd : ℤ) (added : Bool) (g : Gateway W) :
    (g.acceptClient s fd added).sessions = g.sessions := by
  unfold Gateway.acceptClient
  split
  · rfl
  · split_ifs <;> rfl

/-- A new session has no tasks. -/
theorem Routed.fresh_create (hr : g.Routed) (fd : ℤ) :
    (⟨Session.create ⟨g.nextSid, w, fd⟩, g.shared⟩ : Link W).Fresh := by
  refine ⟨rfl, fun i => Bool.eq_false_iff.2 fun hown => ?_⟩
  obtain ⟨hv, ht, -⟩ := own_iff.1 hown
  obtain ⟨sid, ht', hlt, -⟩ := hr.task i hv
  rw [ht] at ht'
  exact Nat.ne_of_gt hlt (Option.some.inj ht')

/-- The session a read works on is reached. -/
theorem AllReached.openSession (h : g.AllReached t) (hr : g.Routed) {fd : ℤ} {cs : Session}
    {g' : Gateway W} (ho : g.openSession w fd = some (cs, g')) :
    g'.AllReached t ∧ cs.ident.owner = w := by
  rcases openSession_cases ho with ⟨hget, rfl⟩ | ⟨-, -, rfl, rfl⟩
  · exact ⟨h, (Roll.isAt_iff.1 (Registry.find_key hget)).1⟩
  · refine ⟨fun cs hcs => ?_, rfl⟩
    rcases List.mem_append.1 hcs with hcs | hcs
    · exact h cs hcs
    · rw [List.mem_singleton.1 hcs]
      exact reached_of_fresh (hr.fresh_create fd)

theorem AllReached.removeClient (h : g.AllReached t) (w : ℕ) (fd : ℤ) :
    (g.removeClient w fd).AllReached t :=
  h.mono (fun _ hcs => hcs) rfl

theorem AllReached.sessionRemove (h : g.AllReached t) (w : ℕ) (fd : ℤ) :
    (g.sessionRemove w fd).AllReached t := by
  refine h.mono (fun cs hcs => ?_) (congrArg Shared.queue (shared_sessionRemove w fd g))
  unfold Gateway.sessionRemove at hcs
  split at hcs
  · exact hcs
  · exact List.mem_of_mem_eraseP hcs

/-- A handler is done with a session. -/
theorem AllReached.leave (h : g.AllReached t) (hr : g.Routed) {cs : Session}
    (hcs : cs ∈ g.sessions) {e : Exit W} (hl : Leads cs.ident.owner t ⟨cs, g.shared⟩ e.link)
    (hid : e.link.cs.ident = cs.ident) (hq : QueueFills cs.ident g.shared.queue e.link.sh.queue)
    (w : ℕ) (fd : ℤ) : (g.leave w fd e).2.AllReached t := by
  refine leave_keeps (fun _ h => h.sessionRemove w fd) ?_
  refine h.put ((h cs hcs).leads hid hl) fun cs' hcs' hne => hq.sameTasks fun hsid => hne ?_
  rw [hid]
  exact hr.eq_of_sid (List.mem_map_of_mem hcs') (List.mem_map_of_mem hcs) hsid.symm

theorem AllReached.connRead {s : Setup W} (h : g.AllReached s.table) (hr : g.Routed) (w : ℕ)
    (fd : ℤ) (r : ReadOutcome) (hn : fd = s.eventFd → ∀ i, Heirless w g i) :
    (g.connRead s w fd r).2.AllReached s.table := by
  refine connRead_keeps (fun hev => h.flushCompleted hr (hn hev)) ?_ (fun cs g' _ _ ho => ?_) h
  · refine h.mono (fun cs hcs => ?_) (queue_connReadDatagram s fd r g)
    rwa [sessions_connReadDatagram] at hcs
  · obtain ⟨h', howner⟩ := h.openSession hr ho
    obtain ⟨hr', hcs⟩ := hr.openSession ho
    obtain ⟨hq, hid⟩ := queueFills_connReadTcp s.server w s.table r ⟨cs, g'.shared⟩
    refine h'.leave hr' hcs ?_ hid hq w fd
    rw [howner]
    exact leads_connReadTcp s.server w s.table r ⟨cs, g'.shared⟩

theorem AllReached.connWrite (h : g.AllReached t) (hr : g.Routed) (w : ℕ) (fd : ℤ) :
    (g.connWrite w fd).2.AllReached t := by
  have hmark : (g.setWorker w (schedUpdateConnStatus fd .process)).AllReached t :=
    h.mono (fun _ hcs => hcs) rfl
  have hrmark : (g.setWorker w (schedUpdateConnStatus fd .process)).Routed :=
    hr.mono (by rw [roll_updateConnStatus]) rfl (queueKeeps_of_eq rfl)
  rcases connWrite_cases w fd g with ⟨-, he⟩ | ⟨-, -, he⟩ | ⟨cs, -, hget, he⟩ <;> rw [he]
  · exact h.mono (fun _ hcs => hcs) (epollChangeMode_queue ..)
  · exact hmark
  · obtain ⟨hq, hid⟩ := queue_connWriteTcp w ⟨cs, g.shared⟩
    refine hmark.leave hrmark (Registry.mem_of_find hget) ?_ hid (.of_eq hq) w fd
    rw [(Roll.isAt_iff.1 (Registry.find_key hget)).1]
    exact leads_connWriteTcp w t ⟨cs, g.shared⟩

theorem AllReached.closeFailed {res : ℤ × Gateway W} (h : res.2.AllReached t) (w : ℕ) (fd : ℤ) :
    (closeFailed w fd res).AllReached t :=
  closeFailed_keeps (h.removeClient w fd) h

theorem AllReached.acceptClient (h : g.AllReached t) (s : Setup W) (fd : ℤ) (added : Bool) :
    (g.acceptClient s fd added).AllReached t := by
  refine h.mono (fun cs hcs => ?_) (queue_acceptClient s fd added g)
  rwa [sessions_acceptClient] at hcs

/-- Every event takes a run of steps of each session. -/
theorem AllReached.step {s : Setup W} (h : g.AllReached s.table) (hr : g.Routed) {e : Event}
    (hn : NoHeirs s g e) : (g.step s e).AllReached s.table := by
  cases e with
  | accept fd added => exact h.acceptClient s fd added
  | epoll w fd ready r =>
    refine AllReached.closeFailed ?_ w fd
    cases ready with
    | input =>
      refine h.connRead hr w fd r fun hev => ?_
      subst hev
      exact hn w r rfl
    | output => exact h.connWrite hr w fd
    | error => exact (h.removeClient w fd).sessionRemove w fd
  | work i =>
    intro cs hcs
    exact (h cs hcs).leads rfl (.of_step (.work i) trivial)
  | sockets script => exact h.mono (fun _ hcs => hcs) rfl

/-- In a run of the gateway from its start in which no flush meets an heir, every session is
at the end of a run of its steps, next to what is shared. -/
theorem Started.reached {s : Setup W} (hg : g.Started) {es : List Event}
    (hn : Runs.Guarded (Gateway.step s) (NoHeirs s) g es) :
    (Runs.run (Gateway.step s) g es).AllReached s.table := by
  have hinit : g.Routed ∧ g.AllReached s.table :=
    ⟨hg.routed, by simp [AllReached, hg.sessions]⟩
  exact (Runs.run_invariant (I := fun g : Gateway W => g.Routed ∧ g.AllReached s.table)
    (fun g e h hn => ⟨h.1.step s e, h.2.step h.1 hn⟩) hinit hn).2

end Gateway

end Xlab
