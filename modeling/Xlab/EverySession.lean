import Xlab.Projection

/-!
# What every session keeps

A rule for the sessions of the gateway. A `SessionInvariant` is a property of one session next to
what is shared that a session has when it is created, and that its own reads and writes, a flush,
the background thread and the other sessions keep. Reads and writes may rely on what `R` and `T` say
of them, and `only` asks for all this of some sessions.

`SessionInvariant.run` : such a property holds of every session at every moment of a run of the
gateway, when its reads and writes are as `R` and `T` say and no flush meets an heir.
-/

namespace Xlab

variable {W : Type}

/-- What a session has from its creation, and keeps next to anything else, where its reads satisfy
`R` and its writes `T`. -/
structure SessionInvariant (s : Setup W) (R : ReadOutcome → Link W → Prop) (T P : Link W → Prop) :
    Prop where
  others : OthersKeep P
  fresh : ∀ l, l.Fresh → P l
  read : ∀ w r l, R r l → P l → P (connReadTcp s.server w s.table r l).link
  write : ∀ w l, T l → P l → P (connWriteTcp w l).link
  flush : ∀ w i l, P l → P (flushOwn w i l)
  work : ∀ i l, P l → P ⟨l.cs, l.sh.work i⟩

namespace Gateway

/-- A flush over the slots `is` takes what holds with all of them to come to what holds with none,
for every session. -/
theorem AllSessions.flushSlots {P : List (Fin asyncQueueDepth) → Link W → Prop} {w : ℕ}
    (hP : ∀ is, OthersKeep (P is)) (hflush : ∀ i is l, P (i :: is) l → P is (flushOwn w i l))
    {is : List (Fin asyncQueueDepth)} (hnodup : is.Nodup) {g : Gateway W}
    (h : g.AllSessions (P is)) (hr : g.Routed) (hheirs : ∀ i ∈ is, Heirless w g i) :
    (is.foldl (fun g i => g.flushSlot w i) g).AllSessions (P []) := by
  induction is generalizing g with
  | nil => exact h
  | cons i is ih =>
    obtain ⟨hi, hnodup⟩ := List.nodup_cons.1 hnodup
    refine ih hnodup
      (.flushSlot (hP is) (fun l => hflush i is l) h hr (hheirs i List.mem_cons_self))
      (hr.flushSlot w i) fun j hj => ?_
    have hij : i ≠ j := by
      rintro rfl
      exact hi hj
    exact (heirless_flushSlot hij).2 (hheirs j (List.mem_cons_of_mem _ hj))

/-- The session a read or a write goes to is as `R` or `T` says. -/
def OnSessions (s : Setup W) (R : ReadOutcome → Link W → Prop) (T : Link W → Prop)
    (g : Gateway W) : Event → Prop
  | .epoll w fd .input r => fd ≠ s.eventFd → ¬g.trans.isDatagram fd = true →
      ∀ cs g', g.openSession w fd = some (cs, g') → R r ⟨cs, g'.shared⟩
  | .epoll w fd .output _ => ∀ cs, g.sessionGet w fd = some cs → T ⟨cs, g.shared⟩
  | _ => True

end Gateway

namespace SessionInvariant

variable {s : Setup W} {R : ReadOutcome → Link W → Prop} {T P : Link W → Prop} {g : Gateway W}

open Gateway

theorem sessionRemove (h : SessionInvariant s R T P) (hall : g.AllSessions P) (w : ℕ) (fd : ℤ) :
    (g.sessionRemove w fd).AllSessions P := by
  refine hall.mono h.others (fun cs hcs => ?_) (congrArg Shared.queue (shared_sessionRemove w fd g))
  unfold Gateway.sessionRemove at hcs
  split at hcs
  · exact hcs
  · exact List.mem_of_mem_eraseP hcs

theorem removeClient (h : SessionInvariant s R T P) (hall : g.AllSessions P) (w : ℕ) (fd : ℤ) :
    (g.removeClient w fd).AllSessions P :=
  hall.mono h.others (fun _ hcs => hcs) rfl

theorem flushCompleted (h : SessionInvariant s R T P) (hall : g.AllSessions P) (hr : g.Routed)
    {w : ℕ} (hheirs : ∀ i, Heirless w g i) : (g.flushCompleted w).AllSessions P :=
  AllSessions.flushSlots (P := fun _ => P) (fun _ => h.others) (fun i _ l => h.flush w i l)
    (List.nodup_finRange _) hall hr fun i _ => hheirs i

theorem openSession (h : SessionInvariant s R T P) (hall : g.AllSessions P) (hr : g.Routed) {w : ℕ}
    {fd : ℤ} {cs : Session} {g' : Gateway W} (ho : g.openSession w fd = some (cs, g')) :
    g'.AllSessions P := by
  rcases openSession_cases ho with ⟨-, rfl⟩ | ⟨-, -, rfl, rfl⟩
  · exact hall
  · intro cs hcs
    rcases List.mem_append.1 hcs with hcs | hcs
    · exact hall cs hcs
    · rw [List.mem_singleton.1 hcs]
      exact h.fresh _ (hr.fresh_create fd)

/-- A handler is done with a session. -/
theorem leave (h : SessionInvariant s R T P) (hall : g.AllSessions P) (hr : g.Routed) {cs : Session}
    (hcs : cs ∈ g.sessions) {e : Exit W} (hl : P e.link) (hid : e.link.cs.ident = cs.ident)
    (hq : QueueFills cs.ident g.shared.queue e.link.sh.queue) (w : ℕ) (fd : ℤ) :
    (g.leave w fd e).2.AllSessions P := by
  refine leave_keeps (fun _ hall => h.sessionRemove hall w fd) ?_
  refine AllSessions.put h.others hl fun cs' hcs' hne => ⟨hall cs' hcs', ?_⟩
  refine hq.sameTasks fun hsid => hne ?_
  rw [hid]
  exact hr.eq_of_sid (List.mem_map_of_mem hcs') (List.mem_map_of_mem hcs) hsid.symm

theorem connRead (h : SessionInvariant s R T P) (hall : g.AllSessions P) (hr : g.Routed) {w : ℕ}
    {fd : ℤ} {r : ReadOutcome} (hn : NoHeirs s g (.epoll w fd .input r))
    (hR : OnSessions s R T g (.epoll w fd .input r)) : (g.connRead s w fd r).2.AllSessions P := by
  refine connRead_keeps (fun hev => h.flushCompleted hall hr ?_) ?_
    (fun cs g' hev hdg ho => ?_) hall
  · subst hev
    exact hn w r rfl
  · refine hall.mono h.others (fun cs hcs => ?_) (queue_connReadDatagram s fd r g)
    rwa [sessions_connReadDatagram] at hcs
  · obtain ⟨hr', hcs⟩ := hr.openSession ho
    have hall' := h.openSession hall hr ho
    obtain ⟨hq, hid⟩ := queueFills_connReadTcp s.server w s.table r ⟨cs, g'.shared⟩
    exact h.leave hall' hr' hcs (h.read w r _ (hR hev hdg cs g' ho) (hall' cs hcs)) hid hq w fd

theorem connWrite (h : SessionInvariant s R T P) (hall : g.AllSessions P) (hr : g.Routed) {w : ℕ}
    {fd : ℤ} {r : ReadOutcome} (hT : OnSessions s R T g (.epoll w fd .output r)) :
    (g.connWrite w fd).2.AllSessions P := by
  have hmark : (g.setWorker w (schedUpdateConnStatus fd .process)).AllSessions P :=
    hall.mono h.others (fun _ hcs => hcs) rfl
  have hrmark : (g.setWorker w (schedUpdateConnStatus fd .process)).Routed :=
    hr.mono (by rw [roll_updateConnStatus]) rfl (queueKeeps_of_eq rfl)
  rcases connWrite_cases w fd g with ⟨-, he⟩ | ⟨-, -, he⟩ | ⟨cs, -, hget, he⟩ <;> rw [he]
  · exact hall.mono h.others (fun _ hcs => hcs) (epollChangeMode_queue ..)
  · exact hmark
  · have hcs := Registry.mem_of_find hget
    obtain ⟨hq, hid⟩ := queue_connWriteTcp w ⟨cs, g.shared⟩
    exact h.leave hmark hrmark hcs (h.write w _ (hT cs hget) (hall cs hcs)) hid (.of_eq hq) w fd

/-- What one event keeps of every session. -/
theorem step (h : SessionInvariant s R T P) (hall : g.AllSessions P) (hr : g.Routed) {e : Event}
    (hn : NoHeirs s g e) (hon : OnSessions s R T g e) : (g.step s e).AllSessions P := by
  cases e with
  | accept fd added =>
    refine hall.mono h.others (fun cs hcs => ?_) (queue_acceptClient s fd added g)
    rwa [Gateway.step, sessions_acceptClient] at hcs
  | epoll w fd ready r =>
    have hclose : ∀ {res : ℤ × Gateway W}, res.2.AllSessions P →
        (closeFailed w fd res).AllSessions P :=
      fun hres => closeFailed_keeps (h.removeClient hres w fd) hres
    cases ready with
    | input => exact hclose (h.connRead hall hr hn hon)
    | output => exact hclose (h.connWrite hall hr hon)
    | error => exact hclose (h.sessionRemove (h.removeClient hall w fd) w fd)
  | work i => exact fun cs hcs => h.work i _ (hall cs hcs)
  | sockets script => exact hall.mono h.others (fun _ hcs => hcs) rfl

/-- It may be asked of some sessions only. -/
theorem only (h : SessionInvariant s R T P) (C : SessionIdent → Prop) :
    SessionInvariant s (fun r l => C l.cs.ident → R r l) (fun l => C l.cs.ident → T l)
      (fun l => C l.cs.ident → P l) where
  others _ _ _ hq hP hC := h.others _ _ _ hq (hP hC)
  fresh l hl _ := h.fresh l hl
  read w r l hR hP hC := by
    rw [(queueFills_connReadTcp s.server w s.table r l).2] at hC
    exact h.read w r l (hR hC) (hP hC)
  write w l hT hP hC := by
    rw [(queue_connWriteTcp w l).2] at hC
    exact h.write w l (hT hC) (hP hC)
  flush w i l hP hC := by
    rw [ident_flushOwn] at hC
    exact h.flush w i l (hP hC)
  work i l hP hC := h.work i l (hP hC)

/-- At every moment of a run of the gateway from its start the property holds of every session. -/
theorem run (h : SessionInvariant s R T P) (hg : g.Started) {es : List Event}
    (hn : Runs.Guarded (Gateway.step s) (NoHeirs s) g es)
    (hon : Runs.Guarded (Gateway.step s) (OnSessions s R T) g es) :
    (Runs.run (Gateway.step s) g es).Routed ∧ (Runs.run (Gateway.step s) g es).AllSessions P := by
  have hinit : g.Routed ∧ g.AllSessions P := ⟨hg.routed, by simp [AllSessions, hg.sessions]⟩
  exact Runs.run_invariant (I := fun g : Gateway W => g.Routed ∧ g.AllSessions P)
    (fun g e h' he => ⟨h'.1.step s e, h.step h'.2 h'.1 he.1 he.2⟩) hinit
    (Runs.guarded_and.2 ⟨hn, hon⟩)

end SessionInvariant

end Xlab
