import Xlab.Confinement

/-!
# Write interest after a flush

A flush runs in the event loop of whichever worker handles the event of the shared
`eventfd`. A response it queues belongs to the worker that owns the session, and goes out when
that worker's epoll instance reports the socket writable. `flushSlot_rings` says what one turn
does to the rings and to the epoll instances, and `Flushed` is what a number of turns keep.

The flush arms the socket in the epoll instance of its own thread. `armed_after_flush_iff` : the
owner's instance is armed exactly when the owner did the flush and watches the socket, or the
socket was armed there before.
-/

namespace Xlab

variable {W : Type}

@[simp] theorem sockSend_interest (resp : Response) (l : Link W) :
    (sockSend resp l).2.sh.interest = l.sh.interest := by
  rw [sockSend, Shared.call_eq]

theorem epollChangeMode_interest_self (w : ℕ) (fd : ℤ) (m : EpollMode) (sh : Shared W) :
    (epollChangeMode w fd m sh).interest w fd =
      if sh.interest w fd = none then none else some m := by
  unfold epollChangeMode
  split_ifs with h
  · exact h
  · simp

theorem epollChangeMode_interest_of_some {w : ℕ} {fd : ℤ} {m m' : EpollMode} {sh : Shared W}
    (h : sh.interest w fd = some m') : (epollChangeMode w fd m sh).interest =
      Function.update sh.interest w (Function.update (sh.interest w) fd (some m)) := by
  rw [epollChangeMode, if_neg (h ▸ Option.some_ne_none m')]

theorem epollChangeMode_interest_congr {w : ℕ} {fd : ℤ} {m : EpollMode} {sh sh' : Shared W}
    (h : sh.interest = sh'.interest) :
    (epollChangeMode w fd m sh).interest = (epollChangeMode w fd m sh').interest := by
  unfold epollChangeMode
  rw [h]
  split_ifs
  · exact h
  · rfl

theorem epollChangeMode_interest_of_ne {w w' : ℕ} {fd fd' : ℤ} (h : w' = w → fd' ≠ fd)
    (m : EpollMode) (sh : Shared W) :
    (epollChangeMode w fd m sh).interest w' fd' = sh.interest w' fd' := by
  unfold epollChangeMode
  split_ifs
  · rfl
  · by_cases hw : w' = w
    · subst hw
      simp [h rfl]
    · simp [hw]

/-- What a delivery does to the ring of the session and to the epoll instances : nothing, or it
queues one response and arms the socket. -/
theorem flushDeliver_ring (w : ℕ) (i : Fin asyncQueueDepth) (l : Link W) :
    ((flushDeliver w i l).cs.respQueue.pending = l.cs.respQueue.pending ∧
        (flushDeliver w i l).sh.interest = l.sh.interest) ∨
      ((flushDeliver w i l).cs.respQueue.pending =
          l.cs.respQueue.pending ++ [.fresh (l.sh.queue i).response] ∧
        (flushDeliver w i l).sh.interest =
          (epollChangeMode w l.cs.ident.socket .write l.sh).interest) := by
  unfold flushDeliver
  simp only []
  split_ifs with hseq
  · exact Or.inl ⟨rfl, rfl⟩
  · cases hq : l.cs.respQueue.enqueue (l.sh.queue i).response with
    | none => exact Or.inl ⟨rfl, sockSend_interest _ _⟩
    | some q =>
      have hpend := RespQueue.pending_of_enqueue hq
      have hne : q.head ≠ q.tail := fun h => by
        rw [q.pending_eq_nil.2 h] at hpend
        simp at hpend
      refine Or.inr ⟨hpend, ?_⟩
      simp only [if_pos hne]
      exact epollChangeMode_interest_congr rfl

namespace Gateway

/-- The session with an identity. -/
def session (g : Gateway W) (id : SessionIdent) : Option Session :=
  Registry.find Session.ident (fun k => k == id) g.sessions

/-- The number of responses that wait in the ring of a session. -/
def waiting (g : Gateway W) (id : SessionIdent) : ℕ :=
  (g.session id).elim 0 fun cs => cs.respQueue.pending.length

theorem session_of_flushTarget {g : Gateway W} {w : ℕ} {task : AsyncTask W} {cs : Session}
    (h : g.flushTarget w task = some cs) : g.session cs.ident = some cs := by
  rcases flushTarget_cases h with hl | hget
  · obtain ⟨sid, -, hfind⟩ := Option.bind_eq_some_iff.1 hl
    exact Registry.find_by_key hfind
  · exact Registry.find_by_key hget

theorem session_put {g : Gateway W} {l : Link W} (id : SessionIdent) :
    (g.put l).session id =
      (g.session id).map fun cs => if cs.ident = l.cs.ident then l.cs else cs :=
  Registry.find_store _ _ _

theorem ident_of_session {g : Gateway W} {id : SessionIdent} {cs : Session}
    (h : g.session id = some cs) : cs.ident = id := by
  simpa using Registry.find_key h

/-- A session that is put back with a ring of another length. -/
theorem waiting_put {g : Gateway W} {l : Link W} {cs : Session} (hcs : g.session cs.ident = some cs)
    (hid : l.cs.ident = cs.ident) : (g.put l).waiting cs.ident = l.cs.respQueue.pending.length ∧
      ∀ id ≠ cs.ident, (g.put l).waiting id = g.waiting id := by
  constructor
  · rw [waiting, session_put, hcs]
    simp [hid]
  · intro id hne
    rw [waiting, waiting, session_put]
    cases hs : g.session id with
    | none => rfl
    | some cs' =>
      have hne' : cs'.ident ≠ l.cs.ident := by
        rw [ident_of_session hs, hid]
        exact hne
      simp [hne']

/-- A turn of a flush leaves the rings and the epoll instances alone, or it queues one response
on the ring of one session and arms its socket in the instance of the flushing worker. -/
theorem flushSlot_rings (w : ℕ) (i : Fin asyncQueueDepth) (g : Gateway W) :
    ((g.flushSlot w i).waiting = g.waiting ∧
        (g.flushSlot w i).shared.interest = g.shared.interest) ∨
      ∃ id, (g.flushSlot w i).waiting id = g.waiting id + 1 ∧
        (∀ id' ≠ id, (g.flushSlot w i).waiting id' = g.waiting id') ∧
        (g.flushSlot w i).shared.interest =
          (epollChangeMode w id.socket .write g.shared).interest := by
  by_cases hf : (g.shared.queue i).flushable = true
  · cases ht : g.flushTarget w (g.shared.queue i) with
    | none =>
      rw [flushSlot_of_none hf ht]
      exact Or.inl ⟨rfl, rfl⟩
    | some cs =>
      have hcs := session_of_flushTarget ht
      obtain ⟨hself, hother⟩ := waiting_put hcs (ident_flushDeliver w i ⟨cs, g.shared⟩)
      have hwait : g.waiting cs.ident = cs.respQueue.pending.length := by
        rw [waiting, hcs]
        rfl
      rw [flushSlot_of_some hf ht]
      rcases flushDeliver_ring w i ⟨cs, g.shared⟩ with ⟨hp, hi⟩ | ⟨hp, hi⟩
      · refine Or.inl ⟨funext fun id => ?_, hi⟩
        by_cases hid : id = cs.ident
        · rw [hid, hself, hp, hwait]
        · exact hother id hid
      · refine Or.inr ⟨cs.ident, ?_, hother, hi⟩
        rw [hself, hp, hwait]
        simp
  · rw [flushSlot, if_neg hf]
    exact Or.inl ⟨rfl, rfl⟩

/-- What a number of turns of a flush in worker `w` keep : rings only grow, a socket keeps its
mode or is armed, and only where it is watched and only in the instance of `w`, and the
sockets of the rings that grew are armed there. -/
structure Flushed (w : ℕ) (g g' : Gateway W) : Prop where
  grows : ∀ id, g.waiting id ≤ g'.waiting id
  elsewhere : ∀ w' ≠ w, g'.shared.interest w' = g.shared.interest w'
  mode : ∀ fd, g'.shared.interest w fd = g.shared.interest w fd ∨
    (g.shared.interest w fd ≠ none ∧ g'.shared.interest w fd = some .write)
  arms : ∀ id, g.waiting id < g'.waiting id → g.shared.interest w id.socket ≠ none →
    g'.shared.interest w id.socket = some .write

namespace Flushed

variable {w : ℕ} {g g' g'' : Gateway W}

theorem refl (w : ℕ) (g : Gateway W) : Flushed w g g :=
  ⟨fun _ => le_rfl, fun _ _ => rfl, fun _ => Or.inl rfl, fun _ h => absurd h (lt_irrefl _)⟩

/-- A socket that is watched stays watched. -/
theorem watched (h : Flushed w g g') {fd : ℤ} (hfd : g.shared.interest w fd ≠ none) :
    g'.shared.interest w fd ≠ none := by
  rcases h.mode fd with hm | ⟨-, hm⟩ <;> rw [hm]
  · exact hfd
  · simp

/-- A socket that is armed stays armed. -/
theorem armed (h : Flushed w g g') {fd : ℤ} (hfd : g.shared.interest w fd = some .write) :
    g'.shared.interest w fd = some .write := by
  rcases h.mode fd with hm | ⟨-, hm⟩
  · exact hm.trans hfd
  · exact hm

theorem trans (h : Flushed w g g') (h' : Flushed w g' g'') : Flushed w g g'' where
  grows id := (h.grows id).trans (h'.grows id)
  elsewhere w' hw := (h'.elsewhere w' hw).trans (h.elsewhere w' hw)
  mode fd := by
    rcases h'.mode fd with hm' | ⟨hfd', hm'⟩
    · rw [hm']
      exact h.mode fd
    · refine Or.inr ⟨fun hfd => ?_, hm'⟩
      rcases h.mode fd with hm | ⟨hne, -⟩
      · exact hfd' (hm.trans hfd)
      · exact hne hfd
  arms id hlt hfd := by
    rcases (h.grows id).lt_or_eq with hgrew | hkept
    · exact h'.armed (h.arms id hgrew hfd)
    · exact h'.arms id (hkept ▸ hlt) (h.watched hfd)

end Flushed

theorem flushed_flushSlot (w : ℕ) (i : Fin asyncQueueDepth) (g : Gateway W) :
    Flushed w g (g.flushSlot w i) := by
  rcases flushSlot_rings w i g with ⟨hw, hi⟩ | ⟨id, hself, hother, hi⟩
  · exact ⟨fun id => (congrFun hw id).ge, fun w' _ => congrFun hi w', fun fd => Or.inl (by rw [hi]),
      fun id h => absurd h (by simp [hw])⟩
  · refine ⟨fun id' => ?_, fun w' hw => ?_, fun fd => ?_, fun id' hlt hfd => ?_⟩
    · by_cases h : id' = id
      · rw [h, hself]
        exact Nat.le_succ _
      · exact (hother id' h).ge
    · rw [hi]
      exact funext fun fd => epollChangeMode_interest_of_ne (fun h => absurd h hw) _ _
    · rw [hi]
      by_cases h : fd = id.socket
      · rw [h, epollChangeMode_interest_self]
        split_ifs with hn
        · exact Or.inl hn.symm
        · exact Or.inr ⟨hn, rfl⟩
      · exact Or.inl (epollChangeMode_interest_of_ne (fun _ => h) _ _)
    · by_cases h : id' = id
      · rw [h] at hfd ⊢
        rw [hi, epollChangeMode_interest_self, if_neg hfd]
      · exact absurd hlt (by rw [hother id' h]; exact lt_irrefl _)

theorem flushed_flushCompleted (w : ℕ) (g : Gateway W) : Flushed w g (g.flushCompleted w) :=
  flushCompleted_keeps (fun g' i h => h.trans (flushed_flushSlot w i g')) (.refl w g)

/-- Once a flush in worker `w` has queued a response on a session, the socket is armed in the
epoll instance of the session's owner exactly when the owner did the flush and watches the
socket, or the socket was armed there before. -/
theorem armed_after_flush_iff (g : Gateway W) (w : ℕ) (id : SessionIdent)
    (h : g.waiting id < (g.flushCompleted w).waiting id) :
    (g.flushCompleted w).shared.interest id.owner id.socket = some .write ↔
      (w = id.owner ∧ g.shared.interest id.owner id.socket ≠ none) ∨
        g.shared.interest id.owner id.socket = some .write := by
  have hflush := flushed_flushCompleted w g
  by_cases hw : w = id.owner
  · subst hw
    constructor
    · intro harmed
      refine Or.inl ⟨rfl, fun hnone => ?_⟩
      rcases hflush.mode id.socket with hm | ⟨hne, -⟩
      · rw [hm, hnone] at harmed
        cases harmed
      · exact hne hnone
    · rintro (⟨-, hne⟩ | harmed)
      · exact hflush.arms id h hne
      · exact hflush.armed harmed
  · rw [hflush.elsewhere id.owner (Ne.symm hw)]
    exact ⟨Or.inr, fun hor => hor.resolve_left fun hand => hw hand.1⟩

/-- A client submits a task, and the background thread runs it. -/
def submittedRead : List Event :=
  [.accept 7 true, .epoll 0 7 .output (.data []),
    .epoll 0 7 .input (.data [0x40, 0x04, 0x06, 0x00, 0x01, 0xB5]), .work firstSlot]

/-- The session of the first client, on socket 7 of worker 0. -/
def firstClient : SessionIdent :=
  ⟨0, 0, 7⟩

/-- The owner flushes the answer. -/
theorem armed_after_flush_startRead :
    ((Runs.run (step idleSetup) idleGateway submittedRead).flushCompleted 0).shared.interest
      firstClient.owner firstClient.socket = some .write :=
  (armed_after_flush_iff (Runs.run (step idleSetup) idleGateway submittedRead) 0 firstClient
    (by decide +kernel)).2 (Or.inl ⟨rfl, by decide +kernel⟩)

/-- Two workers. The second one flushes the answer to a client of the first. -/
theorem owner_not_armed_by_other_worker :
    ¬∀ (es : List Event) (w : ℕ) (id : SessionIdent), w < 2 →
      (Runs.run (step { idleSetup with sched := ⟨2, 4⟩ }) idleGateway es).waiting id <
        ((Runs.run (step { idleSetup with sched := ⟨2, 4⟩ }) idleGateway es).flushCompleted
          w).waiting id →
      ((Runs.run (step { idleSetup with sched := ⟨2, 4⟩ }) idleGateway es).flushCompleted
        w).shared.interest id.owner id.socket = some .write := by
  intro h
  have harmed := h submittedRead 1 firstClient (by decide) (by decide +kernel)
  revert harmed
  decide +kernel

end Gateway

end Xlab
