import Xlab.Roll
import Xlab.Runs

/-!
# Stale sessions

A handler that ends a connection removes its session and returns a negative value, and the
dispatcher then closes the connection. `Gateway.NoStale` says that the two stay in step : a
worker has at most one session on a socket, and only on sockets of its connections. Then a
connection on a reused descriptor starts with a new session.

Every exit of the handlers keeps this but one : a read that finds nothing to read returns
−1 and leaves the session where it is, and the dispatcher closes the connection under it.
`no_stale_session_iff` : a run visits only states without stale sessions exactly when no
read of a connection fails with `EAGAIN`.
-/

namespace Xlab

variable {W : Type}

/-! ## The exits of the handlers -/

theorem neg_one_neg : (-1 : ℤ) < 0 := by
  decide

/-- A read that fails removes the session, unless it failed with `EAGAIN`. -/
theorem connReadTcp_exit (cfg : ServerConfig) (w : ℕ) (t : RouterTable W) (r : ReadOutcome)
    (l : Link W) :
    ((connReadTcp cfg w t r l).ret < 0 ∧ (connReadTcp cfg w t r l).removals = 1) ∨
      (0 ≤ (connReadTcp cfg w t r l).ret ∧ (connReadTcp cfg w t r l).removals = 0) ∨
      r = .error .eagain := by
  unfold connReadTcp connReadMax
  split
  · exact Or.inr (Or.inr rfl)
  · exact Or.inl ⟨neg_one_neg, rfl⟩
  · simp only []
    split_ifs
    · exact Or.inl ⟨neg_one_neg, rfl⟩
    · exact Or.inl ⟨neg_one_neg, rfl⟩
    · exact Or.inr (Or.inl ⟨Int.natCast_nonneg _, rfl⟩)

/-- A write that fails removes the session, and no other write does. -/
theorem connWriteTcp_exit (w : ℕ) (l : Link W) :
    ((connWriteTcp w l).ret < 0 ∧ 1 ≤ (connWriteTcp w l).removals) ∨
      (0 ≤ (connWriteTcp w l).ret ∧ (connWriteTcp w l).removals = 0) := by
  have hremovals : 0 ≤ (handlerWrite w l).ret → (handlerWrite w l).removals = 0 := by
    unfold handlerWrite
    simp only []
    split_ifs
    · exact fun h => absurd h (Int.not_le.2 neg_one_neg)
    all_goals exact fun _ => rfl
  unfold connWriteTcp
  simp only []
  split_ifs with h
  · exact Or.inl ⟨neg_one_neg, Nat.succ_pos _⟩
  · exact Or.inr ⟨Int.le_refl 0, hremovals (Int.not_lt.1 h)⟩

namespace Gateway

/-! ## What should hold after every event -/

/-- `xlab_sched_get_request_list` in worker `w`. -/
def requestList (g : Gateway W) (w : ℕ) : List Session :=
  g.sessions.filter fun cs => cs.ident.owner == w

/-- A worker has at most one session on a socket, and only on sockets of its connections. -/
structure NoStale (g : Gateway W) : Prop where
  once : ∀ w, ((g.requestList w).map fun cs => cs.ident.socket).Nodup
  connected : ∀ w, ∀ cs ∈ g.requestList w, cs.ident.socket ∈ (g.workers w).sockets

/-- A connection that is registered now starts with a new session. -/
def StartsFresh (g : Gateway W) : Prop :=
  ∀ w fd cs g', fd ∉ (g.workers w).sockets →
    (g.connWrite w fd).2.openSession w fd = some (cs, g') → cs = Session.create cs.ident

/-- The event is a read of a connection that finds nothing to read. -/
def BlockedRead (s : Setup W) (g : Gateway W) : Event → Prop
  | .epoll w fd .input (.error .eagain) =>
    fd ≠ s.eventFd ∧ g.trans.isDatagram fd = false ∧ fd ∈ (g.workers w).sockets
  | _ => False

theorem noStale_of_matched {g : Gateway W} (h : g.roll.Matched) : g.NoStale where
  once w := by
    rw [requestList, List.Nodup, List.pairwise_map, List.pairwise_filter]
    refine (List.pairwise_map.1 h.once).imp fun {a b} hab ha hb hs => hab ⟨?_, hs⟩
    rw [beq_iff_eq] at ha hb
    exact ha.trans hb.symm
  connected w cs hcs := by
    obtain ⟨hcs, ho⟩ := List.mem_filter.1 hcs
    have hc := h.connected cs.ident (List.mem_map_of_mem hcs)
    rwa [show cs.ident.owner = w by simpa using ho] at hc

/-- A worker without a connection on a descriptor has no session on it. -/
theorem NoStale.free {g : Gateway W} (h : g.NoStale) {w : ℕ} {fd : ℤ}
    (hfd : fd ∉ (g.workers w).sockets) : g.roll.Free w fd := by
  intro id hid
  obtain ⟨cs, hcs, rfl⟩ := List.mem_map.1 hid
  by_contra hat
  obtain ⟨ho, hs⟩ := Roll.isAt_iff.1 (Bool.not_eq_false _ ▸ hat)
  exact hfd (hs ▸ h.connected w cs (List.mem_filter.2 ⟨hcs, by simp [ho]⟩))

theorem roll_connWrite_register {g : Gateway W} {w : ℕ} {fd : ℤ}
    (hfd : fd ∉ (g.workers w).sockets) : (g.connWrite w fd).1 = 0 ∧
      ((g.connWrite w fd).2.roll = g.roll ∨
        (g.connWrite w fd).2.roll = g.roll.registered w fd) := by
  rw [connWrite_register hfd]
  refine ⟨rfl, ?_⟩
  rw [roll_shared, roll_setWorker]
  rcases sockets_registerClient fd (g.workers w) with h | h <;> rw [h]
  · exact Or.inl (Roll.ext rfl (Function.update_eq_self ..) rfl)
  · exact Or.inr rfl

theorem NoStale.startsFresh {g : Gateway W} (h : g.NoStale) : g.StartsFresh := by
  intro w fd cs g' hfd hopen
  have hfree := h.free hfd
  have hdir : (g.connWrite w fd).2.roll.directory = g.roll.directory := by
    rcases (roll_connWrite_register hfd).2 with hr | hr <;> rw [hr]
    rfl
  rcases openSession_cases hopen with ⟨hget, -⟩ | ⟨-, -, hcs, -⟩
  · have hnone : (g.connWrite w fd).2.roll.Free w fd := by
      rw [Roll.Free, hdir]
      exact hfree
    rw [sessionGet_eq_none.2 hnone] at hget
    cases hget
  · rw [hcs]
    rfl

/-! ## The events -/

variable {s : Setup W} {g : Gateway W}

theorem matched_connClose (h : g.roll.Matched) {w : ℕ} {fd : ℤ} (hfree : g.roll.Free w fd) :
    (g.connClose w fd).roll.Matched := by
  rw [connClose, roll_removeClient]
  exact h.hangUp hfree

/-- A handler that removes the session when it fails is followed by the close. -/
theorem matched_leave (h : g.roll.Matched) (w : ℕ) (fd : ℤ) {e : Exit W}
    (he : (e.ret < 0 ∧ 1 ≤ e.removals) ∨ (0 ≤ e.ret ∧ e.removals = 0)) :
    (closeFailed w fd (g.leave w fd e)).roll.Matched := by
  have hroll := roll_leave w fd e g
  rcases he with ⟨hret, hn⟩ | ⟨hret, hn⟩
  · rw [h.iterate_dropped hn] at hroll
    rw [closeFailed_of_neg hret]
    refine matched_connClose ?_ ?_ <;> rw [hroll]
    · exact h.drop
    · exact h.free_dropped
  · rw [hn] at hroll
    rw [closeFailed_of_nonneg hret, hroll]
    exact h

/-- The session a read works on is in the list, and the roll still matches. -/
theorem matched_openSession (h : g.roll.Matched) {w : ℕ} {fd : ℤ} {g' : Gateway W} {cs : Session}
    (hs : g.trans.isDatagram fd = false) (ho : g.openSession w fd = some (cs, g')) :
    g'.roll.Matched ∧ cs.ident ∈ g'.roll.directory ∧ cs.ident.isAt w fd = true := by
  rcases openSession_cases ho with ⟨hget, rfl⟩ | ⟨hfree, hc, rfl, rfl⟩
  · exact ⟨h, List.mem_map_of_mem (Registry.mem_of_find hget), Registry.find_key hget⟩
  · rw [roll_addSession]
    exact ⟨h.opens hfree hc hs, List.mem_append_right _ List.mem_cons_self,
      Roll.isAt_iff.2 ⟨rfl, rfl⟩⟩

theorem matched_read (h : g.roll.Matched) (w : ℕ) (fd : ℤ) {r : ReadOutcome}
    (hb : ¬BlockedRead s g (.epoll w fd .input r)) :
    (g.epollDispatch s w fd .input r).roll.Matched := by
  rw [epollDispatch]
  by_cases hev : fd = s.eventFd
  · rw [connRead, if_pos hev, closeFailed_of_nonneg (Int.le_refl 0), roll_flushCompleted]
    exact h
  by_cases hdg : g.trans.isDatagram fd = true
  · rw [connRead, if_neg hev, if_pos hdg]
    have hroll := roll_connReadDatagram s fd r g
    rcases Int.lt_or_le (connReadDatagram s fd r g).1 0 with hret | hret
    · rw [closeFailed_of_neg hret]
      refine matched_connClose (hroll ▸ h) ?_
      rw [hroll]
      intro id hid
      by_contra hat
      have hsock := (Roll.isAt_iff.1 (Bool.not_eq_false _ ▸ hat)).2
      have hst : g.trans.isDatagram id.socket = false := h.stream id hid
      rw [hsock, hdg] at hst
      cases hst
    · rw [closeFailed_of_nonneg hret, hroll]
      exact h
  rw [connRead, if_neg hev, if_neg hdg]
  cases ho : g.openSession w fd with
  | none => exact matched_connClose h (openSession_eq_none.1 ho).1
  | some p =>
    obtain ⟨cs, g'⟩ := p
    have h' := (matched_openSession h (Bool.not_eq_true _ ▸ hdg) ho).1
    rcases connReadTcp_exit s.server w s.table r ⟨cs, g'.shared⟩ with he | he | rfl
    · exact matched_leave h' w fd (Or.inl ⟨he.1, he.2.ge⟩)
    · exact matched_leave h' w fd (Or.inr he)
    · -- a read that fails with `EAGAIN` here is of no connection, so there is no session
      refine absurd ⟨hev, Bool.not_eq_true _ ▸ hdg, ?_⟩ hb
      rcases openSession_cases ho with ⟨hget, -⟩ | ⟨-, hc, -⟩
      · have hc := h.connected cs.ident (List.mem_map_of_mem (Registry.mem_of_find hget))
        obtain ⟨hw, hf⟩ := Roll.isAt_iff.1 (Registry.find_key hget)
        rwa [hw, hf] at hc
      · exact hc

theorem matched_write (h : g.roll.Matched) (s : Setup W) (w : ℕ) (fd : ℤ) (r : ReadOutcome) :
    (g.epollDispatch s w fd .output r).roll.Matched := by
  rw [epollDispatch]
  have hmark : (g.setWorker w (schedUpdateConnStatus fd .process)).roll.Matched := by
    rw [roll_updateConnStatus]
    exact h
  rcases connWrite_cases w fd g with ⟨hfd, -⟩ | ⟨-, hget, he⟩ | ⟨cs, -, -, he⟩
  · obtain ⟨hret, hroll⟩ := roll_connWrite_register hfd
    rw [closeFailed_of_nonneg hret.ge]
    rcases hroll with hr | hr <;> rw [hr]
    · exact h
    · exact h.register hfd
  · rw [he, closeFailed_of_neg neg_one_neg]
    exact matched_connClose hmark (sessionGet_eq_none.1 hget)
  · rw [he]
    exact matched_leave hmark w fd (connWriteTcp_exit w ⟨cs, g.shared⟩)

theorem matched_error (h : g.roll.Matched) (s : Setup W) (w : ℕ) (fd : ℤ) (r : ReadOutcome) :
    (g.epollDispatch s w fd .error r).roll.Matched := by
  have hcomm : (g.roll.hungUp w fd).dropped w fd = (g.roll.dropped w fd).hungUp w fd := rfl
  rw [epollDispatch, connError, closeFailed_of_nonneg (Int.le_refl 0), roll_sessionRemove,
    roll_removeClient, hcomm]
  exact h.drop.hangUp h.free_dropped

/-- Every event but a read that fails with `EAGAIN` keeps the roll matched. -/
theorem matched_step (h : g.roll.Matched) {e : Event} (hb : ¬BlockedRead s g e) :
    (g.step s e).roll.Matched := by
  cases e with
  | accept fd added =>
    rw [step, roll_acceptClient]
    exact h
  | epoll w fd ready r =>
    cases ready with
    | input => exact matched_read h w fd hb
    | output => exact matched_write h s w fd r
    | error => exact matched_error h s w fd r
  | work i => exact h
  | sockets script => exact h

theorem blockedRead_iff {e : Event} : BlockedRead s g e ↔
    ∃ w fd, e = .epoll w fd .input (.error .eagain) ∧ fd ≠ s.eventFd ∧
      g.trans.isDatagram fd = false ∧ fd ∈ (g.workers w).sockets := by
  constructor
  · intro h
    unfold BlockedRead at h
    split at h
    · exact ⟨_, _, rfl, h⟩
    · cases h
  · rintro ⟨w, fd, rfl, h⟩
    exact h

/-- A read that fails with `EAGAIN` leaves a session without a connection. -/
theorem not_noStale_of_blockedRead (h : g.roll.Matched) {e : Event} (hb : BlockedRead s g e) :
    ¬(g.step s e).NoStale := by
  intro hno
  obtain ⟨w, fd, rfl, hev, hdg, hc⟩ := blockedRead_iff.1 hb
  cases ho : g.openSession w fd with
  | none => exact (openSession_eq_none.1 ho).2 hc
  | some p =>
    obtain ⟨cs, g'⟩ := p
    obtain ⟨hm, hmem, hat⟩ := matched_openSession h hdg ho
    have hread : g.connRead s w fd (.error .eagain) = (-1, g'.put ⟨cs, g'.shared⟩) := by
      rw [connRead, if_neg hev, if_neg (by simp [hdg]), ho]
      rfl
    have hroll : (g.step s (.epoll w fd .input (.error .eagain))).roll = g'.roll.hungUp w fd := by
      rw [step, epollDispatch, hread, closeFailed_of_neg neg_one_neg, connClose,
        roll_removeClient, roll_put]
    have hgone : fd ∉ (g.step s (.epoll w fd .input (.error .eagain))).roll.sockets w := by
      rw [hroll]
      exact hm.not_mem_hungUp
    have hfree := hno.free hgone
    rw [hroll] at hfree
    rw [hfree cs.ident hmem] at hat
    cases hat

/-- In a run of the gateway from its start every state reached is free of stale sessions,
and a connection registered there starts with a new session, exactly when no read of a
connection fails with `EAGAIN`. -/
theorem no_stale_session_iff (s : Setup W) {g : Gateway W} (hg : g.Started) (es : List Event) :
    (∀ pre, pre <+: es → (Runs.run (step s) g pre).NoStale ∧
        (Runs.run (step s) g pre).StartsFresh) ↔
      Runs.Guarded (step s) (fun g e => ¬BlockedRead s g e) g es := by
  refine Runs.prefixes_iff_guarded (I := fun g : Gateway W => g.roll.Matched)
    (A := fun _ _ => True) (P := fun g : Gateway W => g.NoStale ∧ g.StartsFresh) ?_ ?_ ?_ ?_
    (Runs.guarded_of_forall (fun _ _ _ => trivial) _)
  · exact fun g h => ⟨noStale_of_matched h, (noStale_of_matched h).startsFresh⟩
  · exact fun g e h _ hb => matched_step h hb
  · exact fun g e h _ hP hb => not_noStale_of_blockedRead h hb hP.1
  · have hdir : g.roll.directory = [] := by simp [roll, hg.sessions]
    have hsock : ∀ w, g.roll.sockets w = [] := fun w => by simp [roll, Worker.sockets, hg.busy w]
    exact ⟨by simp [hdir], by simp [hdir], by simp [hdir], by simp [hsock]⟩

/-- A client sends a request, reads the answer and leaves. -/
def versionClient : List Event :=
  [.accept 7 true, .epoll 0 7 .output (.data []),
    .epoll 0 7 .input (.data [0x40, 0x02, 0x02, 0xBC]), .epoll 0 7 .input (.data [])]

theorem no_stale_session_getVer :
    (Runs.run (step idleSetup) idleGateway versionClient).NoStale ∧
      (Runs.run (step idleSetup) idleGateway versionClient).StartsFresh :=
  (no_stale_session_iff idleSetup idleGateway_started versionClient).2 ⟨id, id, id, id, trivial⟩ _
    (List.prefix_refl _)

/-- A read that finds nothing leaves its session behind when the connection is closed. -/
theorem stale_session_after_eagain :
    ¬∀ es : List Event, (Runs.run (step idleSetup) idleGateway es).NoStale := by
  intro h
  have hc := (h [.accept 7 true, .epoll 0 7 .output (.data []),
    .epoll 0 7 .input (.error .eagain)]).connected 0
  revert hc
  decide +kernel

end Gateway

end Xlab
