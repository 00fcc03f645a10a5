import Xlab.Watching
import Xlab.Runs

/-!
# The UDP descriptor

The UDP socket is opened once, and every event loop watches it for reading. It must stay open :
the drivers and `xlab_conn_read` know it by its number. The dispatcher closes the descriptor of
every handler that returns a negative value, whatever kind of descriptor it is, and
`xlab_conn_error` closes before it looks for a connection.

`UdpKept` says that the descriptor is still open, as watched by the event loops as it was, and that
it is the descriptor of no connection and no session. `udp_descriptor_kept_iff` : it holds all
along a run exactly when no read of the descriptor fails with an error other than `EAGAIN` and no
error event comes for it.
-/

namespace Xlab

variable {W : Type}

namespace Gateway

/-- A gateway whose event loops watch the UDP descriptor for reading, with a driver that reads
it. -/
structure UdpStarted (s : Setup W) (g : Gateway W) : Prop where
  started : g.Started
  other : s.eventFd ≠ g.trans.fds .udp
  watched : ∃ w, g.shared.interest w (g.trans.fds .udp) = some .read
  reading : ∀ w, g.shared.interest w (g.trans.fds .udp) ≠ some .write
  driver : (g.trans.driver TransOps.read (g.trans.fds .udp)).isSome = true

/-- The UDP descriptor is open and watched as in `g₀`, and no connection and no session has its
number. -/
structure UdpKept (g₀ g : Gateway W) : Prop where
  fds : g.trans.fds = g₀.trans.fds
  interest : ∀ w, g.shared.interest w (g₀.trans.fds .udp) =
    g₀.shared.interest w (g₀.trans.fds .udp)
  connection : ∀ w, g₀.trans.fds .udp ∉ (g.workers w).sockets
  session : ∀ cs ∈ g.sessions, cs.ident.socket ≠ g₀.trans.fds .udp
  driver : (g.trans.driver TransOps.read (g₀.trans.fds .udp)).isSome = true

/-- The event is a read of the UDP descriptor that fails for another reason than `EAGAIN`, or an
error event of it. -/
def FailsUdp (g : Gateway W) : Event → Prop
  | .epoll _ fd .input r => fd = g.trans.fds .udp ∧ r = .error .other
  | .epoll _ fd .error _ => fd = g.trans.fds .udp
  | _ => False

namespace UdpKept

variable {g₀ g : Gateway W}

/-- A descriptor that is closed is another one. -/
theorem removeClient (h : UdpKept g₀ g) (w : ℕ) {fd : ℤ} (hfd : fd ≠ g₀.trans.fds .udp) :
    UdpKept g₀ (g.removeClient w fd) where
  fds := h.fds
  interest w' := by
    rw [interest_removeClient, if_neg hfd.symm]
    exact h.interest w'
  connection w' hmem := h.connection w' (mem_sockets_removeClient hmem)
  session := h.session
  driver := h.driver

theorem sessionRemove (h : UdpKept g₀ g) (w : ℕ) {fd : ℤ} (hfd : fd ≠ g₀.trans.fds .udp) :
    UdpKept g₀ (g.sessionRemove w fd) := by
  unfold Gateway.sessionRemove
  split
  · exact h
  · refine ⟨h.fds, h.interest, h.connection, fun cs hcs => ?_, ?_⟩
    · exact h.session cs (List.mem_of_mem_eraseP hcs)
    · rw [Trans.driver_fdMapRemove _ _ hfd.symm]
      exact h.driver

/-- A call on a session puts it back. -/
theorem put (h : UdpKept g₀ g) {w : ℕ} {cs : Session} {l : Link W} (hcs : cs ∈ g.sessions)
    (hid : l.cs.ident = cs.ident) (ht : Tunes w cs.ident.socket g.shared l.sh) :
    UdpKept g₀ (g.put l) where
  fds := h.fds
  interest w' := (ht.others w' _ fun _ => (h.session cs hcs).symm).trans (h.interest w')
  connection := h.connection
  session y hy := by
    rcases Registry.eq_of_mem_store hy with rfl | ⟨hy, -⟩
    · rw [hid]
      exact h.session cs hcs
    · exact h.session y hy
  driver := h.driver

theorem leave (h : UdpKept g₀ g) {w : ℕ} {fd : ℤ} {cs : Session} {e : Exit W}
    (hcs : cs ∈ g.sessions) (hid : e.link.cs.ident = cs.ident)
    (ht : Tunes w cs.ident.socket g.shared e.link.sh) (hfd : fd ≠ g₀.trans.fds .udp) :
    UdpKept g₀ (g.leave w fd e).2 :=
  leave_keeps (fun _ h => h.sessionRemove w hfd) (h.put hcs hid ht)

theorem closeFailed {w : ℕ} {fd : ℤ} {res : ℤ × Gateway W} (h : UdpKept g₀ res.2)
    (hfd : fd ≠ g₀.trans.fds .udp) : UdpKept g₀ (closeFailed w fd res) :=
  closeFailed_keeps (h.removeClient w hfd) h

theorem of_interest (h : UdpKept g₀ g) {sh : Shared W} (hi : sh.interest = g.shared.interest) :
    UdpKept g₀ { g with shared := sh } :=
  ⟨h.fds, fun w => by rw [hi]; exact h.interest w, h.connection, h.session, h.driver⟩

theorem flushSlot (h : UdpKept g₀ g) (w : ℕ) (i : Fin asyncQueueDepth) :
    UdpKept g₀ (g.flushSlot w i) := by
  refine flushSlot_keeps (h.of_interest rfl) (fun cs ht => ?_) h
  have harms := arms_flushDeliver w i ⟨cs, g.shared⟩
  exact h.put (Registry.mem_of_find (session_of_flushTarget ht)) harms.ident harms.tunes

theorem flushCompleted (h : UdpKept g₀ g) (w : ℕ) : UdpKept g₀ (g.flushCompleted w) :=
  flushCompleted_keeps (fun _ i h => h.flushSlot w i) h

end UdpKept

/-! ## The events -/

variable {s : Setup W} {g₀ g : Gateway W}

/-- A session is created only for a connection. -/
theorem UdpKept.openSession (h : UdpKept g₀ g) {w : ℕ} {fd : ℤ} {cs : Session} {g' : Gateway W}
    (ho : g.openSession w fd = some (cs, g')) : UdpKept g₀ g' ∧ cs ∈ g'.sessions := by
  rcases openSession_cases ho with ⟨hget, rfl⟩ | ⟨-, hc, rfl, rfl⟩
  · exact ⟨h, Registry.mem_of_find hget⟩
  · refine ⟨⟨h.fds, h.interest, h.connection, fun cs hcs => ?_, h.driver⟩,
      List.mem_append_right _ List.mem_cons_self⟩
    rcases List.mem_append.1 hcs with hcs | hcs
    · exact h.session cs hcs
    · rw [List.mem_singleton.1 hcs]
      rintro rfl
      exact h.connection w hc

theorem UdpKept.connRead (h : UdpKept g₀ g) (s : Setup W) (w : ℕ) {fd : ℤ} (r : ReadOutcome)
    (hfd : fd ≠ g₀.trans.fds .udp) : UdpKept g₀ (g.connRead s w fd r).2 := by
  refine connRead_keeps (fun _ => h.flushCompleted w) ?_ (fun cs g' _ _ ho => ?_) h
  · rw [connReadDatagram_eq]
    exact h.of_interest (interest_connReadDatagram s fd r g)
  · obtain ⟨h', hcs⟩ := h.openSession ho
    have harms := arms_connReadTcp s.server w s.table r ⟨cs, g'.shared⟩
    exact h'.leave hcs harms.ident harms.tunes hfd

/-- A read of the UDP descriptor that does not fail keeps it open. -/
theorem UdpKept.readUdp (h : UdpKept g₀ g) (hev : s.eventFd ≠ g₀.trans.fds .udp) {w : ℕ}
    {r : ReadOutcome} (hr : r ≠ .error .other) :
    UdpKept g₀ (g.epollDispatch s w (g₀.trans.fds .udp) .input r) := by
  have hdg : g.trans.isDatagram (g₀.trans.fds .udp) = true := by
    simp [Trans.isDatagram, h.fds]
  have hret : 0 ≤ (g.connReadDatagram s (g₀.trans.fds .udp) r).1 := by
    obtain ⟨tr, htr⟩ := Option.isSome_iff_exists.1 h.driver
    unfold connReadDatagram
    rw [htr]
    split
    · cases ‹_›
    · split
      · exact Int.le_refl 0
      · exact absurd rfl hr
      · exact Int.natCast_nonneg _
  rw [epollDispatch, Gateway.connRead, if_neg hev.symm, if_pos hdg, closeFailed_of_nonneg hret,
    connReadDatagram_eq]
  exact h.of_interest (interest_connReadDatagram s _ r g)

/-- A failed event of the UDP descriptor closes it. -/
theorem FailsUdp.closes (h : UdpKept g₀ g) (hev : s.eventFd ≠ g₀.trans.fds .udp) {e : Event}
    (hf : FailsUdp g e) (w : ℕ) : (g.step s e).shared.interest w (g₀.trans.fds .udp) = none := by
  have hdg : g.trans.isDatagram (g₀.trans.fds .udp) = true := by
    simp [Trans.isDatagram, h.fds]
  unfold FailsUdp at hf
  split at hf
  · obtain ⟨rfl, rfl⟩ := hf
    obtain ⟨tr, htr⟩ := Option.isSome_iff_exists.1 h.driver
    have hread : g.connReadDatagram s (g₀.trans.fds .udp) (.error .other) = (-1, g) := by
      rw [connReadDatagram, htr]
    rw [step, epollDispatch, h.fds, Gateway.connRead, if_neg hev.symm, if_pos hdg, hread,
      closeFailed_of_neg (show (-1 : ℤ) < 0 by decide), connClose, interest_removeClient,
      if_pos rfl]
  · obtain rfl := hf
    rw [step, epollDispatch, connError, closeFailed_of_nonneg (Int.le_refl 0), shared_sessionRemove,
      interest_removeClient, h.fds, if_pos rfl]
  · exact hf.elim

theorem UdpKept.acceptClient (h : UdpKept g₀ g) (s : Setup W) {fd : ℤ} (added : Bool)
    (hfd : fd ≠ g₀.trans.fds .udp) : UdpKept g₀ (g.acceptClient s fd added) := by
  have hclose : UdpKept g₀ (g.closeFd fd) :=
    ⟨h.fds, fun w => (Function.update_of_ne hfd.symm _ _).trans (h.interest w), h.connection,
      h.session, h.driver⟩
  unfold Gateway.acceptClient
  split
  · exact hclose
  · rename_i w _
    split_ifs
    · refine ⟨h.fds, fun w' => ?_, fun w' => ?_, h.session, h.driver⟩
      · refine Eq.trans ?_ (h.interest w')
        by_cases hw : w' = w
        · subst hw
          simp [arm, setWorker, hfd.symm]
        · simp [arm, setWorker, hw]
      · by_cases hw : w' = w
        · subst hw
          simpa [arm, setWorker, Worker.sockets] using h.connection w'
        · simpa [arm, setWorker, hw] using h.connection w'
    · exact hclose

theorem UdpKept.connWrite (h : UdpKept g₀ g) (w : ℕ) {fd : ℤ} (hfd : fd ≠ g₀.trans.fds .udp) :
    UdpKept g₀ (g.connWrite w fd).2 := by
  have hmark : UdpKept g₀ (g.setWorker w (schedUpdateConnStatus fd .process)) := by
    refine ⟨h.fds, h.interest, fun w' hmem => h.connection w' ?_, h.session, h.driver⟩
    rwa [sockets_setWorker_status] at hmem
  rcases connWrite_cases w fd g with ⟨-, he⟩ | ⟨-, -, he⟩ | ⟨cs, -, hget, he⟩ <;> rw [he]
  · have ht : Tunes w fd g.shared (epollChangeMode w fd .read g.shared) := .of_changeMode rfl
    refine ⟨h.fds, fun w' => (ht.others w' _ fun _ => hfd.symm).trans (h.interest w'),
      fun w' hmem => ?_, h.session, h.driver⟩
    by_cases hw : w' = w
    · subst hw
      simp only [setWorker, Function.update_self] at hmem
      rcases mem_sockets_registerClient hmem with hmem | ⟨he, -⟩
      · exact h.connection w' hmem
      · exact hfd he.symm
    · simp only [setWorker, Function.update_of_ne hw] at hmem
      exact h.connection w' hmem
  · exact hmark
  · exact hmark.leave (Registry.mem_of_find hget) (connWriteTcp_ident w ⟨cs, g.shared⟩)
      (connWriteTcp_tunes w ⟨cs, g.shared⟩) hfd

/-- Every event that can come and is no failure of the UDP descriptor keeps it open. -/
theorem UdpKept.step (h : UdpKept g₀ g) (h₀ : UdpStarted s g₀) {e : Event} (hp : g.Possible e)
    (hf : ¬FailsUdp g e) : UdpKept g₀ (g.step s e) := by
  cases e with
  | accept fd added =>
    refine h.acceptClient s added ?_
    rintro rfl
    obtain ⟨w, hw⟩ := h₀.watched
    have hnone := hp w
    rw [h.interest, hw] at hnone
    cases hnone
  | epoll w fd ready r =>
    rw [Gateway.step]
    by_cases hfd : fd = g₀.trans.fds .udp
    · subst hfd
      cases ready with
      | input => exact h.readUdp h₀.other fun hr => hf ⟨by rw [h.fds], hr⟩
      | output =>
        rw [Possible, h.interest] at hp
        exact absurd hp (h₀.reading w)
      | error =>
        refine absurd ?_ hf
        change _ = _
        rw [h.fds]
    · rw [epollDispatch.eq_def]
      refine UdpKept.closeFailed ?_ hfd
      cases ready with
      | input => exact h.connRead s w r hfd
      | output => exact h.connWrite w hfd
      | error => exact (h.removeClient w hfd).sessionRemove w hfd
  | work i => exact h.of_interest (by unfold Shared.work; rfl)
  | sockets script => exact h.of_interest rfl

/-- In a run of a gateway whose event loops watch the UDP descriptor, every state reached has it
open and watched as at the start, and no connection and no session with its number, exactly when
no read of it fails with an error other than `EAGAIN` and no error event comes for it. -/
theorem udp_descriptor_kept_iff {s : Setup W} {g : Gateway W} (hg : UdpStarted s g)
    (es : List Event) (hes : Runs.Guarded (step s) Possible g es) :
    (∀ pre, pre <+: es → UdpKept g (Runs.run (step s) g pre)) ↔
      Runs.Guarded (step s) (fun g e => ¬FailsUdp g e) g es := by
  refine Runs.prefixes_iff_guarded (I := UdpKept g) ?_ ?_ ?_ ?_ hes
  · exact fun _ h => h
  · exact fun _ _ h hp hf => h.step hg hp hf
  · intro g' e h hp hkept hf
    obtain ⟨w, hw⟩ := hg.watched
    have hclosed := hf.closes h hg.other w
    rw [hkept.interest, hw] at hclosed
    cases hclosed
  · exact ⟨rfl, fun _ => rfl, fun w => by simp [Worker.sockets, hg.started.busy w],
      by simp [hg.started.sessions], hg.driver⟩

theorem launchedGateway_udpStarted : UdpStarted idleSetup launchedGateway where
  started := launchedGateway_started
  other := by decide
  watched := ⟨0, by decide +kernel⟩
  reading w := by
    rw [launchedGateway_interest]
    split_ifs <;> simp
  driver := by decide +kernel

/-- A datagram, an empty datagram and a read that finds nothing. -/
def udpReads : List Event :=
  [.epoll 0 5 .input (.data [0x40, 0x02, 0x02, 0xBC]), .epoll 0 5 .input (.data []),
    .epoll 0 5 .input (.error .eagain)]

theorem udp_descriptor_kept_datagrams :
    UdpKept launchedGateway (Runs.run (step idleSetup) launchedGateway udpReads) := by
  refine (udp_descriptor_kept_iff launchedGateway_udpStarted udpReads ⟨?_, ?_, ?_, trivial⟩).2
    ⟨?_, ?_, ?_, trivial⟩ _ (List.prefix_refl _)
  · unfold Possible
    decide +kernel
  · unfold Possible
    decide +kernel
  · unfold Possible
    decide +kernel
  · rintro ⟨-, ⟨⟩⟩
  · rintro ⟨-, ⟨⟩⟩
  · rintro ⟨-, ⟨⟩⟩

/-- A read of the UDP descriptor fails, and the dispatcher closes it. -/
theorem udp_descriptor_closed_by_failed_read :
    ¬∀ es : List Event, Runs.Guarded (step idleSetup) Possible launchedGateway es →
      UdpKept launchedGateway (Runs.run (step idleSetup) launchedGateway es) := by
  intro h
  have hposs : Runs.Guarded (step idleSetup) Possible launchedGateway
      [.epoll 0 5 .input (.error .other)] := by
    refine ⟨?_, trivial⟩
    unfold Possible
    decide +kernel
  have hopen := (h _ hposs).interest 0
  revert hopen
  decide +kernel

end Gateway

end Xlab
