import Xlab.Simulation
import Xlab.UdpDescriptor

/-!
# The event loops

The loop of `xlab_epoll_init` waits for a batch of events and handles them one by one, while the
acceptor, the background thread and the other loops go on. Its variable `ret` is set to −1 once
for a batch, and an event that no branch is for would be closed or not by what the event before
it returned.

`Loops` are the loops of all workers, each with its `ret` and the rest of its batch. The
gateway takes an event as soon as it comes (`Gateway.step`), and `loopStep` later : by then the
descriptor of an event in a batch could have been closed, and its number given to another
connection. `loops_refine` : it never is, and the loops do what the gateway does with the same
events, unless an event closes one of the two descriptors that all loops watch.
-/

namespace Xlab

/-! ## The events of epoll -/

/-- `EPOLLIN`. -/
def epollIn : UInt32 := 0x001

/-- `EPOLLOUT`. -/
def epollOut : UInt32 := 0x004

/-- `EPOLLERR`. -/
def epollErr : UInt32 := 0x008

/-- `EPOLLHUP`. -/
def epollHup : UInt32 := 0x010

/-- `EPOLLRDHUP`. -/
def epollRdHup : UInt32 := 0x2000

/-- The event `xlab_epoll_add` and `xlab_epoll_change_mode` add for a mode. -/
def EpollMode.events : EpollMode → UInt32
  | .read => epollIn
  | .write => epollOut

/-- What `xlab_epoll_add` asks for. All descriptors are level-triggered. -/
def epollAddEvents (m : EpollMode) : UInt32 :=
  epollErr ||| epollHup ||| epollRdHup ||| m.events

/-- What `xlab_epoll_change_mode` asks for. -/
def epollChangeEvents (m : EpollMode) : UInt32 :=
  epollErr ||| epollHup ||| m.events

/-- `struct epoll_event`. -/
structure EpollEvent where
  fd : ℤ
  events : UInt32
  deriving DecidableEq, Repr

/-- The branch of the loop an event goes to, `none` if it goes to none. -/
def EpollEvent.ready (ev : EpollEvent) : Option Gateway.Ready :=
  if ev.events &&& epollIn ≠ 0 then some .input
  else if ev.events &&& epollOut ≠ 0 then some .output
  else if ev.events &&& (epollHup ||| epollErr ||| epollRdHup) ≠ 0 then some .error
  else none

/-- A descriptor of mode `m` can have the events : there are some, and only those that were asked
for when it was added or its mode was changed. -/
def EpollMode.Reports (m : EpollMode) (events : UInt32) : Prop :=
  events ≠ 0 ∧
    (events &&& epollAddEvents m = events ∨ events &&& epollChangeEvents m = events)

theorem and_or_distrib (x y z : UInt32) : x &&& (y ||| z) = x &&& y ||| x &&& z := by
  rw [← UInt32.toBitVec_inj]
  exact BitVec.and_or_distrib_left

theorem epollAddEvents_and_change (m : EpollMode) (events : UInt32)
    (h : events &&& epollChangeEvents m = events) : events &&& epollAddEvents m = events := by
  have hsub : epollChangeEvents m &&& epollAddEvents m = epollChangeEvents m := by
    cases m <;> decide
  rw [← h, UInt32.and_assoc, hsub]

/-- Every event that is asked for has a branch, and only a descriptor that is watched for writing
is reported writable. -/
theorem EpollMode.Reports.ready {m : EpollMode} {ev : EpollEvent} (h : m.Reports ev.events) :
    ∃ r, ev.ready = some r ∧ (r = .output → m = .write) := by
  have hadd : ev.events &&& epollAddEvents m = ev.events :=
    h.2.elim id (epollAddEvents_and_change m ev.events)
  unfold EpollEvent.ready
  split_ifs with hin hout herr
  · exact ⟨_, rfl, nofun⟩
  · refine ⟨_, rfl, fun _ => ?_⟩
    cases m with
    | write => rfl
    | read =>
      refine absurd ?_ hout
      have hno : epollAddEvents .read &&& epollOut = 0 := by decide
      rw [← hadd, UInt32.and_assoc, hno, UInt32.and_zero]
  · exact ⟨_, rfl, nofun⟩
  · refine absurd ?_ h.1
    rw [not_not] at hin hout herr
    have hsplit : epollAddEvents m =
        (epollHup ||| epollErr ||| epollRdHup) ||| m.events := by
      cases m <;> decide
    have hmode : ev.events &&& m.events = 0 := by
      cases m with
      | read => exact hin
      | write => exact hout
    rw [← hadd, hsplit, and_or_distrib, herr, hmode, UInt32.or_zero]

namespace Gateway

variable {W : Type}

/-! ## The loops -/

/-- The gateway and the event loops : the `ret` of each, and what is left of its batch. -/
structure Loops (W : Type) where
  gateway : Gateway W
  ret : ℕ → ℤ
  batch : ℕ → List EpollEvent

/-- A step of a loop, or of the other threads. -/
inductive LoopEvent where
  /-- `epoll_wait` returns in worker `w`. -/
  | wait (w : ℕ) (evs : List EpollEvent)
  /-- A turn of the loop over the batch, where a read of the socket gives `r`. -/
  | turn (w : ℕ) (r : ReadOutcome)
  /-- A connection is accepted. -/
  | accept (fd : ℤ) (added : Bool)
  /-- The background thread is at a slot. -/
  | work (i : Fin asyncQueueDepth)
  /-- The sockets get ready for the calls of a new script. -/
  | sockets (script : List IoOutcome)

/-- The handlers in the body of the loop : the new `ret`. -/
def loopHandler (s : Setup W) (w : ℕ) (ev : EpollEvent) (r : ReadOutcome) (ret : ℤ)
    (g : Gateway W) : ℤ × Gateway W :=
  match ev.ready with
  | some .input => g.connRead s w ev.fd r
  | some .output => g.connWrite w ev.fd
  | some .error => g.connError w ev.fd
  | none => (ret, g)

/-- One step of the loops. `epoll_wait` is called when the batch is done. -/
def loopStep (s : Setup W) (l : Loops W) : LoopEvent → Loops W
  | .wait w evs =>
    if l.batch w = [] then
      { l with ret := Function.update l.ret w (-1), batch := Function.update l.batch w evs }
    else l
  | .turn w r =>
    match l.batch w with
    | [] => l
    | ev :: rest =>
      let res := loopHandler s w ev r (l.ret w) l.gateway
      { gateway := closeFailed w ev.fd res
        ret := Function.update l.ret w res.1
        batch := Function.update l.batch w rest }
  | .accept fd added => { l with gateway := l.gateway.step s (.accept fd added) }
  | .work i => { l with gateway := l.gateway.step s (.work i) }
  | .sockets script => { l with gateway := l.gateway.step s (.sockets script) }

/-- What a step is to the gateway. -/
def loopLabel (l : Loops W) : LoopEvent → List Event
  | .wait _ _ => []
  | .turn w r =>
    match l.batch w with
    | [] => []
    | ev :: _ => (ev.ready.map fun ready => Event.epoll w ev.fd ready r).toList
  | .accept fd added => [.accept fd added]
  | .work i => [.work i]
  | .sockets script => [.sockets script]

/-- The kernel can do it : `epoll_wait` reports descriptors the instance watches, each once and
with events it was asked for, and an accepted descriptor was closed. -/
def LoopPossible (l : Loops W) : LoopEvent → Prop
  | .wait w evs => (evs.map EpollEvent.fd).Nodup ∧
      ∀ ev ∈ evs, ∃ m, l.gateway.shared.interest w ev.fd = some m ∧ m.Reports ev.events
  | .accept fd _ => ∀ w, l.gateway.shared.interest w fd = none
  | _ => True

/-- The turn closes the eventfd or the UDP descriptor : an error event comes for one of them, or a
read of the UDP descriptor fails with another error than `EAGAIN`. -/
def ClosesShared (s : Setup W) (l : Loops W) : LoopEvent → Prop
  | .turn w r =>
    match l.batch w with
    | [] => False
    | ev :: _ => (ev.fd = s.eventFd ∧ ev.ready = some .error) ∨
        (ev.fd = l.gateway.trans.fds .udp ∧
          (ev.ready = some .error ∨ (ev.ready = some .input ∧ r = .error .other)))
  | _ => False

/-! ## What an event touches -/

/-- What an event of `fd` in worker `w` leaves of the rest : a descriptor other than `fd` keeps its
mode, or it is the socket of a session and watched by `w` and is armed there. No other instance
takes `fd` up, and no other connection or session comes. -/
structure Touches (w : ℕ) (fd : ℤ) (g g' : Gateway W) : Prop where
  others : ∀ w' fd', fd' ≠ fd → g'.shared.interest w' fd' = g.shared.interest w' fd' ∨
    (w' = w ∧ g.shared.interest w fd' ≠ none ∧ g'.shared.interest w fd' = some .write ∧
      ∃ id ∈ g.roll.directory, id.socket = fd')
  elsewhere : ∀ w' ≠ w, g'.shared.interest w' fd = g.shared.interest w' fd ∨
    g'.shared.interest w' fd = none
  unwatched : ∀ w', g.shared.interest w' fd = none → g'.shared.interest w' fd = none
  directory : ∀ id ∈ g'.roll.directory, id.socket ≠ fd → id ∈ g.roll.directory
  sockets : ∀ w', ∀ fd' ∈ g'.roll.sockets w', fd' ≠ fd → fd' ∈ g.roll.sockets w'

namespace Touches

variable {w : ℕ} {fd : ℤ} {g g' g'' : Gateway W}

theorem refl (w : ℕ) (fd : ℤ) (g : Gateway W) : Touches w fd g g :=
  ⟨fun _ _ _ => Or.inl rfl, fun _ _ => Or.inl rfl, fun _ h => h, fun _ h _ => h,
    fun _ _ h _ => h⟩

/-- A change of the roll alone. -/
theorem roll (h : Touches w fd g g') (hi : g''.shared.interest = g'.shared.interest)
    (hdir : ∀ id ∈ g''.roll.directory, id.socket ≠ fd → id ∈ g'.roll.directory)
    (hsock : ∀ w', ∀ fd' ∈ g''.roll.sockets w', fd' ≠ fd → fd' ∈ g'.roll.sockets w') :
    Touches w fd g g'' where
  others w' fd' hne := by
    rw [hi]
    exact h.others w' fd' hne
  elsewhere w' hw := by
    rw [hi]
    exact h.elsewhere w' hw
  unwatched w' hnone := by
    rw [hi]
    exact h.unwatched w' hnone
  directory id hid hne := h.directory id (hdir id hid hne) hne
  sockets w' fd' hfd hne := h.sockets w' fd' (hsock w' fd' hfd hne) hne

/-- A call on the session of `fd`. -/
theorem tunes (h : Touches w fd g g') (hroll : g''.roll = g'.roll)
    (ht : Tunes w fd g'.shared g''.shared) : Touches w fd g g'' where
  others w' fd' hne := by
    rw [ht.others w' fd' fun _ => hne]
    by_cases hw : w' = w
    · subst hw
      rw [ht.others w' fd' fun _ => hne]
      exact h.others w' fd' hne
    · exact (h.others w' fd' hne).imp id fun hwrite => absurd hwrite.1 hw
  elsewhere w' hw := by
    rw [ht.others w' fd fun he => absurd he hw]
    exact h.elsewhere w' hw
  unwatched w' hnone := (ht.watched_iff w' fd).2 (h.unwatched w' hnone)
  directory := hroll ▸ h.directory
  sockets := hroll ▸ h.sockets

/-- A delivery to a session. -/
theorem deliver (h : Touches w fd g g') {cs : Session} {l : Link W} (hcs : cs ∈ g'.sessions)
    (harms : Arms w ⟨cs, g'.shared⟩ l) : Touches w fd g (g'.put l) := by
  by_cases hfd : cs.ident.socket = fd
  · exact h.tunes (roll_put l g') (hfd ▸ harms.tunes)
  refine ⟨fun w' fd' hne => ?_, fun w' hw => ?_, fun w' hnone => ?_, ?_, ?_⟩
  · by_cases hat : w' = w ∧ fd' = cs.ident.socket
    · obtain ⟨rfl, rfl⟩ := hat
      rcases harms.raises with hsame | hwrite
      · exact (h.others _ _ hne).imp hsame.trans fun hw => ⟨rfl, hw.2.1, hsame.trans hw.2.2.1,
          hw.2.2.2⟩
      · refine Or.inr ⟨rfl, fun hnone => ?_, hwrite, cs.ident,
          h.directory _ (List.mem_map_of_mem hcs) hfd, rfl⟩
        rcases h.others w' _ hne with hsame | hw
        · have hnone' := harms.tunes.watched.2 (hsame.trans hnone)
          rw [hwrite] at hnone'
          cases hnone'
        · exact hw.2.1 hnone
    · have hsame : ∀ w'', w'' = w' → (g'.put l).shared.interest w'' fd' =
          g'.shared.interest w'' fd' := fun w'' hw'' =>
        harms.tunes.others w'' fd' fun hw hs => hat ⟨hw''.symm.trans hw, hs⟩
      rw [hsame w' rfl]
      exact (h.others w' fd' hne).imp id fun hw =>
        ⟨hw.1, hw.2.1, (hsame w hw.1.symm).trans hw.2.2.1, hw.2.2.2⟩
  · exact (h.elsewhere w' hw).imp (harms.tunes.others w' fd fun he => absurd he hw).trans
      (harms.tunes.others w' fd fun he => absurd he hw).trans
  · exact (harms.tunes.watched_iff w' fd).2 (h.unwatched w' hnone)
  · rw [roll_put]
    exact h.directory
  · rw [roll_put]
    exact h.sockets

theorem sessionRemove (h : Touches w fd g g') : Touches w fd g (g'.sessionRemove w fd) := by
  refine h.roll (by rw [shared_sessionRemove]) (fun id hid _ => ?_) fun w' fd' hfd _ => ?_
  · rw [roll_sessionRemove] at hid
    exact List.mem_of_mem_eraseP hid
  · rwa [roll_sessionRemove] at hfd

theorem removeClient (h : Touches w fd g g') : Touches w fd g (g'.removeClient w fd) where
  others w' fd' hne := by
    rw [interest_removeClient, if_neg hne]
    exact (h.others w' fd' hne).imp id fun hw => ⟨hw.1, hw.2.1, by
      rw [interest_removeClient, if_neg hne]
      exact hw.2.2⟩
  elsewhere w' _ := Or.inr (by rw [interest_removeClient, if_pos rfl])
  unwatched w' _ := by rw [interest_removeClient, if_pos rfl]
  directory := h.directory
  sockets w' fd' hfd hne := h.sockets w' fd' (mem_sockets_removeClient hfd) hne

/-- A handler is done with the session of `fd`. -/
theorem leave (h : Touches w fd g g') {e : Exit W} (ht : Tunes w fd g'.shared e.link.sh) :
    Touches w fd g (g'.leave w fd e).2 :=
  leave_keeps (fun _ h => h.sessionRemove) (h.tunes (roll_put e.link g') ht)

end Touches

variable {s : Setup W} {g : Gateway W}

/-- A flush touches no descriptor in particular. -/
theorem touches_flushCompleted (w : ℕ) (fd : ℤ) (g : Gateway W) :
    Touches w fd g (g.flushCompleted w) := by
  refine flushCompleted_keeps (fun g' i h => flushSlot_keeps ?_ (fun cs ht => ?_) h) (.refl w fd g)
  · exact h.tunes rfl (.of_eq rfl)
  · exact h.deliver (Registry.mem_of_find (session_of_flushTarget ht)) (arms_flushDeliver w i _)

theorem touches_connRead (s : Setup W) (w : ℕ) (fd : ℤ) (r : ReadOutcome) (g : Gateway W) :
    Touches w fd g (g.connRead s w fd r).2 := by
  refine connRead_keeps (fun _ => ?_) ?_ (fun cs g' _ _ ho => ?_) (.refl w fd g)
  · exact touches_flushCompleted w fd g
  · rw [connReadDatagram_eq]
    exact (Touches.refl w fd g).tunes rfl (.of_eq (interest_connReadDatagram s fd r g))
  · have harms := arms_connReadTcp s.server w s.table r ⟨cs, g'.shared⟩
    rcases openSession_cases ho with ⟨hget, rfl⟩ | ⟨-, -, rfl, rfl⟩
    · have hfd := (Roll.isAt_iff.1 (Registry.find_key hget)).2
      exact (Touches.refl w fd g').leave (hfd ▸ harms.tunes)
    · have hopen : Touches w fd g (g.addSession (Session.create ⟨g.nextSid, w, fd⟩)) := by
        refine (Touches.refl w fd g).roll rfl (fun id hid hne => ?_) fun _ _ h _ => h
        rw [roll_addSession] at hid
        rcases List.mem_append.1 hid with hid | hid
        · exact hid
        · rw [List.mem_singleton.1 hid] at hne
          exact absurd rfl hne
      exact hopen.leave harms.tunes

theorem touches_connWrite (w : ℕ) (fd : ℤ) (g : Gateway W) :
    Touches w fd g (g.connWrite w fd).2 := by
  have hmark : Touches w fd g (g.setWorker w (schedUpdateConnStatus fd .process)) :=
    (Touches.refl w fd g).tunes (roll_updateConnStatus w fd .process g) (.of_eq rfl)
  rcases connWrite_cases w fd g with ⟨-, he⟩ | ⟨-, -, he⟩ | ⟨cs, -, hget, he⟩ <;> rw [he]
  · have ht : Touches w fd g { g with shared := epollChangeMode w fd .read g.shared } :=
      (Touches.refl w fd g).tunes rfl (.of_changeMode rfl)
    refine ht.roll rfl (fun _ h _ => h) fun w' fd' hfd hne => ?_
    have hfd' : fd' ∈ ((g.setWorker w (schedRegisterClient fd)).workers w').sockets := hfd
    by_cases hw : w' = w
    · subst hw
      simp only [setWorker, Function.update_self] at hfd'
      exact (mem_sockets_registerClient hfd').elim id fun h => absurd h.1 hne
    · simp only [setWorker, Function.update_of_ne hw] at hfd'
      exact hfd'
  · exact hmark
  · have hfd := (Roll.isAt_iff.1 (Registry.find_key hget)).2
    exact hmark.leave (hfd ▸ connWriteTcp_tunes w ⟨cs, g.shared⟩)

theorem touches_dispatch (s : Setup W) (w : ℕ) (fd : ℤ) (ready : Ready) (r : ReadOutcome)
    (g : Gateway W) : Touches w fd g (g.epollDispatch s w fd ready r) := by
  have hclose : ∀ res : ℤ × Gateway W, Touches w fd g res.2 →
      Touches w fd g (closeFailed w fd res) := fun _ h => closeFailed_keeps h.removeClient h
  cases ready with
  | input => exact hclose _ (touches_connRead s w fd r g)
  | output => exact hclose _ (touches_connWrite w fd g)
  | error => exact hclose _ (Touches.refl w fd g).removeClient.sessionRemove

/-- A descriptor that is accepted is armed in one instance, or is closed again. -/
theorem interest_acceptClient (s : Setup W) {fd : ℤ} (added : Bool) {g : Gateway W}
    (hp : ∀ w, g.shared.interest w fd = none) :
    (g.acceptClient s fd added).shared.interest = g.shared.interest ∨
      ∃ w, (g.acceptClient s fd added).shared.interest = Function.update g.shared.interest w
        (Function.update (g.shared.interest w) fd (some .write)) := by
  have hclose : (g.closeFd fd).shared.interest = g.shared.interest := by
    funext w
    exact Function.update_eq_self_iff.2 (hp w).symm
  unfold acceptClient
  split
  · exact Or.inl hclose
  · split_ifs
    · exact Or.inr ⟨_, rfl⟩
    · exact Or.inl hclose

theorem interest_acceptClient_of_ne (s : Setup W) {fd fd' : ℤ} (added : Bool) {g : Gateway W}
    (hp : ∀ w, g.shared.interest w fd = none) (hne : fd' ≠ fd) (w : ℕ) :
    (g.acceptClient s fd added).shared.interest w fd' = g.shared.interest w fd' := by
  rcases interest_acceptClient s added hp with h | ⟨w', h⟩ <;> rw [h]
  by_cases hw : w = w'
  · subst hw
    simp [hne]
  · simp [hw]

/-! ## The shared descriptors -/

/-- A gateway whose loops are launched : they watch the eventfd and the UDP descriptor for reading,
and nothing else. -/
structure LoopsLaunched (s : Setup W) (g : Gateway W) : Prop where
  udp : UdpStarted s g
  watched : ∃ w, g.shared.interest w s.eventFd = some .read
  reading : ∀ w, g.shared.interest w s.eventFd ≠ some .write
  others : ∀ w fd, g.shared.interest w fd ≠ none → fd = s.eventFd ∨ fd = g.trans.fds .udp

/-- The event closes the eventfd or the UDP descriptor. -/
def FailsShared (s : Setup W) (g : Gateway W) (e : Event) : Prop :=
  FailsUdp g e ∨ ∃ w r, e = .epoll w s.eventFd .error r

/-- The eventfd and the UDP descriptor are watched as in `g₀` and belong to no connection and no
session, and any other descriptor is watched by one loop at most. -/
structure Apart (s : Setup W) (g₀ g : Gateway W) : Prop where
  udp : UdpKept g₀ g
  event : ∀ w, g.shared.interest w s.eventFd = g₀.shared.interest w s.eventFd
  connection : ∀ w, s.eventFd ∉ g.roll.sockets w
  session : ∀ id ∈ g.roll.directory, id.socket ≠ s.eventFd
  alone : ∀ fd, fd ≠ s.eventFd → fd ≠ g₀.trans.fds .udp → ∀ w w',
    g.shared.interest w fd ≠ none → g.shared.interest w' fd ≠ none → w = w'

namespace Apart

variable {g₀ g' : Gateway W}

theorem start (h : LoopsLaunched s g) : Apart s g g where
  udp := ⟨rfl, fun _ => rfl, fun w => by simp [Worker.sockets, h.udp.started.busy w],
    by simp [h.udp.started.sessions], h.udp.driver⟩
  event _ := rfl
  connection w := by simp [roll, Worker.sockets, h.udp.started.busy w]
  session := by simp [roll, h.udp.started.sessions]
  alone fd hev hudp w _ hw _ := (h.others w fd hw).elim (absurd · hev) (absurd · hudp)

/-- The eventfd is no socket of a session, so another descriptor's event does not touch it. -/
theorem event_of_touches (h : Apart s g₀ g) {w : ℕ} {fd : ℤ} (ht : Touches w fd g g')
    (hfd : s.eventFd ≠ fd) (w' : ℕ) :
    g'.shared.interest w' s.eventFd = g₀.shared.interest w' s.eventFd := by
  rcases ht.others w' s.eventFd hfd with hsame | ⟨-, -, -, id, hid, hs⟩
  · exact hsame.trans (h.event w')
  · exact absurd hs (h.session id hid)

theorem alone_of_touches (h : Apart s g₀ g) {w : ℕ} {fd : ℤ} (ht : Touches w fd g g') (fd' : ℤ)
    (hev : fd' ≠ s.eventFd) (hudp : fd' ≠ g₀.trans.fds .udp) (w₁ w₂ : ℕ)
    (h₁ : g'.shared.interest w₁ fd' ≠ none) (h₂ : g'.shared.interest w₂ fd' ≠ none) : w₁ = w₂ := by
  have hbefore : ∀ w', g'.shared.interest w' fd' ≠ none → g.shared.interest w' fd' ≠ none := by
    intro w' hw' hnone
    by_cases hfd : fd' = fd
    · subst hfd
      exact hw' (ht.unwatched w' hnone)
    · rcases ht.others w' fd' hfd with hsame | ⟨rfl, hne, -⟩
      · exact hw' (hsame.trans hnone)
      · exact hne hnone
  exact h.alone fd' hev hudp w₁ w₂ (hbefore w₁ h₁) (hbefore w₂ h₂)

/-- An event of another descriptor than the eventfd. -/
theorem touched (h : Apart s g₀ g) (hudp : UdpKept g₀ g') {w : ℕ} {fd : ℤ}
    (ht : Touches w fd g g') (hfd : s.eventFd ≠ fd) : Apart s g₀ g' where
  udp := hudp
  event := h.event_of_touches ht hfd
  connection w' hmem := h.connection w' (ht.sockets w' _ hmem hfd)
  session id hid he := h.session id (ht.directory id hid (he ▸ hfd)) he
  alone := h.alone_of_touches ht

theorem of_interest (h : Apart s g₀ g) {sh : Shared W} (hi : sh.interest = g.shared.interest) :
    Apart s g₀ { g with shared := sh } :=
  ⟨h.udp.of_interest hi, fun w => by rw [hi]; exact h.event w, h.connection, h.session,
    fun fd hev hudp w w' hw hw' => h.alone fd hev hudp w w' (hi ▸ hw) (hi ▸ hw')⟩

theorem acceptClient (h : Apart s g₀ g) (h₀ : LoopsLaunched s g₀) {fd : ℤ} (added : Bool)
    (hp : ∀ w, g.shared.interest w fd = none) (hudp : UdpKept g₀ (g.acceptClient s fd added)) :
    Apart s g₀ (g.acceptClient s fd added) := by
  have hev : s.eventFd ≠ fd := by
    rintro rfl
    obtain ⟨w, hw⟩ := h₀.watched
    have hnone := hp w
    rw [h.event, hw] at hnone
    cases hnone
  have hroll := roll_acceptClient s fd added g
  refine ⟨hudp, fun w => ?_, hroll ▸ h.connection, hroll ▸ h.session,
    fun fd' hne hne' w w' hw hw' => ?_⟩
  · rw [interest_acceptClient_of_ne s added hp hev]
    exact h.event w
  · by_cases hfd : fd' = fd
    · subst hfd
      rcases interest_acceptClient s added hp with hi | ⟨w₀, hi⟩
      · rw [hi] at hw
        exact absurd (hp w) hw
      · have honly : ∀ w, (g.acceptClient s fd' added).shared.interest w fd' ≠ none → w = w₀ := by
          intro w hw
          by_contra hne
          rw [hi, Function.update_of_ne hne] at hw
          exact hw (hp w)
        exact (honly w hw).trans (honly w' hw').symm
    · rw [interest_acceptClient_of_ne s added hp hfd] at hw hw'
      exact h.alone fd' hne hne' w w' hw hw'

/-- Every event that can come and closes neither shared descriptor. -/
theorem step (h : Apart s g₀ g) (h₀ : LoopsLaunched s g₀) {e : Event} (hp : g.Possible e)
    (hf : ¬FailsShared s g e) : Apart s g₀ (g.step s e) := by
  have hudp := h.udp.step h₀.udp hp fun hu => hf (Or.inl hu)
  cases e with
  | accept fd added => exact h.acceptClient h₀ added hp hudp
  | work i => exact h.of_interest (by unfold Shared.work; rfl)
  | sockets script => exact h.of_interest rfl
  | epoll w fd ready r =>
    by_cases hfd : s.eventFd = fd
    · subst hfd
      cases ready with
      | error => exact absurd (Or.inr ⟨w, r, rfl⟩) hf
      | output =>
        rw [Possible, h.event] at hp
        exact absurd hp (h₀.reading w)
      | input =>
        have hflush : g.step s (.epoll w s.eventFd .input r) = g.flushCompleted w := by
          rw [Gateway.step, epollDispatch, connRead, if_pos rfl,
            closeFailed_of_nonneg (Int.le_refl 0)]
        rw [hflush] at hudp ⊢
        exact h.touched hudp (touches_flushCompleted w (g₀.trans.fds .udp) g) h₀.udp.other
    · exact h.touched hudp (touches_dispatch s w fd ready r g) hfd

end Apart

/-! ## The events of a batch -/

/-- A descriptor of mode `m` can still have the event. -/
def StillReady (m : Option EpollMode) : Ready → Prop
  | .output => m = some .write
  | _ => m ≠ none

theorem possible_epoll {w : ℕ} {fd : ℤ} {ready : Ready} {r : ReadOutcome} :
    g.Possible (.epoll w fd ready r) ↔ StillReady (g.shared.interest w fd) ready := by
  cases ready <;> exact Iff.rfl

theorem StillReady.ne_none {m : Option EpollMode} {ready : Ready} (h : StillReady m ready) :
    m ≠ none := by
  cases ready with
  | output => exact h ▸ Option.some_ne_none _
  | input => exact h
  | error => exact h

/-- A mode that is kept or armed. -/
theorem StillReady.of_or {m m' : Option EpollMode} {ready : Ready} (h : StillReady m ready)
    (hm : m' = m ∨ m' = some .write) : StillReady m' ready := by
  rcases hm with rfl | rfl
  · exact h
  · cases ready with
    | output => rfl
    | input => exact Option.some_ne_none _
    | error => exact Option.some_ne_none _

/-- The events of a batch are of different descriptors, and can still be handled. -/
structure Current (l : Loops W) : Prop where
  distinct : ∀ w, ((l.batch w).map EpollEvent.fd).Nodup
  ready : ∀ w, ∀ ev ∈ l.batch w, ∃ ready, ev.ready = some ready ∧
    StillReady (l.gateway.shared.interest w ev.fd) ready

/-- The loops before the first event. -/
def Loops.start (g : Gateway W) : Loops W :=
  ⟨g, fun _ => -1, fun _ => []⟩

theorem current_start (g : Gateway W) : Current (.start g) :=
  ⟨fun _ => List.nodup_nil, fun _ _ h => nomatch h⟩

/-- A change of the modes that leaves what the batches need. -/
theorem Current.gateway {l : Loops W} (h : Current l) {g' : Gateway W}
    (hi : ∀ w, ∀ ev ∈ l.batch w, g'.shared.interest w ev.fd = l.gateway.shared.interest w ev.fd ∨
      g'.shared.interest w ev.fd = some .write) : Current { l with gateway := g' } where
  distinct := h.distinct
  ready w ev hev := by
    obtain ⟨ready, hready, hstill⟩ := h.ready w ev hev
    exact ⟨ready, hready, hstill.of_or (hi w ev hev)⟩

theorem Current.wait {l : Loops W} (h : Current l) {s : Setup W} {w : ℕ} {evs : List EpollEvent}
    (hp : LoopPossible l (.wait w evs)) : Current (loopStep s l (.wait w evs)) := by
  unfold loopStep
  simp only []
  split_ifs
  · refine ⟨fun w' => ?_, fun w' ev hev => ?_⟩
    · by_cases hw : w' = w
      · subst hw
        simpa using hp.1
      · simpa [hw] using h.distinct w'
    · by_cases hw : w' = w
      · subst hw
        simp only [Function.update_self] at hev
        obtain ⟨m, hm, hreports⟩ := hp.2 ev hev
        obtain ⟨ready, hready, hwrite⟩ := hreports.ready
        refine ⟨ready, hready, ?_⟩
        simp only [hm]
        cases ready with
        | output => exact congrArg some (hwrite rfl)
        | input => exact Option.some_ne_none m
        | error => exact Option.some_ne_none m
      · simp only [Function.update_of_ne hw] at hev
        exact h.ready w' ev hev
  · exact h

/-- A turn handles the first event of the batch as the gateway does when it comes. -/
theorem loopStep_turn {l : Loops W} {w : ℕ} {ev : EpollEvent} {rest : List EpollEvent}
    {ready : Ready} (hb : l.batch w = ev :: rest) (hready : ev.ready = some ready)
    (r : ReadOutcome) :
    (loopStep s l (.turn w r)).gateway = l.gateway.step s (.epoll w ev.fd ready r) ∧
      (loopStep s l (.turn w r)).batch = Function.update l.batch w rest ∧
      loopLabel l (.turn w r) = [.epoll w ev.fd ready r] := by
  have hhandler : closeFailed w ev.fd (loopHandler s w ev r (l.ret w) l.gateway) =
      l.gateway.step s (.epoll w ev.fd ready r) := by
    unfold loopHandler
    rw [hready]
    cases ready <;> rfl
  refine ⟨?_, ?_, ?_⟩
  · simp only [loopStep, hb]
    exact hhandler
  · simp only [loopStep, hb]
  · simp only [loopLabel, hb, hready]
    rfl

theorem closesShared_turn {l : Loops W} {w : ℕ} {ev : EpollEvent} {rest : List EpollEvent}
    {ready : Ready} {r : ReadOutcome} (hb : l.batch w = ev :: rest)
    (hready : ev.ready = some ready) (h : ¬ClosesShared s l (.turn w r)) :
    ¬FailsShared s l.gateway (.epoll w ev.fd ready r) := by
  simp only [ClosesShared, hb, hready] at h
  rintro (hudp | ⟨w', r', he⟩)
  · cases ready with
    | input => exact h (Or.inr ⟨hudp.1, Or.inr ⟨rfl, hudp.2⟩⟩)
    | output => exact hudp
    | error => exact h (Or.inr ⟨hudp, Or.inl rfl⟩)
  · simp only [Event.epoll.injEq] at he
    exact h (Or.inl ⟨he.2.1, congrArg some he.2.2.1⟩)

/-- Two loops have the same event only of a shared descriptor, which stays as it is, and an event
of another descriptor leaves what the batches need. -/
theorem Current.turn {g₀ : Gateway W} {l l' : Loops W} (h : Current l) {w : ℕ} {ev : EpollEvent}
    {rest : List EpollEvent} (hb : l.batch w = ev :: rest) (ha : Apart s g₀ l.gateway)
    (ha' : Apart s g₀ l'.gateway) (ht : Touches w ev.fd l.gateway l'.gateway)
    (hbatch : l'.batch = Function.update l.batch w rest) : Current l' := by
  have hdistinct := h.distinct w
  rw [hb, List.map_cons, List.nodup_cons] at hdistinct
  have hwatched : ∀ w', ∀ ev ∈ l.batch w', l.gateway.shared.interest w' ev.fd ≠ none := by
    intro w' ev hev
    obtain ⟨_, -, hstill⟩ := h.ready w' ev hev
    exact hstill.ne_none
  have hmem : ∀ w', ∀ ev' ∈ l'.batch w',
      ev' ∈ l.batch w' ∧ (w' = w → ev'.fd ≠ ev.fd) := by
    intro w' ev' hev'
    rw [hbatch] at hev'
    by_cases hw : w' = w
    · subst hw
      rw [Function.update_self] at hev'
      refine ⟨hb ▸ List.mem_cons_of_mem ev hev', fun _ he => hdistinct.1 ?_⟩
      exact he ▸ List.mem_map_of_mem hev'
    · rw [Function.update_of_ne hw] at hev'
      exact ⟨hev', fun he => absurd he hw⟩
  refine ⟨fun w' => ?_, fun w' ev' hev' => ?_⟩
  · rw [hbatch]
    by_cases hw : w' = w
    · subst hw
      rw [Function.update_self]
      exact hdistinct.2
    · rw [Function.update_of_ne hw]
      exact h.distinct w'
  · obtain ⟨hbefore, hne⟩ := hmem w' ev' hev'
    obtain ⟨ready, hready, hstill⟩ := h.ready w' ev' hbefore
    refine ⟨ready, hready, hstill.of_or ?_⟩
    by_cases hfd : ev'.fd = ev.fd
    · have hother : w' ≠ w := fun hw => hne hw hfd
      have hboth := hwatched w ev (hb ▸ List.mem_cons_self)
      by_cases hevent : ev'.fd = s.eventFd
      · rw [hevent, ha.event, ha'.event]
        exact Or.inl rfl
      · by_cases hudp : ev'.fd = g₀.trans.fds .udp
        · rw [hudp, ha.udp.interest, ha'.udp.interest]
          exact Or.inl rfl
        · exact absurd (ha.alone _ hevent hudp w' w (hwatched w' ev' hbefore) (hfd ▸ hboth)) hother
    · rcases ht.others w' ev'.fd hfd with hsame | ⟨rfl, -, hwrite, -⟩
      · exact Or.inl hsame
      · exact Or.inr hwrite

/-- The gateway of the loops is `g`, and what holds between the events. -/
structure InStep (s : Setup W) (g₀ : Gateway W) (l : Loops W) (g : Gateway W) : Prop where
  same : l.gateway = g
  apart : Apart s g₀ l.gateway
  current : Current l

/-- The kernel can take the step, and it closes neither shared descriptor. -/
def LoopAllowed (s : Setup W) (l : Loops W) (e : LoopEvent) : Prop :=
  LoopPossible l e ∧ ¬ClosesShared s l e

/-- A step of the loops is an event of the gateway, or none. -/
theorem loops_simulate {g₀ : Gateway W} (h₀ : LoopsLaunched s g₀) :
    Simulation.Simulates (loopStep s) (step s) loopLabel (InStep s g₀) (LoopAllowed s)
      fun g e => g.Possible e ∧ ¬FailsShared s g e := by
  have hother : ∀ {l : Loops W} {g : Gateway W} {e : Event}, InStep s g₀ l g → g.Possible e →
      (∀ w, ∀ ev ∈ l.batch w, (g.step s e).shared.interest w ev.fd =
        g.shared.interest w ev.fd) → ¬FailsShared s g e →
        InStep s g₀ { l with gateway := l.gateway.step s e } (g.step s e) := by
    rintro l _ e ⟨rfl, ha, hc⟩ hp hi hf
    exact ⟨rfl, ha.step h₀ hp hf, hc.gateway fun w ev hev => Or.inl (hi w ev hev)⟩
  have hturn : ∀ {l : Loops W} {w : ℕ} {ev : EpollEvent} {rest : List EpollEvent} {r : ReadOutcome},
      Apart s g₀ l.gateway → Current l → l.batch w = ev :: rest →
        ¬ClosesShared s l (.turn w r) → ∃ ready, ev.ready = some ready ∧
          l.gateway.Possible (.epoll w ev.fd ready r) ∧
          ¬FailsShared s l.gateway (.epoll w ev.fd ready r) := by
    intro l w ev rest r ha hc hb hf
    obtain ⟨ready, hready, hstill⟩ := hc.ready w ev (hb ▸ List.mem_cons_self)
    exact ⟨ready, hready, possible_epoll.2 hstill, closesShared_turn hb hready hf⟩
  refine ⟨?_, ?_⟩
  · rintro l _ e ⟨rfl, ha, hc⟩ ⟨hp, hf⟩
    cases e with
    | wait w evs => trivial
    | accept fd added => exact ⟨⟨hp, by rintro (h | ⟨_, _, h⟩) <;> cases h⟩, trivial⟩
    | work i => exact ⟨⟨trivial, by rintro (h | ⟨_, _, h⟩) <;> cases h⟩, trivial⟩
    | sockets script => exact ⟨⟨trivial, by rintro (h | ⟨_, _, h⟩) <;> cases h⟩, trivial⟩
    | turn w r =>
      cases hb : l.batch w with
      | nil =>
        simp only [loopLabel, hb]
        trivial
      | cons ev rest =>
        obtain ⟨ready, hready, hposs, hfail⟩ := hturn ha hc hb hf
        rw [(loopStep_turn (s := s) hb hready r).2.2]
        exact ⟨⟨hposs, hfail⟩, trivial⟩
  · rintro l _ e ⟨rfl, ha, hc⟩ ⟨hp, hf⟩
    cases e with
    | wait w evs =>
      refine ⟨?_, ?_, hc.wait hp⟩ <;> unfold loopStep <;> simp only [] <;> split_ifs
      · rfl
      · rfl
      · exact ha
      · exact ha
    | accept fd added =>
      refine hother ⟨rfl, ha, hc⟩ hp (fun w ev hev => ?_) (by rintro (h | ⟨_, _, h⟩) <;> cases h)
      obtain ⟨_, -, hstill⟩ := hc.ready w ev hev
      refine interest_acceptClient_of_ne s added hp ?_ w
      rintro rfl
      exact hstill.ne_none (hp w)
    | work i =>
      refine hother ⟨rfl, ha, hc⟩ trivial (fun w ev _ => ?_) (by rintro (h | ⟨_, _, h⟩) <;> cases h)
      simp only [Gateway.step, Shared.work]
    | sockets script =>
      exact hother ⟨rfl, ha, hc⟩ trivial (fun _ _ _ => rfl) (by rintro (h | ⟨_, _, h⟩) <;> cases h)
    | turn w r =>
      cases hb : l.batch w with
      | nil =>
        simp only [loopLabel, loopStep, hb]
        exact ⟨rfl, ha, hc⟩
      | cons ev rest =>
        obtain ⟨ready, hready, hposs, hfail⟩ := hturn ha hc hb hf
        obtain ⟨hgateway, hbatch, hlabel⟩ := loopStep_turn (s := s) hb hready r
        have ha' : Apart s g₀ (loopStep s l (.turn w r)).gateway := by
          rw [hgateway]
          exact ha.step h₀ hposs hfail
        rw [hlabel]
        refine ⟨hgateway, ha', hc.turn hb ha ha' ?_ hbatch⟩
        rw [hgateway]
        exact touches_dispatch s w ev.fd ready r l.gateway

/-- Unless an event closes the eventfd or the UDP descriptor, the event loops do what the gateway
does with the same events in the order they are handled : all of them can come, and whatever
happened since it was reported, an event that waits in a batch is of a descriptor its loop
watches. -/
theorem loops_refine {g : Gateway W} (hg : LoopsLaunched s g) (es : List LoopEvent)
    (hes : Runs.Guarded (loopStep s) (LoopAllowed s) (.start g) es) :
    Runs.Guarded (step s) Possible g
        (Simulation.trace (loopStep s) loopLabel (.start g) es) ∧
      (Runs.run (loopStep s) (.start g) es).gateway =
        Runs.run (step s) g (Simulation.trace (loopStep s) loopLabel (.start g) es) ∧
      ∀ w, ∀ ev ∈ (Runs.run (loopStep s) (.start g) es).batch w,
        (Runs.run (loopStep s) (.start g) es).gateway.shared.interest w ev.fd ≠ none := by
  obtain ⟨hG, hR⟩ := (loops_simulate hg).run (t := g) ⟨rfl, .start hg, current_start g⟩ hes
  refine ⟨(Runs.guarded_and.1 hG).1, hR.same, fun w ev hev => ?_⟩
  obtain ⟨_, -, hstill⟩ := hR.current.ready w ev hev
  exact hstill.ne_none

theorem launchedGateway_loopsLaunched : LoopsLaunched idleSetup launchedGateway where
  udp := launchedGateway_udpStarted
  watched := ⟨0, by decide +kernel⟩
  reading w := by
    rw [launchedGateway_interest]
    split_ifs <;> simp
  others w fd hw := by
    rw [launchedGateway_interest] at hw
    split_ifs at hw with h
    · exact h.2
    · exact absurd rfl hw

theorem not_closesShared_of_ne {l : Loops W} {w : ℕ} {r : ReadOutcome}
    (h : ∀ ev ∈ l.batch w, ev.fd ≠ s.eventFd ∧ ev.fd ≠ l.gateway.trans.fds .udp) :
    ¬ClosesShared s l (.turn w r) := by
  cases hb : l.batch w with
  | nil => simp [ClosesShared, hb]
  | cons ev rest =>
    obtain ⟨hev, hudp⟩ := h ev (hb ▸ List.mem_cons_self)
    simp [ClosesShared, hb, hev, hudp]

/-- A client is accepted, registered, and reported readable. -/
def acceptedBatch : List LoopEvent :=
  [.accept 7 true, .wait 0 [⟨7, 4⟩], .turn 0 (.data []), .wait 0 [⟨7, 1⟩]]

theorem loops_refine_acceptedBatch : (Runs.run (loopStep idleSetup) (.start launchedGateway)
    acceptedBatch).gateway.shared.interest 0 7 ≠ none := by
  refine (loops_refine launchedGateway_loopsLaunched acceptedBatch
    ⟨⟨fun w => ?_, nofun⟩, ⟨⟨by decide, ?_⟩, nofun⟩, ⟨trivial, not_closesShared_of_ne ?_⟩,
      ⟨⟨by decide, ?_⟩, nofun⟩, trivial⟩).2.2 0 ⟨7, 1⟩ ?_
  · exact (launchedGateway_interest w 7).trans (by simp)
  · exact List.forall_mem_singleton.2 ⟨.write, by decide +kernel, by decide, by decide⟩
  · exact List.forall_mem_singleton.2 (by decide +kernel)
  · exact List.forall_mem_singleton.2 ⟨.read, by decide +kernel, by decide, by decide⟩
  · exact List.mem_singleton_self _

end Gateway

end Xlab
