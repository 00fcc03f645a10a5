import Xlab.Arming
import Xlab.Roll

/-!
# The epoll instances

`Gateway.Possible` says which events can come : a descriptor that is accepted is watched by no
epoll instance, and an instance reports only descriptors it watches, as writable only if they
are watched for writing.

A call on a session touches the mode of its socket only, in the instance of the worker that
makes the call, and leaves it watched or not (`Tunes`). Reads and flushes queue responses and
arm the socket with it, so they also keep what `Arms` says : a socket that is watched is armed
while responses wait.
-/

open Scanner

namespace Xlab

variable {W : Type}

/-! ## What a call changes -/

/-- From `sh` to `sh'` at most the mode of `fd` in the epoll instance of worker `w` changes, and
the descriptor stays watched there or not. -/
structure Tunes (w : ℕ) (fd : ℤ) (sh sh' : Shared W) : Prop where
  others : ∀ w' fd', (w' = w → fd' ≠ fd) → sh'.interest w' fd' = sh.interest w' fd'
  watched : sh'.interest w fd = none ↔ sh.interest w fd = none

namespace Tunes

variable {w : ℕ} {fd : ℤ} {sh sh' sh'' : Shared W}

theorem of_eq (h : sh'.interest = sh.interest) : Tunes w fd sh sh' :=
  ⟨fun w' fd' _ => by rw [h], by rw [h]⟩

theorem trans (h : Tunes w fd sh sh') (h' : Tunes w fd sh' sh'') : Tunes w fd sh sh'' :=
  ⟨fun w' fd' hne => (h'.others w' fd' hne).trans (h.others w' fd' hne),
    h'.watched.trans h.watched⟩

theorem of_changeMode {m : EpollMode}
    (h : sh'.interest = (epollChangeMode w fd m sh).interest) : Tunes w fd sh sh' where
  others w' fd' hne := by
    rw [h, epollChangeMode_interest_of_ne hne]
  watched := by
    rw [h, epollChangeMode_interest_self]
    split_ifs with hn <;> simp [hn]

/-- A descriptor that is watched somewhere stays watched there. -/
theorem watched_iff (h : Tunes w fd sh sh') (w' : ℕ) (fd' : ℤ) :
    sh'.interest w' fd' = none ↔ sh.interest w' fd' = none := by
  by_cases hne : w' = w → fd' ≠ fd
  · rw [h.others w' fd' hne]
  · obtain ⟨rfl, hfd⟩ := Classical.not_imp.1 hne
    rw [not_not.1 hfd]
    exact h.watched

end Tunes

/-- The socket is armed while responses wait. -/
def Link.Armed (w : ℕ) (l : Link W) : Prop :=
  l.cs.respQueue.pending ≠ [] → l.sh.interest w l.cs.ident.socket = some .write

/-- None of the waiting responses has been sent in part. -/
def Session.Unsent (cs : Session) : Prop :=
  ∀ s ∈ cs.respQueue.pending, s.unsent = true

/-- What reads and flushes in worker `w` keep. -/
structure Arms (w : ℕ) (l l' : Link W) : Prop where
  ident : l'.cs.ident = l.cs.ident
  tunes : Tunes w l.cs.ident.socket l.sh l'.sh
  raises : l'.sh.interest w l.cs.ident.socket = l.sh.interest w l.cs.ident.socket ∨
    l'.sh.interest w l.cs.ident.socket = some .write
  unsent : l.cs.Unsent → l'.cs.Unsent
  armed : l.sh.interest w l.cs.ident.socket ≠ none → l.Armed w → l'.Armed w

namespace Arms

variable {w : ℕ} {l l' l'' : Link W}

theorem trans (h : Arms w l l') (h' : Arms w l' l'') : Arms w l l'' where
  ident := h'.ident.trans h.ident
  tunes := h.tunes.trans (h.ident ▸ h'.tunes)
  raises := by
    have hraises := h'.raises
    rw [h.ident] at hraises
    rcases hraises with hsame | hwrite
    · rw [hsame]
      exact h.raises
    · exact Or.inr hwrite
  unsent hu := h'.unsent (h.unsent hu)
  armed hw ha := h'.armed (by rw [h.ident]; exact mt h.tunes.watched.1 hw) (h.armed hw ha)

/-- The ring and the epoll instances are left alone. -/
theorem of_eq (hid : l'.cs.ident = l.cs.ident) (hq : l'.cs.respQueue = l.cs.respQueue)
    (hi : l'.sh.interest = l.sh.interest) : Arms w l l' where
  ident := hid
  tunes := .of_eq hi
  raises := Or.inl (by rw [hi])
  unsent hu s hs := hu s (hq ▸ hs)
  armed _ ha hne := by
    rw [hid, hi]
    exact ha (hq ▸ hne)

theorem refl (w : ℕ) (l : Link W) : Arms w l l :=
  of_eq rfl rfl rfl

/-- A response is queued and the socket armed. -/
theorem of_enqueue {resp : Response} (hid : l'.cs.ident = l.cs.ident)
    (hq : l'.cs.respQueue.pending = l.cs.respQueue.pending ++ [.fresh resp])
    (hi : l'.sh.interest = (epollChangeMode w l.cs.ident.socket .write l.sh).interest) :
    Arms w l l' where
  ident := hid
  tunes := .of_changeMode hi
  raises := by
    rw [hi, epollChangeMode_interest_self]
    split_ifs with hn
    · exact Or.inl hn.symm
    · exact Or.inr rfl
  unsent hu s hs := by
    rw [hq] at hs
    rcases List.mem_append.1 hs with hs | hs
    · exact hu s hs
    · rw [List.mem_singleton.1 hs]
      rfl
  armed hw _ _ := by
    rw [hid, hi, epollChangeMode_interest_self, if_neg hw]

end Arms

/-! ## Reads and flushes arm -/

theorem arms_sockSend (w : ℕ) (resp : Response) (l : Link W) : Arms w l (sockSend resp l).2 :=
  .of_eq rfl rfl (sockSend_interest resp l)

theorem arms_sendOrQueue (w : ℕ) (resp : Response) (l : Link W) :
    Arms w l (sendOrQueue w resp l).2 := by
  rcases sendOrQueue_cases w resp l with ⟨-, h⟩ | ⟨-, h | ⟨q, hq, h⟩⟩ <;> rw [h]
  · exact arms_sockSend w resp l
  · exact arms_sockSend w resp l
  · exact .of_enqueue rfl (RespQueue.pending_of_enqueue hq)
      (epollChangeMode_interest_congr (sockSend_interest resp l))

theorem arms_badFrame (w : ℕ) (l : Link W) : Arms w l (badFrame l) :=
  .of_eq rfl rfl (sockSend_interest _ _)

theorem arms_directAnswer (w : ℕ) (t : RouterTable W) (f : Frame) (seq : UInt32) (l : Link W) :
    Arms w l (directAnswer w t f seq l) := by
  have hsync : Arms w l (syncAnswer w t f seq l).2 := by
    unfold syncAnswer
    simp only []
    split
    · exact .of_eq rfl rfl rfl
    · rename_i resp _
      let sh := { l.sh with
        world := (routerProcess t f.cmd f.payload seq l.sh.world).2.1
        invoked := l.sh.invoked ++ (routerProcess t f.cmd f.payload seq l.sh.world).2.2 }
      have hroute : Arms w l (Link.build ⟨l.cs, sh⟩ resp) := .of_eq rfl rfl rfl
      exact hroute.trans ((arms_sendOrQueue w resp _).trans (.of_eq rfl rfl rfl))
  unfold directAnswer
  simp only []
  split_ifs
  · exact hsync
  · exact hsync.trans (.of_eq rfl rfl (sockSend_interest _ _))

theorem arms_tcpReact (w : ℕ) (t : RouterTable W) (it : Item) (l : Link W) :
    Arms w l (tcpReact w t it l) := by
  cases it with
  | incomplete => exact arms_badFrame w l
  | chkErr => exact arms_badFrame w l
  | frame f =>
    rw [tcpReact]
    cases hsub : l.submits t f with
    | true =>
      obtain ⟨e, i, -, -, -, h⟩ := tcpFrame_of_submits hsub w
      rw [h]
      exact .of_eq rfl rfl rfl
    | false =>
      rw [tcpFrame_of_not_submits hsub]
      have hrec : Arms w l (l.recognise f) := .of_eq rfl rfl rfl
      exact hrec.trans (arms_directAnswer w t f _ _)

theorem arms_connParse (w : ℕ) (t : RouterTable W) (chunk : List UInt8) (l : Link W) :
    Arms w l (connParse w t chunk l) := by
  have hreact : ∀ (items : List Item) (l : Link W),
      Arms w l (items.foldl (fun l it => tcpReact w t it l) l) := fun items => by
    induction items with
    | nil => exact fun l => .refl w l
    | cons it items ih => exact fun l => (arms_tcpReact w t it l).trans (ih _)
  have hbody : ∀ (l : Link W) (body : List UInt8), Arms w l (l.setBody body) := fun l body =>
    .of_eq rfl rfl rfl
  rw [connParse_eq, reactAll]
  exact (hbody l _).trans ((hreact _ _).trans (hbody _ _))

theorem arms_connReadTcp (cfg : ServerConfig) (w : ℕ) (t : RouterTable W) (r : ReadOutcome)
    (l : Link W) : Arms w l (connReadTcp cfg w t r l).link := by
  unfold connReadTcp connReadMax
  split
  · exact .refl w l
  · exact .refl w l
  · simp only []
    split_ifs
    · exact .refl w l
    · exact arms_connParse w t _ l
    · exact arms_connParse w t _ l

theorem arms_flushDeliver (w : ℕ) (i : Fin asyncQueueDepth) (l : Link W) :
    Arms w l (flushDeliver w i l) := by
  have hid := ident_flushDeliver w i l
  rcases flushDeliver_ring w i l with ⟨hp, hi⟩ | ⟨hp, hi⟩
  · exact ⟨hid, .of_eq hi, Or.inl (by rw [hi]), fun hu s hs => hu s (hp ▸ hs), fun _ ha hne => by
      rw [hid, hi]
      exact ha (hp ▸ hne)⟩
  · exact .of_enqueue hid hp hi

/-! ## Writes -/

theorem writeTurn_tunes (w : ℕ) (fd : ℤ) (l : Link W) : Tunes w fd l.sh (writeTurn l).2.sh := by
  have hcall : l.turnCall.2.interest = l.sh.interest := by
    rw [Link.turnCall, Shared.call_eq]
  rcases writeTurn_cases l with ⟨-, h⟩ | ⟨n, -, -, -, h⟩ | ⟨-, -, turn, -, h⟩ <;> rw [h]
  · exact .of_eq rfl
  · exact .of_eq hcall
  · exact .of_eq hcall

theorem writeLoop_ident (fuel : ℕ) (sentAny : Bool) (l : Link W) :
    (writeLoop fuel sentAny l).2.2.cs.ident = l.cs.ident :=
  congrArg Received.ident (writeLoop_received fuel sentAny l)

theorem writeLoop_tunes (w : ℕ) (fd : ℤ) (fuel : ℕ) (sentAny : Bool) (l : Link W) :
    Tunes w fd l.sh (writeLoop fuel sentAny l).2.2.sh :=
  writeLoop_keeps (P := fun l' => Tunes w fd l.sh l'.sh)
    (fun l' h => h.trans (writeTurn_tunes w fd l')) fuel sentAny (.of_eq rfl)

theorem handlerWrite_ident (w : ℕ) (l : Link W) :
    (handlerWrite w l).link.cs.ident = l.cs.ident := by
  rw [(handlerWrite_link w l).1, writeLoop_ident]

theorem handlerWrite_tunes (w : ℕ) (l : Link W) :
    Tunes w l.cs.ident.socket l.sh (handlerWrite w l).link.sh := by
  have hloop := writeLoop_tunes w l.cs.ident.socket 65 false l
  rcases handlerWrite_shared w l with hsh | hsh <;> rw [hsh]
  · exact hloop
  · rw [writeLoop_ident]
    exact hloop.trans (.of_changeMode rfl)

theorem connWriteTcp_ident (w : ℕ) (l : Link W) :
    (connWriteTcp w l).link.cs.ident = l.cs.ident := by
  unfold connWriteTcp
  simp only []
  split_ifs <;> exact handlerWrite_ident w l

theorem connWriteTcp_tunes (w : ℕ) (l : Link W) :
    Tunes w l.cs.ident.socket l.sh (connWriteTcp w l).link.sh := by
  have hwrite := handlerWrite_tunes w l
  have hid := handlerWrite_ident w l
  unfold connWriteTcp
  simp only []
  split_ifs
  · exact hwrite
  · refine hwrite.trans (.of_changeMode (m := .read) ?_)
    rw [← hid]
    rfl

theorem connReadUdp_interest (tr : TransType) (t : RouterTable W) (datagram : List UInt8)
    (sh : Shared W) : (connReadUdp tr t datagram sh).interest = sh.interest := by
  have hreact : ∀ (it : Item) (s : Shared W × UInt32),
      (udpReact tr t it s).1.interest = s.1.interest := fun it s => by
    cases it with
    | incomplete => rfl
    | chkErr => rfl
    | frame f =>
      simp only [udpReact, udpFrame]
      split <;> rfl
  have hfold : ∀ (items : List Item) (s : Shared W × UInt32),
      (items.foldl (fun s it => udpReact tr t it s) s).1.interest = s.1.interest := fun items => by
    induction items with
    | nil => exact fun _ => rfl
    | cons it items ih => exact fun s => (ih _).trans (hreact it s)
  rw [connReadUdp_eq]
  exact hfold _ _

namespace Gateway

/-! ## The events that can come -/

/-- The kernel can deliver the event : an accepted descriptor is watched by no epoll instance,
and an instance reports only what it watches, as writable only what it watches for writing. -/
def Possible (g : Gateway W) : Event → Prop
  | .accept fd _ => ∀ w, g.shared.interest w fd = none
  | .epoll w fd .output _ => g.shared.interest w fd = some .write
  | .epoll w fd _ _ => g.shared.interest w fd ≠ none
  | _ => True

@[simp] theorem interest_removeClient (w : ℕ) (fd : ℤ) (g : Gateway W) (w' : ℕ) (fd' : ℤ) :
    (g.removeClient w fd).shared.interest w' fd' =
      if fd' = fd then none else g.shared.interest w' fd' :=
  Function.update_apply ..

@[simp] theorem sockets_removeClient_self (w : ℕ) (fd : ℤ) (g : Gateway W) :
    ((g.removeClient w fd).workers w).sockets = (g.workers w).sockets.erase fd := by
  have hroll := congrFun (congrArg Roll.sockets (roll_removeClient w fd g)) w
  rwa [Roll.sockets_hungUp_self] at hroll

theorem mem_sockets_removeClient {w w' : ℕ} {fd fd' : ℤ} {g : Gateway W}
    (h : fd' ∈ ((g.removeClient w fd).workers w').sockets) : fd' ∈ (g.workers w').sockets := by
  by_cases hw : w' = w
  · rw [hw, sockets_removeClient_self] at h
    rw [hw]
    exact List.mem_of_mem_erase h
  · have hroll := congrFun (congrArg Roll.sockets (roll_removeClient w fd g)) w'
    rw [Roll.sockets_hungUp_of_ne hw] at hroll
    change fd' ∈ g.roll.sockets w'
    rw [← hroll]
    exact h

/-- A datagram changes only what is shared. -/
theorem connReadDatagram_eq (s : Setup W) (fd : ℤ) (r : ReadOutcome) (g : Gateway W) :
    (g.connReadDatagram s fd r).2 =
      { g with shared := (g.connReadDatagram s fd r).2.shared } := by
  unfold connReadDatagram
  split
  · rfl
  · split <;> rfl

theorem interest_connReadDatagram (s : Setup W) (fd : ℤ) (r : ReadOutcome) (g : Gateway W) :
    (g.connReadDatagram s fd r).2.shared.interest = g.shared.interest := by
  unfold connReadDatagram
  split
  · rfl
  · split
    · rfl
    · rfl
    · simp only []
      split <;> exact connReadUdp_interest ..

end Gateway

/-! ## What a worker adds to its epoll instance -/

/-- `xlab_epoll_add` of a descriptor for reading. The caller goes on when it fails. -/
def launchAdd (added : ℤ → Bool) (fd : ℤ) (m : ℤ → Option EpollMode) : ℤ → Option EpollMode :=
  if added fd then Function.update m fd (some .read) else m

/-- What `xlab_sched_launch_worker_loop` adds to an epoll instance. -/
def launchWatches (eventFd : ℤ) (tr : Trans) (added : ℤ → Bool) (m : ℤ → Option EpollMode) :
    ℤ → Option EpollMode :=
  let m := if 0 < tr.fds .udp then launchAdd added (tr.fds .udp) m else m
  let m := if 0 < tr.fds .uart then launchAdd added (tr.fds .uart) m else m
  if 0 < eventFd then launchAdd added eventFd m else m

/-- Worker `w` fills its epoll instance. -/
def Gateway.launchWorkerLoop (s : Setup W) (added : ℤ → Bool) (w : ℕ) (g : Gateway W) : Gateway W :=
  { g with shared := { g.shared with
      interest := Function.update g.shared.interest w
        (launchWatches s.eventFd g.trans added (g.shared.interest w)) } }

/-- The idle gateway with the event loop of its worker launched. -/
def launchedGateway : Gateway Unit :=
  idleGateway.launchWorkerLoop idleSetup (fun _ => true) 0

/-- The worker of the launched gateway watches the `eventfd` and the UDP descriptor. -/
theorem launchedGateway_interest (w : ℕ) (fd : ℤ) : launchedGateway.shared.interest w fd =
    if w = 0 ∧ (fd = 3 ∨ fd = 5) then some .read else none := by
  simp only [launchedGateway, Gateway.launchWorkerLoop, launchWatches, launchAdd, idleGateway,
    idleSetup, idleLink, Trans.fdMapAdd]
  by_cases hw : w = 0 <;> by_cases h3 : fd = 3 <;> by_cases h5 : fd = 5 <;>
    simp [hw, h3, h5, transFdMapSize]

theorem launchedGateway_started : launchedGateway.Started :=
  ⟨rfl, fun _ => rfl, fun _ => rfl⟩

end Xlab
