import Xlab.Answers
import Xlab.Routing
import Xlab.Simulation
import Xlab.Transport

/-!
# What goes out as datagrams

The UDP/UART branch keeps nothing between datagrams. `datagrams_answered` says what this comes to
over a run of the gateway, whatever the clients of the TCP side do and whichever worker reads : the
responses handed to a driver are one answer to each broken frame and each frame the router accepts
of the datagrams read, in order, and a frame the router rejects gets none.

The rest of the module is what the other handlers do about datagrams, which is nothing.
-/

open Simulation

namespace Xlab

variable {W : Type}

/-! ## The answers of one datagram -/

theorem answers_itemResponse (t : RouterTable W) (it : Item) (seq : UInt32) (world : W) :
    (itemResponse t it seq world).Answers t it := by
  cases it with
  | frame f => exact answers_directResponse t f seq world
  | incomplete => exact answers_badFrame seq (Or.inl rfl)
  | chkErr => exact answers_badFrame seq (Or.inr rfl)

theorem answers_udpAnswers (t : RouterTable W) (items : List Item) (seq : UInt32) (world : W) :
    List.Forall₂ (fun it resp => Response.Answers t it resp) (items.filter (Item.answered t))
      (udpAnswers t items seq world) := by
  induction items generalizing seq world with
  | nil => exact .nil
  | cons it items ih =>
    rw [udpAnswers, List.filter_cons]
    split_ifs
    · exact .cons (answers_itemResponse t it seq world) (ih _ _)
    · exact ih _ _

/-! ## Sessions send no datagrams -/

@[simp] theorem datagrams_call (len : ℕ) (sh : Shared W) :
    (sh.call len).2.datagrams = sh.datagrams := by
  rw [Shared.call_eq]

@[simp] theorem datagrams_epollChangeMode (w : ℕ) (fd : ℤ) (m : EpollMode) (sh : Shared W) :
    (epollChangeMode w fd m sh).datagrams = sh.datagrams := by
  unfold epollChangeMode
  split_ifs <;> rfl

@[simp] theorem datagrams_sockSend (resp : Response) (l : Link W) :
    (sockSend resp l).2.sh.datagrams = l.sh.datagrams :=
  datagrams_call _ _

theorem datagrams_sendOrQueue (w : ℕ) (resp : Response) (l : Link W) :
    (sendOrQueue w resp l).2.sh.datagrams = l.sh.datagrams := by
  rcases sendOrQueue_cases w resp l with ⟨-, h⟩ | ⟨-, h | ⟨q, -, h⟩⟩ <;> rw [h] <;> simp

theorem datagrams_directAnswer (w : ℕ) (t : RouterTable W) (f : Frame) (seq : UInt32)
    (l : Link W) : (directAnswer w t f seq l).sh.datagrams = l.sh.datagrams := by
  have hsync : (syncAnswer w t f seq l).2.sh.datagrams = l.sh.datagrams := by
    unfold syncAnswer
    simp only []
    split
    · rfl
    · exact datagrams_sendOrQueue _ _ _
  unfold directAnswer
  simp only []
  split_ifs
  · exact hsync
  · exact (datagrams_sockSend _ _).trans hsync

theorem datagrams_tcpReact (w : ℕ) (t : RouterTable W) (it : Item) (l : Link W) :
    (tcpReact w t it l).sh.datagrams = l.sh.datagrams := by
  cases it with
  | incomplete => exact datagrams_sockSend _ _
  | chkErr => exact datagrams_sockSend _ _
  | frame f =>
    rw [tcpReact]
    cases hsub : l.submits t f with
    | true =>
      obtain ⟨e, i, -, -, -, h⟩ := tcpFrame_of_submits hsub w
      rw [h]
    | false =>
      rw [tcpFrame_of_not_submits hsub]
      exact datagrams_directAnswer w t f _ _

theorem datagrams_connReadTcp (cfg : ServerConfig) (w : ℕ) (t : RouterTable W) (r : ReadOutcome)
    (l : Link W) : (connReadTcp cfg w t r l).link.sh.datagrams = l.sh.datagrams := by
  have hreact : ∀ (items : List Item) (l : Link W),
      (reactAll w t items l).sh.datagrams = l.sh.datagrams := fun items => by
    induction items with
    | nil => exact fun _ => rfl
    | cons it items ih => exact fun l => (ih _).trans (datagrams_tcpReact w t it l)
  have hparse : ∀ chunk, (connParse w t chunk l).sh.datagrams = l.sh.datagrams := fun chunk => by
    rw [connParse_eq]
    exact hreact _ _
  unfold connReadTcp connReadMax
  split
  · rfl
  · rfl
  · simp only []
    split_ifs
    · rfl
    · exact hparse _
    · exact hparse _

theorem datagrams_connWriteTcp (w : ℕ) (l : Link W) :
    (connWriteTcp w l).link.sh.datagrams = l.sh.datagrams := by
  have hturn : ∀ l : Link W, (writeTurn l).2.sh.datagrams = l.sh.datagrams := fun l => by
    have hcall : l.turnCall.2.datagrams = l.sh.datagrams := datagrams_call _ _
    rcases writeTurn_cases l with ⟨-, h⟩ | ⟨n, -, -, -, h⟩ | ⟨-, -, turn, -, h⟩ <;> rw [h]
    · exact hcall
    · exact hcall
  have hloop : (writeLoop 65 false l).2.2.sh.datagrams = l.sh.datagrams :=
    writeLoop_keeps (P := fun l' => l'.sh.datagrams = l.sh.datagrams)
      (fun l' h => (hturn l').trans h) 65 false rfl
  have hwrite : (handlerWrite w l).link.sh.datagrams = l.sh.datagrams := by
    rcases handlerWrite_shared w l with h | h <;> rw [h]
    · exact hloop
    · exact (datagrams_epollChangeMode _ _ _ _).trans hloop
  unfold connWriteTcp
  simp only []
  split_ifs
  · exact hwrite
  · exact (datagrams_epollChangeMode _ _ _ _).trans hwrite

theorem datagrams_flushDeliver (w : ℕ) (i : Fin asyncQueueDepth) (l : Link W) :
    (flushDeliver w i l).sh.datagrams = l.sh.datagrams := by
  unfold flushDeliver
  simp only []
  split_ifs
  · rfl
  · cases l.cs.respQueue.enqueue (l.sh.queue i).response with
    | none => exact datagrams_sockSend _ _
    | some q =>
      simp only [apply_ite Shared.datagrams, datagrams_epollChangeMode, ite_self]
      rfl

/-! ## The gateway -/

/-- An item of a datagram, with the driver that read it and the one that writes to its
descriptor. -/
structure DatagramItem where
  item : Item
  reader : TransType
  writer : TransType
  deriving DecidableEq, Repr

namespace Gateway

variable {s : Setup W} {g : Gateway W}

/-- The items of the datagram an event reads, when there is a driver to write with. -/
def datagramItems (s : Setup W) (g : Gateway W) : Event → List DatagramItem
  | .epoll _ fd .input (.data bytes) =>
    if fd ≠ s.eventFd ∧ g.trans.isDatagram fd = true then
      match g.trans.driver TransOps.read fd, g.trans.driver TransOps.write fd with
      | some reader, some writer => (itemsOf (bytes.take 256)).map (⟨·, reader, writer⟩)
      | _, _ => []
    else []
  | _ => []

/-- A datagram answers the item, over the transport that is written to. -/
def DatagramAnswers (t : RouterTable W) (asked : DatagramItem) (sent : TransType × Response) :
    Prop :=
  sent.1 = asked.writer ∧ sent.2.Answers t asked.item

/-- The drivers are the same, paired ones write where they read, and the datagrams sent since are
the answers to the items asked, but for the frames the router rejects. -/
def AnsweredSince (t : RouterTable W) (g g' : Gateway W) (asked : List DatagramItem) : Prop :=
  g'.trans.ops = g.trans.ops ∧ (g.trans.Paired → ∀ a ∈ asked, a.reader = a.writer) ∧
    ∃ sent, g'.shared.datagrams = g.shared.datagrams ++ sent ∧
      List.Forall₂ (DatagramAnswers t) (asked.filter fun a => a.item.answered t) sent

/-- The drivers are the same, and nothing went out as a datagram. -/
def Silent (g g' : Gateway W) : Prop :=
  g'.trans.ops = g.trans.ops ∧ g'.shared.datagrams = g.shared.datagrams

namespace AnsweredSince

variable {t : RouterTable W} {g' g'' : Gateway W} {asked asked' : List DatagramItem}

theorem of_silent (h : Silent g g') : AnsweredSince t g g' [] :=
  ⟨h.1, fun _ _ ha => absurd ha List.not_mem_nil, [], by rw [h.2, List.append_nil], .nil⟩

theorem trans (h : AnsweredSince t g g' asked) (h' : AnsweredSince t g' g'' asked') :
    AnsweredSince t g g'' (asked ++ asked') := by
  obtain ⟨hops, hsame, sent, hd, hall⟩ := h
  obtain ⟨hops', hsame', sent', hd', hall'⟩ := h'
  refine ⟨hops'.trans hops, fun hp a ha => ?_, sent ++ sent',
    by rw [hd', hd, List.append_assoc], ?_⟩
  · rcases List.mem_append.1 ha with ha | ha
    · exact hsame hp a ha
    · exact hsame' (hp.congr hops.symm) a ha
  · rw [List.filter_append]
    exact List.rel_append hall hall'

end AnsweredSince

theorem silent_sessionRemove (w : ℕ) (fd : ℤ) (g : Gateway W) :
    Silent g (g.sessionRemove w fd) := by
  unfold sessionRemove
  split <;> exact ⟨rfl, rfl⟩

theorem silent_leave {g g' : Gateway W} {e : Exit W} (w : ℕ) (fd : ℤ)
    (hops : g'.trans.ops = g.trans.ops) (h : e.link.sh.datagrams = g.shared.datagrams) :
    Silent g (g'.leave w fd e).2 :=
  leave_keeps (P := Silent g)
    (fun g' h' => ⟨(silent_sessionRemove w fd g').1.trans h'.1,
      (silent_sessionRemove w fd g').2.trans h'.2⟩) ⟨hops, h⟩

theorem silent_flushCompleted (w : ℕ) (g : Gateway W) : Silent g (g.flushCompleted w) :=
  flushCompleted_keeps (P := Silent g)
    (fun _ i h => flushSlot_keeps (P := Silent g) h
      (fun _ _ => ⟨h.1, (datagrams_flushDeliver w i _).trans h.2⟩) h) ⟨rfl, rfl⟩

theorem datagramItems_data (s : Setup W) (g : Gateway W) (w : ℕ) (fd : ℤ) (bytes : List UInt8) :
    g.datagramItems s (.epoll w fd .input (.data bytes)) =
      if fd ≠ s.eventFd ∧ g.trans.isDatagram fd = true then
        match g.trans.driver TransOps.read fd, g.trans.driver TransOps.write fd with
        | some reader, some writer => (itemsOf (bytes.take 256)).map (⟨·, reader, writer⟩)
        | _, _ => []
      else [] :=
  rfl

/-- The UDP/UART branch answers the items of the datagram it reads. -/
theorem answeredSince_connReadDatagram {fd : ℤ} (hev : fd ≠ s.eventFd)
    (hdg : g.trans.isDatagram fd = true) (w : ℕ) (r : ReadOutcome) :
    AnsweredSince s.table g (g.connReadDatagram s fd r).2
      (g.datagramItems s (.epoll w fd .input r)) := by
  cases r with
  | error e =>
    refine .of_silent ?_
    unfold connReadDatagram
    cases g.trans.driver TransOps.read fd with
    | none => exact ⟨rfl, rfl⟩
    | some _ => cases e <;> exact ⟨rfl, rfl⟩
  | data bytes =>
    rw [datagramItems_data, if_pos ⟨hev, hdg⟩]
    cases hread : g.trans.driver TransOps.read fd with
    | none =>
      refine .of_silent ?_
      rw [connReadDatagram, hread]
      exact ⟨rfl, rfl⟩
    | some reader =>
      simp only [connReadDatagram, hread]
      cases hwrite : g.trans.driver TransOps.write fd with
      | none => exact .of_silent ⟨rfl, rfl⟩
      | some writer =>
        refine ⟨rfl, fun hp a ha => ?_,
          (udpAnswers s.table (itemsOf (bytes.take 256)) 0 g.shared.world).map (writer, ·), ?_, ?_⟩
        · obtain ⟨it, -, rfl⟩ := List.mem_map.1 ha
          rw [hp.driver, hwrite] at hread
          exact (Option.some.inj hread).symm
        · simp only [connReadUdp_eq]
          exact datagrams_udpReact writer s.table _ _
        · rw [List.filter_map, List.forall₂_map_left_iff, List.forall₂_map_right_iff]
          exact (answers_udpAnswers s.table _ _ _).imp fun _ _ h => ⟨rfl, h⟩

theorem datagramItems_of_not_datagram {fd : ℤ}
    (h : fd = s.eventFd ∨ ¬g.trans.isDatagram fd = true) (w : ℕ) (r : ReadOutcome) :
    g.datagramItems s (.epoll w fd .input r) = [] := by
  cases r with
  | error e => rfl
  | data bytes =>
    rw [datagramItems_data]
    exact if_neg fun hand => h.elim hand.1 fun hdg => hdg hand.2

theorem answeredSince_connRead (s : Setup W) (g : Gateway W) (w : ℕ) (fd : ℤ) (r : ReadOutcome) :
    AnsweredSince s.table g (g.connRead s w fd r).2
      (g.datagramItems s (.epoll w fd .input r)) := by
  unfold connRead
  split_ifs with hev hdg
  · have hflush := silent_flushCompleted w g
    rw [datagramItems_of_not_datagram (Or.inl hev)]
    dsimp only
    exact .of_silent hflush
  · exact answeredSince_connReadDatagram hev hdg w r
  · rw [datagramItems_of_not_datagram (Or.inr hdg)]
    cases ho : g.openSession w fd with
    | none => exact .of_silent ⟨rfl, rfl⟩
    | some p =>
      obtain ⟨cs, g'⟩ := p
      have hops : g'.trans.ops = g.trans.ops := by
        rcases openSession_cases ho with ⟨-, rfl⟩ | ⟨-, -, -, rfl⟩ <;> rfl
      have hread := datagrams_connReadTcp s.server w s.table r ⟨cs, g'.shared⟩
      refine .of_silent (silent_leave w fd hops (hread.trans ?_))
      rw [shared_openSession ho]

theorem silent_connWrite (w : ℕ) (fd : ℤ) (g : Gateway W) : Silent g (g.connWrite w fd).2 := by
  unfold connWrite
  split
  · exact ⟨rfl, datagrams_epollChangeMode _ _ _ _⟩
  · simp only []
    split
    · exact ⟨rfl, rfl⟩
    · exact silent_leave w fd rfl (datagrams_connWriteTcp _ _)

/-- The close handler sends nothing. -/
theorem AnsweredSince.closed {w : ℕ} {fd : ℤ} {res : ℤ × Gateway W}
    {asked : List DatagramItem} (h : AnsweredSince s.table g res.2 asked) :
    AnsweredSince s.table g (closeFailed w fd res) asked :=
  closeFailed_keeps (P := fun g' => AnsweredSince s.table g g' asked) h h

/-- Every event sends the answers to the items of the datagram it reads, and nothing else. -/
theorem answeredSince_step (s : Setup W) (g : Gateway W) (e : Event) :
    AnsweredSince s.table g (g.step s e) (g.datagramItems s e) := by
  cases e with
  | accept fd added =>
    refine .of_silent ?_
    simp only [step, acceptClient]
    split
    · exact ⟨rfl, rfl⟩
    · split_ifs <;> exact ⟨rfl, rfl⟩
  | epoll w fd ready r =>
    refine AnsweredSince.closed ?_
    cases ready with
    | input => exact answeredSince_connRead s g w fd r
    | output => exact .of_silent (silent_connWrite w fd g)
    | error => exact .of_silent (silent_sessionRemove w fd (g.removeClient w fd))
  | work i => exact .of_silent ⟨rfl, rfl⟩
  | sockets script => exact .of_silent ⟨rfl, rfl⟩

/-- Over a run of the gateway the datagrams sent are one answer to each broken frame and each frame
the router accepts of the datagrams read, in order, each over the transport that is written to,
which with paired drivers is the one it came over. -/
theorem datagrams_answered (s : Setup W) (g : Gateway W) (es : List Event) :
    (g.trans.Paired → ∀ a ∈ trace (step s) (datagramItems s) g es, a.reader = a.writer) ∧
      ∃ sent, (Runs.run (step s) g es).shared.datagrams = g.shared.datagrams ++ sent ∧
        List.Forall₂ (DatagramAnswers s.table)
          ((trace (step s) (datagramItems s) g es).filter fun a => a.item.answered s.table)
          sent := by
  have h : AnsweredSince s.table g (Runs.run (step s) g es)
      (trace (step s) (datagramItems s) g es) := by
    induction es generalizing g with
    | nil => exact .of_silent ⟨rfl, rfl⟩
    | cons e es ih => exact (answeredSince_step s g e).trans (ih _)
  exact h.2

-- The UDP driver has both functions, and a version request is answered over it.
example : idleGateway.trans.Paired := fun type => by cases type <;> rfl

example : (Runs.run (step idleSetup) idleGateway
    [.epoll 0 5 .input (.data [0x40, 0x02, 0x02, 0xBC])]).shared.datagrams =
      [(.udp, routerBuildResponse cmdGetVer errOk [0x01, 0x02, 0x00] 0)] := by
  decide +kernel

end Gateway

end Xlab
