import Xlab.DirectAnswer
import Xlab.Ledger

/-!
# The two transports on one buffer

The TCP branch and the UDP/UART branch of `xlab_conn_read` find the same items in a buffer.
`tcpAnswers` and `udpAnswers` are what they send for a list of items when no command is
blocking and every send takes everything, threaded through what the handlers do to the
world. The first has one response for each item. The second has none for a frame the router
rejects, so the two lists agree exactly when the router accepts every frame
(`transport_independent_iff`).
-/

open Scanner

namespace Xlab

variable {W : Type}

/-- The response to an item. -/
def itemResponse (t : RouterTable W) (it : Item) (seq : UInt32) (world : W) : Response :=
  match it with
  | .frame f => directResponse t f seq world
  | _ => routerBuildResponse cmdNone errChecksum [] seq

/-- The world after an item. -/
def itemWorld (t : RouterTable W) (it : Item) (seq : UInt32) (world : W) : W :=
  match it with
  | .frame f => (routerProcess t f.cmd f.payload seq world).2.1
  | _ => world

/-- The UDP/UART branch answers the item. -/
def Item.answered (t : RouterTable W) : Item → Bool
  | .frame f => routerAccepts t f
  | _ => true

/-- What the TCP branch sends for some items. -/
def tcpAnswers (t : RouterTable W) : List Item → UInt32 → W → List Response
  | [], _, _ => []
  | it :: items, seq, world =>
    itemResponse t it seq world :: tcpAnswers t items (seq + 1) (itemWorld t it seq world)

/-- What the UDP/UART branch sends for some items. -/
def udpAnswers (t : RouterTable W) : List Item → UInt32 → W → List Response
  | [], _, _ => []
  | it :: items, seq, world =>
    (if it.answered t then [itemResponse t it seq world] else []) ++
      udpAnswers t items (seq + 1) (itemWorld t it seq world)

/-! ## The branches send these answers -/

/-- The command of no frame is blocking. -/
def NoneBlocking (t : RouterTable W) (items : List Item) : Prop :=
  ∀ f, .frame f ∈ items → ∀ e, routerLookup t f.cmd = some e → e.blocking = false

/-- An item that is not submitted is answered with its response. -/
theorem sent_tcpReact {l : Link W} (h : l.sh.nextWhole) (w : ℕ) (t : RouterTable W) (it : Item)
    (hb : NoneBlocking t [it]) :
    l.Sent (tcpReact w t it l) (itemResponse t it l.cs.nextReqSeq l.sh.world) ∧
      (tcpReact w t it l).sh.world = itemWorld t it l.cs.nextReqSeq l.sh.world := by
  have hworld : (badFrame l).sh.world = l.sh.world := by
    simp only [badFrame, sockSend, Link.build]
    rw [Shared.call_eq]
  cases it with
  | incomplete => exact ⟨sent_badFrame h, hworld⟩
  | chkErr => exact ⟨sent_badFrame h, hworld⟩
  | frame f =>
    have hns := submits_of_not_blocking (hb f (List.mem_singleton_self _)) l
    obtain ⟨⟨h1, h2, h3⟩, hw⟩ :=
      directAnswer_sent (l := l.recognise f) h w t f l.cs.nextReqSeq
    rw [tcpReact, tcpFrame_of_not_submits hns]
    exact ⟨⟨h1, h2, h3⟩, hw⟩

theorem wire_reactAll (w : ℕ) (t : RouterTable W) (items : List Item) {l : Link W}
    (hb : NoneBlocking t items) (h : l.sh.takesAll) : (reactAll w t items l).cs.wire =
      l.cs.wire ++ (tcpAnswers t items l.cs.nextReqSeq l.sh.world).map .whole := by
  induction items generalizing l with
  | nil => simp [reactAll, tcpAnswers]
  | cons it items ih =>
    have hb' : NoneBlocking t items := fun f hf => hb f (List.mem_cons_of_mem it hf)
    have hit : NoneBlocking t [it] := fun f hf =>
      hb f (by rw [List.mem_singleton.1 hf]; exact List.mem_cons_self)
    obtain ⟨hsent, hw⟩ := sent_tcpReact h.nextWhole w t it hit
    have hn : (tcpReact w t it l).cs.nextReqSeq = l.cs.nextReqSeq + 1 :=
      congrArg Received.nextReqSeq (tcpReact_received w t it l)
    have htail := ih hb' (hsent.takesAll h)
    rw [hn, hw, hsent.wire, List.append_assoc] at htail
    exact htail

theorem udpReact_eq (tr : TransType) (t : RouterTable W) (it : Item) (s : Shared W × UInt32) :
    (udpReact tr t it s).1.datagrams = s.1.datagrams ++
        (if it.answered t then [itemResponse t it s.2 s.1.world] else []).map (tr, ·) ∧
      (udpReact tr t it s).1.world = itemWorld t it s.2 s.1.world ∧
      (udpReact tr t it s).2 = s.2 + 1 := by
  cases it with
  | incomplete => exact ⟨rfl, rfl, rfl⟩
  | chkErr => exact ⟨rfl, rfl, rfl⟩
  | frame f =>
    rw [udpReact, udpFrame, itemResponse, directResponse, Item.answered, itemWorld]
    by_cases ha : routerAccepts t f = true
    · obtain ⟨resp, hr⟩ := routerProcess_accepts ha s.2 s.1.world
      simp only [hr, if_pos ha, and_true]
      exact ⟨rfl, rfl⟩
    · obtain ⟨code, hr⟩ := routerProcess_rejects (Bool.not_eq_true _ ▸ ha) s.2 s.1.world
      simp only [hr, if_neg ha, and_true]
      exact (List.append_nil _).symm

theorem datagrams_udpReact (tr : TransType) (t : RouterTable W) (items : List Item)
    (s : Shared W × UInt32) :
    (items.foldl (fun s it => udpReact tr t it s) s).1.datagrams =
      s.1.datagrams ++ (udpAnswers t items s.2 s.1.world).map (tr, ·) := by
  induction items generalizing s with
  | nil => simp [udpAnswers]
  | cons it items ih =>
    obtain ⟨hd, hw, hs⟩ := udpReact_eq tr t it s
    rw [List.foldl_cons, ih, hd, hw, hs, udpAnswers, List.map_append, List.append_assoc]

/-! ## Comparing the answers -/

theorem length_tcpAnswers (t : RouterTable W) (items : List Item) (seq : UInt32) (world : W) :
    (tcpAnswers t items seq world).length = items.length := by
  induction items generalizing seq world with
  | nil => rfl
  | cons it items ih => simp [tcpAnswers, ih]

theorem length_udpAnswers (t : RouterTable W) (items : List Item) (seq : UInt32) (world : W) :
    (udpAnswers t items seq world).length = items.countP (Item.answered t) := by
  induction items generalizing seq world with
  | nil => rfl
  | cons it items ih =>
    rw [udpAnswers, List.length_append, ih, List.countP_cons]
    split_ifs <;> simp [Nat.add_comm]

theorem udpAnswers_eq (t : RouterTable W) {items : List Item}
    (h : ∀ it ∈ items, it.answered t = true) (seq : UInt32) (world : W) :
    udpAnswers t items seq world = tcpAnswers t items seq world := by
  induction items generalizing seq world with
  | nil => rfl
  | cons it items ih =>
    rw [udpAnswers, if_pos (h it List.mem_cons_self),
      ih fun it' hit => h it' (List.mem_cons_of_mem it hit)]
    rfl

/-- The frames of the responses a buffer gets on a TCP session in one read. -/
def tcpResponses (cfg : ServerConfig) (w : ℕ) (t : RouterTable W) (buf : List UInt8) (l : Link W) :
    List (List UInt8) :=
  (connReadTcp cfg w t (.data buf) l).link.cs.wire.map Segment.bytes

/-- The frames of the responses a buffer gets as one datagram. -/
def udpResponses (tr : TransType) (t : RouterTable W) (buf : List UInt8) (sh : Shared W) :
    List (List UInt8) :=
  ((connReadUdp tr t buf sh).datagrams.drop sh.datagrams.length).map fun d => d.2.bytes

theorem tcpResponses_eq (cfg : ServerConfig) (w : ℕ) (t : RouterTable W) (id : SessionIdent)
    {buf : List UInt8} {sh : Shared W} (hlen : buf.length ≤ 256)
    (hb : NoneBlocking t (itemsOf buf)) (hs : sh.takesAll) :
    tcpResponses cfg w t buf ⟨Session.create id, sh⟩ =
      (tcpAnswers t (itemsOf buf) 0 sh.world).map Response.bytes := by
  have hchunk : buf.take (requestChunk - (Session.create id).body.length) = buf :=
    List.take_of_length_le (Nat.le_trans hlen (by simp [Session.create, requestChunk]))
  have hwire : (connReadTcp cfg w t (.data buf) ⟨Session.create id, sh⟩).link.cs.wire =
      (tcpAnswers t (itemsOf buf) 0 sh.world).map .whole := by
    rw [connReadTcp, connReadMax]
    simp only [hchunk]
    by_cases h0 : buf = []
    · subst h0
      rfl
    · have hparse := wire_reactAll w t (itemsOf buf)
        (l := (⟨Session.create id, sh⟩ : Link W).setBody buf) hb hs
      rw [if_neg h0, connParse_eq]
      split_ifs <;> exact hparse
  rw [tcpResponses, hwire, List.map_map]
  exact List.map_congr_left fun resp _ => bytes_whole resp

theorem udpResponses_eq (tr : TransType) (t : RouterTable W) {buf : List UInt8} (sh : Shared W)
    (hlen : buf.length ≤ 256) : udpResponses tr t buf sh =
      (udpAnswers t (itemsOf buf) 0 sh.world).map Response.bytes := by
  rw [udpResponses, connReadUdp_eq, List.take_of_length_le hlen, datagrams_udpReact,
    List.drop_left, List.map_map]
  rfl

/-- A buffer of at most 256 bytes with no blocking command gets the same responses as one
datagram and as one read on a new TCP session exactly when the router accepts every frame
in it. -/
theorem transport_independent_iff (cfg : ServerConfig) (w : ℕ) (tr : TransType)
    (t : RouterTable W) (id : SessionIdent) {buf : List UInt8} {sh : Shared W}
    (hlen : buf.length ≤ 256) (hb : NoneBlocking t (itemsOf buf)) (hs : sh.takesAll) :
    tcpResponses cfg w t buf ⟨Session.create id, sh⟩ = udpResponses tr t buf sh ↔
      ∀ f, .frame f ∈ itemsOf buf → routerAccepts t f = true := by
  rw [tcpResponses_eq cfg w t id hlen hb hs, udpResponses_eq tr t sh hlen]
  constructor
  · intro heq f hf
    -- a frame the router rejects leaves the second list shorter
    have hl := congrArg List.length heq
    rw [List.length_map, List.length_map, length_tcpAnswers, length_udpAnswers] at hl
    exact List.countP_eq_length.1 hl.symm (.frame f) hf
  · intro h
    rw [udpAnswers_eq]
    intro it hit
    cases it with
    | incomplete => rfl
    | chkErr => rfl
    | frame f => exact h f hit

/-- `40 02 02 BC` gets the same answer on both transports. -/
theorem transport_independent_getVer :
    tcpResponses ⟨32768, by decide⟩ 0 cmdTable [0x40, 0x02, 0x02, 0xBC] idleLink =
      udpResponses .udp cmdTable [0x40, 0x02, 0x02, 0xBC] idleLink.sh := by
  have hitems : itemsOf [0x40, 0x02, 0x02, 0xBC] = [.frame getVer] := by
    decide
  have he : routerLookup (cmdTable (W := Unit)) cmdGetVer =
      some ⟨cmdGetVer, cmd02HandlerGetVersion, 0, 0, cmdFlagNone⟩ := rfl
  refine (transport_independent_iff ⟨32768, by decide⟩ 0 .udp cmdTable ⟨0, 0, 7⟩ (by decide) ?_
    idleLink_takesAll).2 ?_
  · rw [hitems]
    intro f hf e hl
    cases List.mem_singleton.1 hf
    obtain rfl := Option.some.inj (he.symm.trans hl)
    decide
  · rw [hitems]
    intro f hf
    cases List.mem_singleton.1 hf
    decide

/-- `40 02 99 25`, an unknown command, gets an F4 on TCP and nothing on UDP. -/
theorem transports_differ_on_unknown_command :
    ¬∀ buf : List UInt8, buf.length ≤ 256 → NoneBlocking (cmdTable (W := Unit)) (itemsOf buf) →
      tcpResponses ⟨32768, by decide⟩ 0 cmdTable buf idleLink =
        udpResponses .udp cmdTable buf idleLink.sh := by
  intro h
  have hitems : itemsOf [0x40, 0x02, 0x99, 0x25] = [.frame ⟨0x99, [], by decide⟩] := by decide
  have heq := h [0x40, 0x02, 0x99, 0x25] (by decide) (by
    rw [hitems]
    intro f hf e hl
    cases List.mem_singleton.1 hf
    cases hl)
  revert heq
  decide +kernel

end Xlab
