import Xlab.FrameScan
import Xlab.Session

/-!
# Reading a connection

`xlab_conn_read` reads what arrived, scans it for frames and reacts to each thing it finds.
`tcpReact` is the reaction of the TCP branch : every item takes the next sequence number, a
broken frame gets an F4, a blocking command goes to the task table and any other command
is answered at once. `connParse` is one read of a TCP connection up to the clean-up of the
body, `connReadTcp` the whole call with its exits. `udpReact` is the reaction of the
UDP/UART branch, and `connReadUdp` handles one datagram.

Both branches run the loop of `scanLoop`, so by `scanLoop_eq` a read is its items
folded through the reaction (`connParse_eq`, `connReadUdp_eq`).
-/

open Scanner

namespace Xlab

variable {W : Type}

/-! ## The TCP branch -/

/-- Note that a response was built for the session. -/
def Link.build (l : Link W) (resp : Response) : Link W :=
  { l with cs := { l.cs with built := l.cs.built ++ [resp] } }

/-- The answer to a broken frame, incomplete or with a wrong checksum. -/
def badFrame (l : Link W) : Link W :=
  let errSeq := l.cs.nextReqSeq
  let l := { l with cs := { l.cs with nextReqSeq := errSeq + 1 } }
  let resp := routerBuildResponse cmdNone errChecksum [] errSeq
  (sockSend resp (l.build resp)).2

/-- Submit a blocking command. `xlab_session_get(socket)` inside the submission finds the
session that is being read. -/
def submitBlocking (entry : Option (RouterEntry W)) (f : Frame) (seq : UInt32) (l : Link W) :
    Bool × Link W :=
  match entry with
  | none => (false, l)
  | some e =>
    if e.blocking then
      match asyncSubmit l.sh.queue l.cs.ident.socket 0 seq f.cmd f.payload e.handler
          (some l.cs.ident.sid) with
      | some queue => (true, { l with sh := { l.sh with queue := queue } })
      | none => (false, l)
    else (false, l)

/-- Send a response, or queue it when the socket would block. -/
def sendOrQueue (w : ℕ) (resp : Response) (l : Link W) : Bool × Link W :=
  let r := sockSend resp l
  if r.1.accepted = some resp.bytes.length then (true, r.2)
  else if r.1.errno = .eagain then
    match r.2.cs.respQueue.enqueue resp with
    | some q => (true, ⟨{ r.2.cs with respQueue := q },
        epollChangeMode w r.2.cs.ident.socket .write r.2.sh⟩)
    | none => (false, r.2)
  else (false, r.2)

/-- Run a command and answer it directly. -/
def syncAnswer (w : ℕ) (t : RouterTable W) (f : Frame) (seq : UInt32) (l : Link W) :
    Bool × Link W :=
  let p := routerProcess t f.cmd f.payload seq l.sh.world
  let l := { l with sh := { l.sh with world := p.2.1, invoked := l.sh.invoked ++ p.2.2 } }
  match p.1 with
  | .reject _ => (false, l)
  | .respond resp =>
    let r := sendOrQueue w resp (l.build resp)
    (r.1, { r.2 with cs := { r.2.cs with respSeqExpected := seq + 1 } })

/-- The error sent for a command nothing else answered. -/
def errorAnswer (entry : Option (RouterEntry W)) (f : Frame) (seq : UInt32) (l : Link W) :
    Link W :=
  let resp := routerBuildResponse f.cmd (if entry.isSome then errInternal else errUnknownCmd) [] seq
  (sockSend resp (l.build resp)).2

/-- A frame whose checksum is right takes a sequence number. -/
def Link.recognise (f : Frame) (l : Link W) : Link W :=
  { l with cs := { l.cs with
      nextReqSeq := l.cs.nextReqSeq + 1
      recognised := l.cs.recognised ++ [f] } }

/-- The dispatch of a frame. -/
def tcpFrame (w : ℕ) (t : RouterTable W) (f : Frame) (l : Link W) : Link W :=
  let seq := l.cs.nextReqSeq
  let entry := routerLookup t f.cmd
  let r := submitBlocking entry f seq (l.recognise f)
  let r := if r.1 then r else syncAnswer w t f seq r.2
  if r.1 then r.2 else errorAnswer entry f seq r.2

/-- What the TCP branch does about an item. -/
def tcpReact (w : ℕ) (t : RouterTable W) : Item → Link W → Link W
  | .incomplete, l => badFrame l
  | .chkErr, l => badFrame l
  | .frame f, l => tcpFrame w t f l

/-- The session with another body. -/
def Link.setBody (l : Link W) (body : List UInt8) : Link W :=
  { l with cs := { l.cs with body := body } }

/-- `memmove(body, body + pos, (uint8_t)(body_length - pos))` and the new `body_length`. -/
def shiftBody (body : List UInt8) (pos : ℕ) : List UInt8 :=
  let left := body.length - pos
  let moved := left % 256
  ((body.drop pos).take moved ++ body.drop moved).take left

/-- The frame loop on the body with `chunk` read into it, and the clean-up after it. -/
def connParse (w : ℕ) (t : RouterTable W) (chunk : List UInt8) (l : Link W) : Link W :=
  let body := l.cs.body ++ chunk
  let r := scanLoop body (tcpReact w t) body.length 0 (l.setBody body)
  if 0 < r.2 then r.1.setBody (shiftBody r.1.cs.body r.2) else r.1

/-- `XLAB_REQUEST_CHUNK`, the size of the body buffer. -/
def requestChunk : ℕ := 4096

/-- The settings the event loops read. The configuration reader multiplies
`MaxRequestSize` by 1024 or takes its default. -/
structure ServerConfig where
  maxRequestSize : ℕ
  maxRequestSize_ge : 1024 ≤ maxRequestSize

/-- What is there to read : bytes (none at the end of the stream), or an error. -/
inductive ReadOutcome where
  | data (bytes : List UInt8)
  | error (e : Errno)
  deriving DecidableEq, Repr

/-- What a handler leaves : its return value, the number of calls of `xlab_session_remove` it
made, and the session and the shared state. -/
structure Exit (W : Type) where
  ret : ℤ
  removals : ℕ
  link : Link W

/-- The TCP branch of `xlab_conn_read` on a session, with `max_request_size` at `m`. A read takes
what fits the body, and a read of no bytes is the end of the stream. -/
def connReadMax (m : ℕ) (w : ℕ) (t : RouterTable W) (r : ReadOutcome) (l : Link W) : Exit W :=
  match r with
  | .error .eagain => ⟨-1, 0, l⟩
  | .error .other => ⟨-1, 1, l⟩
  | .data bytes =>
    let chunk := bytes.take (requestChunk - l.cs.body.length)
    if chunk = [] then ⟨-1, 1, l⟩
    else
      let l := connParse w t chunk l
      if m ≤ l.cs.body.length then ⟨-1, 1, l⟩
      else ⟨chunk.length, 0, l⟩

/-- The same with the size of the configuration. -/
def connReadTcp (cfg : ServerConfig) : ℕ → RouterTable W → ReadOutcome → Link W → Exit W :=
  connReadMax cfg.maxRequestSize

/-! ## The UDP/UART branch -/

/-- `xlab_trans_write_dispatch` to the driver of `tr`. -/
def transWrite (tr : TransType) (resp : Response) (sh : Shared W) : Shared W :=
  { sh with datagrams := sh.datagrams ++ [(tr, resp)] }

/-- The answer to a broken frame. `udp_seq` counts the items of one datagram. -/
def udpBadFrame (tr : TransType) (s : Shared W × UInt32) : Shared W × UInt32 :=
  (transWrite tr (routerBuildResponse cmdNone errChecksum [] s.2) s.1, s.2 + 1)

/-- The dispatch of a frame : always synchronous, and answered only if the router accepts it. -/
def udpFrame (tr : TransType) (t : RouterTable W) (f : Frame) (s : Shared W × UInt32) :
    Shared W × UInt32 :=
  let p := routerProcess t f.cmd f.payload s.2 s.1.world
  let sh := { s.1 with world := p.2.1, invoked := s.1.invoked ++ p.2.2 }
  match p.1 with
  | .reject _ => (sh, s.2 + 1)
  | .respond resp => (transWrite tr resp sh, s.2 + 1)

/-- What the UDP/UART branch does about an item. -/
def udpReact (tr : TransType) (t : RouterTable W) : Item → Shared W × UInt32 → Shared W × UInt32
  | .incomplete, s => udpBadFrame tr s
  | .chkErr, s => udpBadFrame tr s
  | .frame f, s => udpFrame tr t f s

/-- The UDP/UART branch of `xlab_conn_read` on what the driver read, at most the 256 bytes
of `tmp_buf`. What is left of the datagram is dropped. -/
def connReadUdp (tr : TransType) (t : RouterTable W) (datagram : List UInt8) (sh : Shared W) :
    Shared W :=
  let buf := datagram.take 256
  (scanLoop buf (udpReact tr t) buf.length 0 (sh, 0)).1.1

/-! ## A read is its items in order -/

/-- The items of a buffer. -/
def itemsOf (buf : List UInt8) : List Item :=
  (scan classify 0 buf).1.map Hit.tok

theorem scanLoop_zero {σ : Type} (buf : List UInt8) (react : Item → σ → σ) (s : σ) :
    scanLoop buf react buf.length 0 s =
      ((itemsOf buf).foldl (fun s it => react it s) s,
        buf.length - (scan classify 0 buf).2.length) := by
  rw [scanLoop_eq buf react buf.length 0 s (by omega) (Nat.zero_le _), List.drop_zero, itemsOf,
    List.foldl_map]

/-- A datagram is its items folded through the reaction. -/
theorem connReadUdp_eq (tr : TransType) (t : RouterTable W) (datagram : List UInt8)
    (sh : Shared W) : connReadUdp tr t datagram sh =
      ((itemsOf (datagram.take 256)).foldl (fun s it => udpReact tr t it s) (sh, 0)).1 := by
  simp only [connReadUdp, scanLoop_zero]

theorem length_scan_rest_le (buf : List UInt8) : (scan classify 0 buf).2.length ≤ 1 := by
  rcases classify_selfDelimiting.rest_eq 0 buf with h | ⟨x, h, -⟩ <;> simp [h]

/-- The clean-up keeps what the scanner left : one byte at most, so the cast to `uint8_t`
does not cut it. -/
theorem shiftBody_rest (buf : List UInt8) :
    shiftBody buf (buf.length - (scan classify 0 buf).2.length) = (scan classify 0 buf).2 := by
  have hle := length_scan_rest_le buf
  obtain ⟨pre, hpre⟩ := scan_rest_suffix classify 0 buf
  generalize (scan classify 0 buf).2 = rest at hle hpre
  subst hpre
  have hpos : (pre ++ rest).length - rest.length = pre.length := by simp
  have hleft : (pre ++ rest).length - pre.length = rest.length := by simp
  have hmod : rest.length % 256 = rest.length := Nat.mod_eq_of_lt (by omega)
  simp only [shiftBody, hpos, hleft, hmod, List.drop_left, List.take_length, List.take_left]

@[simp] theorem setBody_body (l : Link W) : l.setBody l.cs.body = l :=
  rfl

/-- What a send or its fallback does : the response is taken whole, or dropped, or queued. -/
theorem sendOrQueue_cases (w : ℕ) (resp : Response) (l : Link W) :
    ((sockSend resp l).1.accepted = some resp.bytes.length ∧
        sendOrQueue w resp l = (true, (sockSend resp l).2)) ∨
      ((sockSend resp l).1.accepted ≠ some resp.bytes.length ∧
        (sendOrQueue w resp l = (false, (sockSend resp l).2) ∨
          ∃ q, l.cs.respQueue.enqueue resp = some q ∧
            sendOrQueue w resp l = (true, ⟨{ (sockSend resp l).2.cs with respQueue := q },
              epollChangeMode w l.cs.ident.socket .write (sockSend resp l).2.sh⟩))) := by
  unfold sendOrQueue
  simp only []
  split_ifs with hall
  · exact Or.inl ⟨hall, rfl⟩
  · refine Or.inr ⟨hall, ?_⟩
    cases hq : (sockSend resp l).2.cs.respQueue.enqueue resp with
    | none => exact Or.inl rfl
    | some q => exact Or.inr ⟨q, hq, rfl⟩
  · exact Or.inr ⟨hall, Or.inl rfl⟩

/-- The frame goes to the task table : its command is blocking and a slot is free. -/
def Link.submits (t : RouterTable W) (f : Frame) (l : Link W) : Bool :=
  match routerLookup t f.cmd with
  | none => false
  | some e => e.blocking && (SlotTable.firstFree AsyncTask.valid l.sh.queue).isSome

/-- The task of a submitted frame, in slot `i`. -/
def Link.task (l : Link W) (f : Frame) (e : RouterEntry W) (i : Fin asyncQueueDepth) :
    AsyncTask W :=
  (l.sh.queue i).submitted l.cs.ident.socket 0 l.cs.nextReqSeq f.cmd f.payload e.handler
    (some l.cs.ident.sid)

/-- A submitted frame fills the first free slot and sends nothing. -/
theorem tcpFrame_of_submits {t : RouterTable W} {f : Frame} {l : Link W}
    (h : l.submits t f = true) (w : ℕ) : ∃ e i, routerLookup t f.cmd = some e ∧
      e.blocking = true ∧ SlotTable.firstFree AsyncTask.valid l.sh.queue = some i ∧
      tcpFrame w t f l = ⟨(l.recognise f).cs,
        { l.sh with queue := Function.update l.sh.queue i (l.task f e i) }⟩ := by
  unfold Link.submits at h
  cases he : routerLookup t f.cmd with
  | none => simp [he] at h
  | some e =>
    rw [he] at h
    obtain ⟨hb, hi⟩ := Bool.and_eq_true_iff.1 h
    obtain ⟨i, hi⟩ := Option.isSome_iff_exists.1 hi
    refine ⟨e, i, rfl, hb, hi, ?_⟩
    have hsub : asyncSubmit (l.recognise f).sh.queue l.cs.ident.socket 0 l.cs.nextReqSeq f.cmd
        f.payload e.handler (some l.cs.ident.sid) =
          some (Function.update l.sh.queue i (l.task f e i)) := by
      simp [asyncSubmit, Link.recognise, hi, Link.task]
    simp only [tcpFrame, he, submitBlocking, if_pos hb]
    rw [show (l.recognise f).cs.ident = l.cs.ident from rfl, hsub]
    rfl

/-- The answer of a frame that is not submitted. -/
def directAnswer (w : ℕ) (t : RouterTable W) (f : Frame) (seq : UInt32) (l : Link W) : Link W :=
  let r := syncAnswer w t f seq l
  if r.1 then r.2 else errorAnswer (routerLookup t f.cmd) f seq r.2

theorem tcpFrame_of_not_submits {t : RouterTable W} {f : Frame} {l : Link W}
    (h : l.submits t f = false) (w : ℕ) :
    tcpFrame w t f l = directAnswer w t f l.cs.nextReqSeq (l.recognise f) := by
  have hsub : submitBlocking (routerLookup t f.cmd) f l.cs.nextReqSeq (l.recognise f) =
      (false, l.recognise f) := by
    unfold Link.submits at h
    unfold submitBlocking
    cases he : routerLookup t f.cmd with
    | none => rfl
    | some e =>
      rw [he] at h
      simp only []
      split_ifs with hb
      · have hfull : SlotTable.firstFree AsyncTask.valid l.sh.queue = none := by simpa [hb] using h
        simp [asyncSubmit, Link.recognise, hfull]
      · rfl
  simp [tcpFrame, hsub, directAnswer]

/-- The receive side of a session. -/
structure Received where
  ident : SessionIdent
  body : List UInt8
  nextReqSeq : UInt32
  recognised : List Frame

/-- The receive side of a session. -/
def Session.received (cs : Session) : Received :=
  ⟨cs.ident, cs.body, cs.nextReqSeq, cs.recognised⟩

/-- The receive side after an item. -/
def Received.react (r : Received) (it : Item) : Received :=
  { r with nextReqSeq := r.nextReqSeq + 1, recognised := r.recognised ++ framesOf [it] }

theorem sendOrQueue_received (w : ℕ) (resp : Response) (l : Link W) :
    (sendOrQueue w resp l).2.cs.received = l.cs.received := by
  rcases sendOrQueue_cases w resp l with ⟨-, h⟩ | ⟨-, h | ⟨q, -, h⟩⟩ <;> rw [h] <;> rfl

theorem syncAnswer_received (w : ℕ) (t : RouterTable W) (f : Frame) (seq : UInt32) (l : Link W) :
    (syncAnswer w t f seq l).2.cs.received = l.cs.received := by
  unfold syncAnswer
  simp only []
  split
  · rfl
  · exact sendOrQueue_received w _ _

theorem submitBlocking_received (entry : Option (RouterEntry W)) (f : Frame) (seq : UInt32)
    (l : Link W) : (submitBlocking entry f seq l).2.cs.received = l.cs.received := by
  unfold submitBlocking
  split
  · rfl
  · split
    · split <;> rfl
    · rfl

/-- The receive side of a session is a function of the items alone : no answer, table or
outcome of a send changes it. -/
theorem tcpReact_received (w : ℕ) (t : RouterTable W) (it : Item) (l : Link W) :
    (tcpReact w t it l).cs.received = l.cs.received.react it := by
  cases it with
  | incomplete => simp [tcpReact, badFrame, sockSend, Link.build, Session.received,
      Received.react, framesOf]
  | chkErr => simp [tcpReact, badFrame, sockSend, Link.build, Session.received,
      Received.react, framesOf]
  | frame f =>
    have hrec : (l.recognise f).cs.received = l.cs.received.react (.frame f) := rfl
    have hsub := submitBlocking_received (routerLookup t f.cmd) f l.cs.nextReqSeq (l.recognise f)
    simp only [tcpReact, tcpFrame]
    rw [← hrec, ← hsub]
    generalize submitBlocking (routerLookup t f.cmd) f l.cs.nextReqSeq (l.recognise f) = r
    by_cases hr : r.1 = true
    · simp [hr]
    · simp only [hr, if_false, Bool.false_eq_true]
      rw [← syncAnswer_received w t f l.cs.nextReqSeq r.2]
      split_ifs <;> rfl

/-- The reactions of a read, one after the other. -/
def reactAll (w : ℕ) (t : RouterTable W) (items : List Item) (l : Link W) : Link W :=
  items.foldl (fun l it => tcpReact w t it l) l

theorem reactAll_received (w : ℕ) (t : RouterTable W) (items : List Item) (l : Link W) :
    (reactAll w t items l).cs.received = items.foldl Received.react l.cs.received := by
  induction items generalizing l with
  | nil => rfl
  | cons it items ih => rw [List.foldl_cons, ← tcpReact_received w t, ← ih]; rfl

theorem foldl_react (items : List Item) (r : Received) : items.foldl Received.react r =
    { r with
      nextReqSeq := r.nextReqSeq + UInt32.ofNat items.length
      recognised := r.recognised ++ framesOf items } := by
  induction items generalizing r with
  | nil => simp
  | cons it items ih =>
    have hn : r.nextReqSeq + 1 + UInt32.ofNat items.length =
        r.nextReqSeq + UInt32.ofNat (it :: items).length := by
      rw [List.length_cons, UInt32.ofNat_add, UInt32.add_assoc, UInt32.add_comm 1]
      rfl
    have hf : framesOf (it :: items) = framesOf [it] ++ framesOf items :=
      framesOf_append [it] items
    rw [List.foldl_cons, ih, hf, ← List.append_assoc, ← hn]
    rfl

theorem reactAll_body (w : ℕ) (t : RouterTable W) (items : List Item) (l : Link W) :
    (reactAll w t items l).cs.body = l.cs.body := by
  have h := congrArg Received.body (reactAll_received w t items l)
  rwa [foldl_react] at h

theorem reactAll_recognised (w : ℕ) (t : RouterTable W) (items : List Item) (l : Link W) :
    (reactAll w t items l).cs.recognised = l.cs.recognised ++ framesOf items := by
  have h := congrArg Received.recognised (reactAll_received w t items l)
  rwa [foldl_react] at h

/-- A read of a TCP connection is its items in order, and it leaves what the scanner left. -/
theorem connParse_eq (w : ℕ) (t : RouterTable W) (chunk : List UInt8) (l : Link W) :
    connParse w t chunk l = (reactAll w t (itemsOf (l.cs.body ++ chunk))
      (l.setBody (l.cs.body ++ chunk))).setBody (scan classify 0 (l.cs.body ++ chunk)).2 := by
  have hbody : (reactAll w t (itemsOf (l.cs.body ++ chunk))
      (l.setBody (l.cs.body ++ chunk))).cs.body = l.cs.body ++ chunk := reactAll_body ..
  simp only [connParse, scanLoop_zero]
  rw [← reactAll, hbody, shiftBody_rest]
  split_ifs with hpos
  · rfl
  · -- nothing was consumed, so the rest is the whole buffer
    have hall : (scan classify 0 (l.cs.body ++ chunk)).2 = l.cs.body ++ chunk :=
      (scan_rest_suffix classify 0 _).eq_of_length_le (by omega)
    rw [hall]
    conv_lhs => rw [← setBody_body (reactAll ..), hbody]

end Xlab
