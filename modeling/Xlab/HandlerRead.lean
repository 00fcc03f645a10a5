import Xlab.ByteParser
import Xlab.Flush

/-!
# Reading with the byte parser

`xlab_handler_read` feeds what it read to `xlab_proto_parse_byte` and puts every answer on
the ring of the session : the result of a command, an error for a blocking command the task
table has no room for, and an error for a frame with a wrong checksum. Each of the three
looks for room first and does nothing when there is none.

The number of the next request is in the context of the parser, which is part of the
session. The model keeps it in the session and hands it to the parser with each byte.
-/

namespace Xlab

variable {W : Type}

/-- The enqueue of `xlab_handler_read`, with the next tail in the form
`(uint8_t)((i + 1) % XLAB_RESP_QUEUE_DEPTH)`. -/
def RespQueue.readEnqueue (q : RespQueue) (resp : Response) : Option RespQueue :=
  if nextHead q.tail = q.head then none
  else some
    { slots := Function.update q.slots q.tail.toNat (.fresh resp)
      head := q.head
      tail := nextHead q.tail
      head_lt := q.head_lt
      tail_lt := by
        rw [toNat_nextHead]
        exact RingBuffer.next_lt (by decide) _ }

/-- Queue a response, and ask for write events if the ring was empty. -/
def readQueue (w : ℕ) (resp : Response) (l : Link W) : Link W :=
  match l.cs.respQueue.readEnqueue resp with
  | none => l
  | some q =>
    let l := l.build resp
    ⟨{ l.cs with respQueue := q },
      if l.cs.respQueue.head = l.cs.respQueue.tail then
        epollChangeMode w l.cs.ident.socket .write l.sh
      else l.sh⟩

/-- Run a command and queue what it answers. With no room on the ring the command is not
run. -/
def readSync (w : ℕ) (t : RouterTable W) (cmd : UInt8) (payload : List UInt8) (seq : UInt32)
    (l : Link W) : Link W :=
  if nextHead l.cs.respQueue.tail = l.cs.respQueue.head then l
  else
    let p := routerProcess t cmd payload seq l.sh.world
    let l := { l with sh := { l.sh with world := p.2.1, invoked := l.sh.invoked ++ p.2.2 } }
    match p.1 with
    | .reject _ => l
    | .respond resp => readQueue w resp l

/-- Submit a blocking command, or queue an error when no slot is free. -/
def readSubmit (w : ℕ) (e : RouterEntry W) (cmd : UInt8) (payload : List UInt8) (seq : UInt32)
    (l : Link W) : Link W :=
  match asyncSubmit l.sh.queue l.cs.ident.socket (l.cs.nextReqSeq - 1) seq cmd payload e.handler
      (some l.cs.ident.sid) with
  | some queue => { l with sh := { l.sh with queue := queue } }
  | none => readQueue w (routerBuildResponse cmdNone errChecksum [] seq) l

/-- What a parsed frame leads to. -/
def readFrame (w : ℕ) (t : RouterTable W) (cmd : UInt8) (payload : List UInt8) (seq : UInt32)
    (l : Link W) : Link W :=
  match routerLookup t cmd with
  | some e => if e.blocking then readSubmit w e cmd payload seq l
      else readSync w t cmd payload seq l
  | none => readSync w t cmd payload seq l

/-- The state of the loop. `seq` is the local variable the parser writes for a frame that is
right. It has any value before the first one. -/
structure ReadLoop (W : Type) where
  ctx : ProtoCtx
  seq : UInt32
  link : Link W

/-- What the parser says about the next byte. -/
def ReadLoop.parse (s : ReadLoop W) (byte : UInt8) : ProtoCtx × ParseResult :=
  protoParseByte { s.ctx with nextReqSeq := s.link.cs.nextReqSeq } byte

/-- The session with the number the parser left. -/
def ReadLoop.numbered (s : ReadLoop W) (byte : UInt8) : Link W :=
  { s.link with cs := { s.link.cs with nextReqSeq := (s.parse byte).1.nextReqSeq } }

/-- One turn of the loop. -/
def readByte (w : ℕ) (t : RouterTable W) (byte : UInt8) (s : ReadLoop W) : ReadLoop W :=
  match (s.parse byte).2 with
  | .ok cmd payload seq =>
    ⟨(s.parse byte).1, seq, readFrame w t cmd payload seq (s.numbered byte)⟩
  | .chkErr => ⟨(s.parse byte).1, s.seq,
      readQueue w (routerBuildResponse cmdNone errChecksum [] s.seq) (s.numbered byte)⟩
  | .incomplete => ⟨(s.parse byte).1, s.seq, s.numbered byte⟩
  | .error => ⟨(s.parse byte).1, s.seq, s.numbered byte⟩

/-- The loop over the bytes read. -/
def readBytes (w : ℕ) (t : RouterTable W) (bytes : List UInt8) (s : ReadLoop W) : ReadLoop W :=
  bytes.foldl (fun s byte => readByte w t byte s) s

/-- `xlab_handler_read`. A session that is removed is left as it is. -/
def handlerRead (w : ℕ) (t : RouterTable W) (r : ReadOutcome) (s : ReadLoop W) :
    ProtoCtx × Exit W :=
  match r with
  | .error .eagain => (s.ctx, ⟨1, 0, s.link⟩)
  | .error .other => (s.ctx, ⟨-1, 1, s.link⟩)
  | .data bytes =>
    let chunk := bytes.take (requestChunk - s.link.cs.body.length)
    if chunk = [] then (s.ctx, ⟨-1, 1, s.link⟩)
    else
      let s' := readBytes w t chunk s
      (s'.ctx, ⟨chunk.length, 0, s'.link.setBody (s'.link.cs.body ++ chunk)⟩)

/-! ## The ring -/

/-- Both forms of the next index agree below the size of the ring. -/
theorem nextHead_eq_nextTail (i : UInt8) : nextHead i = nextTail i := by
  rw [← UInt8.toNat_inj, toNat_nextHead, toNat_nextTail]

/-- The enqueue of `xlab_handler_read` is that of the other sites. -/
theorem RespQueue.readEnqueue_eq (q : RespQueue) (resp : Response) :
    q.readEnqueue resp = q.enqueue resp := by
  simp only [readEnqueue, enqueue, nextHead_eq_nextTail]

/-- Reading changes the ring by an enqueue of the response. -/
theorem readQueue_respQueue (w : ℕ) (resp : Response) (l : Link W) :
    (readQueue w resp l).cs.respQueue = (l.cs.respQueue.enqueue resp).getD l.cs.respQueue := by
  unfold readQueue
  rw [RespQueue.readEnqueue_eq]
  cases l.cs.respQueue.enqueue resp <;> rfl

end Xlab
