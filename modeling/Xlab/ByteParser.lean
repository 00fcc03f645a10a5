import Xlab.Requests
import Xlab.Streams

/-!
# The byte parser

`xlab_proto_parse_byte` assembles a frame one byte at a time in `frame_buf`, with the
position and the lengths in `uint8_t`. `protoParseByte` is that function. A write outside
the 255 bytes of the buffer is left out of the model, which drops it.

`Ready` are the states between two frames, `Collected xs` those inside one, with the bytes
`xs` of it read. From a ready state a frame whose length byte is at most 253 is read up to
its last byte without a result, and the last byte gives the frame or a checksum error and
leads to a ready state again (`run_frame`).
-/

open Streams

namespace Xlab

/-! ## The parser -/

/-- `xlab_parse_state_e`. -/
inductive ParseState where
  | waitHead
  | waitLen
  | waitCmd
  | waitPayload
  | waitCheck
  deriving DecidableEq, Repr

/-- `xlab_proto_ctx_t`. -/
structure ProtoCtx where
  state : ParseState
  frameBuf : List UInt8
  bufPos : UInt8
  payloadLen : UInt8
  expectedTotal : UInt8
  nextReqSeq : UInt32
  deriving DecidableEq, Repr

/-- `XLAB_PROTO_FRAME_MAX`. -/
def protoFrameMax : ℕ := 255

/-- The context set to zero. -/
def ProtoCtx.zeroed : ProtoCtx :=
  ⟨.waitHead, List.replicate protoFrameMax 0, 0, 0, 0, 0⟩

/-- `xlab_parse_result_e`, with the outputs of `XLAB_PARSE_OK`. -/
inductive ParseResult where
  | ok (cmd : UInt8) (payload : List UInt8) (seq : UInt32)
  | incomplete
  | chkErr
  | error
  deriving DecidableEq, Repr

/-- `ctx->frame_buf[i] = byte`. -/
def ProtoCtx.put (ctx : ProtoCtx) (i : ℕ) (byte : UInt8) : ProtoCtx :=
  { ctx with frameBuf := ctx.frameBuf.set i byte }

/-- `ctx->frame_buf[ctx->buf_pos++] = byte`. -/
def ProtoCtx.push (ctx : ProtoCtx) (byte : UInt8) : ProtoCtx :=
  { ctx.put ctx.bufPos.toNat byte with bufPos := ctx.bufPos + 1 }

/-- `xlab_proto_parse_byte`. -/
def protoParseByte (ctx : ProtoCtx) (byte : UInt8) : ProtoCtx × ParseResult :=
  match ctx.state with
  | .waitHead =>
    if byte = bootCodeHead then ({ ctx.push byte with state := .waitLen }, .incomplete)
    else (ctx, .incomplete)
  | .waitLen =>
    let ctx := ctx.put 1 byte
    if byte < 2 then ({ ctx with state := .waitHead }, .error)
    else
      let ctx := { ctx with payloadLen := byte - 2 }
      if protoPayloadMax < ctx.payloadLen then ({ ctx with state := .waitHead }, .error)
      else ({ ctx with expectedTotal := byte + 2, bufPos := 2, state := .waitCmd }, .incomplete)
  | .waitCmd =>
    ({ ctx.put 2 byte with
      bufPos := 3
      state := if 0 < ctx.payloadLen then .waitPayload else .waitCheck }, .incomplete)
  | .waitPayload =>
    let ctx := ctx.push byte
    if 3 + ctx.payloadLen.toNat ≤ ctx.bufPos.toNat then
      ({ ctx with state := .waitCheck }, .incomplete)
    else (ctx, .incomplete)
  | .waitCheck =>
    let ctx := ctx.push byte
    let next := { ctx with state := .waitHead, bufPos := 0 }
    if protoCalcChecksum ctx.frameBuf ctx.expectedTotal = byte then
      ({ next with nextReqSeq := ctx.nextReqSeq + 1 },
        .ok (byteAt ctx.frameBuf 2) ((ctx.frameBuf.drop 3).take ctx.payloadLen.toNat)
          ctx.nextReqSeq)
    else (next, .chkErr)

/-! ## States between frames and inside one -/

/-- Between two frames, the next one to get the number `seq`. After a bad length byte the
position stays where it was, behind a head byte at the front of the buffer. -/
structure Ready (seq : UInt32) (ctx : ProtoCtx) : Prop where
  state : ctx.state = .waitHead
  size : ctx.frameBuf.length = protoFrameMax
  pos : ctx.bufPos = 0 ∨ ctx.bufPos.toNat < protoFrameMax ∧ byteAt ctx.frameBuf 0 = bootCodeHead
  seq : ctx.nextReqSeq = seq

theorem ready_zeroed : Ready 0 ProtoCtx.zeroed :=
  ⟨rfl, List.length_replicate, Or.inl rfl, rfl⟩

/-- Inside a frame with `n` payload bytes : its first bytes `xs` are read. -/
structure Collected (xs : List UInt8) (n : ℕ) (seq : UInt32) (st : ParseState)
    (ctx : ProtoCtx) : Prop where
  state : ctx.state = st
  size : ctx.frameBuf.length = protoFrameMax
  pos : ctx.bufPos.toNat = xs.length
  bytes : ctx.frameBuf.take xs.length = xs
  payloadLen : ctx.payloadLen.toNat = n
  expectedTotal : ctx.expectedTotal.toNat = n + 4
  seq : ctx.nextReqSeq = seq

theorem take_set_succ {xs buf : List UInt8} (h : buf.take xs.length = xs)
    (hlen : xs.length < buf.length) (b : UInt8) :
    (buf.set xs.length b).take (xs.length + 1) = xs ++ [b] := by
  rw [List.take_succ_eq_append_getElem (by simpa using hlen), List.getElem_set_self,
    List.take_set_of_le (Nat.le_refl _), h]

/-- A byte more is in the buffer. -/
theorem Collected.push {xs : List UInt8} {n : ℕ} {seq : UInt32} {st : ParseState}
    {ctx : ProtoCtx} (h : Collected xs n seq st ctx) (hlen : xs.length < protoFrameMax)
    (b : UInt8) : Collected (xs ++ [b]) n seq st (ctx.push b) := by
  have hsize := h.size
  have hmax : protoFrameMax = 255 := rfl
  refine ⟨h.state, by simpa [ProtoCtx.push, ProtoCtx.put] using h.size, ?_, ?_, h.payloadLen,
    h.expectedTotal, h.seq⟩
  · have hpos := h.pos
    simp only [ProtoCtx.push, UInt8.toNat_add, UInt8.reduceToNat, List.length_append,
      List.length_singleton]
    omega
  · rw [List.length_append, List.length_singleton]
    simp only [ProtoCtx.push, ProtoCtx.put, h.pos]
    exact take_set_succ h.bytes (by omega) b

/-! ## A frame is read -/

theorem take_header {buf : List UInt8} (h : 3 ≤ buf.length) (len cmd : UInt8) :
    ((buf.set 1 len).set 2 cmd).take 3 = [byteAt buf 0, len, cmd] := by
  match buf, h with
  | _ :: _ :: _ :: _, _ => rfl

/-- The head goes to the front of the buffer, or behind the one that is there. -/
theorem Ready.push_head {seq : UInt32} {ctx : ProtoCtx} (h : Ready seq ctx) :
    byteAt (ctx.push bootCodeHead).frameBuf 0 = bootCodeHead := by
  have hmax : protoFrameMax = 255 := rfl
  have hsize := h.size
  simp only [ProtoCtx.push, ProtoCtx.put]
  by_cases h0 : ctx.bufPos.toNat = 0
  · rw [h0, byteAt_of_lt (by rw [List.length_set]; omega), List.getElem_set_self]
  · rcases h.pos with hpos | ⟨hpos, hhead⟩
    · exact absurd (by rw [hpos]; rfl) h0
    · rw [byteAt, List.getD_eq_getElem?_getD, List.getElem?_set_ne h0,
        ← List.getD_eq_getElem?_getD, ← byteAt, hhead]

/-- The head byte between two frames. -/
theorem parse_head {ctx : ProtoCtx} (h : ctx.state = .waitHead) :
    protoParseByte ctx bootCodeHead =
      ({ ctx.push bootCodeHead with state := .waitLen }, .incomplete) := by
  rw [protoParseByte, h]
  exact if_pos rfl

/-- The head, the length byte and the command. -/
theorem run_header {seq : UInt32} {ctx : ProtoCtx} (h : Ready seq ctx) {len : UInt8} {n : ℕ}
    (hlen : len.toNat = n + 2) (hn : n ≤ 251) (cmd : UInt8) :
    Run protoParseByte ctx [bootCodeHead, len, cmd] (List.replicate 3 .incomplete)
      (Collected [bootCodeHead, len, cmd] n seq (if 0 < n then .waitPayload else .waitCheck)) := by
  have hmax : protoFrameMax = 255 := rfl
  have hpl : (len - 2).toNat = n := by
    simp only [UInt8.toNat_sub, UInt8.reduceToNat]
    omega
  have h2 : ¬len < 2 := by
    simp only [UInt8.lt_iff_toNat_lt, UInt8.reduceToNat]
    omega
  have hbig : ¬protoPayloadMax < len - 2 := by
    rw [UInt8.lt_iff_toNat_lt, hpl, Nat.not_lt]
    exact hn
  have hpos : (0 < len - 2) = (0 < n) := by
    rw [UInt8.lt_iff_toNat_lt, hpl]
    rfl
  have hsize := h.size
  have h1 := parse_head h.state
  have hbuf : (ctx.push bootCodeHead).frameBuf.length = protoFrameMax := by
    simpa [ProtoCtx.push, ProtoCtx.put] using hsize
  refine ⟨?_, ?_⟩
  · rw [outputs_cons, h1]
    simp only [outputs_cons, outputs_nil, protoParseByte, if_neg h2, if_neg hbig]
    rfl
  · rw [final_cons, h1]
    simp only [final_cons, final_nil, protoParseByte, if_neg h2, if_neg hbig, hpos]
    refine ⟨rfl, by simpa [ProtoCtx.put] using hbuf, rfl, ?_, hpl, ?_, h.seq⟩
    · simp only [ProtoCtx.put]
      rw [List.length_cons, List.length_cons, List.length_singleton, take_header (by omega),
        h.push_head]
    · simp only [ProtoCtx.put, UInt8.toNat_add, UInt8.reduceToNat]
      omega

/-- The payload. -/
theorem run_payload {xs : List UInt8} {n : ℕ} {seq : UInt32} {ctx : ProtoCtx} {ys : List UInt8}
    (h : Collected xs n seq .waitPayload ctx) (hlen : xs.length + ys.length = n + 3)
    (hys : ys ≠ []) (hn : n ≤ 251) :
    Run protoParseByte ctx ys (List.replicate ys.length .incomplete)
      (Collected (xs ++ ys) n seq .waitCheck) := by
  have hmax : protoFrameMax = 255 := rfl
  induction ys generalizing xs ctx with
  | nil => exact absurd rfl hys
  | cons y ys ih =>
    rw [List.length_cons] at hlen
    have hpush := h.push (by omega) y
    have hpos := hpush.pos
    rw [List.length_append, List.length_singleton] at hpos
    rw [List.append_cons]
    cases ys with
    | nil =>
      have hstep : protoParseByte ctx y =
          ({ ctx.push y with state := .waitCheck }, .incomplete) := by
        rw [protoParseByte, h.state]
        exact if_pos (by rw [hpush.payloadLen, hpos]; simp at hlen; omega)
      refine ⟨?_, ?_⟩
      · rw [outputs_cons, hstep]
        rfl
      · rw [final_cons, hstep, List.append_nil]
        exact { hpush with state := rfl }
    | cons z ys =>
      have hstep : protoParseByte ctx y = (ctx.push y, .incomplete) := by
        rw [protoParseByte, h.state]
        exact if_neg (by rw [hpush.payloadLen, hpos]; simp at hlen; omega)
      have htail := ih hpush (by simp at hlen ⊢; omega) (List.cons_ne_nil z ys)
      exact htail.cons hstep

/-- The result for the last byte of a frame. -/
def checkResult (xs : List UInt8) (seq : UInt32) (chk : UInt8) : ParseResult :=
  if -byteSum xs = chk then .ok (byteAt xs 2) (xs.drop 3) seq else .chkErr

/-- The number of the frame after it. -/
def checkSeq (xs : List UInt8) (seq : UInt32) (chk : UInt8) : UInt32 :=
  if -byteSum xs = chk then seq + 1 else seq

/-- The last byte. -/
theorem run_check {xs : List UInt8} {n : ℕ} {seq : UInt32} {ctx : ProtoCtx}
    (h : Collected xs n seq .waitCheck ctx) (hlen : xs.length = n + 3) (hn : n ≤ 251)
    (chk : UInt8) : Run protoParseByte ctx [chk] [checkResult xs seq chk]
      (Ready (checkSeq xs seq chk)) := by
  have hmax : protoFrameMax = 255 := rfl
  have hpush := h.push (by omega) chk
  have htake : (ctx.push chk).frameBuf.take xs.length = xs := by
    have hb := congrArg (List.take xs.length) hpush.bytes
    rwa [List.length_append, List.length_singleton, List.take_take,
      Nat.min_eq_left (Nat.le_succ _), List.take_left] at hb
  have hsum : protoCalcChecksum (ctx.push chk).frameBuf (ctx.push chk).expectedTotal =
      -byteSum xs := by
    rw [protoCalcChecksum_eq, hpush.expectedTotal, show n + 4 - 1 = xs.length by omega, htake]
  have hcmd : byteAt (ctx.push chk).frameBuf 2 = byteAt xs 2 := by
    rw [← byteAt_take _ (show 2 < xs.length by omega), htake]
  have hpayload : ((ctx.push chk).frameBuf.drop 3).take (ctx.push chk).payloadLen.toNat =
      xs.drop 3 := by
    rw [hpush.payloadLen, show n = xs.length - 3 by omega, ← List.drop_take, htake]
  have hstep : protoParseByte ctx chk = ({ ctx.push chk with
      state := .waitHead, bufPos := 0, nextReqSeq := checkSeq xs seq chk },
      checkResult xs seq chk) := by
    rw [protoParseByte, h.state]
    simp only [hsum, hcmd, hpayload, hpush.seq, checkSeq, checkResult]
    split_ifs
    · rfl
    · rw [← hpush.seq]
  exact ⟨by rw [outputs_cons, hstep, outputs_nil], by
    rw [final_cons, hstep]
    exact ⟨rfl, hpush.size, Or.inl rfl, rfl⟩⟩

/-- A frame is read up to its last byte without a result, and the last byte gives the frame
or a checksum error. -/
theorem run_frame {seq : UInt32} {ctx : ProtoCtx} (h : Ready seq ctx) {len : UInt8}
    {payload : List UInt8} (hlen : len.toNat = payload.length + 2) (hn : payload.length ≤ 251)
    (cmd chk : UInt8) :
    Run protoParseByte ctx ([bootCodeHead, len, cmd] ++ payload ++ [chk])
      (List.replicate (payload.length + 3) .incomplete ++
        [checkResult ([bootCodeHead, len, cmd] ++ payload) seq chk])
      (Ready (checkSeq ([bootCodeHead, len, cmd] ++ payload) seq chk)) := by
  have hcheck : ∀ ctx', Collected ([bootCodeHead, len, cmd] ++ payload) payload.length seq
      .waitCheck ctx' → Run protoParseByte ctx' [chk] [checkResult _ seq chk]
        (Ready (checkSeq _ seq chk)) := fun ctx' h' =>
    run_check h' (by rw [List.length_append]; simp; omega) hn chk
  have hhead := run_header h hlen hn cmd
  cases payload with
  | nil => exact hhead.append hcheck
  | cons y ys =>
    rw [if_pos (by simp)] at hhead
    have hbody := hhead.append fun ctx' h' =>
      run_payload h' (by simp; omega) (List.cons_ne_nil y ys) hn
    rw [List.replicate_append_replicate, Nat.add_comm] at hbody
    exact hbody.append hcheck

end Xlab
