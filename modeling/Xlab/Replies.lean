import Xlab.Protocol
import Xlab.Streams

/-!
# The stream of responses

A peer reads responses off a byte stream : a head byte 0xF0 or 0xF4, a length byte `L`,
then `L` bytes, all of them summing to zero. `decodeReply` is that reader. A call of
`xlab_router_build_response` with at most 251 data bytes and an error code of one byte
writes a frame it reads whatever follows (`reads_frame`), so the frames of any calls, one
after the other, decode to what the calls said (`replies_round_trip`).
-/

open Streams

namespace Xlab

/-! ## The reader of responses -/

/-- What a response says. -/
inductive Reply where
  | ok (cmd : UInt8) (data : List UInt8)
  | err (cmd : UInt8) (code : ErrCode)
  deriving DecidableEq, Repr

/-- What the bytes between the length byte and the checksum say, under the head byte. -/
def replyOf (head : UInt8) : List UInt8 → Option Reply
  | [] => none
  | cmd :: data =>
    if head = returnCodeOk then some (.ok cmd data)
    else if head = returnCodeErr then
      match data with
      | [code] => some (.err cmd code.toNat)
      | _ => none
    else none

/-- Read a response off the front of a stream. -/
def decodeReply : List UInt8 → Option (Reply × List UInt8)
  | head :: len :: xs =>
    let body := xs.take len.toNat
    if xs.length < len.toNat then none
    else if byteSum (head :: len :: body) = 0 then
      (replyOf head body.dropLast).map fun reply => (reply, xs.drop len.toNat)
    else none
  | _ => none

/-- A call of `xlab_router_build_response`, with the lengths and codes it is made with. -/
structure BuildCall where
  cmdCode : UInt8
  errCode : ErrCode
  data : List UInt8
  seq : UInt32
  errCode_le : errCode ≤ 255
  data_le : errCode = errOk → data.length ≤ protoPayloadMax.toNat

/-- The `out_len` bytes of `out_buf` after the call. -/
def BuildCall.frame (c : BuildCall) : List UInt8 :=
  (routerBuildResponse c.cmdCode c.errCode c.data c.seq).bytes

/-- What the call says : success with its data, or its error code. -/
def BuildCall.reply (c : BuildCall) : Reply :=
  if c.errCode = errOk then .ok c.cmdCode c.data else .err c.cmdCode c.errCode

/-! ## The round trip -/

/-- A head byte, a length byte and that many bytes, summing to zero, are read whatever
follows. -/
theorem decodeReply_withChecksum {head len cmd : UInt8} {data : List UInt8} {reply : Reply}
    (hlen : len.toNat = data.length + 2) (hr : replyOf head (cmd :: data) = some reply)
    (rest : List UInt8) :
    decodeReply (withChecksum (head :: len :: cmd :: data) ++ rest) = some (reply, rest) := by
  have hsplit : withChecksum (head :: len :: cmd :: data) =
      head :: len :: (cmd :: data ++ [-byteSum (head :: len :: cmd :: data)]) := rfl
  have hsum := byteSum_withChecksum (head :: len :: cmd :: data)
  rw [hsplit] at hsum ⊢
  generalize -byteSum (head :: len :: cmd :: data) = chk at hsum ⊢
  have hbody : (cmd :: data ++ [chk]).length = len.toNat := by simp [hlen]
  rw [List.cons_append, List.cons_append, decodeReply, ← hbody, List.take_left, List.drop_left,
    if_neg (by simp), if_pos hsum, List.dropLast_concat, hr]
  rfl

/-- The frame of a call is read whatever follows. -/
theorem reads_frame (c : BuildCall) : Reads decodeReply c.frame c.reply := by
  obtain ⟨cmd, err, data, seq, herr, hdata⟩ := c
  by_cases h : err = errOk
  · subst h
    have hd : data.length ≤ 251 := hdata rfl
    have hlen : (UInt8.ofNat data.length + 2).toNat = data.length + 2 := by
      simp only [UInt8.toNat_add, UInt8.toNat_ofNat', UInt8.reduceToNat]
      omega
    rw [BuildCall.frame, BuildCall.reply, routerBuildResponse_ok cmd hd, if_pos rfl]
    exact ⟨List.cons_ne_nil _ _, decodeReply_withChecksum hlen (by simp [replyOf])⟩
  · have hcode : (UInt8.ofNat err).toNat = err :=
      UInt8.toNat_ofNat_of_lt' (Nat.lt_succ_of_le herr)
    rw [BuildCall.frame, BuildCall.reply, routerBuildResponse_err h, if_neg h]
    refine ⟨List.cons_ne_nil _ _, decodeReply_withChecksum rfl ?_⟩
    simp only [replyOf, hcode]
    rfl

/-- The frames of any calls, one after the other, decode to what the calls said. -/
theorem replies_round_trip (calls : List BuildCall) :
    unpack decodeReply (calls.flatMap BuildCall.frame) = (calls.map BuildCall.reply, []) :=
  unpack_flatMap rfl fun c _ => reads_frame c

-- A success with the data byte 0xF0, then an error.
example : unpack decodeReply (List.flatMap BuildCall.frame
    [⟨2, errOk, [0xF0], 0, by decide, by decide⟩, ⟨6, errBusBusy, [], 1, by decide, by decide⟩]) =
      ([.ok 2 [0xF0], .err 6 errBusBusy], []) := by
  decide +kernel

end Xlab
