import Mathlib.Data.Int.Order.Basic
import Mathlib.Tactic.Common

/-!
# Frames of the wire protocol

A request is `[0x40][len][cmd][payload][chk]`, a response is `[0xF0][len][cmd][data][chk]`
or `[0xF4][3][cmd][err][chk]`. The length byte counts the bytes after it. The checksum is
the two's complement of the sum of the bytes before it.

`routerBuildResponse` writes a response as `xlab_router_build_response` does, with the
positions and lengths in `uint8_t`. The sequence number is a parameter the code uses in
its traces only. The model keeps it with the bytes, so that a response can be told apart
from the responses to other requests.
-/

namespace Xlab

/-- `XLAB_BOOT_CODE_HEAD`, the first byte of a request. -/
def bootCodeHead : UInt8 := 0x40

/-- `XLAB_RETURN_CODE_OK`, the first byte of a response that carries data. -/
def returnCodeOk : UInt8 := 0xF0

/-- `XLAB_RETURN_CODE_ERR`, the first byte of a response that carries an error code. -/
def returnCodeErr : UInt8 := 0xF4

/-- `NONE`, the command byte of an answer to a broken frame. -/
def cmdNone : UInt8 := 0x00

/-- `XLAB_CMD_GET_VER`. -/
def cmdGetVer : UInt8 := 0x02

/-- `XLAB_CMD_START_READ`. -/
def cmdStartRead : UInt8 := 0x06

/-- `XLAB_PROTO_PAYLOAD_MAX`. -/
def protoPayloadMax : UInt8 := 251

/-- `xlab_err_code_e`. A handler's negative return is negated into it unchecked, so it is
a number and not one of the named codes. -/
abbrev ErrCode := ℕ

/-- `XLAB_ERR_OK`. -/
def errOk : ErrCode := 0x00

/-- `XLAB_ERR_CHECKSUM`. -/
def errChecksum : ErrCode := 0x01

/-- `XLAB_ERR_LEN_OVERFLOW`. -/
def errLenOverflow : ErrCode := 0x02

/-- `XLAB_ERR_UNKNOWN_CMD`. -/
def errUnknownCmd : ErrCode := 0x03

/-- `XLAB_ERR_PARAM_RANGE`. -/
def errParamRange : ErrCode := 0x04

/-- `XLAB_ERR_BUS_BUSY`. -/
def errBusBusy : ErrCode := 0x12

/-- `XLAB_ERR_INTERNAL`. -/
def errInternal : ErrCode := 0xFF

/-- `xlab_proto_calc_checksum` : the first `len − 1` bytes, summed in `uint32_t`. -/
def protoCalcChecksum (buf : List UInt8) (len : UInt8) : UInt8 :=
  let sum : UInt32 := (buf.take (len.toNat - 1)).foldl (fun sum b => sum + b.toUInt32) 0
  (~~~sum + 1).toUInt8

/-- A response as it goes on the wire, with the sequence number it answers. -/
structure Response where
  seq : UInt32
  bytes : List UInt8
  deriving DecidableEq, Repr

/-- `out[i] = x`, where the bytes of `out` before `i` are written. -/
def putByte (out : List UInt8) (i : ℕ) (x : UInt8) : List UInt8 :=
  if i < out.length then out.set i x else out ++ [x]

/-- `xlab_router_build_response`. -/
def routerBuildResponse (cmdCode : UInt8) (errCode : ErrCode) (data : List UInt8)
    (seq : UInt32) : Response :=
  if errCode = errOk then
    let dataLen := UInt8.ofNat data.length
    let out := [returnCodeOk, dataLen + 2, cmdCode] ++ data
    let chkPos := 3 + dataLen
    let out := putByte out chkPos.toNat (protoCalcChecksum out (chkPos + 1))
    ⟨seq, out.take (chkPos + 1).toNat⟩
  else
    let out := [returnCodeErr, 3, cmdCode, UInt8.ofNat errCode]
    ⟨seq, putByte out 4 (protoCalcChecksum out 5)⟩

@[simp] theorem routerBuildResponse_seq (cmd : UInt8) (err : ErrCode) (data : List UInt8)
    (seq : UInt32) : (routerBuildResponse cmd err data seq).seq = seq := by
  unfold routerBuildResponse
  split_ifs <;> rfl

/-- The sequence number does not reach the wire. -/
theorem routerBuildResponse_bytes (cmd : UInt8) (err : ErrCode) (data : List UInt8)
    (seq seq' : UInt32) : (routerBuildResponse cmd err data seq).bytes =
      (routerBuildResponse cmd err data seq').bytes := by
  unfold routerBuildResponse
  split_ifs <;> rfl

/-- The sum of some bytes. -/
def byteSum (bytes : List UInt8) : UInt8 :=
  bytes.foldl (fun sum b => sum + b) 0

/-- A frame : its bytes, and the byte that makes them sum to zero. -/
def withChecksum (bytes : List UInt8) : List UInt8 :=
  bytes ++ [-byteSum bytes]

theorem foldl_byteSum (bytes : List UInt8) (sum : UInt8) :
    bytes.foldl (fun sum b => sum + b) sum = sum + byteSum bytes := by
  induction bytes generalizing sum with
  | nil => simp [byteSum]
  | cons b bytes ih => rw [byteSum, List.foldl_cons, List.foldl_cons, ih, ih (0 + b),
      UInt8.zero_add, UInt8.add_assoc]

theorem byteSum_append (xs ys : List UInt8) : byteSum (xs ++ ys) = byteSum xs + byteSum ys := by
  rw [byteSum, List.foldl_append, ← byteSum, foldl_byteSum]

/-- A frame sums to zero. -/
theorem byteSum_withChecksum (bytes : List UInt8) : byteSum (withChecksum bytes) = 0 := by
  have hlast : byteSum [-byteSum bytes] = -byteSum bytes := UInt8.zero_add _
  rw [withChecksum, byteSum_append, hlast, UInt8.add_right_neg]

theorem protoCalcChecksum_eq (buf : List UInt8) (len : UInt8) :
    protoCalcChecksum buf len = -byteSum (buf.take (len.toNat - 1)) := by
  have hfold : ∀ (bytes : List UInt8) (sum : UInt32),
      (bytes.foldl (fun sum b => sum + b.toUInt32) sum).toUInt8 =
        bytes.foldl (fun sum b => sum + b) sum.toUInt8 := by
    intro bytes
    induction bytes with
    | nil => exact fun _ => rfl
    | cons b bytes ih =>
      intro sum
      rw [List.foldl_cons, ih, UInt32.toUInt8_add, UInt8.toUInt8_toUInt32, List.foldl_cons]
  rw [protoCalcChecksum, UInt32.toUInt8_add, UInt32.toUInt8_not, hfold, byteSum,
    UInt8.neg_eq_not_add]
  rfl

/-- The 0xF0 frame that carries `data`. -/
def okFrame (cmd : UInt8) (data : List UInt8) : List UInt8 :=
  withChecksum ([returnCodeOk, UInt8.ofNat data.length + 2, cmd] ++ data)

/-- The 0xF4 frame that carries `code`. -/
def errFrame (cmd : UInt8) (code : ErrCode) : List UInt8 :=
  withChecksum [returnCodeErr, 3, cmd, UInt8.ofNat code]

theorem routerBuildResponse_err {err : ErrCode} (h : err ≠ errOk) (cmd : UInt8)
    (data : List UInt8) (seq : UInt32) : routerBuildResponse cmd err data seq =
      ⟨seq, errFrame cmd err⟩ := by
  rw [routerBuildResponse, if_neg h]
  simp only [protoCalcChecksum_eq]
  rfl

/-- With at most 251 data bytes no position or length wraps. -/
theorem routerBuildResponse_ok (cmd : UInt8) {data : List UInt8} (hd : data.length ≤ 251)
    (seq : UInt32) : routerBuildResponse cmd errOk data seq = ⟨seq, okFrame cmd data⟩ := by
  have h3 : (3 + UInt8.ofNat data.length).toNat = 3 + data.length := by
    simp only [UInt8.toNat_add, UInt8.toNat_ofNat', UInt8.reduceToNat]
    omega
  have h4 : (3 + UInt8.ofNat data.length + 1).toNat = 4 + data.length := by
    simp only [UInt8.toNat_add, UInt8.toNat_ofNat', UInt8.reduceToNat]
    omega
  rw [routerBuildResponse, if_pos rfl]
  simp only [h3, h4, putByte, protoCalcChecksum_eq, okFrame, withChecksum]
  rw [if_neg (by simp; omega), List.take_of_length_le (by simp; omega),
    List.take_of_length_le (by simp; omega)]

/-- A response is never empty. -/
theorem routerBuildResponse_bytes_ne_nil (cmd : UInt8) (err : ErrCode) {data : List UInt8}
    (hd : data.length ≤ 251) (seq : UInt32) :
    (routerBuildResponse cmd err data seq).bytes ≠ [] := by
  by_cases h : err = errOk
  · subst h
    rw [routerBuildResponse_ok cmd hd]
    exact List.cons_ne_nil _ _
  · rw [routerBuildResponse_err h]
    exact List.cons_ne_nil _ _

/-- A request whose checksum is right : its command and at most 249 payload bytes. -/
structure Frame where
  cmd : UInt8
  payload : List UInt8
  payload_le : payload.length ≤ 249
  deriving DecidableEq, Repr

end Xlab
