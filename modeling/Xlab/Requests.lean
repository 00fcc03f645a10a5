import Xlab.ConnRead

/-!
# Well-formed requests

A request is `[0x40][|payload| + 2][cmd][payload][chk]` with a payload of at most
`XLAB_PROTO_PAYLOAD_MAX` bytes (`Request.bytes`). The scan loop of `xlab_conn_read`
finds a request whatever follows it if its payload has at most 249 bytes
(`covers_frame`), so a stream of such requests is read off as it was written
(`scan_frames`).

`chkErr_of_corrupt` is the detection of errors : with one byte after the length byte
replaced, the scan loop finds a wrong checksum at the front of the frame.
-/

open Scanner

namespace Xlab

variable {W : Type}

/-- A command and a payload that the protocol allows. -/
structure Request where
  cmd : UInt8
  payload : List UInt8
  payload_le : payload.length ≤ protoPayloadMax.toNat
  deriving DecidableEq, Repr

/-- The bytes of a request. -/
def Request.bytes (r : Request) : List UInt8 :=
  withChecksum ([bootCodeHead, UInt8.ofNat r.payload.length + 2, r.cmd] ++ r.payload)

/-- Requests one after the other. -/
def requestStream (reqs : List Request) : List UInt8 :=
  reqs.flatMap Request.bytes

/-- A frame of the scan loop as a request. -/
def Frame.request (f : Frame) : Request :=
  ⟨f.cmd, f.payload, Nat.le_trans f.payload_le (by decide)⟩

theorem Request.bytes_eq (r : Request) : r.bytes = bootCodeHead ::
    (UInt8.ofNat r.payload.length + 2) :: r.cmd ::
      (r.payload ++ [-byteSum ([bootCodeHead, UInt8.ofNat r.payload.length + 2, r.cmd] ++
        r.payload)]) :=
  rfl

@[simp] theorem Request.length_bytes (r : Request) : r.bytes.length = r.payload.length + 4 := by
  simp [Request.bytes_eq]

/-- The length byte does not wrap. -/
theorem Request.lenField_toNat (r : Request) :
    (UInt8.ofNat r.payload.length + 2).toNat = r.payload.length + 2 := by
  have hle : r.payload.length ≤ 251 := r.payload_le
  simp only [UInt8.toNat_add, UInt8.toNat_ofNat', UInt8.reduceToNat]
  omega

/-! ## Checksums and sums -/

theorem byteAt_of_lt {xs : List UInt8} {i : ℕ} (h : i < xs.length) : byteAt xs i = xs[i] := by
  simp [byteAt, h]

/-- The checksum byte of a frame is right exactly when the frame sums to zero. -/
theorem checksum_right_iff {xs : List UInt8} {n : ℕ} (hn : n + 1 < 256) (hlen : n < xs.length) :
    protoCalcChecksum xs (UInt8.ofNat (n + 1)) = byteAt xs n ↔ byteSum (xs.take (n + 1)) = 0 := by
  have hlast : xs.take (n + 1) = xs.take n ++ [byteAt xs n] := by
    rw [List.take_succ_eq_append_getElem hlen, byteAt_of_lt hlen]
  have hone : byteSum [byteAt xs n] = byteAt xs n := UInt8.zero_add _
  rw [protoCalcChecksum_eq, UInt8.toNat_ofNat_of_lt' hn, Nat.add_sub_cancel, hlast,
    byteSum_append, hone]
  constructor
  · intro h
    rw [← h, UInt8.add_right_neg]
  · intro h
    rw [← UInt8.sub_neg, UInt8.sub_eq_iff_eq_add, UInt8.zero_add] at h
    rw [h, UInt8.neg_neg]

/-- Replacing a byte by another one changes the sum. -/
theorem byteSum_set_ne {xs : List UInt8} {i : ℕ} (hi : i < xs.length) {b : UInt8}
    (hb : b ≠ byteAt xs i) : byteSum (xs.set i b) ≠ byteSum xs := by
  have hsplit : xs = xs.take i ++ byteAt xs i :: xs.drop (i + 1) := by
    rw [byteAt_of_lt hi, List.getElem_cons_drop, List.take_append_drop]
  have hset : xs.set i b = xs.take i ++ b :: xs.drop (i + 1) := List.set_eq_take_cons_drop b hi
  have hcons : ∀ x ys, byteSum (x :: ys) = x + byteSum ys := fun x ys => by
    rw [← List.singleton_append, byteSum_append]
    exact congrArg (· + byteSum ys) (UInt8.zero_add x)
  intro heq
  rw [hset] at heq
  nth_rewrite 3 [hsplit] at heq
  rw [byteSum_append, byteSum_append, hcons, hcons, UInt8.add_right_inj, UInt8.add_left_inj] at heq
  exact hb heq

/-! ## Requests under the scan loop -/

theorem not_badLen_of_le {lenField : UInt8} (h2 : 2 ≤ lenField.toNat) (h : lenField.toNat ≤ 251) :
    ¬badLen lenField := by
  refine not_or.2 ⟨?_, ?_⟩
  · rw [UInt8.lt_iff_toNat_lt, Nat.not_lt]
    exact h2
  · rw [UInt8.lt_iff_toNat_lt, Nat.not_lt]
    exact h

/-- A request with at most 249 payload bytes is found, whatever follows. -/
theorem covers_frame (f : Frame) : Covers classify f.request.bytes (.frame f) := by
  have hle := f.payload_le
  have hlen : f.request.bytes.length = f.payload.length + 4 := f.request.length_bytes
  have hnat : (UInt8.ofNat f.payload.length + 2).toNat = f.payload.length + 2 :=
    f.request.lenField_toNat
  refine ⟨List.cons_ne_nil _ _, fun rest => ?_⟩
  have h1 : byteAt (f.request.bytes ++ rest) 1 = UInt8.ofNat f.payload.length + 2 := rfl
  have hn : f.request.bytes.length - 1 = f.payload.length + 3 := by omega
  have hfits : f.payload.length + 3 < (f.request.bytes ++ rest).length := by
    rw [List.length_append]
    omega
  have hsum : byteSum ((f.request.bytes ++ rest).take (f.payload.length + 3 + 1)) = 0 := by
    rw [List.take_left' hlen]
    exact byteSum_withChecksum _
  rw [hn, classify_eq_frame, h1, hnat]
  refine ⟨rfl, not_badLen_of_le (by omega) (by omega), rfl, by omega,
    (checksum_right_iff (by omega) hfits).2 hsum, rfl, ?_⟩
  rw [Nat.add_sub_cancel]
  simp [Request.bytes_eq, Frame.request]

/-- A stream of such requests is read off as it was written. -/
theorem scan_frames (fs : List Frame) (pos : ℕ) (rest : List UInt8) :
    scan classify pos (requestStream (fs.map Frame.request) ++ rest) =
      (layout (fun f => f.request.bytes.length) .frame pos fs ++
          (scan classify (pos + (requestStream (fs.map Frame.request)).length) rest).1,
        (scan classify (pos + (requestStream (fs.map Frame.request)).length) rest).2) := by
  have hstream : requestStream (fs.map Frame.request) =
      fs.flatMap fun f => f.request.bytes := List.flatMap_map ..
  rw [hstream]
  exact scan_flatMap (fun f _ => covers_frame f) pos rest

/-- With a byte after the length byte replaced by another one, the checksum at the front is
wrong. -/
theorem chkErr_of_corrupt (f : Frame) {i : ℕ} (h2 : 2 ≤ i) (hi : i < f.request.bytes.length)
    {b : UInt8} (hb : b ≠ byteAt f.request.bytes i) (rest : List UInt8) :
    classify (f.request.bytes.set i b ++ rest) = .advance (some .chkErr) 0 := by
  have hle := f.payload_le
  have hlen : f.request.bytes.length = f.payload.length + 4 := f.request.length_bytes
  have hnat : (UInt8.ofNat f.payload.length + 2).toNat = f.payload.length + 2 :=
    f.request.lenField_toNat
  have hset : (f.request.bytes.set i b).length = f.payload.length + 4 := by
    rw [List.length_set, hlen]
  have hbyte : ∀ j, j < 2 → byteAt (f.request.bytes.set i b ++ rest) j =
      byteAt f.request.bytes j := fun j hj => by
    have hj' : j < (f.request.bytes.set i b).length := by omega
    simp only [byteAt, List.getD_eq_getElem?_getD, List.getElem?_append_left hj',
      List.getElem?_set_ne (show i ≠ j by omega)]
  have hfits : f.payload.length + 3 < (f.request.bytes.set i b ++ rest).length := by
    rw [List.length_append]
    omega
  have hsum : byteSum ((f.request.bytes.set i b ++ rest).take (f.payload.length + 3 + 1)) ≠ 0 := by
    rw [List.take_left' hset, ← byteSum_withChecksum ([bootCodeHead,
      UInt8.ofNat f.payload.length + 2, f.cmd] ++ f.payload)]
    exact byteSum_set_ne hi hb
  have hwrong := mt (checksum_right_iff (by omega) hfits).1 hsum
  have h0 : byteAt (f.request.bytes.set i b ++ rest) 0 = bootCodeHead := hbyte 0 (by omega)
  have h1 : (byteAt (f.request.bytes.set i b ++ rest) 1).toNat = f.payload.length + 2 := by
    rw [hbyte 1 (by omega)]
    exact hnat
  have hne : f.request.bytes.set i b ++ rest ≠ [] := List.ne_nil_of_length_pos (by omega)
  rw [show f.payload.length + 3 + 1 = 2 + (f.payload.length + 2) by omega,
    show f.payload.length + 3 = f.payload.length + 2 + 1 by omega, ← h1] at hwrong
  rw [classify, if_neg hne, if_neg (not_not.2 h0), if_neg (by omega),
    dif_neg (not_badLen_of_le (by omega) (by omega)), if_neg (by omega), if_neg hwrong]

end Xlab
