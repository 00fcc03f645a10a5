import Xlab.Grammar

/-!
# A corrupted request before the byte parser

One byte of a request after its length byte is replaced by another one. The byte parser reads
the lengths it was told, so it comes to the end of the corrupted request where the next one
begins, and the changed byte changes the sum. So it answers a checksum error at the last
byte of that request, which takes no number, and reads all the others as they are
(`outputs_corrupted`).
-/

open Streams

namespace Xlab

/-- A stream of requests, one of them with a byte of its command, payload or checksum replaced
by another one. -/
structure RequestCorruption where
  before : List Request
  request : Request
  after : List Request
  pos : ℕ
  byte : UInt8
  pos_ge : 2 ≤ pos
  pos_lt : pos < request.bytes.length
  byte_ne : byte ≠ byteAt request.bytes pos

namespace RequestCorruption

variable (c : RequestCorruption)

/-- The corrupted request. -/
def bad : List UInt8 :=
  c.request.bytes.set c.pos c.byte

/-- The whole stream. -/
def stream : List UInt8 :=
  requestStream c.before ++ c.bad ++ requestStream c.after

end RequestCorruption

/-- A corrupted request has its head and its length byte, and a wrong sum. -/
theorem bad_eq (c : RequestCorruption) : ∃ cmd payload chk,
    c.bad = [bootCodeHead, UInt8.ofNat c.request.payload.length + 2, cmd] ++ payload ++ [chk] ∧
      payload.length = c.request.payload.length ∧
      -byteSum ([bootCodeHead, UInt8.ofNat c.request.payload.length + 2, cmd] ++ payload) ≠
        chk := by
  obtain ⟨p, hp⟩ : ∃ p, c.pos = p + 2 := Nat.exists_eq_add_of_le' c.pos_ge
  have hlen := c.request.length_bytes
  have hbad : c.bad = bootCodeHead :: (UInt8.ofNat c.request.payload.length + 2) ::
      (c.request.bytes.drop 2).set p c.byte := by
    rw [RequestCorruption.bad, hp, Request.bytes_eq]
    rfl
  have hfields : ((c.request.bytes.drop 2).set p c.byte).length = c.request.payload.length + 2 := by
    rw [List.length_set, List.length_drop, hlen]
    omega
  obtain ⟨cmd, payload, chk, hbody, hn⟩ := exists_fields hfields
  rw [hbody] at hbad
  refine ⟨cmd, payload, chk, hbad, hn, fun hsum => ?_⟩
  -- with the right checksum the sum is zero, as it was before the byte changed
  refine byteSum_set_ne c.pos_lt c.byte_ne ?_
  have hzero : byteSum c.request.bytes = 0 := byteSum_withChecksum _
  have hbadsum : c.bad = withChecksum
      ([bootCodeHead, UInt8.ofNat c.request.payload.length + 2, cmd] ++ payload) := by
    rw [withChecksum, hsum, hbad]
    rfl
  rw [hzero, ← RequestCorruption.bad, hbadsum, byteSum_withChecksum]

/-- A corrupted request is a checksum error at its last byte, and takes no number. -/
theorem run_bad (c : RequestCorruption) {n : ℕ} {ctx : ProtoCtx} (h : Ready (UInt32.ofNat n) ctx) :
    Run protoParseByte ctx c.bad (c.request.say .chkErr) (Ready (UInt32.ofNat n)) := by
  obtain ⟨cmd, payload, chk, hbad, hn, hsum⟩ := bad_eq c
  have hlen : (UInt8.ofNat c.request.payload.length + 2).toNat = payload.length + 2 := by
    rw [hn]
    exact c.request.lenField_toNat
  have hrun := run_frame h hlen (hn ▸ c.request.payload_le) cmd chk
  rw [checkResult, checkSeq, if_neg hsum, if_neg hsum, hn] at hrun
  rw [hbad]
  exact hrun

/-- From a zeroed context the parser gives each request but the corrupted one at its last byte,
with consecutive numbers, a checksum error at the last byte of the corrupted one, and
nothing at any other byte. -/
theorem outputs_corrupted (c : RequestCorruption) : outputs protoParseByte .zeroed c.stream =
    sayAll 0 c.before ++ c.request.say .chkErr ++ sayAll c.before.length c.after := by
  have hrun := (run_requests c.before (n := 0) ready_zeroed).append fun _ h => run_bad c h
  have hall := hrun.append fun _ h => run_requests c.after h
  rw [Nat.zero_add] at hall
  exact hall.outputs_eq

-- Of three requests for the version the second has the command 0x03.
example : (outputs protoParseByte .zeroed (RequestCorruption.stream
    ⟨[⟨2, [], by decide⟩], ⟨2, [], by decide⟩, [⟨2, [], by decide⟩], 2, 3, by decide, by decide,
      by decide⟩)).filter (· ≠ .incomplete) = [.ok 2 [] 0, .chkErr, .ok 2 [] 1] := by
  decide +kernel

end Xlab
