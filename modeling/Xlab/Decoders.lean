import Xlab.ByteParser

/-!
# Two decoders of one wire format

`xlab_proto_parse_byte` and the scan loop of `xlab_conn_read` check the length byte
separately : the first accepts payloads of up to `XLAB_PROTO_PAYLOAD_MAX` bytes, the second
compares the whole length byte, which counts the command and the checksum too. So the byte
parser reads back every stream of requests (`parse_requests`), and the scan loop exactly
those whose payloads have at most 249 bytes (`decoders_agree_iff`).
-/

open Scanner Streams

namespace Xlab

variable {W : Type}

/-- The command and the payload of a request. -/
def Request.fields (r : Request) : UInt8 × List UInt8 :=
  (r.cmd, r.payload)

/-- The command and the payload of a frame. -/
def Frame.fields (f : Frame) : UInt8 × List UInt8 :=
  (f.cmd, f.payload)

/-- The command and the payload of a result, if it has them. -/
def ParseResult.fields : ParseResult → Option (UInt8 × List UInt8)
  | .ok cmd payload _ => some (cmd, payload)
  | _ => none

/-- The results of the byte parser for some bytes, from a zeroed context. -/
def parseResults (bytes : List UInt8) : List ParseResult :=
  (outputs protoParseByte .zeroed bytes).filter (· ≠ .incomplete)

/-! ## The byte parser -/

/-- The results for the bytes of a request, and `last` for its last byte. -/
def Request.say (r : Request) (last : ParseResult) : List ParseResult :=
  List.replicate (r.payload.length + 3) .incomplete ++ [last]

/-- The results for requests, the first of them with the number `n`. -/
def sayAll (n : ℕ) (reqs : List Request) : List ParseResult :=
  (reqs.zipIdx n).flatMap fun p => p.1.say (.ok p.1.cmd p.1.payload (UInt32.ofNat p.2))

/-- A request is read from a ready state, with its fields and the next number. -/
theorem run_request (r : Request) {n : ℕ} {ctx : ProtoCtx} (h : Ready (UInt32.ofNat n) ctx) :
    Run protoParseByte ctx r.bytes (r.say (.ok r.cmd r.payload (UInt32.ofNat n)))
      (Ready (UInt32.ofNat (n + 1))) := by
  have hrun := run_frame h r.lenField_toNat r.payload_le r.cmd
    (-byteSum ([bootCodeHead, UInt8.ofNat r.payload.length + 2, r.cmd] ++ r.payload))
  simp only [checkResult, checkSeq, if_true] at hrun
  rw [UInt32.ofNat_add]
  exact hrun

/-- Requests are read from a ready state. -/
theorem run_requests (reqs : List Request) {n : ℕ} {ctx : ProtoCtx}
    (h : Ready (UInt32.ofNat n) ctx) : Run protoParseByte ctx (requestStream reqs) (sayAll n reqs)
      (Ready (UInt32.ofNat (n + reqs.length))) :=
  run_flatMap (fun n => Ready (UInt32.ofNat n)) (fun r _ _ _ h => run_request r h) h

/-- Every stream of requests is read back, in order and with consecutive numbers. -/
theorem parse_requests (reqs : List Request) : parseResults (requestStream reqs) =
    reqs.zipIdx.map fun p => .ok p.1.cmd p.1.payload (UInt32.ofNat p.2) := by
  have hrun := run_requests reqs (n := 0) ready_zeroed
  rw [parseResults, hrun.outputs_eq, sayAll, List.filter_flatMap, List.map_eq_flatMap]
  simp [Request.say, List.filter_append]

theorem parser_reads (reqs : List Request) :
    (parseResults (requestStream reqs)).map ParseResult.fields =
      reqs.map fun r => some r.fields := by
  have hfst : reqs.zipIdx.map Prod.fst = reqs := List.zipIdx_map_fst 0 reqs
  conv_rhs => rw [← hfst, List.map_map]
  rw [parse_requests, List.map_map]
  rfl

/-! ## The scan loop -/

/-- A read of a whole buffer into an empty body dispatches the frames of the buffer. -/
theorem recognised_read (cfg : ServerConfig) (w : ℕ) (t : RouterTable W) {l : Link W}
    (hbody : l.cs.body = []) {buf : List UInt8} (hfit : buf.length ≤ requestChunk) :
    (connReadTcp cfg w t (.data buf) l).link.cs.recognised =
      l.cs.recognised ++ framesOf (itemsOf buf) := by
  have hchunk : buf.take (requestChunk - l.cs.body.length) = buf :=
    List.take_of_length_le (by rw [hbody]; exact hfit)
  have hparse : (connParse w t buf l).cs.recognised =
      l.cs.recognised ++ framesOf (itemsOf buf) := by
    rw [connParse_eq, hbody, List.nil_append]
    exact reactAll_recognised ..
  simp only [connReadTcp, connReadMax, hchunk]
  split_ifs with hnil
  · subst hnil
    exact (List.append_nil _).symm
  · exact hparse
  · exact hparse

/-- A stream of frames is dispatched as it was written. -/
theorem framesOf_requestStream (fs : List Frame) :
    framesOf (itemsOf (requestStream (fs.map Frame.request))) = fs := by
  have hscan := scan_frames fs 0 []
  rw [List.append_nil] at hscan
  rw [itemsOf, hscan, scan_nil, List.append_nil, map_tok_layout, framesOf, List.filterMap_map]
  exact List.filterMap_some

/-- Both decoders give back the requests : the byte parser, fed with the stream from a zeroed
context, and a read of the whole stream into the empty body of a connection. -/
structure BothRead (cfg : ServerConfig) (w : ℕ) (t : RouterTable W) (l : Link W)
    (reqs : List Request) : Prop where
  parser : (parseResults (requestStream reqs)).map ParseResult.fields =
    reqs.map fun r => some r.fields
  scanner : ∃ fs, (connReadTcp cfg w t (.data (requestStream reqs)) l).link.cs.recognised =
    l.cs.recognised ++ fs ∧ fs.map Frame.fields = reqs.map Request.fields

/-- The scan loop has no frame with a longer payload. -/
theorem payload_le_of_fields {fs : List Frame} {reqs : List Request}
    (h : fs.map Frame.fields = reqs.map Request.fields) :
    ∀ r ∈ reqs, r.payload.length ≤ 249 := by
  intro r hr
  have hmem : r.fields ∈ fs.map Frame.fields := h ▸ List.mem_map_of_mem hr
  obtain ⟨f, -, hf⟩ := List.mem_map.1 hmem
  have hp : f.payload = r.payload := congrArg Prod.snd hf
  exact hp ▸ f.payload_le

/-- Short requests are frames of the scan loop. -/
theorem exists_frames {reqs : List Request} (h : ∀ r ∈ reqs, r.payload.length ≤ 249) :
    ∃ fs : List Frame, fs.map Frame.request = reqs := by
  refine ⟨reqs.attach.map fun r => ⟨r.1.cmd, r.1.payload, h r.1 r.2⟩, ?_⟩
  rw [List.map_map]
  exact List.attach_map_subtype_val reqs

/-- The two decoders give back a stream of requests that fits the body buffer exactly when
every payload has at most 249 bytes. -/
theorem decoders_agree_iff (cfg : ServerConfig) (w : ℕ) (t : RouterTable W) {l : Link W}
    (hbody : l.cs.body = []) {reqs : List Request}
    (hfit : (requestStream reqs).length ≤ requestChunk) :
    BothRead cfg w t l reqs ↔ ∀ r ∈ reqs, r.payload.length ≤ 249 := by
  constructor
  · rintro ⟨-, fs, -, hfs⟩
    exact payload_le_of_fields hfs
  · intro h
    obtain ⟨fs, rfl⟩ := exists_frames h
    refine ⟨parser_reads _, fs, ?_, ?_⟩
    · rw [recognised_read cfg w t hbody hfit, framesOf_requestStream]
    · rw [List.map_map]
      rfl

/-- Requests with an empty payload and with payload bytes that look like a frame. -/
theorem decoders_agree_getVer : BothRead ⟨32768, by decide⟩ 0 cmdTable idleLink
    [⟨cmdGetVer, [], by decide⟩, ⟨cmdGetVer, [0x40, 0x02, 0x02, 0xBC], by decide⟩] :=
  (decoders_agree_iff ⟨32768, by decide⟩ 0 cmdTable rfl (by decide)).2 (by decide)

/-- A request with 250 payload bytes, one less than the maximum, is read by the byte parser
and not by the scan loop. -/
theorem request_lost_by_scanner :
    ¬∀ reqs : List Request, (requestStream reqs).length ≤ requestChunk →
      BothRead ⟨32768, by decide⟩ 0 cmdTable idleLink reqs := by
  intro h
  have hlong : (List.replicate 250 (0 : UInt8)).length = 250 := List.length_replicate
  have hmax : protoPayloadMax.toNat = 251 := rfl
  have hfit : (requestStream [⟨cmdGetVer, List.replicate 250 0, by omega⟩]).length ≤
      requestChunk := by
    have hchunk : requestChunk = 4096 := rfl
    simp only [requestStream, List.flatMap_cons, List.flatMap_nil, List.append_nil,
      Request.length_bytes, hlong]
    omega
  obtain ⟨-, fs, -, hfs⟩ := h _ hfit
  have hle := payload_le_of_fields hfs _ (List.mem_singleton_self _)
  simp only [hlong] at hle
  omega

end Xlab
