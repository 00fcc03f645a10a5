import Xlab.Decoders

/-!
# The frame grammar

The reference segmentation of a stream of bytes. A byte that is not the head byte is passed
over. After a head byte a length byte below 2 or above 253 is rejected, and any other one is
followed by as many bytes as it says. `nextToken` takes the next of these tokens off the
front of a stream, so `Streams.unpack nextToken` is the segmentation, with the unfinished
frame at the end left over. `Token.results` is the result for each byte of a token.

`xlab_proto_parse_byte` does not set its position back when it rejects a length byte, so
its position between two frames is the number of length bytes rejected since the last one
(`AtRest`). As long as that number stays below 255, the results of the parser are those of
the segmentation (`outputs_eq_results`).
-/

open Streams

namespace Xlab

/-! ## The reference segmentation -/

/-- A piece of the stream. -/
inductive Token where
  /-- A byte between two frames. -/
  | skip (byte : UInt8)
  /-- A head byte and a length byte that is rejected. -/
  | reject (len : UInt8)
  /-- A head byte, a length byte, and as many bytes as it says. -/
  | frame (len : UInt8) (body : List UInt8)
  deriving DecidableEq, Repr

/-- The length byte is rejected. -/
abbrev outOfRange (len : UInt8) : Prop :=
  len < 2 ∨ 253 < len

/-- The next token and what follows it. `none` at the end and inside a frame the stream
breaks off. -/
def nextToken : List UInt8 → Option (Token × List UInt8)
  | [] => none
  | b :: xs =>
    if b ≠ bootCodeHead then some (.skip b, xs)
    else
      match xs with
      | [] => none
      | len :: ys =>
        if outOfRange len then some (.reject len, ys)
        else if len.toNat ≤ ys.length then
          some (.frame len (ys.take len.toNat), ys.drop len.toNat)
        else none

/-- The tokens of a stream, and the unfinished frame at its end. -/
def tokens (bytes : List UInt8) : List Token × List UInt8 :=
  unpack nextToken bytes

/-- The checksum of a frame is right : its last byte makes it sum to zero. -/
def checksumRight (len : UInt8) (body : List UInt8) : Prop :=
  body.getLast? = some (-byteSum ([bootCodeHead, len] ++ body.dropLast))

instance (len : UInt8) (body : List UInt8) : Decidable (checksumRight len body) :=
  inferInstanceAs (Decidable (_ = _))

/-- The results for the bytes of a token, the next frame to get the number `seq`. -/
def Token.results (seq : UInt32) : Token → List ParseResult
  | .skip _ => [.incomplete]
  | .reject _ => [.incomplete, .error]
  | .frame len body => List.replicate (len.toNat + 1) .incomplete ++
      [if checksumRight len body then
        .ok (byteAt body 0) ((body.drop 1).take (len.toNat - 2)) seq
      else .chkErr]

/-- The number of the next frame after a token. -/
def Token.nextSeq (seq : UInt32) : Token → UInt32
  | .frame len body => if checksumRight len body then seq + 1 else seq
  | _ => seq

/-- The results for some tokens. -/
def results : UInt32 → List Token → List ParseResult
  | _, [] => []
  | seq, tok :: toks => tok.results seq ++ results (tok.nextSeq seq) toks

/-- The length bytes rejected since the last frame, after a token. -/
def Token.rejected (n : ℕ) : Token → ℕ
  | .skip _ => n
  | .reject _ => n + 1
  | .frame _ _ => 0

/-- The length bytes rejected since the last frame. -/
def rejected (n : ℕ) (toks : List Token) : ℕ :=
  toks.foldl Token.rejected n

/-! ## Tokens and their bytes -/

/-- The bytes of a token. -/
def Token.bytes : Token → List UInt8
  | .skip b => [b]
  | .reject len => [bootCodeHead, len]
  | .frame len body => bootCodeHead :: len :: body

/-- What `nextToken` says of a token. -/
def Token.Sound : Token → Prop
  | .skip b => b ≠ bootCodeHead
  | .reject len => outOfRange len
  | .frame len body => ¬outOfRange len ∧ body.length = len.toNat

theorem nextToken_some {xs : List UInt8} {tok : Token} {rest : List UInt8}
    (h : nextToken xs = some (tok, rest)) : tok.Sound ∧ xs = tok.bytes ++ rest := by
  match xs with
  | [] => cases h
  | [b] =>
    simp only [nextToken] at h
    split_ifs at h with hb
    obtain ⟨rfl, rfl⟩ := Prod.mk.inj (Option.some.inj h)
    exact ⟨hb, rfl⟩
  | b :: len :: ys =>
    simp only [nextToken] at h
    split_ifs at h with hb hlen hle
    · obtain ⟨rfl, rfl⟩ := Prod.mk.inj (Option.some.inj h)
      exact ⟨hb, rfl⟩
    · obtain ⟨rfl, rfl⟩ := Prod.mk.inj (Option.some.inj h)
      exact ⟨hlen, by rw [not_not.1 hb]; rfl⟩
    · obtain ⟨rfl, rfl⟩ := Prod.mk.inj (Option.some.inj h)
      refine ⟨⟨hlen, List.length_take_of_le hle⟩, ?_⟩
      rw [not_not.1 hb, Token.bytes, List.cons_append, List.cons_append, List.take_append_drop]

/-- What is left over : nothing, or the beginning of a frame. -/
theorem nextToken_none {xs : List UInt8} (h : nextToken xs = none) : xs = [] ∨
    ∃ tail len body, xs ++ tail = Token.bytes (.frame len body) ∧
      Token.Sound (.frame len body) ∧ tail ≠ [] := by
  match xs with
  | [] => exact Or.inl rfl
  | [b] =>
    simp only [nextToken] at h
    split_ifs at h with hb
    refine Or.inr ⟨[2, 0, 0], 2, [0, 0], by rw [not_not.1 hb]; rfl, by simp [Token.Sound], ?_⟩
    exact List.cons_ne_nil _ _
  | b :: len :: ys =>
    simp only [nextToken] at h
    split_ifs at h with hb hlen hle
    refine Or.inr ⟨List.replicate (len.toNat - ys.length) 0, len,
      ys ++ List.replicate (len.toNat - ys.length) 0, ?_, ⟨hlen, ?_⟩, ?_⟩
    · rw [not_not.1 hb]
      rfl
    · rw [List.length_append, List.length_replicate]
      omega
    · intro hnil
      rw [List.replicate_eq_nil_iff] at hnil
      omega

theorem Token.bytes_ne_nil (tok : Token) : tok.bytes ≠ [] := by
  cases tok <;> exact List.cons_ne_nil _ _

theorem nextToken_consumes : Consumes nextToken := by
  intro xs tok rest h
  have hpos := List.length_pos_iff.2 tok.bytes_ne_nil
  rw [(nextToken_some h).2, List.length_append]
  omega

/-! ## States between two frames -/

/-- Between two frames, after `k` rejected length bytes : the position is `k`, behind a head
byte at the front of the buffer. The next frame gets the number `seq`. -/
structure AtRest (k : ℕ) (seq : UInt32) (ctx : ProtoCtx) : Prop where
  state : ctx.state = .waitHead
  size : ctx.frameBuf.length = protoFrameMax
  pos : ctx.bufPos.toNat = k
  head : 0 < k → byteAt ctx.frameBuf 0 = bootCodeHead
  seq : ctx.nextReqSeq = seq

theorem atRest_zeroed : AtRest 0 0 ProtoCtx.zeroed :=
  ⟨rfl, List.length_replicate, rfl, fun h => absurd h (Nat.lt_irrefl 0), rfl⟩

theorem AtRest.ready {k : ℕ} {seq : UInt32} {ctx : ProtoCtx} (h : AtRest k seq ctx)
    (hk : k < protoFrameMax) : Ready seq ctx := by
  refine ⟨h.state, h.size, ?_, h.seq⟩
  rcases Nat.eq_zero_or_pos k with h0 | h0
  · exact Or.inl (by rw [← UInt8.toNat_inj, h.pos, h0]; rfl)
  · exact Or.inr ⟨by rw [h.pos]; exact hk, h.head h0⟩

theorem Ready.atRest {seq : UInt32} {ctx : ProtoCtx} (h : Ready seq ctx) (h0 : ctx.bufPos = 0) :
    AtRest 0 seq ctx :=
  ⟨h.state, h.size, by rw [h0]; rfl, fun h => absurd h (Nat.lt_irrefl 0), h.seq⟩

/-- A result at the end of a frame sets the position back. -/
theorem bufPos_of_checked {ctx : ProtoCtx} {b : UInt8}
    (h : (protoParseByte ctx b).2 ≠ .incomplete) (h' : (protoParseByte ctx b).2 ≠ .error) :
    (protoParseByte ctx b).1.bufPos = 0 := by
  rw [protoParseByte] at h h' ⊢
  cases hst : ctx.state <;> rw [hst] at h h' <;> simp only [] at h h' ⊢
  case waitHead =>
    split_ifs at h <;> exact absurd rfl h
  case waitLen =>
    split_ifs at h h' <;> first | exact absurd rfl h | exact absurd rfl h'
  case waitCmd =>
    exact absurd rfl h
  case waitPayload =>
    split_ifs at h <;> exact absurd rfl h
  case waitCheck =>
    split_ifs <;> rfl

/-- A byte that is not the head byte is passed over, in any state between two frames. -/
theorem run_skip {k : ℕ} {seq : UInt32} {ctx : ProtoCtx} (h : AtRest k seq ctx) {b : UInt8}
    (hb : b ≠ bootCodeHead) : Run protoParseByte ctx [b] [.incomplete] (AtRest k seq) := by
  have hstep : protoParseByte ctx b = (ctx, .incomplete) := by
    rw [protoParseByte, h.state]
    exact if_neg hb
  exact ⟨by rw [outputs_cons, hstep, outputs_nil], by rw [final_cons, hstep]; exact h⟩

/-- A rejected length byte leaves the position behind the head byte. -/
theorem run_reject {k : ℕ} {seq : UInt32} {ctx : ProtoCtx} (h : AtRest k seq ctx)
    (hk : k < protoFrameMax) {len : UInt8} (hlen : outOfRange len) :
    Run protoParseByte ctx [bootCodeHead, len] [.incomplete, .error] (AtRest (k + 1) seq) := by
  have hmax : protoFrameMax = 255 := rfl
  have hsize := h.size
  have hhead := (h.ready hk).push_head
  have h1 := parse_head h.state
  obtain ⟨n, h2⟩ : ∃ n, protoParseByte { ctx.push bootCodeHead with state := .waitLen } len =
      ({ (ctx.push bootCodeHead).put 1 len with state := .waitHead, payloadLen := n }, .error) := by
    simp only [protoParseByte]
    split_ifs with hlt hgt
    · exact ⟨_, rfl⟩
    · exact ⟨_, rfl⟩
    · refine absurd hlen (not_or.2 ⟨hlt, fun h253 => hgt ?_⟩)
      have hbyte := len.toNat_lt
      rw [UInt8.lt_iff_toNat_lt] at h253 hlt ⊢
      simp only [protoPayloadMax, UInt8.toNat_sub, UInt8.reduceToNat] at h253 hlt ⊢
      omega
  refine ⟨by rw [outputs_cons, h1, outputs_cons, h2, outputs_nil], ?_⟩
  rw [final_cons, h1, final_cons, h2, final_nil]
  refine ⟨rfl, by simpa [ProtoCtx.push, ProtoCtx.put] using hsize, ?_, fun _ => ?_, h.seq⟩
  · have hpos := h.pos
    simp only [ProtoCtx.push, ProtoCtx.put, UInt8.toNat_add, UInt8.reduceToNat]
    omega
  · refine Eq.trans ?_ hhead
    simp only [ProtoCtx.put, byteAt, List.getD_eq_getElem?_getD]
    rw [List.getElem?_set_ne (by decide)]

/-- The command, the payload and the checksum of a frame. -/
theorem exists_fields {body : List UInt8} {n : ℕ} (h : body.length = n + 2) :
    ∃ cmd payload chk, body = cmd :: (payload ++ [chk]) ∧ payload.length = n := by
  match body with
  | cmd :: rest =>
    have hrest : rest ≠ [] := List.ne_nil_of_length_pos (by rw [List.length_cons] at h; omega)
    refine ⟨cmd, rest.dropLast, rest.getLast hrest, ?_, ?_⟩
    · rw [List.dropLast_append_getLast]
    · rw [List.length_dropLast]
      rw [List.length_cons] at h
      omega

theorem results_frame {len : UInt8} {payload : List UInt8}
    (hlen : len.toNat = payload.length + 2) (seq : UInt32) (cmd chk : UInt8) :
    Token.results seq (.frame len (cmd :: (payload ++ [chk]))) =
      List.replicate (payload.length + 3) .incomplete ++
        [checkResult ([bootCodeHead, len, cmd] ++ payload) seq chk] ∧
    Token.nextSeq seq (.frame len (cmd :: (payload ++ [chk]))) =
      checkSeq ([bootCodeHead, len, cmd] ++ payload) seq chk := by
  have hright : checksumRight len (cmd :: (payload ++ [chk])) ↔
      -byteSum ([bootCodeHead, len, cmd] ++ payload) = chk := by
    rw [checksumRight, ← List.cons_append, List.getLast?_concat, List.dropLast_concat,
      Option.some_inj, eq_comm]
    rfl
  have hpayload : ((cmd :: (payload ++ [chk])).drop 1).take (len.toNat - 2) = payload := by
    rw [hlen, Nat.add_sub_cancel, List.drop_succ_cons, List.drop_zero, List.take_left]
  constructor
  · rw [Token.results, checkResult, hpayload, hlen, if_congr hright rfl rfl]
    rfl
  · rw [Token.nextSeq, checkSeq, if_congr hright rfl rfl]

/-- A frame gets the results of the grammar, and sets the position back. -/
theorem run_frame_token {k : ℕ} {seq : UInt32} {ctx : ProtoCtx} (h : AtRest k seq ctx)
    (hk : k < protoFrameMax) {len : UInt8} {body : List UInt8}
    (hs : Token.Sound (.frame len body)) :
    Run protoParseByte ctx (Token.bytes (.frame len body)) (Token.results seq (.frame len body))
      (AtRest 0 (Token.nextSeq seq (.frame len body))) := by
  obtain ⟨hrange, hbody⟩ := hs
  obtain ⟨h2, h253⟩ := not_or.1 hrange
  simp only [UInt8.lt_iff_toNat_lt, UInt8.reduceToNat] at h2 h253
  obtain ⟨cmd, payload, chk, rfl, hn⟩ := exists_fields (n := len.toNat - 2) (by
    rw [hbody]
    omega)
  have hlen : len.toNat = payload.length + 2 := by omega
  have hrun := run_frame (h.ready hk) hlen (by omega) cmd chk
  obtain ⟨hres, hseq⟩ := results_frame hlen seq cmd chk
  have hbytes : Token.bytes (.frame len (cmd :: (payload ++ [chk]))) =
      [bootCodeHead, len, cmd] ++ payload ++ [chk] := rfl
  rw [hbytes, hres, hseq]
  refine ⟨hrun.outputs_eq, hrun.post.atRest ?_⟩
  -- the last result is that of the checksum, which sets the position back
  have hlast := hrun.outputs_eq
  rw [outputs_append, outputs_cons, outputs_nil] at hlast
  have hchk := List.append_inj_right' hlast rfl
  rw [List.cons.injEq] at hchk
  rw [final_append, final_cons, final_nil]
  refine bufPos_of_checked ?_ ?_ <;> rw [hchk.1, checkResult] <;> split_ifs <;>
    exact ParseResult.noConfusion

/-! ## The parser follows the grammar -/

/-- Reading a token needs a position below the size of the buffer, unless the token is a byte
that is passed over. -/
theorem run_token {k : ℕ} {seq : UInt32} {ctx : ProtoCtx} (h : AtRest k seq ctx) {tok : Token}
    (hs : tok.Sound) (hk : k < protoFrameMax ∨ ∃ b, tok = .skip b) :
    Run protoParseByte ctx tok.bytes (tok.results seq)
      (AtRest (tok.rejected k) (tok.nextSeq seq)) := by
  cases tok with
  | skip b => exact run_skip h hs
  | reject len =>
    rcases hk with hk | ⟨b, hb⟩
    · exact run_reject h hk hs
    · cases hb
  | frame len body =>
    rcases hk with hk | ⟨b, hb⟩
    · exact run_frame_token h hk hs
    · cases hb

/-- An unfinished frame has no result yet. -/
theorem outputs_unfinished {k : ℕ} {seq : UInt32} {ctx : ProtoCtx} (h : AtRest k seq ctx)
    (hk : k < protoFrameMax) {xs : List UInt8} (hx : nextToken xs = none) :
    outputs protoParseByte ctx xs = List.replicate xs.length .incomplete := by
  rcases nextToken_none hx with rfl | ⟨tail, len, body, hbytes, hs, htail⟩
  · rfl
  · have hrun := (run_frame_token h hk hs).outputs_eq
    have hlen : xs.length + tail.length = len.toNat + 2 := by
      rw [← List.length_append, hbytes, Token.bytes, List.length_cons, List.length_cons, hs.2]
    have hpos := List.length_pos_iff.2 htail
    rw [← hbytes, outputs_append, Token.results] at hrun
    have htake := congrArg (List.take xs.length) hrun
    rw [List.take_left' (length_outputs ..), List.take_append_of_le_length
      (by rw [List.length_replicate]; omega), List.take_replicate,
      Nat.min_eq_left (by omega)] at htake
    exact htake

theorem outputs_eq_of_atRest (bytes : List UInt8) {k : ℕ} {seq : UInt32} {ctx : ProtoCtx}
    (h : AtRest k seq ctx)
    (hfew : ∀ pre ∈ (tokens bytes).1.inits, rejected k pre < protoFrameMax) :
    outputs protoParseByte ctx bytes = results seq (tokens bytes).1 ++
      List.replicate (tokens bytes).2.length .incomplete := by
  revert k seq ctx
  induction bytes using unpack_induction nextToken_consumes with
  | stop xs hx =>
    intro k seq ctx h hfew
    have htokens : tokens xs = ([], xs) := unpack_of_none hx
    rw [htokens] at hfew ⊢
    exact outputs_unfinished h (hfew [] (List.mem_singleton_self _)) hx
  | more xs tok rest hx ih =>
    intro k seq ctx h hfew
    obtain ⟨hs, rfl⟩ := nextToken_some hx
    have htokens : tokens (tok.bytes ++ rest) = (tok :: (tokens rest).1, (tokens rest).2) :=
      unpack_of_some nextToken_consumes hx
    rw [htokens] at hfew ⊢
    have hk : k < protoFrameMax := hfew [] (List.mem_inits _ _ |>.2 List.nil_prefix)
    have hrun := run_token h hs (Or.inl hk)
    rw [outputs_append, hrun.outputs_eq, results, List.append_assoc,
      ih hrun.post fun pre hpre => ?_]
    exact hfew (tok :: pre) ((List.mem_inits _ _).2 (List.cons_prefix_cons.2
      ⟨rfl, (List.mem_inits _ _).1 hpre⟩))

/-- The results of the reference segmentation for each byte of a stream. An unfinished frame
at its end has none. -/
def grammarResults (bytes : List UInt8) : List ParseResult :=
  results 0 (tokens bytes).1 ++ List.replicate (tokens bytes).2.length .incomplete

/-- Fewer than 255 length bytes are ever rejected since the start or the last frame. -/
def FewRejected (bytes : List UInt8) : Prop :=
  ∀ pre ∈ (tokens bytes).1.inits, rejected 0 pre < 255

instance (bytes : List UInt8) : Decidable (FewRejected bytes) :=
  inferInstanceAs (Decidable (∀ _ ∈ _, _))

/-- From a zeroed context the parser gives for each byte the result of the grammar. -/
theorem outputs_eq_grammarResults {bytes : List UInt8} (h : FewRejected bytes) :
    outputs protoParseByte .zeroed bytes = grammarResults bytes :=
  outputs_eq_of_atRest bytes atRest_zeroed h

/-- A rejected length byte, a request for the version, the same with a wrong checksum, and a
frame that breaks off. -/
theorem outputs_eq_grammarResults_mixed :
    outputs protoParseByte .zeroed [0x40, 0x00, 0x40, 0x02, 0x02, 0xBC, 0x40, 0x02, 0x02, 0xBD,
        0x40, 0x06] =
      grammarResults [0x40, 0x00, 0x40, 0x02, 0x02, 0xBC, 0x40, 0x02, 0x02, 0xBD, 0x40, 0x06] :=
  outputs_eq_grammarResults (by decide +kernel)

end Xlab
