import Xlab.Grammar

/-!
# Where the byte parser indexes its buffer

`frameIndices` are the indices at which `xlab_proto_parse_byte` writes or reads `frame_buf`,
in order. Inside a frame they are below 255 (`Inside`), and so is the index of a head byte
after fewer than 255 rejected length bytes. A rejected length byte leaves `buf_pos` behind
the head byte before it, unlike the two other ends of a frame, which set it back. So a head
byte after 255 rejected length bytes is written to `frame_buf[255]`, and nothing else
leaves the buffer (`frameIndices_lt_iff`).
-/

open Streams

namespace Xlab

/-- The indices of `frame_buf` that the call uses : the byte is written at one, and at the end
of a frame `xlab_proto_calc_checksum` reads all but the last, and the command and the payload
are read if the checksum is right. -/
def frameAccesses (ctx : ProtoCtx) (byte : UInt8) : List ℕ :=
  match ctx.state with
  | .waitHead => if byte = bootCodeHead then [ctx.bufPos.toNat] else []
  | .waitLen => [1]
  | .waitCmd => [2]
  | .waitPayload => [ctx.bufPos.toNat]
  | .waitCheck =>
    let buf := (ctx.push byte).frameBuf
    ctx.bufPos.toNat :: List.range (ctx.expectedTotal.toNat - 1) ++
      if protoCalcChecksum buf ctx.expectedTotal = byte then
        2 :: List.range' 3 ctx.payloadLen.toNat
      else []

/-- The parser as a machine whose outputs are the indices it uses. -/
def indexed (ctx : ProtoCtx) (byte : UInt8) : ProtoCtx × List ℕ :=
  ((protoParseByte ctx byte).1, frameAccesses ctx byte)

/-- The indices used for some bytes. -/
def indicesFrom (ctx : ProtoCtx) (bytes : List UInt8) : List ℕ :=
  (outputs indexed ctx bytes).flatten

/-- The indices used for some bytes, from a zeroed context. -/
def frameIndices (bytes : List UInt8) : List ℕ :=
  indicesFrom .zeroed bytes

/-- A token that begins with a head byte. -/
def Token.headed : Token → Bool
  | .skip _ => false
  | _ => true

/-- A head byte begins a token or an unfinished frame after 255 rejected length bytes, the
`k` ones before the stream counted. -/
def LateHead (k : ℕ) (bytes : List UInt8) : Prop :=
  (∃ pre tok post, (tokens bytes).1 = pre ++ tok :: post ∧ tok.headed = true ∧
      255 ≤ rejected k pre) ∨
    (tokens bytes).2 ≠ [] ∧ 255 ≤ rejected k (tokens bytes).1

/-! ## Inside a frame -/

@[simp] theorem final_indexed (ctx : ProtoCtx) (bytes : List UInt8) :
    final indexed ctx bytes = final protoParseByte ctx bytes :=
  rfl

@[simp] theorem indicesFrom_nil (ctx : ProtoCtx) : indicesFrom ctx [] = [] :=
  rfl

theorem indicesFrom_cons (ctx : ProtoCtx) (b : UInt8) (bytes : List UInt8) :
    indicesFrom ctx (b :: bytes) =
      frameAccesses ctx b ++ indicesFrom (protoParseByte ctx b).1 bytes :=
  List.flatten_cons

theorem indicesFrom_append (ctx : ProtoCtx) (xs ys : List UInt8) :
    indicesFrom ctx (xs ++ ys) =
      indicesFrom ctx xs ++ indicesFrom (final protoParseByte ctx xs) ys := by
  rw [indicesFrom, outputs_append, List.flatten_append, final_indexed]
  rfl

/-- Inside a frame, past its length byte : the lengths and the position fit the buffer. -/
structure Inside (ctx : ProtoCtx) : Prop where
  payloadLen : ctx.payloadLen.toNat ≤ 251
  total : ctx.expectedTotal.toNat = ctx.payloadLen.toNat + 4
  stage : ctx.state = .waitCmd ∨
    ctx.state = .waitPayload ∧ ctx.bufPos.toNat < 3 + ctx.payloadLen.toNat ∨
    ctx.state = .waitCheck ∧ ctx.bufPos.toNat = 3 + ctx.payloadLen.toNat

namespace Inside

variable {ctx : ProtoCtx}

/-- All indices are in the buffer. -/
theorem accesses_lt (h : Inside ctx) (b : UInt8) :
    ∀ i ∈ frameAccesses ctx b, i < protoFrameMax := by
  have hmax : protoFrameMax = 255 := rfl
  have hpl := h.payloadLen
  have htotal := h.total
  intro i hi
  rcases h.stage with hst | ⟨hst, hpos⟩ | ⟨hst, hpos⟩ <;> rw [frameAccesses, hst] at hi
  · obtain rfl := List.mem_singleton.1 hi
    decide
  · obtain rfl := List.mem_singleton.1 hi
    omega
  · rcases List.mem_append.1 hi with hi | hi
    · rcases List.mem_cons.1 hi with rfl | hi
      · omega
      · have := List.mem_range.1 hi
        omega
    · split_ifs at hi
      · rcases List.mem_cons.1 hi with rfl | hi
        · decide
        · have := List.mem_range'_1.1 hi
          omega
      · cases hi

/-- A byte without a result stays inside the frame. -/
theorem step (h : Inside ctx) {b : UInt8} (hb : (protoParseByte ctx b).2 = .incomplete) :
    Inside (protoParseByte ctx b).1 := by
  have hpl := h.payloadLen
  have htotal := h.total
  rcases h.stage with hst | ⟨hst, hpos⟩ | ⟨hst, hpos⟩
  · rw [protoParseByte, hst]
    refine ⟨hpl, htotal, ?_⟩
    by_cases h0 : 0 < ctx.payloadLen
    · refine Or.inr (Or.inl ⟨if_pos h0, ?_⟩)
      simp only [UInt8.lt_iff_toNat_lt, UInt8.reduceToNat] at h0
      simp only [ProtoCtx.put, UInt8.reduceToNat]
      omega
    · refine Or.inr (Or.inr ⟨if_neg h0, ?_⟩)
      simp only [UInt8.lt_iff_toNat_lt, UInt8.reduceToNat] at h0
      simp only [ProtoCtx.put, UInt8.reduceToNat]
      omega
  · have hnext : (ctx.push b).bufPos.toNat = ctx.bufPos.toNat + 1 := by
      simp only [ProtoCtx.push, ProtoCtx.put, UInt8.toNat_add, UInt8.reduceToNat]
      omega
    have hlen : (ctx.push b).payloadLen = ctx.payloadLen := rfl
    rw [protoParseByte, hst]
    simp only [hlen]
    split_ifs with hend
    · exact ⟨hpl, htotal, Or.inr (Or.inr ⟨rfl,
        show (ctx.push b).bufPos.toNat = 3 + ctx.payloadLen.toNat by omega⟩)⟩
    · exact ⟨hpl, htotal, Or.inr (Or.inl ⟨hst,
        show (ctx.push b).bufPos.toNat < 3 + ctx.payloadLen.toNat by omega⟩)⟩
  · rw [protoParseByte, hst] at hb
    simp only [] at hb
    split_ifs at hb

/-- As long as no byte but the last has a result, all indices are in the buffer. -/
theorem indices_lt (bytes : List UInt8) (h : Inside ctx)
    (hq : ∀ o ∈ (outputs protoParseByte ctx bytes).dropLast, o = .incomplete) :
    ∀ i ∈ indicesFrom ctx bytes, i < protoFrameMax := by
  induction bytes generalizing ctx with
  | nil => exact fun i hi => nomatch hi
  | cons b bytes ih =>
    intro i hi
    rw [indicesFrom_cons] at hi
    rcases List.mem_append.1 hi with hi | hi
    · exact h.accesses_lt b i hi
    · cases bytes with
      | nil => cases hi
      | cons c bytes =>
        rw [outputs_cons, outputs_cons, List.dropLast_cons_cons] at hq
        refine ih (h.step (hq _ List.mem_cons_self)) (fun o ho => ?_) i hi
        exact hq o (List.mem_cons_of_mem _ ho)

end Inside

/-! ## Tokens -/

section

variable {k : ℕ} {seq : UInt32} {ctx : ProtoCtx}

/-- A head byte between two frames is written at the position. -/
theorem indices_head (h : AtRest k seq ctx) (bytes : List UInt8) :
    k ∈ indicesFrom ctx (bootCodeHead :: bytes) := by
  have hacc : frameAccesses ctx bootCodeHead = [k] := by
    rw [frameAccesses, h.state, ← h.pos]
    exact if_pos rfl
  rw [indicesFrom_cons, hacc]
  exact List.mem_cons_self

/-- A head byte is written at the position, the byte after it at 1. -/
theorem indices_header (h : AtRest k seq ctx) (len : UInt8) :
    indicesFrom ctx [bootCodeHead, len] = [k, 1] := by
  have hacc : frameAccesses ctx bootCodeHead = [k] := by
    rw [frameAccesses, h.state, ← h.pos]
    exact if_pos rfl
  rw [indicesFrom_cons, indicesFrom_cons, hacc, parse_head h.state]
  rfl

/-- After its head and its length byte a frame is inside. -/
theorem inside_header (h : AtRest k seq ctx) {len : UInt8} (hlen : ¬outOfRange len) :
    Inside (final protoParseByte ctx [bootCodeHead, len]) := by
  have h1 := parse_head h.state
  have hbyte := len.toNat_lt
  obtain ⟨h2, h253⟩ := not_or.1 hlen
  have hpl : (len - 2).toNat = len.toNat - 2 ∧ len.toNat ≤ 253 ∧ 2 ≤ len.toNat := by
    simp only [UInt8.lt_iff_toNat_lt, UInt8.reduceToNat] at h2 h253
    rw [UInt8.toNat_sub_of_le _ _ (UInt8.le_iff_toNat_le.2 (by
      simp only [UInt8.reduceToNat]
      omega))]
    exact ⟨rfl, by omega, by omega⟩
  have hbig : ¬protoPayloadMax < len - 2 := by
    rw [UInt8.lt_iff_toNat_lt, hpl.1]
    simp only [protoPayloadMax, UInt8.reduceToNat]
    omega
  rw [final_cons, h1, final_cons, final_nil]
  simp only [protoParseByte, if_neg h2, if_neg hbig]
  refine ⟨by rw [hpl.1]; omega, ?_, Or.inl rfl⟩
  simp only [hpl.1, UInt8.toNat_add, UInt8.reduceToNat]
  omega

/-- The bytes of a frame are all written and read inside the buffer. -/
theorem indices_frame_lt (h : AtRest k seq ctx) (hk : k < protoFrameMax) {len : UInt8}
    {body : List UInt8} (hs : Token.Sound (.frame len body)) :
    ∀ i ∈ indicesFrom ctx (Token.bytes (.frame len body)), i < protoFrameMax := by
  have hin := inside_header h hs.1
  have hout := (run_frame_token h hk hs).outputs_eq
  obtain ⟨h2, -⟩ := not_or.1 hs.1
  have hpos : 0 < body.length := by
    rw [hs.2]
    simp only [UInt8.lt_iff_toNat_lt, UInt8.reduceToNat] at h2
    omega
  have hsplit : Token.bytes (.frame len body) = [bootCodeHead, len] ++ body := rfl
  rw [hsplit] at hout ⊢
  -- no byte of the body but the last has a result
  have hquiet : ∀ o ∈ (outputs protoParseByte (final protoParseByte ctx [bootCodeHead, len])
      body).dropLast, o = .incomplete := by
    intro o ho
    rw [outputs_append] at hout
    have hne : outputs protoParseByte (final protoParseByte ctx [bootCodeHead, len]) body ≠ [] :=
      List.ne_nil_of_length_pos (by rw [length_outputs]; exact hpos)
    have hdrop := congrArg List.dropLast hout
    rw [List.dropLast_append_of_ne_nil hne, Token.results, List.dropLast_concat] at hdrop
    exact List.eq_of_mem_replicate (hdrop ▸ List.mem_append_right _ ho)
  intro i hi
  rw [indicesFrom_append] at hi
  rcases List.mem_append.1 hi with hi | hi
  · rw [indices_header h] at hi
    rcases List.mem_cons.1 hi with rfl | hi
    · exact hk
    · obtain rfl := List.mem_singleton.1 hi
      decide
  · exact hin.indices_lt body hquiet i hi

/-- So are those of a token after fewer than 255 rejected length bytes. -/
theorem indices_token_lt (h : AtRest k seq ctx) (hk : k < protoFrameMax) {tok : Token}
    (hs : tok.Sound) : ∀ i ∈ indicesFrom ctx tok.bytes, i < protoFrameMax := by
  cases tok with
  | skip b =>
    intro i hi
    have hb : b ≠ bootCodeHead := hs
    rw [Token.bytes, indicesFrom_cons, frameAccesses, h.state] at hi
    simp [hb] at hi
  | reject len =>
    intro i hi
    rw [Token.bytes, indices_header h] at hi
    rcases List.mem_cons.1 hi with rfl | hi
    · exact hk
    · obtain rfl := List.mem_singleton.1 hi
      decide
  | frame len body => exact indices_frame_lt h hk hs

theorem indices_unfinished_lt (h : AtRest k seq ctx) (hk : k < protoFrameMax) {xs : List UInt8}
    (hx : nextToken xs = none) : ∀ i ∈ indicesFrom ctx xs, i < protoFrameMax := by
  rcases nextToken_none hx with rfl | ⟨tail, len, body, hbytes, hs, -⟩
  · exact fun i hi => nomatch hi
  · intro i hi
    refine indices_frame_lt h hk hs i ?_
    rw [← hbytes, indicesFrom_append]
    exact List.mem_append_left _ hi

end

/-! ## The exact condition -/

theorem lateHead_of_none {k : ℕ} {xs : List UInt8} (h : nextToken xs = none) :
    LateHead k xs ↔ xs ≠ [] ∧ 255 ≤ k := by
  have htokens : tokens xs = ([], xs) := unpack_of_none h
  rw [LateHead, htokens]
  refine or_iff_right ?_
  rintro ⟨pre, tok, post, heq, -⟩
  cases pre <;> cases heq

theorem lateHead_of_some {k : ℕ} {xs : List UInt8} {tok : Token} {rest : List UInt8}
    (h : nextToken xs = some (tok, rest)) :
    LateHead k xs ↔ tok.headed = true ∧ 255 ≤ k ∨ LateHead (tok.rejected k) rest := by
  have htokens : tokens xs = (tok :: (tokens rest).1, (tokens rest).2) :=
    unpack_of_some nextToken_consumes h
  rw [LateHead, LateHead, htokens, ← or_assoc]
  refine or_congr ⟨?_, ?_⟩ Iff.rfl
  · rintro ⟨pre, tok', post, heq, hhead, hk⟩
    cases pre with
    | nil =>
      obtain ⟨rfl, -⟩ := List.cons.inj heq
      exact Or.inl ⟨hhead, hk⟩
    | cons p pre =>
      obtain ⟨rfl, htail⟩ := List.cons.inj heq
      exact Or.inr ⟨pre, tok', post, htail, hhead, hk⟩
  · rintro (⟨hhead, hk⟩ | ⟨pre, tok', post, heq, hhead, hk⟩)
    · exact ⟨[], tok, (tokens rest).1, rfl, hhead, hk⟩
    · exact ⟨tok :: pre, tok', post, congrArg (tok :: ·) heq, hhead, hk⟩

theorem head_of_headed {tok : Token} (h : tok.headed = true) :
    ∃ bytes, tok.bytes = bootCodeHead :: bytes := by
  cases tok with
  | skip b => cases h
  | reject len => exact ⟨_, rfl⟩
  | frame len body => exact ⟨_, rfl⟩

/-- A head byte at position 255 is written outside the buffer. -/
theorem AtRest.head_outside {k : ℕ} {seq : UInt32} {ctx : ProtoCtx} (h : AtRest k seq ctx)
    (hk : 255 ≤ k) (xs : List UInt8) :
    ¬∀ i ∈ indicesFrom ctx (bootCodeHead :: xs), i < protoFrameMax := by
  intro hall
  have hmax : protoFrameMax = 255 := rfl
  have := hall k (indices_head h xs)
  omega

theorem indices_lt_iff_of_unfinished {k : ℕ} {seq : UInt32} {ctx : ProtoCtx}
    (h : AtRest k seq ctx) {xs : List UInt8} (hx : nextToken xs = none) :
    (∀ i ∈ indicesFrom ctx xs, i < protoFrameMax) ↔ ¬LateHead k xs := by
  rw [lateHead_of_none hx]
  by_cases hlt : k < 255
  · exact ⟨fun _ hlate => absurd hlate.2 (Nat.not_le.2 hlt),
      fun _ => indices_unfinished_lt h hlt hx⟩
  · rcases nextToken_none hx with rfl | ⟨tail, len, body, hbytes, -⟩
    · exact ⟨fun _ hlate => hlate.1 rfl, fun _ i hi => nomatch hi⟩
    · cases xs with
      | nil => exact ⟨fun _ hlate => hlate.1 rfl, fun _ i hi => nomatch hi⟩
      | cons x xs =>
        obtain ⟨rfl, -⟩ := List.cons.inj hbytes
        exact iff_of_false (h.head_outside (Nat.not_lt.1 hlt) xs)
          (not_not.2 ⟨List.cons_ne_nil _ _, Nat.not_lt.1 hlt⟩)

/-- A token that does not begin with a head byte at position 255 is read inside the buffer. -/
theorem read_inside {k : ℕ} {seq : UInt32} {ctx : ProtoCtx} (h : AtRest k seq ctx) (hk : k ≤ 255)
    {tok : Token} (hs : tok.Sound) (hlate : ¬(tok.headed = true ∧ 255 ≤ k)) :
    (k < protoFrameMax ∨ ∃ b, tok = .skip b) ∧ tok.rejected k ≤ 255 ∧
      ∀ i ∈ indicesFrom ctx tok.bytes, i < protoFrameMax := by
  have hmax : protoFrameMax = 255 := rfl
  by_cases hlt : k < protoFrameMax
  · refine ⟨Or.inl hlt, ?_, indices_token_lt h hlt hs⟩
    cases tok <;> simp only [Token.rejected] <;> omega
  · cases tok with
    | skip b =>
      refine ⟨Or.inr ⟨b, rfl⟩, hk, fun i hi => ?_⟩
      have hb : b ≠ bootCodeHead := hs
      rw [Token.bytes, indicesFrom_cons, frameAccesses, h.state] at hi
      simp [hb] at hi
    | reject len => exact absurd ⟨rfl, by omega⟩ hlate
    | frame len body => exact absurd ⟨rfl, by omega⟩ hlate

theorem indices_lt_iff_of_atRest (bytes : List UInt8) {k : ℕ} {seq : UInt32} {ctx : ProtoCtx}
    (h : AtRest k seq ctx) (hk : k ≤ 255) :
    (∀ i ∈ indicesFrom ctx bytes, i < protoFrameMax) ↔ ¬LateHead k bytes := by
  induction bytes using unpack_induction nextToken_consumes generalizing k seq ctx with
  | stop xs hx => exact indices_lt_iff_of_unfinished h hx
  | more xs tok rest hx ih =>
    obtain ⟨hs, rfl⟩ := nextToken_some hx
    rw [lateHead_of_some hx]
    by_cases hlate : tok.headed = true ∧ 255 ≤ k
    · obtain ⟨bytes, hbytes⟩ := head_of_headed hlate.1
      rw [hbytes, List.cons_append]
      exact iff_of_false (h.head_outside hlate.2 _) (not_not.2 (Or.inl hlate))
    · obtain ⟨hk', hle, htok⟩ := read_inside h hk hs hlate
      rw [or_iff_right hlate, indicesFrom_append, List.forall_mem_append, and_iff_right htok]
      exact ih (run_token h hs hk').post hle

/-- Every index is inside the 255 bytes of the buffer exactly when no head byte begins a frame
after 255 rejected length bytes since the start or the last frame. -/
theorem frameIndices_lt_iff (bytes : List UInt8) :
    (∀ i ∈ frameIndices bytes, i < protoFrameMax) ↔ ¬LateHead 0 bytes :=
  indices_lt_iff_of_atRest bytes atRest_zeroed (Nat.zero_le _)

/-- 255 times a head byte and the length byte 0, and one more head byte. -/
theorem head_written_past_the_buffer :
    ¬∀ bytes, ∀ i ∈ frameIndices bytes, i < protoFrameMax := by
  intro h
  have hall := h ((List.replicate 255 [0x40, 0x00]).flatten ++ [0x40])
  revert hall
  decide +kernel

end Xlab
