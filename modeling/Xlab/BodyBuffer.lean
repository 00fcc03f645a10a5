import Xlab.WriteEvents

/-!
# The body buffer

A session reads into `body` behind what it has not parsed, and nothing in `xlab_conn_read` looks
whether there is room. What it relies on is the scan loop : it stops on a lone head byte only, so
one byte at most stays behind.

`scanUses` are the indices of the body the scan loop uses and the values it casts to `uint8_t`.
`body_never_fills` : in every run of reads, writes, flushes and whatever the rest of the gateway
does, the body is empty or a lone head byte after every read, and the next read has room, uses
no index outside the body, loses nothing in a cast, and does not meet the guard against
`max_request_size`.
-/

open Scanner

namespace Xlab

variable {W : Type}

/-! ## What the scan loop uses -/

/-- An index of the body, or a value cast to `uint8_t` : the length of a frame, or that of its
payload. -/
inductive ScanUse where
  | index (i : ℕ)
  | frameLen (n : ℕ)
  | payloadLen (n : ℕ)
  deriving DecidableEq, Repr

/-- The index is in the body, the cast loses nothing. -/
def ScanUse.Fits (length : ℕ) : ScanUse → Prop
  | .index i => i < length
  | .frameLen n => (UInt8.ofNat n).toNat = n
  | .payloadLen n => (UInt8.ofNat n).toNat = n ∧ n ≤ 249

/-- What the comparison of the checksum of a frame uses : all bytes but the last for the sum, and
the last. -/
def checksumUses (pos frameLen : ℕ) : List ScanUse :=
  .frameLen frameLen ::
    (List.range' pos ((UInt8.ofNat frameLen).toNat - 1)).map ScanUse.index ++
      [.index (pos + frameLen - 1)]

/-- What the dispatch of a frame uses : the command and the payload. -/
def payloadUses (pos payloadLen : ℕ) : List ScanUse :=
  .index (pos + 2) :: .payloadLen payloadLen ::
    (List.range' (pos + 3) payloadLen).map ScanUse.index

/-- What the turn of the loop at `pos` uses. -/
def turnUses (buf : List UInt8) (pos : ℕ) : List ScanUse :=
  if pos < buf.length then
    if byteAt buf pos ≠ bootCodeHead then [.index pos]
    else if buf.length ≤ pos + 1 then [.index pos]
    else
      let lenField := byteAt buf (pos + 1)
      if badLen lenField then [.index pos, .index (pos + 1)]
      else
        let frameLen := 2 + lenField.toNat
        if buf.length < pos + frameLen then [.index pos, .index (pos + 1)]
        else
          let calcChk := protoCalcChecksum (buf.drop pos) (UInt8.ofNat frameLen)
          [.index pos, .index (pos + 1)] ++ checksumUses pos frameLen ++
            if calcChk = byteAt buf (pos + frameLen - 1) then
              payloadUses pos (lenField.toNat - 2)
            else []
  else []

/-- What the loop uses from `pos` on. -/
def scanUses (buf : List UInt8) : ℕ → ℕ → List ScanUse
  | 0, _ => []
  | fuel + 1, pos =>
    turnUses buf pos ++
      match classify (buf.drop pos) with
      | .stop => []
      | .advance _ n => scanUses buf fuel (pos + n + 1)

/-- A length byte that is not skipped is between 2 and 251. -/
theorem lenField_of_not_badLen {lenField : UInt8} (h : ¬badLen lenField) :
    2 ≤ lenField.toNat ∧ lenField.toNat ≤ 251 := by
  obtain ⟨h2, hmax⟩ := not_or.1 h
  rw [UInt8.lt_iff_toNat_lt, Nat.not_lt] at h2 hmax
  exact ⟨h2, hmax⟩

theorem fits_range' {length i n : ℕ} (h : i + n ≤ length) :
    ∀ u ∈ (List.range' i n).map ScanUse.index, u.Fits length := by
  intro u hu
  obtain ⟨j, hj, rfl⟩ := List.mem_map.1 hu
  exact Nat.lt_of_lt_of_le (List.mem_range'_1.1 hj).2 h

theorem checksumUses_fits {length pos n : ℕ} (hn : 1 ≤ n) (hmax : n < 256)
    (h : pos + n ≤ length) : ∀ u ∈ checksumUses pos n, u.Fits length := by
  have hcast : (UInt8.ofNat n).toNat = n := by
    rw [UInt8.toNat_ofNat']
    exact Nat.mod_eq_of_lt hmax
  refine List.forall_mem_append.2 ⟨List.forall_mem_cons.2 ⟨hcast, ?_⟩, ?_⟩
  · rw [hcast]
    exact fits_range' (by omega)
  · exact List.forall_mem_singleton.2 (show pos + n - 1 < length by omega)

theorem payloadUses_fits {length pos n : ℕ} (hmax : n ≤ 249) (h : pos + 4 + n ≤ length) :
    ∀ u ∈ payloadUses pos n, u.Fits length := by
  have hcast : (UInt8.ofNat n).toNat = n := by
    rw [UInt8.toNat_ofNat']
    exact Nat.mod_eq_of_lt (by omega)
  refine List.forall_mem_cons.2 ⟨show pos + 2 < length by omega, ?_⟩
  exact List.forall_mem_cons.2 ⟨⟨hcast, hmax⟩, fits_range' (by omega)⟩

/-- A turn stays in the body, and its casts lose nothing. -/
theorem turnUses_fits (buf : List UInt8) (pos : ℕ) : ∀ u ∈ turnUses buf pos, u.Fits buf.length := by
  have hnil : ∀ u ∈ ([] : List ScanUse), u.Fits buf.length := fun u hu => nomatch hu
  unfold turnUses
  split_ifs with hpos h0 hlast
  · exact List.forall_mem_cons.2 ⟨hpos, hnil⟩
  · exact List.forall_mem_cons.2 ⟨hpos, hnil⟩
  · have hhead : ∀ u ∈ [ScanUse.index pos, .index (pos + 1)], u.Fits buf.length :=
      List.forall_mem_cons.2 ⟨hpos, List.forall_mem_cons.2 ⟨Nat.not_le.1 hlast, hnil⟩⟩
    simp only []
    split_ifs with hbad hfit hchk
    · exact hhead
    · exact hhead
    · obtain ⟨h2, hmax⟩ := lenField_of_not_badLen hbad
      refine List.forall_mem_append.2 ⟨List.forall_mem_append.2 ⟨hhead, ?_⟩, ?_⟩
      · exact checksumUses_fits (by omega) (by omega) (Nat.not_lt.1 hfit)
      · exact payloadUses_fits (by omega) (by omega)
    · obtain ⟨h2, hmax⟩ := lenField_of_not_badLen hbad
      rw [List.append_nil]
      refine List.forall_mem_append.2 ⟨hhead, ?_⟩
      exact checksumUses_fits (by omega) (by omega) (Nat.not_lt.1 hfit)
  · exact hnil

/-- So does the whole loop. -/
theorem scanUses_fits (buf : List UInt8) (fuel pos : ℕ) :
    ∀ u ∈ scanUses buf fuel pos, u.Fits buf.length := by
  induction fuel generalizing pos with
  | zero => exact fun u hu => nomatch hu
  | succ fuel ih =>
    rw [scanUses]
    refine List.forall_mem_append.2 ⟨turnUses_fits buf pos, ?_⟩
    cases classify (buf.drop pos) with
    | stop => exact fun u hu => nomatch hu
    | advance out n => exact ih _

/-! ## One read -/

/-- What a read of a socket that has `bytes` takes. -/
def Link.chunk (l : Link W) (bytes : List UInt8) : List UInt8 :=
  bytes.take (requestChunk - l.cs.body.length)

/-- The body with it. -/
def Link.filled (l : Link W) (bytes : List UInt8) : List UInt8 :=
  l.cs.body ++ l.chunk bytes

/-- The position the scan loop ends at. -/
def Link.parsed (w : ℕ) (t : RouterTable W) (l : Link W) (bytes : List UInt8) : ℕ :=
  (scanLoop (l.filled bytes) (tcpReact w t) (l.filled bytes).length 0
    (l.setBody (l.filled bytes))).2

/-- What a read of a socket that has `bytes` relies on : there is room, a read of no bytes is the
end of the stream, the loop stays in the body, the casts lose nothing, and the guard does not
fire. -/
structure ReadSafe (m w : ℕ) (t : RouterTable W) (l : Link W) (bytes : List UInt8) : Prop where
  room : 4095 ≤ requestChunk - l.cs.body.length
  ends : l.chunk bytes = [] ↔ bytes = []
  inside : (l.filled bytes).length ≤ requestChunk
  uses : ∀ u ∈ scanUses (l.filled bytes) (l.filled bytes).length 0, u.Fits (l.filled bytes).length
  moved : (UInt8.ofNat ((l.filled bytes).length - l.parsed w t bytes)).toNat =
    (l.filled bytes).length - l.parsed w t bytes
  unguarded : (connParse w t (l.chunk bytes) l).cs.body.length < m

/-- Nothing is left to parse, or a lone head byte. -/
def Link.Residual (l : Link W) : Prop :=
  l.cs.body = [] ∨ l.cs.body = [bootCodeHead]

theorem Link.Residual.length_le {l : Link W} (h : l.Residual) : l.cs.body.length ≤ 1 := by
  rcases h with h | h <;> rw [h]
  · exact Nat.zero_le 1
  · exact Nat.le_refl 1

theorem residual_connParse (w : ℕ) (t : RouterTable W) (chunk : List UInt8) (l : Link W) :
    (connParse w t chunk l).Residual := by
  rw [Link.Residual, connParse_eq]
  exact rest_eq_head _

theorem Link.Residual.readSafe {m : ℕ} (hm : 1 < m) (w : ℕ) (t : RouterTable W) {l : Link W}
    (h : l.Residual) (bytes : List UInt8) : ReadSafe m w t l bytes := by
  have hle := h.length_le
  have hroom : 4095 ≤ requestChunk - l.cs.body.length := by
    unfold requestChunk
    omega
  refine ⟨hroom, ?_, ?_, scanUses_fits _ _ _, ?_, ?_⟩
  · rw [Link.chunk, List.take_eq_nil_iff]
    exact or_iff_right (by omega)
  · have hchunk : (l.chunk bytes).length ≤ requestChunk - l.cs.body.length :=
      List.length_take_le _ _
    have hbuffer : requestChunk = 4096 := rfl
    rw [Link.filled, List.length_append]
    omega
  · have hrest := length_scan_rest_le (l.filled bytes)
    rw [Link.parsed, scanLoop_zero]
    simp only []
    rw [UInt8.toNat_ofNat']
    omega
  · exact Nat.lt_of_le_of_lt (residual_connParse w t (l.chunk bytes) l).length_le hm

/-! ## Runs -/

/-- A call on a session : a read, a write, a flush in the event loop of worker `w`, and anything
the rest of the gateway does to what is shared. -/
inductive BodyEvent (W : Type) where
  | read (r : ReadOutcome)
  | write
  | flush (w : ℕ)
  | others (sh : Shared W)

/-- The session after a call of worker `w`, `none` when it is removed. -/
def bodyStep (m w : ℕ) (t : RouterTable W) : Option (Link W) → BodyEvent W → Option (Link W)
  | none, _ => none
  | some l, .read r =>
    if (connReadMax m w t r l).removals = 0 then some (connReadMax m w t r l).link else none
  | some l, .write => if (connWriteTcp w l).removals = 0 then some (connWriteTcp w l).link else none
  | some l, .flush w' => some (flushCompleted w' l)
  | some l, .others sh => some ⟨l.cs, sh⟩

/-- A write that keeps the session clears the body. -/
theorem body_connWriteTcp {w : ℕ} {l : Link W} (h : (connWriteTcp w l).removals = 0) :
    (connWriteTcp w l).link.cs.body = [] := by
  unfold connWriteTcp at h ⊢
  simp only [] at h ⊢
  split_ifs at h ⊢
  rfl

/-- Every call leaves nothing to parse, or a lone head byte. -/
theorem residual_step {m w : ℕ} {t : RouterTable W} {o : Option (Link W)} {e : BodyEvent W}
    (h : ∀ l, o = some l → l.Residual) {l : Link W} (hl : bodyStep m w t o e = some l) :
    l.Residual := by
  cases o with
  | none => cases hl
  | some l₀ =>
    have h₀ : l₀.Residual := h l₀ rfl
    cases e with
    | read r =>
      simp only [bodyStep] at hl
      split_ifs at hl with hkept
      obtain rfl := Option.some.inj hl
      unfold connReadMax at hkept ⊢
      split at hkept
      · exact h₀
      · cases hkept
      · simp only [] at hkept ⊢
        split_ifs at hkept ⊢
        exact residual_connParse w t _ l₀
    | write =>
      simp only [bodyStep] at hl
      split_ifs at hl with hkept
      obtain rfl := Option.some.inj hl
      exact Or.inl (body_connWriteTcp hkept)
    | flush w' =>
      obtain rfl := Option.some.inj hl
      have hinbox := inbox_flush w' l₀
      simp only [Link.inbox, Prod.mk.injEq] at hinbox
      rw [Link.Residual, hinbox.1]
      exact h₀
    | others sh =>
      obtain rfl := Option.some.inj hl
      exact h₀

/-- In every run of calls on a new session, as long as it is kept, nothing is left to parse or a
lone head byte, and the next read is safe whatever the socket has. -/
theorem body_never_fills {m : ℕ} (hm : 1 < m) (w : ℕ) (t : RouterTable W) (ident : SessionIdent)
    (sh : Shared W) (es : List (BodyEvent W)) {l : Link W}
    (hl : Runs.run (bodyStep m w t) (some ⟨.create ident, sh⟩) es = some l) :
    l.Residual ∧ ∀ bytes, ReadSafe m w t l bytes := by
  have hrun : ∀ l, Runs.run (bodyStep m w t) (some ⟨.create ident, sh⟩) es = some l →
      l.Residual :=
    Runs.run_keeps (I := fun o : Option (Link W) => ∀ l, o = some l → l.Residual)
      (fun _ _ h _ hl => residual_step h hl) (fun l hl => Option.some.inj hl ▸ Or.inl rfl) es
  exact ⟨hrun l hl, (hrun l hl).readSafe hm w t⟩

/-- A head byte is left over, and the next read is safe with `max_request_size` at 2. -/
theorem body_never_fills_head : ∃ l : Link Unit,
    Runs.run (bodyStep 2 0 cmdTable) (some idleLink) [.read (.data [0x00, 0x40])] = some l ∧
      l.Residual ∧ ∀ bytes, ReadSafe 2 0 cmdTable l bytes := by
  have hkept : (Runs.run (bodyStep 2 0 cmdTable) (some idleLink)
      [.read (.data [0x00, 0x40])]).isSome = true := by decide +kernel
  obtain ⟨l, hl⟩ := Option.isSome_iff_exists.1 hkept
  exact ⟨l, hl, body_never_fills (by decide) 0 cmdTable ⟨0, 0, 7⟩ idleLink.sh
    [.read (.data [0x00, 0x40])] hl⟩

end Xlab
