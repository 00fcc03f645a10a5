import Xlab.Requests

/-!
# The leftmost frames of a buffer

`FrameAt buf p` says what the scan loops of `xlab_conn_read` look for at a position, on the
bytes of the buffer alone, and `BrokenAt` what they answer with an error. `Leftmost` is the
greedy choice of frames : the first one starts at the least position where one can, each
further one at the least position not before the end of the one before.

`scan_spec` says the loop finds these frames, and a broken one at each position outside them
that has a head and a length and no frame. So a read of a connection and of a datagram is
the dispatch of the leftmost frames and an error for each broken one, in the order of their
positions (`scan_loops_leftmost`).
-/

open Scanner

namespace Xlab

variable {W : Type}

/-! ## Frames at positions -/

/-- A head byte and a length byte the loops accept. -/
structure HeadAt (buf : List UInt8) (p : ℕ) : Prop where
  head : byteAt buf p = bootCodeHead
  len_ge : 2 ≤ (byteAt buf (p + 1)).toNat
  len_le : (byteAt buf (p + 1)).toNat ≤ 251

/-- Where the frame at `p` ends. -/
def frameEnd (buf : List UInt8) (p : ℕ) : ℕ :=
  p + 2 + (byteAt buf (p + 1)).toNat

/-- The frame at `p` is all there, and its last byte is the two's complement of the sum of the
bytes before it. -/
structure WholeAt (buf : List UInt8) (p : ℕ) : Prop where
  fits : frameEnd buf p ≤ buf.length
  checksum : byteAt buf (frameEnd buf p - 1) =
    -byteSum ((buf.drop p).take ((byteAt buf (p + 1)).toNat + 1))

/-- A valid frame starts at `p`. -/
def FrameAt (buf : List UInt8) (p : ℕ) : Prop :=
  HeadAt buf p ∧ WholeAt buf p

/-- A frame starts at `p` that is truncated or has a wrong checksum. -/
def BrokenAt (buf : List UInt8) (p : ℕ) : Prop :=
  HeadAt buf p ∧ ¬WholeAt buf p

/-- The greedy choice of positions from `start` on. -/
def Leftmost (buf : List UInt8) : ℕ → List ℕ → Prop
  | start, [] => ∀ p, start ≤ p → ¬FrameAt buf p
  | start, p :: ps => start ≤ p ∧ FrameAt buf p ∧ (∀ q, start ≤ q → q < p → ¬FrameAt buf q) ∧
      Leftmost buf (frameEnd buf p) ps

/-- The position `p` is in none of the frames at `ps`. -/
def Outside (buf : List UInt8) (ps : List ℕ) (p : ℕ) : Prop :=
  ∀ q ∈ ps, p < q ∨ frameEnd buf q ≤ p

/-- The token for the frame at `p` : its command and the payload after it. -/
def TokenAt (buf : List UInt8) (p : ℕ) (h : Hit Item) : Prop :=
  ∃ f : Frame, h = ⟨p, frameEnd buf p - p, .frame f⟩ ∧ f.cmd = byteAt buf (p + 2) ∧
    f.payload = (buf.drop (p + 3)).take ((byteAt buf (p + 1)).toNat - 2)

/-- What is found from `start` on when the frames at `ps` are dispatched. -/
structure Found (buf : List UInt8) (start : ℕ) (ps : List ℕ) (hits : List (Hit Item)) :
    Prop where
  order : hits.Pairwise fun h h' => h.pos < h'.pos
  frames : List.Forall₂ (TokenAt buf) ps (kept Item.isFrame hits)
  broken : ∀ p, (∃ h ∈ hits, h.pos = p ∧ h.tok.isFrame = false) ↔
    start ≤ p ∧ BrokenAt buf p ∧ Outside buf ps p

/-! ## What the loop does at a position -/

theorem badLen_iff (lenField : UInt8) :
    badLen lenField ↔ ¬(2 ≤ lenField.toNat ∧ lenField.toNat ≤ 251) := by
  simp only [badLen, UInt8.lt_iff_toNat_lt, protoPayloadMax, UInt8.reduceToNat]
  omega

theorem byteAt_of_le {buf : List UInt8} {i : ℕ} (h : buf.length ≤ i) : byteAt buf i = 0 := by
  simp [byteAt, h]

/-- A position with a head has its length byte in the buffer. -/
theorem HeadAt.lt {buf : List UInt8} {p : ℕ} (h : HeadAt buf p) : p + 1 < buf.length := by
  by_contra hle
  have hlen := h.len_ge
  rw [byteAt_of_le (Nat.not_lt.1 hle)] at hlen
  exact absurd hlen (by decide)

/-- At a position with a head, the loop dispatches the frame if it is whole, and else answers
with an error and goes on at the next byte. -/
theorem classify_head {buf : List UInt8} {p : ℕ} (h : HeadAt buf p) :
    (WholeAt buf p ∧ ∃ f : Frame, classify (buf.drop p) =
        .advance (some (.frame f)) ((byteAt buf (p + 1)).toNat + 1) ∧
        f.cmd = byteAt buf (p + 2) ∧
        f.payload = (buf.drop (p + 3)).take ((byteAt buf (p + 1)).toNat - 2)) ∨
      ¬WholeAt buf p ∧ ∃ it : Item, it.isFrame = false ∧
        classify (buf.drop p) = .advance (some it) 0 := by
  have hlt := h.lt
  have hlen : (buf.drop p).length = buf.length - p := List.length_drop
  have hne : buf.drop p ≠ [] := List.ne_nil_of_length_pos (by omega)
  have hbad : ¬badLen (byteAt buf (p + 1)) := by
    rw [badLen_iff]
    exact not_not.2 ⟨h.len_ge, h.len_le⟩
  have hle := h.len_le
  have hsum : protoCalcChecksum (buf.drop p) (UInt8.ofNat (2 + (byteAt buf (p + 1)).toNat)) =
      -byteSum ((buf.drop p).take ((byteAt buf (p + 1)).toNat + 1)) := by
    rw [protoCalcChecksum_eq, UInt8.toNat_ofNat_of_lt' (by
      have hsize : UInt8.size = 256 := rfl
      omega), show 2 + (byteAt buf (p + 1)).toNat - 1 = (byteAt buf (p + 1)).toNat + 1 by omega]
  have hlast : p + ((byteAt buf (p + 1)).toNat + 1) = frameEnd buf p - 1 := by
    unfold frameEnd
    omega
  rw [classify, if_neg hne]
  simp only [byteAt_drop, Nat.add_zero, h.head, ne_eq, not_true_eq_false, if_false, hlen, hsum,
    hlast, List.drop_drop]
  rw [if_neg (by omega), dif_neg hbad]
  by_cases hfits : frameEnd buf p ≤ buf.length
  · have hfits' : ¬buf.length - p < 2 + (byteAt buf (p + 1)).toNat := by
      unfold frameEnd at hfits
      omega
    rw [if_neg hfits']
    split_ifs with hchk
    · exact Or.inl ⟨⟨hfits, hchk.symm⟩, _, rfl, rfl, rfl⟩
    · exact Or.inr ⟨fun hw => hchk hw.checksum.symm, .chkErr, rfl, rfl⟩
  · have hfits' : buf.length - p < 2 + (byteAt buf (p + 1)).toNat := by
      unfold frameEnd at hfits
      omega
    rw [if_pos hfits']
    exact Or.inr ⟨fun hw => hfits hw.fits, .incomplete, rfl, rfl⟩

/-- Elsewhere it goes on at the next byte, or waits at the last one. -/
theorem classify_not_head {buf : List UInt8} {p : ℕ} (hp : p < buf.length) (h : ¬HeadAt buf p) :
    classify (buf.drop p) = .advance none 0 ∨
      classify (buf.drop p) = .stop ∧ p + 1 = buf.length := by
  have hlen : (buf.drop p).length = buf.length - p := List.length_drop
  have hne : buf.drop p ≠ [] := List.ne_nil_of_length_pos (by omega)
  rw [classify, if_neg hne]
  simp only [byteAt_drop, Nat.add_zero, hlen]
  by_cases hhead : byteAt buf p = bootCodeHead
  · rw [if_neg (not_not.2 hhead)]
    by_cases hone : buf.length - p ≤ 1
    · exact Or.inr ⟨if_pos hone, by omega⟩
    · have hbad : badLen (byteAt buf (p + 1)) := by
        rw [badLen_iff]
        exact fun hl => h ⟨hhead, hl.1, hl.2⟩
      rw [if_neg hone, dif_pos hbad]
      exact Or.inl rfl
  · exact Or.inl (if_pos hhead)

/-! ## The loop finds the leftmost frames -/

theorem Leftmost.skip {buf : List UInt8} {start : ℕ} {ps : List ℕ} (h : ¬FrameAt buf start)
    (hps : Leftmost buf (start + 1) ps) : Leftmost buf start ps := by
  have hle : ∀ q, start ≤ q → (start + 1 ≤ q → ¬FrameAt buf q) → ¬FrameAt buf q := fun q hq hn => by
    rcases Nat.eq_or_lt_of_le hq with rfl | hlt
    · exact h
    · exact hn hlt
  cases ps with
  | nil => exact fun q hq => hle q hq (hps q)
  | cons p ps =>
    obtain ⟨hp, hf, hmin, htail⟩ := hps
    exact ⟨Nat.le_of_succ_le hp, hf, fun q hq hlt => hle q hq fun hq' => hmin q hq' hlt, htail⟩

/-- The frames lie one after the other. -/
theorem Leftmost.le_of_mem {buf : List UInt8} {start : ℕ} {ps : List ℕ}
    (h : Leftmost buf start ps) : ∀ p ∈ ps, start ≤ p := by
  induction ps generalizing start with
  | nil => exact fun p hp => nomatch hp
  | cons q ps ih =>
    obtain ⟨hq, -, -, htail⟩ := h
    intro p hp
    rcases List.mem_cons.1 hp with rfl | hp
    · exact hq
    · have := ih htail p hp
      unfold frameEnd at this
      omega

/-- At the last byte and past it there is nothing. -/
theorem found_nil {buf : List UInt8} {start : ℕ} (h : buf.length ≤ start + 1) :
    Leftmost buf start [] ∧ Found buf start [] [] := by
  have hnone : ∀ p, start ≤ p → ¬HeadAt buf p := fun p hp hhead => by
    have := hhead.lt
    omega
  refine ⟨fun p hp hf => hnone p hp hf.1, List.Pairwise.nil, List.Forall₂.nil, fun p => ?_⟩
  constructor
  · rintro ⟨x, hx, -⟩
    cases hx
  · rintro ⟨hp, hb, -⟩
    exact absurd hb.1 (hnone p hp)

/-- A position without a head is passed over. -/
theorem Found.skip {buf : List UInt8} {start : ℕ} {ps : List ℕ} {hits : List (Hit Item)}
    (h : ¬HeadAt buf start) (hf : Found buf (start + 1) ps hits) : Found buf start ps hits := by
  refine ⟨hf.order, hf.frames, fun p => ?_⟩
  rw [hf.broken p]
  refine and_congr_left fun hp => ⟨Nat.le_of_succ_le, fun hle => ?_⟩
  rcases Nat.eq_or_lt_of_le hle with rfl | hlt
  · exact absurd hp.1.1 h
  · exact hlt

/-- A broken frame is answered, and passed over by one byte. -/
theorem Found.broken_cons {buf : List UInt8} {start n : ℕ} {ps : List ℕ} {hits : List (Hit Item)}
    {it : Item} (h : BrokenAt buf start) (hit : it.isFrame = false)
    (hps : Leftmost buf (start + 1) ps) (hpos : ∀ h ∈ hits, start + 1 ≤ h.pos)
    (hf : Found buf (start + 1) ps hits) : Found buf start ps (⟨start, n, it⟩ :: hits) := by
  refine ⟨List.pairwise_cons.2 ⟨fun x hx => hpos x hx, hf.order⟩, ?_, fun p => ?_⟩
  · rw [kept, List.filter_cons_of_neg (by simpa using hit)]
    exact hf.frames
  · rw [List.exists_mem_cons_iff, hf.broken p]
    constructor
    · rintro (⟨rfl, -⟩ | ⟨hp, hb, ho⟩)
      · exact ⟨Nat.le_refl _, h, fun q hq => Or.inl (hps.le_of_mem q hq)⟩
      · exact ⟨Nat.le_of_succ_le hp, hb, ho⟩
    · rintro ⟨hp, hb, ho⟩
      rcases Nat.eq_or_lt_of_le hp with rfl | hlt
      · exact Or.inl ⟨rfl, hit⟩
      · exact Or.inr ⟨hlt, hb, ho⟩

/-- A frame is dispatched, and passed over as a whole. -/
theorem Found.frame_cons {buf : List UInt8} {start : ℕ} {ps : List ℕ} {hits : List (Hit Item)}
    {h : Hit Item} (ht : TokenAt buf start h) (hpos : ∀ h ∈ hits, frameEnd buf start ≤ h.pos)
    (hf : Found buf (frameEnd buf start) ps hits) : Found buf start (start :: ps) (h :: hits) := by
  have hlt : start < frameEnd buf start := by
    unfold frameEnd
    omega
  obtain ⟨f, rfl, hcmd, hpayload⟩ := ht
  refine ⟨List.pairwise_cons.2 ⟨fun x hx => Nat.lt_of_lt_of_le hlt (hpos x hx), hf.order⟩, ?_,
    fun p => ?_⟩
  · rw [kept, List.filter_cons_of_pos rfl]
    exact List.Forall₂.cons ⟨f, rfl, hcmd, hpayload⟩ hf.frames
  · have hcons : Outside buf (start :: ps) p ↔
        (p < start ∨ frameEnd buf start ≤ p) ∧ Outside buf ps p := List.forall_mem_cons
    rw [List.exists_mem_cons_iff, hf.broken p, hcons]
    constructor
    · rintro (⟨-, hfalse⟩ | ⟨hp, hb, ho⟩)
      · cases hfalse
      · exact ⟨Nat.le_trans (Nat.le_of_lt hlt) hp, hb, Or.inr hp, ho⟩
    · rintro ⟨hp, hb, hin, ho⟩
      refine Or.inr ⟨?_, hb, ho⟩
      rcases hin with hlt' | hle
      · exact absurd hlt' (Nat.not_lt.2 hp)
      · exact hle

/-- The loop finds the leftmost frames from `start` on, and the broken ones outside them. -/
def FindsFrom (buf : List UInt8) (start : ℕ) : Prop :=
  ∃ ps, Leftmost buf start ps ∧ Found buf start ps (scan classify start (buf.drop start)).1

/-- What is left at a position of the buffer. -/
theorem exists_drop_cons {buf : List UInt8} {start : ℕ} (h : start < buf.length) :
    ∃ x xs, buf.drop start = x :: xs ∧ ∀ k, xs.drop k = buf.drop (start + k + 1) := by
  obtain ⟨x, xs, hx⟩ := List.exists_cons_of_ne_nil
    (List.ne_nil_of_length_pos (l := buf.drop start) (by rw [List.length_drop]; omega))
  refine ⟨x, xs, hx, fun k => ?_⟩
  rw [show start + k + 1 = start + (k + 1) by omega, ← List.drop_drop, hx, List.drop_succ_cons]

theorem FindsFrom.past {buf : List UInt8} {start : ℕ} (h : buf.length ≤ start) :
    FindsFrom buf start := by
  have hnil : buf.drop start = [] := List.drop_eq_nil_of_le h
  refine ⟨[], ?_⟩
  rw [hnil, scan_nil]
  exact found_nil (Nat.le_succ_of_le h)

/-- From a head the loop goes on behind its frame, or at the next byte. -/
theorem FindsFrom.head {buf : List UInt8} {start : ℕ} (hhead : HeadAt buf start)
    (hnext : ∀ p, start < p → FindsFrom buf p) : FindsFrom buf start := by
  obtain ⟨x, xs, hx, hdrop⟩ := exists_drop_cons (Nat.lt_of_succ_lt hhead.lt)
  rcases classify_head hhead with ⟨hwhole, f, hc, hcmd, hpayload⟩ | ⟨hbroken, it, hit, hc⟩
  · have hend : start + ((byteAt buf (start + 1)).toNat + 1) + 1 = frameEnd buf start := by
      unfold frameEnd
      omega
    have hn : (byteAt buf (start + 1)).toNat + 1 + 1 = frameEnd buf start - start := by
      unfold frameEnd
      omega
    obtain ⟨ps, hps, hfound⟩ := hnext (frameEnd buf start) (by omega)
    rw [FindsFrom]
    rw [hx] at hc ⊢
    rw [scan_advance classify hc, hdrop, hend]
    refine ⟨start :: ps, ⟨Nat.le_refl _, ⟨hhead, hwhole⟩, fun q hq hlt => ?_, hps⟩,
      Found.frame_cons ⟨f, by rw [hn], hcmd, hpayload⟩ (le_pos_of_mem_scan classify _ _) hfound⟩
    omega
  · obtain ⟨ps, hps, hfound⟩ := hnext (start + 1) (Nat.lt_succ_self start)
    rw [FindsFrom]
    rw [hx] at hc ⊢
    rw [scan_advance classify hc, hdrop]
    exact ⟨ps, hps.skip fun hf => hbroken hf.2, Found.broken_cons ⟨hhead, hbroken⟩ hit hps
      (le_pos_of_mem_scan classify _ _) hfound⟩

/-- Elsewhere it goes on at the next byte, or waits at the last one. -/
theorem FindsFrom.not_head {buf : List UInt8} {start : ℕ} (hlt : start < buf.length)
    (hhead : ¬HeadAt buf start) (hnext : FindsFrom buf (start + 1)) : FindsFrom buf start := by
  obtain ⟨x, xs, hx, hdrop⟩ := exists_drop_cons hlt
  rcases classify_not_head hlt hhead with hc | ⟨hc, hlast⟩
  · obtain ⟨ps, hps, hfound⟩ := hnext
    rw [FindsFrom]
    rw [hx] at hc ⊢
    rw [scan_advance classify hc, hdrop]
    exact ⟨ps, hps.skip fun hf => hhead hf.1, hfound.skip hhead⟩
  · rw [FindsFrom]
    rw [hx] at hc ⊢
    rw [scan_stop classify hc]
    exact ⟨[], found_nil (Nat.le_of_eq hlast.symm)⟩

/-- From any position. The induction is on the bytes left. -/
theorem scan_spec (buf : List UInt8) (start : ℕ) : FindsFrom buf start := by
  obtain ⟨n, hn⟩ : ∃ n, buf.length - start ≤ n := ⟨_, Nat.le_refl _⟩
  induction n generalizing start with
  | zero => exact .past (by omega)
  | succ n ih =>
    by_cases hlt : start < buf.length
    · by_cases hhead : HeadAt buf start
      · exact .head hhead fun p hp => ih p (by omega)
      · exact .not_head hlt hhead (ih (start + 1) (by omega))
    · exact .past (Nat.not_lt.1 hlt)

/-! ## Both loops -/

/-- The error frame `[0xF4, 3, NONE, XLAB_ERR_CHECKSUM, checksum]`. -/
def brokenAnswer (seq : UInt32) : Response :=
  ⟨seq, [0xF4, 3, 0x00, 0x01, 0x08]⟩

theorem routerBuildResponse_broken (seq : UInt32) :
    routerBuildResponse cmdNone errChecksum [] seq = brokenAnswer seq := by
  rw [routerBuildResponse_err (by decide)]
  rfl

/-- On a TCP connection the answer to a broken frame is one error frame, which is sent. -/
theorem tcpReact_broken (w : ℕ) (t : RouterTable W) {it : Item} (h : it.isFrame = false)
    (l : Link W) : tcpReact w t it l = (sockSend (brokenAnswer l.cs.nextReqSeq)
      (Link.build { l with cs := { l.cs with nextReqSeq := l.cs.nextReqSeq + 1 } }
        (brokenAnswer l.cs.nextReqSeq))).2 := by
  rw [← routerBuildResponse_broken]
  cases it with
  | frame f => cases h
  | incomplete => rfl
  | chkErr => rfl

/-- On a datagram it is one error frame, which is handed to the driver. -/
theorem udpReact_broken (tr : TransType) (t : RouterTable W) {it : Item} (h : it.isFrame = false)
    (s : Shared W × UInt32) :
    udpReact tr t it s = (transWrite tr (brokenAnswer s.2) s.1, s.2 + 1) := by
  rw [← routerBuildResponse_broken]
  cases it with
  | frame f => cases h
  | incomplete => rfl
  | chkErr => rfl

/-- What the scan loops do with a buffer : they end, and react to `hits` in order. A read of a
connection and a datagram dispatch the frames among them with `tcpFrame` and `udpFrame`, and
answer each other one with an error frame. -/
structure Loops (buf : List UInt8) (hits : List (Hit Item)) : Prop where
  /-- The loop ends at the end of the buffer or at a lone head byte before it. -/
  ends : ∀ (σ : Type) (react : Item → σ → σ) (s : σ) (fuel : ℕ), buf.length ≤ fuel →
    ∃ pos, buf.length ≤ pos + 1 ∧
      scanLoop buf react fuel 0 s = (hits.foldl (fun s h => react h.tok s) s, pos)
  tcp : ∀ (W : Type) (w : ℕ) (t : RouterTable W) (chunk : List UInt8) (l : Link W),
    l.cs.body ++ chunk = buf → ∃ rest, connParse w t chunk l =
      (hits.foldl (fun l h => tcpReact w t h.tok l) (l.setBody buf)).setBody rest
  tcpBroken : ∀ (W : Type) (w : ℕ) (t : RouterTable W) (l : Link W), ∀ h ∈ hits,
    h.tok.isFrame = false → tcpReact w t h.tok l = (sockSend (brokenAnswer l.cs.nextReqSeq)
      (Link.build { l with cs := { l.cs with nextReqSeq := l.cs.nextReqSeq + 1 } }
        (brokenAnswer l.cs.nextReqSeq))).2
  udp : ∀ (W : Type) (tr : TransType) (t : RouterTable W) (datagram : List UInt8) (sh : Shared W),
    datagram.take 256 = buf → connReadUdp tr t datagram sh =
      (hits.foldl (fun s h => udpReact tr t h.tok s) (sh, 0)).1
  udpBroken : ∀ (W : Type) (tr : TransType) (t : RouterTable W) (s : Shared W × UInt32),
    ∀ h ∈ hits, h.tok.isFrame = false →
      udpReact tr t h.tok s = (transWrite tr (brokenAnswer s.2) s.1, s.2 + 1)

/-- Both loops end on every buffer, dispatch exactly its leftmost frames, and answer with one
error frame exactly each broken frame outside them, in the order of their positions. -/
theorem scan_loops_leftmost (buf : List UInt8) :
    ∃ ps hits, Leftmost buf 0 ps ∧ Found buf 0 ps hits ∧ Loops buf hits := by
  obtain ⟨ps, hps, hfound⟩ := scan_spec buf 0
  rw [List.drop_zero] at hfound
  have hitems : ∀ (σ : Type) (react : Item → σ → σ) (s : σ),
      (itemsOf buf).foldl (fun s it => react it s) s =
        (scan classify 0 buf).1.foldl (fun s h => react h.tok s) s := fun σ react s =>
    List.foldl_map
  refine ⟨ps, (scan classify 0 buf).1, hps, hfound, ?_, ?_, ?_, ?_, ?_⟩
  · intro σ react s fuel hfuel
    have hloop := scanLoop_eq buf react fuel 0 s (by omega) (Nat.zero_le _)
    rw [List.drop_zero] at hloop
    have hrest := length_scan_rest_le buf
    exact ⟨_, by omega, hloop⟩
  · rintro W w t chunk l rfl
    exact ⟨_, by rw [connParse_eq, reactAll, hitems _ (tcpReact w t)]⟩
  · exact fun W w t l h _ hbroken => tcpReact_broken w t hbroken l
  · rintro W tr t datagram sh rfl
    rw [connReadUdp_eq, hitems _ (udpReact tr t)]
  · exact fun W tr t s h _ hbroken => udpReact_broken tr t hbroken s

end Xlab
