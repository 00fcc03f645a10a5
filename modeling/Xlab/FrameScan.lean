import Xlab.Session
import Xlab.Scanner

/-!
# Reading a connection

`xlab_conn_read` has one scan loop for a TCP body and one for a datagram. They walk the
buffer in the same way and differ in what they do about what they find, so `scanLoop` is
the loop over a reaction `react`, and `connParse` and `connReadUdp` run it with the
reactions of the two branches.

`classify` is what the loop does at the front of a buffer. `scanLoop_eq` says the loop is
the scanner of `classify` with `react` folded over the tokens, so what is found depends on
the bytes only. `classify_selfDelimiting` : a valid frame is fixed by its own bytes,
everything else is dropped byte by byte, and the loop waits on a lone head byte only.
-/

open Scanner

namespace Xlab

/-! ## The scan loop -/

/-- What the scan loop reacts to : a frame that does not fit in the buffer, a frame whose
checksum fails, and a frame to dispatch. -/
inductive Item where
  | incomplete
  | chkErr
  | frame (f : Frame)
  deriving DecidableEq, Repr

/-- `buf[i]`. -/
def byteAt (buf : List UInt8) (i : ℕ) : UInt8 :=
  buf.getD i 0

/-- The length byte is one the loop skips. -/
def badLen (lenField : UInt8) : Prop :=
  lenField < 2 ∨ protoPayloadMax < lenField

instance (lenField : UInt8) : Decidable (badLen lenField) :=
  inferInstanceAs (Decidable (_ ∨ _))

theorem payload_le_of_not_badLen {lenField : UInt8} (h : ¬badLen lenField) (bytes : List UInt8) :
    (bytes.take (lenField.toNat - 2)).length ≤ 249 := by
  have hle : lenField.toNat ≤ 251 := by
    have h2 := (not_or.1 h).2
    rw [UInt8.lt_iff_toNat_lt, Nat.not_lt] at h2
    exact h2
  rw [List.length_take]
  omega

/-- The scan loop of `xlab_conn_read` over `buf`, from `pos`, with the position it ends at. -/
def scanLoop {σ : Type} (buf : List UInt8) (react : Item → σ → σ) : ℕ → ℕ → σ → σ × ℕ
  | 0, pos, s => (s, pos)
  | fuel + 1, pos, s =>
    if pos < buf.length then
      if byteAt buf pos ≠ bootCodeHead then scanLoop buf react fuel (pos + 1) s
      else if buf.length ≤ pos + 1 then (s, pos)
      else
        let lenField := byteAt buf (pos + 1)
        if h : badLen lenField then scanLoop buf react fuel (pos + 1) s
        else
          let frameLen := 2 + lenField.toNat
          if buf.length < pos + frameLen then
            scanLoop buf react fuel (pos + 1) (react .incomplete s)
          else
            let calcChk := protoCalcChecksum (buf.drop pos) (UInt8.ofNat frameLen)
            if calcChk = byteAt buf (pos + frameLen - 1) then
              let cmd := byteAt buf (pos + 2)
              let payload := (buf.drop (pos + 3)).take (lenField.toNat - 2)
              scanLoop buf react fuel (pos + frameLen)
                (react (.frame ⟨cmd, payload, payload_le_of_not_badLen h _⟩) s)
            else scanLoop buf react fuel (pos + 1) (react .chkErr s)
    else (s, pos)

/-- What the loop does at the front of what is left of the buffer. -/
def classify (xs : List UInt8) : Verdict Item :=
  if xs = [] then .stop
  else if byteAt xs 0 ≠ bootCodeHead then .advance none 0
  else if xs.length ≤ 1 then .stop
  else if h : badLen (byteAt xs 1) then .advance none 0
  else if xs.length < 2 + (byteAt xs 1).toNat then .advance (some .incomplete) 0
  else if protoCalcChecksum xs (UInt8.ofNat (2 + (byteAt xs 1).toNat)) =
      byteAt xs ((byteAt xs 1).toNat + 1) then
    .advance (some (.frame ⟨byteAt xs 2, (xs.drop 3).take ((byteAt xs 1).toNat - 2),
      payload_le_of_not_badLen h _⟩)) ((byteAt xs 1).toNat + 1)
  else .advance (some .chkErr) 0

@[simp] theorem classify_nil : classify [] = .stop :=
  rfl

/-- The loop advances over a valid frame, or by one byte with no frame or a bad one. -/
theorem classify_advance {xs : List UInt8} {out : Option Item} {n : ℕ}
    (h : classify xs = .advance out n) :
    (n = 0 ∧ ∀ f, out ≠ some (.frame f)) ∨
      (byteAt xs 0 = bootCodeHead ∧ ¬badLen (byteAt xs 1) ∧ n = (byteAt xs 1).toNat + 1 ∧
        n + 1 ≤ xs.length ∧ protoCalcChecksum xs (UInt8.ofNat (n + 1)) = byteAt xs n ∧
        ∃ f : Frame, out = some (.frame f) ∧ f.cmd = byteAt xs 2 ∧
          f.payload = (xs.drop 3).take (n - 3)) := by
  rw [classify] at h
  by_cases hnil : xs = []
  · rw [if_pos hnil] at h
    cases h
  rw [if_neg hnil] at h
  by_cases h0 : byteAt xs 0 ≠ bootCodeHead
  · rw [if_pos h0] at h
    cases h
    exact Or.inl ⟨rfl, nofun⟩
  rw [if_neg h0] at h
  by_cases hone : xs.length ≤ 1
  · rw [if_pos hone] at h
    cases h
  rw [if_neg hone] at h
  by_cases hbad : badLen (byteAt xs 1)
  · rw [dif_pos hbad] at h
    cases h
    exact Or.inl ⟨rfl, nofun⟩
  rw [dif_neg hbad] at h
  by_cases hfit : xs.length < 2 + (byteAt xs 1).toNat
  · rw [if_pos hfit] at h
    cases h
    exact Or.inl ⟨rfl, nofun⟩
  rw [if_neg hfit] at h
  by_cases hchk : protoCalcChecksum xs (UInt8.ofNat (2 + (byteAt xs 1).toNat)) =
      byteAt xs ((byteAt xs 1).toNat + 1)
  · rw [if_pos hchk] at h
    cases h
    have hadd : (byteAt xs 1).toNat + 1 + 1 = 2 + (byteAt xs 1).toNat := by omega
    have hsub : (byteAt xs 1).toNat + 1 - 3 = (byteAt xs 1).toNat - 2 := by omega
    exact Or.inr ⟨not_not.1 h0, hbad, rfl, by omega, hadd ▸ hchk, _, rfl, rfl, by rw [hsub]⟩
  · rw [if_neg hchk] at h
    cases h
    exact Or.inl ⟨rfl, nofun⟩

/-- A verdict drops bytes that are there. -/
theorem classify_within {x : UInt8} {xs : List UInt8} {out : Option Item} {n : ℕ}
    (h : classify (x :: xs) = .advance out n) : n ≤ xs.length := by
  rcases classify_advance h with ⟨rfl, -⟩ | ⟨-, -, -, hfit, -⟩
  · exact Nat.zero_le _
  · exact Nat.le_of_succ_le_succ hfit

theorem byteAt_drop (buf : List UInt8) (pos i : ℕ) :
    byteAt (buf.drop pos) i = byteAt buf (pos + i) := by
  simp [byteAt]

/-- One turn of the loop. -/
theorem scanLoop_succ {σ : Type} (buf : List UInt8) (react : Item → σ → σ) (fuel pos : ℕ) (s : σ) :
    scanLoop buf react (fuel + 1) pos s =
      match classify (buf.drop pos) with
      | .stop => (s, pos)
      | .advance out n =>
        scanLoop buf react fuel (pos + n + 1) (out.elim s fun it => react it s) := by
  have hlen : (buf.drop pos).length = buf.length - pos := List.length_drop
  rw [scanLoop, classify]
  by_cases hpos : pos < buf.length
  · have hne : buf.drop pos ≠ [] := by
      rw [← List.length_pos_iff]
      omega
    have h1 : buf.length - pos ≤ 1 ↔ buf.length ≤ pos + 1 := by omega
    have h2 : ∀ n, buf.length - pos < n ↔ buf.length < pos + n := by omega
    have hchk : pos + (2 + (byteAt buf (pos + 1)).toNat) - 1 =
        pos + ((byteAt buf (pos + 1)).toNat + 1) := by omega
    have hnext : pos + (2 + (byteAt buf (pos + 1)).toNat) =
        pos + ((byteAt buf (pos + 1)).toNat + 1) + 1 := by omega
    simp only [if_pos hpos, if_neg hne, byteAt_drop, hlen, Nat.add_zero, List.drop_drop, h1, h2,
      hchk]
    by_cases h0 : byteAt buf pos ≠ bootCodeHead
    · rw [if_pos h0, if_pos h0]
      rfl
    rw [if_neg h0, if_neg h0]
    by_cases hlast : buf.length ≤ pos + 1
    · rw [if_pos hlast, if_pos hlast]
    rw [if_neg hlast, if_neg hlast]
    by_cases hbad : badLen (byteAt buf (pos + 1))
    · rw [dif_pos hbad, dif_pos hbad]
      rfl
    rw [dif_neg hbad, dif_neg hbad]
    by_cases hfit : buf.length < pos + (2 + (byteAt buf (pos + 1)).toNat)
    · rw [if_pos hfit, if_pos hfit]
      rfl
    rw [if_neg hfit, if_neg hfit]
    split_ifs
    · simp only [Option.elim_some, hnext]
    · rfl
  · have he : buf.drop pos = [] := List.drop_eq_nil_of_le (by omega)
    rw [if_neg hpos, if_pos he]

/-- The loop is the scanner of `classify` with the reactions folded over its tokens, and it
ends where the scanner's rest starts. -/
theorem scanLoop_eq {σ : Type} (buf : List UInt8) (react : Item → σ → σ) (fuel pos : ℕ) (s : σ)
    (hfuel : buf.length ≤ pos + fuel) (hpos : pos ≤ buf.length) :
    scanLoop buf react fuel pos s =
      ((scan classify pos (buf.drop pos)).1.foldl (fun s h => react h.tok s) s,
        buf.length - (scan classify pos (buf.drop pos)).2.length) := by
  induction fuel generalizing pos s with
  | zero =>
    have he : buf.drop pos = [] := List.drop_eq_nil_of_le hfuel
    simp only [scanLoop, he, scan_nil, List.foldl_nil, List.length_nil, Nat.sub_zero]
    rw [show pos = buf.length by omega]
  | succ fuel ih =>
    rw [scanLoop_succ]
    have hlen : (buf.drop pos).length = buf.length - pos := List.length_drop
    cases hb : buf.drop pos with
    | nil =>
      rw [hb, List.length_nil] at hlen
      simp only [classify_nil, scan_nil, List.foldl_nil, List.length_nil, Nat.sub_zero]
      rw [show pos = buf.length by omega]
    | cons x xs =>
      rw [hb, List.length_cons] at hlen
      cases hv : classify (x :: xs) with
      | stop =>
        simp only [scan_stop classify hv, List.foldl_nil, List.length_cons]
        rw [show buf.length - (xs.length + 1) = pos by omega]
      | advance out n =>
        have hn := classify_within hv
        have hdrop : buf.drop (pos + n + 1) = xs.drop n := by
          rw [show pos + n + 1 = pos + (n + 1) by omega, ← List.drop_drop, hb, List.drop_succ_cons]
        simp only []
        rw [ih _ _ (by omega) (by omega), hdrop, scan_advance classify hv]
        cases out <;> simp

/-! ## Valid frames delimit themselves -/

/-- The items of valid frames. -/
def Item.isFrame : Item → Bool
  | .frame _ => true
  | _ => false

/-- The valid frames among some items. -/
def framesOf (items : List Item) : List Frame :=
  items.filterMap fun
    | .frame f => some f
    | _ => none

@[simp] theorem framesOf_nil : framesOf [] = [] :=
  rfl

theorem framesOf_append (items items' : List Item) :
    framesOf (items ++ items') = framesOf items ++ framesOf items' :=
  List.filterMap_append

theorem Item.isFrame_iff {it : Item} : it.isFrame = true ↔ ∃ f, it = .frame f := by
  cases it <;> simp [isFrame]

/-- The bytes that make a buffer start with a valid frame. -/
theorem classify_eq_frame {xs : List UInt8} {f : Frame} {n : ℕ} :
    classify xs = .advance (some (.frame f)) n ↔
      byteAt xs 0 = bootCodeHead ∧ ¬badLen (byteAt xs 1) ∧ n = (byteAt xs 1).toNat + 1 ∧
        n + 1 ≤ xs.length ∧ protoCalcChecksum xs (UInt8.ofNat (n + 1)) = byteAt xs n ∧
        f.cmd = byteAt xs 2 ∧ f.payload = (xs.drop 3).take (n - 3) := by
  have hsub : (byteAt xs 1).toNat + 1 - 3 = (byteAt xs 1).toNat - 2 := by omega
  have hadd : (byteAt xs 1).toNat + 1 + 1 = 2 + (byteAt xs 1).toNat := by omega
  constructor
  · intro h
    rcases classify_advance h with ⟨-, hno⟩ | ⟨h0, hbad, hn, hfit, hchk, f', hf, hcmd, hpl⟩
    · exact absurd rfl (hno f)
    · obtain rfl : f = f' := Item.frame.inj (Option.some.inj hf)
      exact ⟨h0, hbad, hn, hfit, hchk, hcmd, hpl⟩
  · rintro ⟨h0, hbad, rfl, hfit, hchk, hcmd, hpl⟩
    rw [hadd] at hchk
    rw [hsub] at hpl
    obtain ⟨cmd, payload, hle⟩ := f
    subst hcmd hpl
    have hne : xs ≠ [] := by
      rintro rfl
      simp at hfit
    rw [classify, if_neg hne, if_neg (not_not.2 h0), if_neg (by omega), dif_neg hbad,
      if_neg (by omega), if_pos hchk]

theorem byteAt_take (xs : List UInt8) {i n : ℕ} (h : i < n) :
    byteAt (xs.take n) i = byteAt xs i := by
  simp [byteAt, h]

/-- The checksum of the first `len` bytes reads those bytes only. -/
theorem protoCalcChecksum_take (xs : List UInt8) {len : UInt8} {n : ℕ} (h : len.toNat ≤ n) :
    protoCalcChecksum (xs.take n) len = protoCalcChecksum xs len := by
  rw [protoCalcChecksum, protoCalcChecksum, List.take_take, Nat.min_eq_left (by omega)]

/-- Whether a valid frame is found depends on the bytes of the frame only. -/
theorem classify_frame_congr {xs ys : List UInt8} {f : Frame} {n : ℕ}
    (h : classify xs = .advance (some (.frame f)) n) (hlen : n + 1 ≤ ys.length)
    (heq : ys.take (n + 1) = xs.take (n + 1)) : classify ys = .advance (some (.frame f)) n := by
  obtain ⟨h0, hbad, hn, hfit, hchk, hcmd, hpl⟩ := classify_eq_frame.1 h
  have hpos : 2 ≤ (byteAt xs 1).toNat := by
    have := (not_or.1 hbad).1
    rwa [UInt8.lt_iff_toNat_lt, Nat.not_lt] at this
  have hbyte : ∀ i, i ≤ n → byteAt ys i = byteAt xs i := fun i hi => by
    rw [← byteAt_take ys (Nat.lt_succ_of_le hi), heq, byteAt_take xs (Nat.lt_succ_of_le hi)]
  have hsum : protoCalcChecksum ys (UInt8.ofNat (n + 1)) =
      protoCalcChecksum xs (UInt8.ofNat (n + 1)) := by
    have hle : (UInt8.ofNat (n + 1)).toNat ≤ n + 1 := by
      simp only [UInt8.toNat_ofNat']
      omega
    rw [← protoCalcChecksum_take ys hle, heq, protoCalcChecksum_take xs hle]
  have hdrop : (ys.drop 3).take (n - 3) = (xs.drop 3).take (n - 3) := by
    have hd : ∀ zs : List UInt8, ((zs.take (n + 1)).drop 3).take (n - 3) =
        (zs.drop 3).take (n - 3) := fun zs => by
      rw [List.drop_take, List.take_take, Nat.min_eq_left (by omega)]
    rw [← hd, heq, hd]
  rw [classify_eq_frame, hbyte 0 (by omega), hbyte 1 (by omega), hbyte 2 (by omega),
    hbyte n (Nat.le_refl n), hsum, hdrop]
  exact ⟨h0, hbad, hn, hlen, hchk, hcmd, hpl⟩

/-- The valid frames are self-delimiting, and the loop waits on a lone head byte only. -/
theorem classify_selfDelimiting : SelfDelimiting classify Item.isFrame where
  stop_lone x xs h := by
    by_contra hxs
    have hlen : ¬(x :: xs).length ≤ 1 := by simpa using hxs
    rw [classify, if_neg (List.cons_ne_nil x xs), if_neg hlen] at h
    split_ifs at h
  drop_one x xs out n h ho := by
    rcases classify_advance h with ⟨hn, -⟩ | ⟨-, -, -, -, -, f, rfl, -⟩
    · exact hn
    · cases ho _ rfl
  within x xs t n h _ := classify_within h
  extend x xs ys t n h ht := by
    obtain ⟨f, rfl⟩ := Item.isFrame_iff.1 ht
    have hn := classify_within h
    refine classify_frame_congr h (by simp; omega) ?_
    simp [List.take_append_of_le_length hn]
  restrict x xs ys t n h ht hn := by
    obtain ⟨f, rfl⟩ := Item.isFrame_iff.1 ht
    refine classify_frame_congr h (by simp; omega) ?_
    simp [List.take_append_of_le_length hn]
  wait x xs t n h ht := by
    obtain ⟨f, rfl⟩ := Item.isFrame_iff.1 ht
    have hx : x = bootCodeHead := (classify_eq_frame.1 h).1
    subst hx
    rfl

end Xlab
