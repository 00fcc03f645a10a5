import Mathlib.Data.List.Basic
import Mathlib.Tactic.Common

/-!
# Scanners

A scanner looks at what is left of a buffer and gives a verdict : stop and keep the
rest for later, or report at most one token and drop one or more elements. `scan`
repeats it and returns the tokens, each with its position and length, and the rest.

`SelfDelimiting` is what a framing protocol gives about the tokens to be kept : a kept
token is fixed by the elements it covers, everything else is dropped one element at a
time, and the scanner waits only on a lone first element. For such scanners :

* a buffer has no kept token exactly when no suffix starts with one
  (`kept_scan_eq_nil`);
* a stream scanned in pieces, each with the rest of the one before in front, gives the
  kept tokens of the whole stream unless a piece ends inside one (`kept_feed`);
* throwing away the rest between two pieces loses exactly the kept token that the next
  piece completes (`kept_feed_discard`).
-/

namespace Scanner

/-- What to do at the front of the buffer. -/
inductive Verdict (τ : Type*) where
  /-- Keep everything for later. -/
  | stop
  /-- Report `out` and drop `n + 1` elements. -/
  | advance (out : Option τ) (n : ℕ)

/-- A token, where it starts and how many elements it covers. -/
@[ext]
structure Hit (τ : Type*) where
  pos : ℕ
  len : ℕ
  tok : τ
  deriving DecidableEq, Repr

variable {α τ : Type*} (classify : List α → Verdict τ)

/-- Scan with at most `fuel` verdicts, the front of the buffer at position `pos`. -/
def scanFuel : ℕ → ℕ → List α → List (Hit τ) × List α
  | 0, _, xs => ([], xs)
  | _ + 1, _, [] => ([], [])
  | fuel + 1, pos, x :: xs =>
    match classify (x :: xs) with
    | .stop => ([], x :: xs)
    | .advance out n =>
      let r := scanFuel fuel (pos + n + 1) (xs.drop n)
      (out.toList.map (Hit.mk pos (n + 1)) ++ r.1, r.2)

/-- The tokens of the buffer and the rest. -/
def scan (pos : ℕ) (xs : List α) : List (Hit τ) × List α :=
  scanFuel classify xs.length pos xs

/-- A verdict drops at least one element, so any fuel from the buffer's length on gives
the same result. -/
theorem scanFuel_congr :
    ∀ (m n pos : ℕ) (xs : List α), xs.length ≤ m → xs.length ≤ n →
      scanFuel classify m pos xs = scanFuel classify n pos xs
  | 0, 0, _, _, _, _ => rfl
  | 0, _ + 1, _, [], _, _ => rfl
  | _ + 1, 0, _, [], _, _ => rfl
  | _ + 1, _ + 1, _, [], _, _ => rfl
  | m + 1, n + 1, pos, x :: xs, hm, hn => by
    simp only [scanFuel]
    cases classify (x :: xs) with
    | stop => rfl
    | advance out k =>
      have hd : (xs.drop k).length ≤ xs.length := by simp
      simp only [List.length_cons, Nat.add_le_add_iff_right] at hm hn
      simp only [scanFuel_congr m n _ _ (Nat.le_trans hd hm) (Nat.le_trans hd hn)]

theorem scanFuel_eq_scan {fuel : ℕ} (pos : ℕ) {xs : List α} (h : xs.length ≤ fuel) :
    scanFuel classify fuel pos xs = scan classify pos xs :=
  scanFuel_congr classify _ _ _ _ h (Nat.le_refl _)

@[simp] theorem scan_nil (pos : ℕ) : scan classify pos [] = ([], []) :=
  rfl

theorem scan_stop {x : α} {xs : List α} (h : classify (x :: xs) = .stop) (pos : ℕ) :
    scan classify pos (x :: xs) = ([], x :: xs) := by
  simp [scan, scanFuel, h]

theorem scan_advance {x : α} {xs : List α} {out : Option τ} {n : ℕ}
    (h : classify (x :: xs) = .advance out n) (pos : ℕ) :
    scan classify pos (x :: xs) =
      (out.toList.map (Hit.mk pos (n + 1)) ++ (scan classify (pos + n + 1) (xs.drop n)).1,
        (scan classify (pos + n + 1) (xs.drop n)).2) := by
  have hd : (xs.drop n).length ≤ xs.length := by simp
  rw [← scanFuel_eq_scan classify _ hd]
  simp [scan, scanFuel, h]

/-- Induction along a scan : one case for each verdict. -/
theorem scan_induction {motive : ℕ → List α → Prop} (nil : ∀ pos, motive pos [])
    (stop : ∀ pos x xs, classify (x :: xs) = .stop → motive pos (x :: xs))
    (advance : ∀ pos x xs out n, classify (x :: xs) = .advance out n →
      motive (pos + n + 1) (xs.drop n) → motive pos (x :: xs)) (pos : ℕ) (xs : List α) :
    motive pos xs := by
  obtain ⟨fuel, hfuel⟩ : ∃ fuel, xs.length ≤ fuel := ⟨_, Nat.le_refl _⟩
  induction fuel generalizing pos xs with
  | zero =>
    obtain rfl := List.length_eq_zero_iff.1 (Nat.le_zero.1 hfuel)
    exact nil pos
  | succ fuel ih =>
    cases xs with
    | nil => exact nil pos
    | cons x xs =>
      cases hv : classify (x :: xs) with
      | stop => exact stop pos x xs hv
      | advance out n =>
        refine advance pos x xs out n hv (ih _ _ ?_)
        simp only [List.length_cons, List.length_drop] at hfuel ⊢
        omega

/-- Moving the buffer moves its tokens. -/
theorem scan_shift (k pos : ℕ) (xs : List α) :
    scan classify (pos + k) xs =
      ((scan classify pos xs).1.map (fun h => { h with pos := h.pos + k }),
        (scan classify pos xs).2) := by
  induction pos, xs using scan_induction classify with
  | nil pos => rfl
  | stop pos x xs hv => simp [scan_stop classify hv]
  | advance pos x xs out n hv ih =>
    rw [scan_advance classify hv, scan_advance classify hv,
      show pos + k + n + 1 = pos + n + 1 + k by omega, ih]
    cases out <;> simp

/-- What the scanner leaves does not depend on where the buffer starts. -/
theorem scan_rest_pos (pos : ℕ) (xs : List α) :
    (scan classify pos xs).2 = (scan classify 0 xs).2 := by
  have h := scan_shift classify pos 0 xs
  rw [Nat.zero_add] at h
  rw [h]

/-- Every token starts at or after the front of the buffer. -/
theorem le_pos_of_mem_scan (pos : ℕ) (xs : List α) :
    ∀ h ∈ (scan classify pos xs).1, pos ≤ h.pos := by
  induction pos, xs using scan_induction classify with
  | nil pos => simp
  | stop pos x xs hv => simp [scan_stop classify hv]
  | advance pos x xs out n hv ih =>
    intro h hm
    rw [scan_advance classify hv, List.mem_append] at hm
    rcases hm with hm | hm
    · obtain ⟨t, -, rfl⟩ := List.mem_map.1 hm
      exact Nat.le_refl pos
    · have := ih h hm
      omega

/-- What the scanner leaves is a suffix of the buffer. -/
theorem scan_rest_suffix (pos : ℕ) (xs : List α) : (scan classify pos xs).2 <:+ xs := by
  induction pos, xs using scan_induction classify with
  | nil pos => exact List.suffix_refl _
  | stop pos x xs hv => simp [scan_stop classify hv]
  | advance pos x xs out n hv ih =>
    rw [scan_advance classify hv]
    exact (ih.trans (List.drop_suffix n xs)).trans (List.suffix_cons x xs)

/-! ## Self-delimiting tokens -/

/-- The tokens that pass `keep` are fixed by the elements they cover, and everything else
is dropped one element at a time. The scanner waits on a lone element only, and it waits
on the first element of a kept token. -/
structure SelfDelimiting (keep : τ → Bool) : Prop where
  stop_lone : ∀ x xs, classify (x :: xs) = .stop → xs = []
  drop_one : ∀ x xs out n, classify (x :: xs) = .advance out n →
    (∀ t ∈ out, keep t = false) → n = 0
  within : ∀ x xs t n, classify (x :: xs) = .advance (some t) n → keep t = true →
    n ≤ xs.length
  extend : ∀ x xs ys t n, classify (x :: xs) = .advance (some t) n → keep t = true →
    classify (x :: (xs ++ ys)) = .advance (some t) n
  restrict : ∀ x xs ys t n, classify (x :: (xs ++ ys)) = .advance (some t) n →
    keep t = true → n ≤ xs.length → classify (x :: xs) = .advance (some t) n
  wait : ∀ x xs t n, classify (x :: xs) = .advance (some t) n → keep t = true →
    classify [x] = .stop

/-- The buffer starts with a kept token. -/
def StartsKept (keep : τ → Bool) (xs : List α) : Prop :=
  ∃ x ys t n, xs = x :: ys ∧ classify (x :: ys) = .advance (some t) n ∧ keep t = true

/-- The kept tokens. -/
def kept (keep : τ → Bool) (hs : List (Hit τ)) : List (Hit τ) :=
  hs.filter fun h => keep h.tok

variable {classify} {keep : τ → Bool}

@[simp] theorem kept_nil : kept keep ([] : List (Hit τ)) = [] :=
  rfl

@[simp] theorem kept_append (hs ks : List (Hit τ)) :
    kept keep (hs ++ ks) = kept keep hs ++ kept keep ks :=
  List.filter_append ..

theorem mem_kept {h : Hit τ} {hs : List (Hit τ)} :
    h ∈ kept keep hs ↔ h ∈ hs ∧ keep h.tok = true :=
  List.mem_filter

theorem not_startsKept_of_stop {x : α} {xs : List α} (h : classify (x :: xs) = .stop) :
    ¬StartsKept classify keep (x :: xs) := by
  rintro ⟨_, _, t, n, he, h', -⟩
  rw [← he, h] at h'
  cases h'

theorem not_startsKept_of_drop {x : α} {xs : List α} {out : Option τ}
    (h : classify (x :: xs) = .advance out 0) (ho : ∀ t ∈ out, keep t = false) :
    ¬StartsKept classify keep (x :: xs) := by
  rintro ⟨_, _, t, n, he, h', ht⟩
  rw [← he, h] at h'
  cases h'
  exact absurd ht (by simp [ho t rfl])

theorem kept_eq_nil_of_drop {pos n : ℕ} {out : Option τ} (ho : ∀ t ∈ out, keep t = false) :
    kept keep (out.toList.map (Hit.mk pos n)) = [] := by
  cases out with
  | none => rfl
  | some t => simp [kept, ho t rfl]

theorem kept_scan_keep {x : α} {xs : List α} {t : τ} {n : ℕ}
    (h : classify (x :: xs) = .advance (some t) n) (ht : keep t = true) (pos : ℕ) :
    kept keep (scan classify pos (x :: xs)).1 =
      ⟨pos, n + 1, t⟩ :: kept keep (scan classify (pos + n + 1) (xs.drop n)).1 := by
  rw [scan_advance classify h, kept_append]
  simp [kept, ht]

theorem kept_scan_drop {x : α} {xs : List α} {out : Option τ}
    (h : classify (x :: xs) = .advance out 0) (ho : ∀ t ∈ out, keep t = false) (pos : ℕ) :
    kept keep (scan classify pos (x :: xs)).1 = kept keep (scan classify (pos + 1) xs).1 := by
  rw [scan_advance classify h, kept_append, kept_eq_nil_of_drop ho, List.nil_append,
    List.drop_zero]

namespace SelfDelimiting

variable (hs : SelfDelimiting classify keep)
include hs

/-- The three verdicts of a self-delimiting scanner. -/
theorem verdict (x : α) (xs : List α) :
    (classify (x :: xs) = .stop ∧ xs = []) ∨
      (∃ out, classify (x :: xs) = .advance out 0 ∧ ∀ t ∈ out, keep t = false) ∨
      ∃ t n, classify (x :: xs) = .advance (some t) n ∧ keep t = true ∧ n ≤ xs.length := by
  cases hv : classify (x :: xs) with
  | stop => exact Or.inl ⟨rfl, hs.stop_lone x xs hv⟩
  | advance out n =>
    by_cases ho : ∀ t ∈ out, keep t = false
    · obtain rfl := hs.drop_one x xs out n hv ho
      exact Or.inr (Or.inl ⟨out, rfl, ho⟩)
    · push Not at ho
      obtain ⟨t, ht, hk⟩ := ho
      obtain rfl := Option.mem_def.1 ht
      have hk' : keep t = true := by simpa using hk
      exact Or.inr (Or.inr ⟨t, n, rfl, hk', hs.within x xs t n hv hk'⟩)

theorem rest_eq (pos : ℕ) (xs : List α) :
    (scan classify pos xs).2 = [] ∨
      ∃ x, (scan classify pos xs).2 = [x] ∧ classify [x] = .stop := by
  induction pos, xs using scan_induction classify with
  | nil pos => exact Or.inl rfl
  | stop pos x xs hv =>
    obtain rfl := hs.stop_lone x xs hv
    exact Or.inr ⟨x, by rw [scan_stop classify hv], hv⟩
  | advance pos x xs out n hv ih =>
    rw [scan_advance classify hv]
    exact ih

/-- A buffer has no kept token exactly when none of its suffixes starts with one. -/
theorem kept_scan_eq_nil (pos : ℕ) (xs : List α) :
    kept keep (scan classify pos xs).1 = [] ↔ ∀ ys, ys <:+ xs → ¬StartsKept classify keep ys := by
  induction xs generalizing pos with
  | nil =>
    simp only [scan_nil, kept_nil, List.suffix_nil, forall_eq, true_iff]
    rintro ⟨x, ys, t, n, h, -⟩
    cases h
  | cons x xs ih =>
    have hsuf : (∀ ys, ys <:+ x :: xs → ¬StartsKept classify keep ys) ↔
        ¬StartsKept classify keep (x :: xs) ∧ ∀ ys, ys <:+ xs → ¬StartsKept classify keep ys := by
      simp only [List.suffix_cons_iff, or_imp, forall_and, forall_eq]
    rw [hsuf]
    rcases hs.verdict x xs with ⟨h, rfl⟩ | ⟨out, h, ho⟩ | ⟨t, n, h, ht, -⟩
    · have hx : ¬StartsKept classify keep [x] := not_startsKept_of_stop h
      have hnil := ih pos
      simp only [scan_nil, kept_nil, true_iff] at hnil
      simpa [scan_stop classify h, hx] using hnil
    · rw [kept_scan_drop h ho, ih]
      exact ⟨fun hxs => ⟨not_startsKept_of_drop h ho, hxs⟩, fun hxs => hxs.2⟩
    · rw [kept_scan_keep h ht]
      exact ⟨fun hc => absurd hc (List.cons_ne_nil _ _),
        fun hc => (hc.1 ⟨x, xs, t, n, rfl, h, ht⟩).elim⟩

end SelfDelimiting

/-! ## Tokens laid one after the other -/

/-- The tokens of some elements laid one after the other from `pos` on. -/
def layout {β : Type*} (len : β → ℕ) (tok : β → τ) : ℕ → List β → List (Hit τ)
  | _, [] => []
  | pos, b :: bs => ⟨pos, len b, tok b⟩ :: layout len tok (pos + len b) bs

theorem map_tok_layout {β : Type*} (len : β → ℕ) (tok : β → τ) (pos : ℕ) (bs : List β) :
    (layout len tok pos bs).map Hit.tok = bs.map tok := by
  induction bs generalizing pos with
  | nil => rfl
  | cons b bs ih => rw [layout, List.map_cons, List.map_cons, ih]

variable (classify) in
/-- The token `t` covers exactly `xs`, whatever follows. -/
def Covers (xs : List α) (t : τ) : Prop :=
  xs ≠ [] ∧ ∀ rest, classify (xs ++ rest) = .advance (some t) (xs.length - 1)

theorem scan_covers {xs : List α} {t : τ} (h : Covers classify xs t) (pos : ℕ) (rest : List α) :
    scan classify pos (xs ++ rest) =
      (⟨pos, xs.length, t⟩ :: (scan classify (pos + xs.length) rest).1,
        (scan classify (pos + xs.length) rest).2) := by
  obtain ⟨x, ys, rfl⟩ := List.exists_cons_of_ne_nil h.1
  have hx := h.2 rest
  have hlen : pos + ((x :: ys).length - 1) + 1 = pos + (x :: ys).length := by
    simp only [List.length_cons]
    omega
  rw [List.cons_append] at hx ⊢
  rw [scan_advance classify hx, hlen]
  simp

/-- Covered pieces in front of a buffer give their tokens, and then those of the rest. -/
theorem scan_flatMap {β : Type*} {enc : β → List α} {tok : β → τ} {bs : List β}
    (h : ∀ b ∈ bs, Covers classify (enc b) (tok b)) (pos : ℕ) (rest : List α) :
    scan classify pos (bs.flatMap enc ++ rest) =
      (layout (fun b => (enc b).length) tok pos bs ++
          (scan classify (pos + (bs.flatMap enc).length) rest).1,
        (scan classify (pos + (bs.flatMap enc).length) rest).2) := by
  induction bs generalizing pos with
  | nil => simp [layout]
  | cons b bs ih =>
    have htail := ih (fun b hb => h b (List.mem_cons_of_mem _ hb)) (pos + (enc b).length)
    rw [List.flatMap_cons, List.append_assoc, scan_covers (h b List.mem_cons_self), htail,
      List.length_append, Nat.add_assoc]
    rfl

theorem kept_layout {β : Type*} {len : β → ℕ} {tok : β → τ} {bs : List β}
    (h : ∀ b ∈ bs, keep (tok b) = true) (pos : ℕ) :
    kept keep (layout len tok pos bs) = layout len tok pos bs := by
  induction bs generalizing pos with
  | nil => rfl
  | cons b bs ih =>
    have htail := ih (fun b hb => h b (List.mem_cons_of_mem _ hb)) (pos + len b)
    have hb : keep (tok b) = true := h b List.mem_cons_self
    rw [layout, kept, List.filter_cons, if_pos hb]
    exact congrArg _ htail

/-- Some elements in front of a buffer are passed over, the tokens kept being those of the
buffer, exactly when no kept token starts inside them. -/
theorem SelfDelimiting.kept_scan_skip (hs : SelfDelimiting classify keep) (pos : ℕ)
    (xs zs : List α) :
    kept keep (scan classify pos (xs ++ zs)).1 =
        kept keep (scan classify (pos + xs.length) zs).1 ↔
      ∀ ys, ys <:+ xs → ys ≠ [] → ¬StartsKept classify keep (ys ++ zs) := by
  induction xs generalizing pos with
  | nil =>
    simp only [List.nil_append, List.length_nil, Nat.add_zero, List.suffix_nil, true_iff]
    exact fun ys hys hne => absurd hys hne
  | cons x xs ih =>
    have hsuf : (∀ ys, ys <:+ x :: xs → ys ≠ [] → ¬StartsKept classify keep (ys ++ zs)) ↔
        ¬StartsKept classify keep (x :: (xs ++ zs)) ∧
          ∀ ys, ys <:+ xs → ys ≠ [] → ¬StartsKept classify keep (ys ++ zs) := by
      simp only [List.suffix_cons_iff, or_imp, forall_and, forall_eq, ne_eq,
        reduceCtorEq, not_false_eq_true, true_implies, List.cons_append]
    have hpos : pos + (x :: xs).length = pos + 1 + xs.length := by
      simp only [List.length_cons]
      omega
    rw [hsuf, hpos, List.cons_append]
    rcases hs.verdict x (xs ++ zs) with ⟨h, he⟩ | ⟨out, h, ho⟩ | ⟨t, n, h, ht, -⟩
    · have hx : ¬StartsKept classify keep (x :: (xs ++ zs)) := not_startsKept_of_stop h
      have htail := ih (pos + 1)
      rw [scan_stop classify h]
      obtain ⟨rfl, rfl⟩ := List.append_eq_nil_iff.1 he
      exact iff_of_true rfl ⟨hx, htail.1 rfl⟩
    · rw [kept_scan_drop h ho, ih]
      exact ⟨fun hxs => ⟨not_startsKept_of_drop h ho, hxs⟩, fun hxs => hxs.2⟩
    · refine ⟨fun heq => ?_, fun hc => (hc.1 ⟨x, _, t, n, rfl, h, ht⟩).elim⟩
      -- the token kept here starts before the buffer does
      have hmem : (⟨pos, n + 1, t⟩ : Hit τ) ∈
          kept keep (scan classify (pos + 1 + xs.length) zs).1 := by
        rw [← heq, kept_scan_keep h ht]
        exact List.mem_cons_self
      have := le_pos_of_mem_scan classify _ _ _ (mem_kept.1 hmem).1
      simp only [] at this
      omega

/-! ## Streams scanned in pieces -/

variable (classify) in
/-- Scan `buf`, then each piece with what was left before it in front. A piece marked
`true` finds nothing left : the rest was thrown away in between. -/
def feed : ℕ → List α → List (Bool × List α) → List (Hit τ)
  | pos, buf, [] => (scan classify pos buf).1
  | pos, buf, (discard, c) :: es =>
    let r := scan classify pos buf
    let rest := if discard then [] else r.2
    r.1 ++ feed (pos + buf.length - rest.length) (rest ++ c) es

/-- Pieces with nothing thrown away. -/
def plain (cs : List (List α)) : List (Bool × List α) :=
  cs.map fun c => (false, c)

/-- Where the stream is cut, the first piece ending at `k`. -/
def cuts : ℕ → List (List α) → List ℕ
  | _, [] => []
  | k, c :: cs => k :: cuts (k + c.length) cs

theorem feed_stop {x : α} (h : classify [x] = .stop) (pos : ℕ) (c : List α)
    (cs : List (List α)) : feed classify pos [x] (plain (c :: cs)) =
      feed classify pos (x :: c) (plain cs) := by
  simp [plain, feed, scan_stop classify h]

theorem feed_advance {x : α} {xs : List α} {out : Option τ} {n : ℕ}
    (h : classify (x :: xs) = .advance out n) (hn : n ≤ xs.length) (pos : ℕ)
    (es : List (Bool × List α)) :
    feed classify pos (x :: xs) es = out.toList.map (Hit.mk pos (n + 1)) ++
      feed classify (pos + n + 1) (xs.drop n) es := by
  have hlen : pos + n + 1 + (xs.drop n).length = pos + (x :: xs).length := by
    simp only [List.length_drop, List.length_cons]
    omega
  cases es with
  | nil => simp [feed, scan_advance classify h]
  | cons e es =>
    obtain ⟨d, c⟩ := e
    simp only [feed, scan_advance classify h, List.append_assoc, hlen]

theorem kept_feed_keep {x : α} {xs : List α} {t : τ} {n : ℕ}
    (h : classify (x :: xs) = .advance (some t) n) (ht : keep t = true) (hn : n ≤ xs.length)
    (pos : ℕ) (es : List (Bool × List α)) :
    kept keep (feed classify pos (x :: xs) es) =
      ⟨pos, n + 1, t⟩ :: kept keep (feed classify (pos + n + 1) (xs.drop n) es) := by
  rw [feed_advance h hn, kept_append]
  simp [kept, ht]

theorem kept_feed_drop {x : α} {xs : List α} {out : Option τ}
    (h : classify (x :: xs) = .advance out 0) (ho : ∀ t ∈ out, keep t = false) (pos : ℕ)
    (es : List (Bool × List α)) :
    kept keep (feed classify pos (x :: xs) es) = kept keep (feed classify (pos + 1) xs es) := by
  rw [feed_advance h (Nat.zero_le _), kept_append, kept_eq_nil_of_drop ho, List.nil_append,
    List.drop_zero]

namespace SelfDelimiting

variable (hs : SelfDelimiting classify keep)
include hs

/-- A token that begins in a piece and is not found there has the end of the piece inside
it, past its first element. -/
theorem cut_inside {x : α} {xs zs : List α} {out : Option τ} {t : τ} {m : ℕ}
    (hpiece : classify (x :: xs) = .advance out 0) (ho : ∀ t ∈ out, keep t = false)
    (hwhole : classify (x :: (xs ++ zs)) = .advance (some t) m) (ht : keep t = true) :
    0 < xs.length ∧ xs.length < m := by
  constructor
  · refine List.length_pos_iff.2 ?_
    rintro rfl
    have hx := hs.wait x _ t m hwhole ht
    rw [hpiece] at hx
    cases hx
  · by_contra hm
    have hfound := hs.restrict x xs zs t m hwhole ht (Nat.not_lt.1 hm)
    rw [hpiece] at hfound
    cases hfound
    exact absurd ht (by simp [ho t rfl])

/-- Scanned in pieces, a stream gives the kept tokens of the whole stream unless a piece
ends inside one of them. A cut right after its first element does no harm. -/
theorem kept_feed (cs : List (List α)) (pos : ℕ) (buf : List α)
    (hcut : ∀ h ∈ kept keep (scan classify pos (buf ++ cs.flatten)).1,
      ∀ k ∈ cuts (pos + buf.length) cs, ¬(h.pos + 1 < k ∧ k < h.pos + h.len)) :
    kept keep (feed classify pos buf (plain cs)) =
      kept keep (scan classify pos (buf ++ cs.flatten)).1 := by
  induction cs generalizing pos buf with
  | nil => simp [plain, feed]
  | cons c cs ihc =>
    revert hcut
    induction pos, buf using scan_induction classify with
    | nil pos =>
      intro hcut
      simpa [plain, feed] using ihc pos c fun h hm k hk => hcut h hm k (List.mem_cons_of_mem _ hk)
    | stop pos x xs hv =>
      intro hcut
      obtain rfl := hs.stop_lone x xs hv
      rw [feed_stop hv]
      refine ihc pos (x :: c) fun h hm k hk => hcut h hm k (List.mem_cons_of_mem _ ?_)
      simpa [Nat.add_assoc, Nat.add_comm 1] using hk
    | advance pos x xs out n hv ih =>
      intro hcut
      rw [List.cons_append] at hcut ⊢
      rcases hs.verdict x xs with ⟨h, -⟩ | ⟨o, h, ho⟩ | ⟨t, m, h, ht, hm⟩
      · rw [hv] at h
        cases h
      · rw [hv] at h
        cases h
        rw [kept_feed_drop hv ho]
        simp only [List.drop_zero, Nat.add_zero] at ih
        rcases hs.verdict x (xs ++ (c :: cs).flatten) with ⟨hw, he⟩ | ⟨o, hw, ho'⟩ |
          ⟨t, m, hw, ht, -⟩
        · obtain ⟨rfl, hflat⟩ := List.append_eq_nil_iff.1 he
          rw [hflat, List.append_nil, hv] at hw
          cases hw
        · rw [kept_scan_drop hw ho'] at hcut ⊢
          refine ih fun h hm k hk => hcut h hm k ?_
          simpa [Nat.add_assoc, Nat.add_comm 1] using hk
        · -- the whole stream keeps a token here and the piece does not
          obtain ⟨hpos, hlt⟩ := hs.cut_inside hv ho hw ht
          have hin := hcut ⟨pos, m + 1, t⟩ (by rw [kept_scan_keep hw ht]; exact List.mem_cons_self)
            (pos + (x :: xs).length) List.mem_cons_self
          simp only [List.length_cons] at hin
          omega
      · rw [hv] at h
        cases h
        rw [kept_scan_keep (hs.extend x xs (c :: cs).flatten t n hv ht) ht,
          List.drop_append_of_le_length hm] at hcut ⊢
        rw [kept_feed_keep hv ht hm]
        refine congrArg _ (ih fun h hmem k hk => ?_)
        refine hcut h (List.mem_cons_of_mem _ hmem) k ?_
        have hlen : pos + n + 1 + (xs.drop n).length = pos + (x :: xs).length := by
          simp only [List.length_drop, List.length_cons]
          omega
        rwa [hlen] at hk

/-! ## Pieces thrown away -/

omit hs in
theorem le_pos_of_mem_feed (es : List (Bool × List α)) (pos : ℕ) (buf : List α) :
    ∀ h ∈ feed classify pos buf es, pos ≤ h.pos := by
  induction es generalizing pos buf with
  | nil => exact le_pos_of_mem_scan classify pos buf
  | cons e es ih =>
    obtain ⟨d, c⟩ := e
    intro h hm
    simp only [feed, List.mem_append] at hm
    rcases hm with hm | hm
    · exact le_pos_of_mem_scan classify pos buf h hm
    · have hle := ih _ _ h hm
      have hr : (if d = true then [] else (scan classify pos buf).2).length ≤ buf.length := by
        split_ifs
        · exact Nat.zero_le _
        · exact (scan_rest_suffix classify pos buf).length_le
      omega

/-- Dropping the lone first element of a buffer that does not start with a kept token
changes no kept token. -/
theorem kept_feed_tail {x : α} {c : List α} (hc : c ≠ []) (hx : ¬StartsKept classify keep (x :: c))
    (pos : ℕ) (es : List (Bool × List α)) :
    kept keep (feed classify pos (x :: c) es) = kept keep (feed classify (pos + 1) c es) := by
  rcases hs.verdict x c with ⟨-, rfl⟩ | ⟨out, h, ho⟩ | ⟨t, n, h, ht, -⟩
  · exact (hc rfl).elim
  · exact kept_feed_drop h ho pos es
  · exact (hx ⟨x, c, t, n, rfl, h, ht⟩).elim

/-- Pieces too short to hold a kept token next to a waiting element give none. -/
theorem kept_feed_short {N : ℕ} (hmin : ∀ ys, StartsKept classify keep ys → N + 1 < ys.length)
    {es : List (Bool × List α)} (hes : ∀ e ∈ es, e.2.length ≤ N) (pos : ℕ) {buf : List α}
    (hbuf : buf.length ≤ N + 1) : kept keep (feed classify pos buf es) = [] := by
  have hscan : ∀ pos (buf : List α), buf.length ≤ N + 1 →
      kept keep (scan classify pos buf).1 = [] := fun pos buf hbuf =>
    (hs.kept_scan_eq_nil pos buf).2 fun ys hys hk => by
      have := hmin ys hk
      have := hys.length_le
      omega
  induction es generalizing pos buf with
  | nil => exact hscan pos buf hbuf
  | cons e es ih =>
    obtain ⟨discard, c⟩ := e
    have hc : c.length ≤ N := hes (discard, c) List.mem_cons_self
    rw [feed, kept_append, hscan pos buf hbuf, List.nil_append]
    refine ih (fun e he => hes e (List.mem_cons_of_mem _ he)) _ ?_
    have hrest : (scan classify pos buf).2.length ≤ 1 := by
      rcases hs.rest_eq pos buf with h | ⟨x, h, -⟩ <;> simp [h]
    split_ifs
    · exact Nat.le_succ_of_le hc
    · rw [List.length_append]
      omega

/-- A piece with a kept token in it gives at least one. -/
theorem kept_feed_ne_nil {es : List (Bool × List α)} (pos : ℕ) (buf : List α)
    (h : ∃ e ∈ es, ∃ ys, ys <:+ e.2 ∧ StartsKept classify keep ys) :
    kept keep (feed classify pos buf es) ≠ [] := by
  induction es generalizing pos buf with
  | nil =>
    obtain ⟨e, he, -⟩ := h
    cases he
  | cons e es ih =>
    obtain ⟨discard, c⟩ := e
    obtain ⟨e', he', ys, hys, hk⟩ := h
    rw [feed, kept_append]
    refine List.append_ne_nil_of_right_ne_nil _ ?_
    rcases List.mem_cons.1 he' with rfl | he'
    · have hne := mt (hs.kept_scan_eq_nil (pos + buf.length -
          (if discard then [] else (scan classify pos buf).2).length)
        ((if discard then [] else (scan classify pos buf).2) ++ c)).1
        fun hnone => hnone ys (hys.trans (List.suffix_append _ c)) hk
      cases es with
      | nil => exact hne
      | cons e es =>
        rw [feed, kept_append]
        exact List.append_ne_nil_of_left_ne_nil hne _
    · exact ih _ _ ⟨e', he', ys, hys, hk⟩

omit hs in
variable (classify keep) in
/-- No discarded rest is the start of a kept token that the next piece completes. -/
def Harmless : List α → List (Bool × List α) → Prop
  | _, [] => True
  | buf, (discard, c) :: es =>
    let rest := (scan classify 0 buf).2
    (discard = true → rest ≠ [] → ¬StartsKept classify keep (rest ++ c)) ∧
      Harmless ((if discard then [] else rest) ++ c) es

omit hs in
theorem feed_keep (pos : ℕ) (buf c : List α) (es : List (Bool × List α)) :
    feed classify pos buf ((false, c) :: es) = (scan classify pos buf).1 ++
      feed classify (pos + buf.length - (scan classify pos buf).2.length)
        ((scan classify pos buf).2 ++ c) es :=
  rfl

omit hs in
theorem feed_discard (pos : ℕ) (buf c : List α) (es : List (Bool × List α)) :
    feed classify pos buf ((true, c) :: es) = (scan classify pos buf).1 ++
      feed classify (pos + buf.length) c es :=
  rfl

/-- Throwing away rests changes no kept token exactly when it is harmless. -/
theorem kept_feed_discard (es : List (Bool × List α)) (hne : ∀ e ∈ es, e.2 ≠ []) (pos : ℕ)
    (buf : List α) : kept keep (feed classify pos buf es) =
      kept keep (feed classify pos buf (plain (es.map Prod.snd))) ↔
        Harmless classify keep buf es := by
  induction es generalizing pos buf with
  | nil => simp [plain, Harmless]
  | cons e es ih =>
    obtain ⟨discard, c⟩ := e
    have hc : c ≠ [] := hne (discard, c) List.mem_cons_self
    have ih' := ih fun e he => hne e (List.mem_cons_of_mem _ he)
    have hrest := scan_rest_pos classify pos buf
    have hplain : plain (((discard, c) :: es).map Prod.snd) =
        (false, c) :: plain (es.map Prod.snd) := rfl
    rw [hplain, feed_keep, kept_append, Harmless, ← hrest]
    cases discard with
    | false =>
      rw [feed_keep, kept_append, List.append_cancel_left_eq, ih']
      simp
    | true =>
      rw [feed_discard, kept_append, List.append_cancel_left_eq]
      rcases hs.rest_eq pos buf with hr | ⟨x, hr, -⟩
      · simp [hr, ih']
      · obtain ⟨p, hp⟩ : ∃ p, pos + buf.length = p + 1 := by
          have hle := (scan_rest_suffix classify pos buf).length_le
          rw [hr, List.length_singleton] at hle
          exact ⟨pos + buf.length - 1, by omega⟩
        simp only [hr, hp, forall_const, ne_eq, List.cons_ne_self, not_false_eq_true, if_true,
          List.nil_append, List.singleton_append, List.length_singleton, Nat.add_sub_cancel]
        by_cases hx : StartsKept classify keep (x :: c)
        · simp only [hx, not_true_eq_false, false_and, iff_false]
          obtain ⟨_, _, t, n, he, h, ht⟩ := hx
          obtain ⟨rfl, rfl⟩ := List.cons.inj he
          -- the token at the discarded element is found in one run only
          rw [kept_feed_keep h ht (hs.within _ _ t n h ht)]
          intro heq
          have hmem : (⟨p, n + 1, t⟩ : Hit τ) ∈ kept keep (feed classify (p + 1) c es) := by
            rw [heq]
            exact List.mem_cons_self
          have := le_pos_of_mem_feed es _ _ _ (mem_kept.1 hmem).1
          simp only [] at this
          omega
        · rw [hs.kept_feed_tail hc hx, ih']
          simp [hx]

end SelfDelimiting

end Scanner
