import Xlab.ConfigFile
import Xlab.Occurrence

/-!
# Searching a string

`xlab_string_search_n` looks for a substring itself, from each of the first `len` positions of the
string on, and `xlab_string_search` calls the C library. The length bounds the positions where an
occurrence may start, but not where it ends.

`search_n_iff` : the result is the first occurrence within the first `len` bytes exactly when
there is one, or no occurrence starts there. A length that is not shorter than the string makes
the two searches agree.
-/

open CStr Occurrence

namespace Xlab

/-- `XLAB_STR_SENSITIVE` and `XLAB_STR_INSENSITIVE`. -/
inductive StrCase where
  | sensitive
  | insensitive
  deriving DecidableEq, Repr

/-- The comparison of `*s` and `*q`. -/
def StrCase.compare : StrCase → UInt8 → UInt8 → Bool
  | .sensitive, s, q => s == q
  | .insensitive, s, q => toUpper q == toUpper s

/-- The inner loop : the rest of `search` from the first byte on that is not met. -/
def matchLoop (mode : StrCase) : List UInt8 → List UInt8 → Except Fault (List UInt8)
  | [], _ => .error .outOfBounds
  | c :: s, q =>
    if c = 0 then .ok (c :: s)
    else
      match q with
      | [] => .error .outOfBounds
      | d :: q => if mode.compare c d then matchLoop mode s q else .ok (c :: s)

/-- The outer loop, with `p - string` as `pos`. -/
def searchLoop (mode : StrCase) (search : List UInt8) (len : ℤ) :
    List UInt8 → ℕ → ℤ → Except Fault ℤ
  | p, pos, i =>
    match matchLoop mode search p with
    | .error f => .error f
    | .ok s =>
      if s.head? = some 0 then .ok (toInt pos)
      else if len ≤ i + 1 then .ok (-1)
      else
        match p with
        | [] => .error .outOfBounds
        | c :: p => if c = 0 then .ok (-1) else searchLoop mode search len p (pos + 1) (i + 1)

/-- `_xlab_string_search`. -/
def stringSearchBase (string search : List UInt8) (mode : StrCase) (len : ℤ) : Except Fault ℤ :=
  if len ≤ 0 then
    let p := match mode with
      | .sensitive => strstr (cstr string) (cstr search)
      | .insensitive => strcasestr (cstr string) (cstr search)
    match p with
    | some p => .ok (toInt p)
    | none => .ok (-1)
  else searchLoop mode search len string 0 0

/-- `xlab_string_search`. -/
def stringSearch (haystack needle : List UInt8) (mode : StrCase) : Except Fault ℤ :=
  stringSearchBase haystack needle mode (-1)

/-- `xlab_string_search_n`. -/
def stringSearchN (haystack needle : List UInt8) (mode : StrCase) (len : ℤ) : Except Fault ℤ :=
  stringSearchBase haystack needle mode len

/-- The bytes are the same, up to the case of letters if it does not count. -/
def StrCase.Same : StrCase → UInt8 → UInt8 → Prop
  | .sensitive, c, d => c = d
  | .insensitive, c, d => toLower c = toLower d

/-- An occurrence ends within the first `len` bytes of the string. -/
def Within (mode : StrCase) (haystack needle : List UInt8) (len : ℤ) (p : ℕ) : Prop :=
  OccursAt mode.Same needle haystack p ∧ (p + needle.length : ℤ) ≤ min len haystack.length

/-! ## The loops -/

variable {mode : StrCase} {haystack needle : List UInt8} {len : ℤ}

theorem StrCase.compare_iff {c d : UInt8} : mode.compare c d = true ↔ mode.Same c d := by
  cases mode with
  | sensitive => exact beq_iff_eq
  | insensitive => exact beq_iff_eq.trans (eq_comm.trans toUpper_eq_iff)

/-- No byte of a string is the same as the zero behind it. -/
theorem StrCase.not_same_zero {c : UInt8} (hc : c ≠ 0) : ¬mode.Same c 0 := by
  cases mode with
  | sensitive => exact hc
  | insensitive => exact fun h => hc (toLower_eq_zero h)

/-- The inner loop meets all of `search` if it is the same as the bytes there. -/
theorem matchLoop_eq_ok (mode : StrCase) (hneedle : 0 ∉ needle) (text stale stale' : List UInt8) :
    ∃ s, matchLoop mode (needle ++ 0 :: stale') (text ++ 0 :: stale) = .ok s ∧
      (s.head? = some 0 ↔ List.Forall₂ mode.Same needle (text.take needle.length)) := by
  induction needle generalizing text with
  | nil => exact ⟨0 :: stale', rfl, iff_of_true rfl List.Forall₂.nil⟩
  | cons c needle ih =>
    rw [List.mem_cons, not_or] at hneedle
    have hc : c ≠ 0 := Ne.symm hneedle.1
    have hhead : (c :: (needle ++ 0 :: stale')).head? ≠ some 0 := fun h => hc (Option.some.inj h)
    cases text with
    | nil =>
      have hdiff : ¬mode.compare c 0 = true := mt StrCase.compare_iff.1 (StrCase.not_same_zero hc)
      refine ⟨c :: (needle ++ 0 :: stale'), (if_neg hc).trans (if_neg hdiff),
        iff_of_false hhead ?_⟩
      rw [List.take_nil, List.forall₂_nil_right_iff]
      exact List.cons_ne_nil _ _
    | cons d text =>
      rw [List.length_cons, List.take_succ_cons, List.forall₂_cons]
      by_cases hsame : mode.compare c d = true
      · obtain ⟨s, hs, hiff⟩ := ih hneedle.2 text
        refine ⟨s, (if_neg hc).trans ((if_pos hsame).trans hs), ?_⟩
        rw [hiff, and_iff_right (StrCase.compare_iff.1 hsame)]
      · exact ⟨c :: (needle ++ 0 :: stale'), (if_neg hc).trans (if_neg hsame),
          iff_of_false hhead fun h => hsame (StrCase.compare_iff.2 h.1)⟩

theorem searchLoop_of_match {search p s : List UInt8} (hmatch : matchLoop mode search p = .ok s)
    (hs : s.head? = some 0) (pos : ℕ) (i : ℤ) :
    searchLoop mode search len p pos i = .ok (toInt pos) := by
  cases p <;> rw [searchLoop, hmatch] <;> exact if_pos hs

theorem searchLoop_of_limit {search p s : List UInt8} (hmatch : matchLoop mode search p = .ok s)
    (hs : s.head? ≠ some 0) (pos : ℕ) {i : ℤ} (hlen : len ≤ i + 1) :
    searchLoop mode search len p pos i = .ok (-1) := by
  cases p <;> rw [searchLoop, hmatch] <;> exact (if_neg hs).trans (if_pos hlen)

theorem searchLoop_cons {search p s : List UInt8} {c : UInt8}
    (hmatch : matchLoop mode search (c :: p) = .ok s) (hs : s.head? ≠ some 0) (pos : ℕ) {i : ℤ}
    (hlen : ¬len ≤ i + 1) : searchLoop mode search len (c :: p) pos i =
      if c = 0 then .ok (-1) else searchLoop mode search len p (pos + 1) (i + 1) := by
  rw [searchLoop, hmatch]
  exact (if_neg hs).trans (if_neg hlen)

/-- Where `search` occurs the loop ends with the position. -/
theorem searchLoop_of_occurs {search p s : List UInt8} {pos : ℕ}
    (hmatch : matchLoop mode search p = .ok s) (hs : s.head? = some 0)
    (hocc : OccursAt mode.Same needle haystack pos) (hpos : (pos : ℤ) < len)
    (hint : len < 2 ^ 31) (i : ℤ) : ∃ r, searchLoop mode search len p pos i = .ok r ∧
      First (fun p => pos ≤ p ∧ OccursAt mode.Same needle haystack p ∧ (p : ℤ) < len) r := by
  refine ⟨pos, ?_, .of_isLeast ⟨⟨Nat.le_refl _, hocc, hpos⟩, fun q hq => hq.1⟩⟩
  rw [searchLoop_of_match hmatch hs, toInt_of_range (by omega) (by omega)]

/-- The outer loop finds the first occurrence that starts at `pos` or behind it, and before
`len`. -/
theorem searchLoop_eq_ok (mode : StrCase) (hneedle : 0 ∉ needle) (stale stale' : List UInt8)
    (hint : len < 2 ^ 31) {text : List UInt8} (hzero : 0 ∉ text) {pos : ℕ}
    (htext : haystack.drop pos = text) (hpos : (pos : ℤ) < len) :
    ∃ r, searchLoop mode (needle ++ 0 :: stale') len (text ++ 0 :: stale) pos pos = .ok r ∧
      First (fun p => pos ≤ p ∧ OccursAt mode.Same needle haystack p ∧ (p : ℤ) < len) r := by
  induction text generalizing pos with
  | nil =>
    obtain ⟨s, hmatch, hiff⟩ := matchLoop_eq_ok mode hneedle [] stale stale'
    rw [← htext] at hiff
    by_cases hs : s.head? = some 0
    · exact searchLoop_of_occurs hmatch hs (hiff.1 hs) hpos hint pos
    · refine ⟨-1, ?_, .of_none fun p hp => ?_⟩
      · by_cases hlen : len ≤ pos + 1
        · exact searchLoop_of_limit hmatch hs pos hlen
        · exact (searchLoop_cons hmatch hs pos hlen).trans (if_pos rfl)
      · -- behind the end of the string only the empty string occurs
        have hne : needle ≠ [] := by
          rintro rfl
          exact hs (hiff.2 List.Forall₂.nil)
        have hle := hp.2.1.le hne
        have hend := List.drop_eq_nil_iff.1 htext
        have := List.length_pos_iff.2 hne
        omega
  | cons d text ih =>
    rw [List.mem_cons, not_or] at hzero
    obtain ⟨s, hmatch, hiff⟩ := matchLoop_eq_ok mode hneedle (d :: text) stale stale'
    rw [← htext] at hiff
    by_cases hs : s.head? = some 0
    · exact searchLoop_of_occurs hmatch hs (hiff.1 hs) hpos hint pos
    have hnot : ¬OccursAt mode.Same needle haystack pos := mt hiff.2 hs
    by_cases hlen : len ≤ pos + 1
    · refine ⟨-1, searchLoop_of_limit hmatch hs pos hlen, .of_none fun p hp => ?_⟩
      obtain rfl : p = pos := by omega
      exact hnot hp.2.1
    · have hnext : haystack.drop (pos + 1) = text := by
        rw [← List.drop_drop, htext]
        rfl
      obtain ⟨r, hrun, hfirst⟩ := ih hzero.2 hnext (by omega)
      refine ⟨r, ?_, hfirst.mono ?_ fun p hp => ⟨by have := hp.1.1; omega, hp.1.2⟩⟩
      · exact (searchLoop_cons hmatch hs pos hlen).trans ((if_neg (Ne.symm hzero.1)).trans hrun)
      · rintro p ⟨hle, hocc, hlt⟩
        exact ⟨Nat.lt_of_le_of_ne hle fun he => hnot (he ▸ hocc), hocc, hlt⟩

/-- What the bounded search returns : the first occurrence that starts before `len`. -/
theorem stringSearchN_eq_ok (mode : StrCase) (hhay : 0 ∉ haystack) (hneedle : 0 ∉ needle)
    (stale stale' : List UInt8) (hlen : 0 < len) (hint : len < 2 ^ 31) :
    ∃ r, stringSearchN (haystack ++ 0 :: stale) (needle ++ 0 :: stale') mode len = .ok r ∧
      First (fun p => OccursAt mode.Same needle haystack p ∧ (p : ℤ) < len) r := by
  obtain ⟨r, hrun, hfirst⟩ := searchLoop_eq_ok mode hneedle stale stale' hint hhay
    (List.drop_zero : haystack.drop 0 = haystack) hlen
  exact ⟨r, (if_neg (by omega)).trans hrun,
    hfirst.mono (fun p hp => ⟨Nat.zero_le p, hp⟩) fun p hp => hp.1.2⟩

/-! ## The search of the C library -/

theorem strstr_first (haystack needle : List UInt8) :
    First (OccursAt (· = ·) needle haystack) ((strstr haystack needle).elim (-1) Nat.cast) := by
  have hiff (p : ℕ) : needle.isPrefixOf (haystack.drop p) = true ↔
      OccursAt (· = ·) needle haystack p := List.isPrefixOf_iff_prefix.trans occursAt_eq_iff.symm
  refine (First.find?_range fun p hp => ?_).congr hiff
  by_cases hne : needle = []
  · subst hne
    exact ⟨0, Nat.succ_pos _, (hiff 0).2 (occursAt_nil haystack 0)⟩
  · have hle := ((hiff p).1 hp).le hne
    exact ⟨p, by omega, hp⟩

theorem strcasestr_first (haystack needle : List UInt8) :
    First (OccursAt StrCase.insensitive.Same needle haystack)
      ((strcasestr haystack needle).elim (-1) Nat.cast) :=
  (strstr_first _ _).congr fun _ => occursAt_map

/-- The position the C library finds is an `int` if the length is. -/
theorem match_eq_ok (mode : StrCase) (o : Option ℕ) (hint : (haystack.length : ℤ) < 2 ^ 31) :
    First (OccursAt mode.Same needle haystack) (o.elim (-1) Nat.cast) →
      (match o with | some p => .ok (toInt p) | none => .ok (-1) : Except Fault ℤ) =
        .ok (o.elim (-1) Nat.cast) := by
  intro hfirst
  cases o with
  | none => rfl
  | some p =>
    have hp : IsLeast {n | OccursAt mode.Same needle haystack n} p := hfirst.isLeast
    have hle : p ≤ haystack.length := by
      by_cases hne : needle = []
      · subst hne
        exact (hp.2 (occursAt_nil haystack 0)).trans (Nat.zero_le _)
      · have := hp.1.le hne
        omega
    exact congrArg Except.ok (toInt_of_range (by omega) (by omega))

/-- What the search of the whole string returns : the first occurrence. -/
theorem stringSearch_eq_ok (mode : StrCase) (hhay : 0 ∉ haystack) (hneedle : 0 ∉ needle)
    (stale stale' : List UInt8) (hint : (haystack.length : ℤ) < 2 ^ 31) :
    ∃ r, stringSearch (haystack ++ 0 :: stale) (needle ++ 0 :: stale') mode = .ok r ∧
      First (OccursAt mode.Same needle haystack) r := by
  have hcstr := cstr_append_zero hhay stale
  have hcstr' := cstr_append_zero hneedle stale'
  cases mode with
  | sensitive =>
    have hfirst := strstr_first haystack needle
    refine ⟨_, ?_, hfirst⟩
    unfold stringSearch stringSearchBase
    rw [if_pos (by decide), hcstr, hcstr']
    exact match_eq_ok .sensitive _ hint hfirst
  | insensitive =>
    have hfirst := strcasestr_first haystack needle
    refine ⟨_, ?_, hfirst⟩
    unfold stringSearch stringSearchBase
    rw [if_pos (by decide), hcstr, hcstr']
    exact match_eq_ok .insensitive _ hint hfirst

/-! ## The bounded search -/

/-- The bounded search finds the first occurrence within the first `len` bytes exactly if there
is one, or none starts there. -/
theorem first_within_iff {r : ℤ} (hlen : 0 < len)
    (hfirst : First (fun p => OccursAt mode.Same needle haystack p ∧ (p : ℤ) < len) r) :
    First (Within mode haystack needle len) r ↔
      (∃ p, OccursAt mode.Same needle haystack p ∧ (p + needle.length : ℤ) ≤ len) ∨
        ∀ p, OccursAt mode.Same needle haystack p → len ≤ p := by
  by_cases hne : needle = []
  · subst hne
    have hzero : First (Within mode haystack [] len) (0 : ℕ) :=
      .of_isLeast ⟨⟨occursAt_nil haystack 0, by simp; omega⟩, fun q _ => Nat.zero_le q⟩
    have hr : r = (0 : ℕ) := hfirst.unique
      (.of_isLeast ⟨⟨occursAt_nil haystack 0, hlen⟩, fun q _ => Nat.zero_le q⟩)
    exact iff_of_true (hr ▸ hzero) (Or.inl ⟨0, occursAt_nil haystack 0, by simp; omega⟩)
  · have hpos := List.length_pos_iff.2 hne
    have hsub : ∀ p, Within mode haystack needle len p →
        OccursAt mode.Same needle haystack p ∧ (p : ℤ) < len :=
      fun p hp => ⟨hp.1, by have := hp.2; omega⟩
    constructor
    · intro hwithin
      rcases hwithin with ⟨p, hp, -⟩ | ⟨-, rfl⟩
      · exact Or.inl ⟨p, hp.1.1, hp.1.2.trans (min_le_left _ _)⟩
      · refine Or.inr fun p hp => not_lt.1 fun hlt => ?_
        exact hfirst.none_of_neg p ⟨hp, hlt⟩
    · rintro (⟨p, hp, hend⟩ | hnone)
      · refine hfirst.mono hsub fun q hq => ⟨hq.1.1, le_min ?_ ?_⟩
        · have := hq.2 ⟨hp, by omega⟩
          omega
        · exact_mod_cast hq.1.1.le hne
      · have hno : ∀ p, ¬(OccursAt mode.Same needle haystack p ∧ (p : ℤ) < len) :=
          fun p hp => absurd (hnone p hp.1) (not_le.2 hp.2)
        exact hfirst.mono hsub fun p hp => absurd hp.1 (hno p)

/-- A bound that is not shorter than the string does not matter. -/
theorem first_of_length_le {r : ℤ} (hlen : 0 < len) (hle : (haystack.length : ℤ) ≤ len)
    (hfirst : First (OccursAt mode.Same needle haystack) r) :
    First (fun p => OccursAt mode.Same needle haystack p ∧ (p : ℤ) < len) r := by
  refine hfirst.mono (fun p hp => hp.1) fun p hp => ⟨hp.1, ?_⟩
  by_cases hne : needle = []
  · subst hne
    have : p ≤ 0 := hp.2 (occursAt_nil haystack 0)
    omega
  · have := hp.1.le hne
    have := List.length_pos_iff.2 hne
    omega

/-- The bounded search returns the first occurrence within the first `len` bytes, and agrees with
the other one from the length of the string on, exactly if an occurrence ends within these bytes
or none starts there. -/
theorem string_search_n_iff (mode : StrCase) (hhay : 0 ∉ haystack) (hneedle : 0 ∉ needle)
    (stale stale' : List UInt8) (hlen : 0 < len) (hint : len < 2 ^ 31) :
    ((∃ r, stringSearchN (haystack ++ 0 :: stale) (needle ++ 0 :: stale') mode len = .ok r ∧
        First (Within mode haystack needle len) r) ∧
      ((haystack.length : ℤ) ≤ len →
        stringSearchN (haystack ++ 0 :: stale) (needle ++ 0 :: stale') mode len =
          stringSearch (haystack ++ 0 :: stale) (needle ++ 0 :: stale') mode)) ↔
      (∃ p, OccursAt mode.Same needle haystack p ∧ (p + needle.length : ℤ) ≤ len) ∨
        ∀ p, OccursAt mode.Same needle haystack p → len ≤ p := by
  obtain ⟨r, hrun, hfirst⟩ := stringSearchN_eq_ok mode hhay hneedle stale stale' hlen hint
  rw [← first_within_iff hlen hfirst]
  constructor
  · rintro ⟨⟨r', hrun', hwithin⟩, -⟩
    exact Except.ok.inj (hrun.symm.trans hrun') ▸ hwithin
  · refine fun hwithin => ⟨⟨r, hrun, hwithin⟩, fun hle => ?_⟩
    obtain ⟨r', hrun', hfirst'⟩ := stringSearch_eq_ok mode hhay hneedle stale stale'
      (by omega)
    rw [hrun, hrun', hfirst.unique (first_of_length_le hlen hle hfirst')]

/-- `"B"` occurs in `"abc"` at 1 if the case does not count, which is within the first two
bytes. -/
theorem string_search_n_iff_abc :
    stringSearchN [0x61, 0x62, 0x63, 0] [0x42, 0] .insensitive 2 = .ok 1 ∧
      First (Within .insensitive [0x61, 0x62, 0x63] [0x42] 2) 1 := by
  have hocc : OccursAt StrCase.insensitive.Same [0x42] [0x61, 0x62, 0x63] 1 :=
    .cons rfl .nil
  obtain ⟨⟨r, hrun, hfirst⟩, -⟩ := (string_search_n_iff .insensitive
    (by decide : (0 : UInt8) ∉ [0x61, 0x62, 0x63]) (by decide : (0 : UInt8) ∉ [0x42]) [] []
    (by decide : (0 : ℤ) < 2) (by decide)).2 (Or.inl ⟨1, hocc, by decide⟩)
  have hone : stringSearchN [0x61, 0x62, 0x63, 0] [0x42, 0] .insensitive 2 = .ok 1 := rfl
  exact ⟨hone, Except.ok.inj (hone.symm.trans hrun) ▸ hfirst⟩

/-- `"ab"` is found in the first byte of `"ab"`. -/
theorem search_passes_limit : ¬∃ r,
    stringSearchN ([0x61, 0x62] ++ [0]) ([0x61, 0x62] ++ [0]) .sensitive 1 = .ok r ∧
      First (Within .sensitive [0x61, 0x62] [0x61, 0x62] 1) r := by
  rintro ⟨r, hrun, hfirst⟩
  have hzero : stringSearchN ([0x61, 0x62] ++ [0]) ([0x61, 0x62] ++ [0]) .sensitive 1 =
      .ok (0 : ℕ) := rfl
  obtain rfl := Except.ok.inj (hzero.symm.trans hrun)
  have hend := hfirst.isLeast.1.2
  exact absurd hend (by decide)

end Xlab
