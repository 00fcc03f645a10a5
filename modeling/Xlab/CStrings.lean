import Mathlib.Algebra.Group.Int.Defs
import Mathlib.Algebra.GroupWithZero.Nat
import Mathlib.Data.Int.Init
import Mathlib.Data.List.DropRight
import Mathlib.Tactic.Common

/-!
# Strings in C

A string is the bytes of a buffer up to the first zero (`cstr`). Here is what the C library
does to strings : the character classes, comparison without case, `strtol`, and the lines
`fgets` cuts a file into. The conversions of a `long` to a shorter type keep its low bits.
-/

namespace CStr

/-- `'\n'`. -/
def newline : UInt8 := 0x0A

/-- `'\r'`. -/
def carriage : UInt8 := 0x0D

/-- The string at the start of a buffer. -/
def cstr (buf : List UInt8) : List UInt8 :=
  buf.takeWhile (· ≠ 0)

/-- `isblank`. -/
def isBlank (c : UInt8) : Bool :=
  c == 0x20 || c == 0x09

/-- `isspace`. -/
def isSpace (c : UInt8) : Bool :=
  c == 0x20 || (0x09 ≤ c && c ≤ 0x0D)

/-- `isdigit`. -/
def isDigit (c : UInt8) : Bool :=
  0x30 ≤ c && c ≤ 0x39

/-- `tolower`. -/
def toLower (c : UInt8) : UInt8 :=
  if 0x41 ≤ c && c ≤ 0x5A then c + 0x20 else c

/-- `toupper`. -/
def toUpper (c : UInt8) : UInt8 :=
  if 0x61 ≤ c && c ≤ 0x7A then c - 0x20 else c

/-- `strcasecmp` gives 0. -/
def sameNoCase (s t : List UInt8) : Bool :=
  s.map toLower == t.map toLower

/-- `strstr`, as the index of the first occurrence. -/
def strstr (haystack needle : List UInt8) : Option ℕ :=
  (List.range (haystack.length + 1)).find? fun p => needle.isPrefixOf (haystack.drop p)

/-- `strcasestr`, as the index of the first occurrence. -/
def strcasestr (haystack needle : List UInt8) : Option ℕ :=
  strstr (haystack.map toLower) (needle.map toLower)

/-- The value of decimal digits. -/
def decimal (ds : List UInt8) : ℕ :=
  ds.foldl (fun n c => 10 * n + (c.toNat - 48)) 0

/-- `strtol` in base 10, for a `long` of `bits` bits. A value out of range is clamped. -/
def strtol (bits : ℕ) (s : List UInt8) : ℤ :=
  let t := s.dropWhile isSpace
  let digits := (if t.head? = some 0x2D ∨ t.head? = some 0x2B then t.tail else t).takeWhile isDigit
  if t.head? = some 0x2D then max (-2 ^ (bits - 1)) (-decimal digits)
  else min (2 ^ (bits - 1) - 1) (decimal digits)

/-- The text is a decimal integer. -/
inductive Writes : List UInt8 → ℤ → Prop
  | plain {ds : List UInt8} (hne : ds ≠ []) (h : ∀ c ∈ ds, isDigit c = true) :
    Writes ds (decimal ds)
  | plus {ds : List UInt8} (hne : ds ≠ []) (h : ∀ c ∈ ds, isDigit c = true) :
    Writes (0x2B :: ds) (decimal ds)
  | minus {ds : List UInt8} (hne : ds ≠ []) (h : ∀ c ∈ ds, isDigit c = true) :
    Writes (0x2D :: ds) (-decimal ds)

/-- The decimal digits of a number. -/
def natText (n : ℕ) : List UInt8 :=
  (Nat.toDigits 10 n).map fun c => UInt8.ofNat c.toNat

/-- The decimal text of an integer. -/
def intText (v : ℤ) : List UInt8 :=
  if v < 0 then 0x2D :: natText v.natAbs else natText v.natAbs

/-- The `long` of `bits` bits closest to `v`. -/
def toLong (bits : ℕ) (v : ℤ) : ℤ :=
  max (-2 ^ (bits - 1)) (min (2 ^ (bits - 1) - 1) v)

/-- A conversion to `int`. -/
def toInt (n : ℤ) : ℤ :=
  n.bmod (2 ^ 32)

/-- A conversion to `unsigned int`. -/
def toUInt (n : ℤ) : ℕ :=
  (n % 2 ^ 32).toNat

/-- A conversion to `short`. -/
def toShort (n : ℤ) : ℤ :=
  n.bmod (2 ^ 16)

/-- A string without the newline at its end, and the carriage return before it. -/
def cutEol (s : List UInt8) : List UInt8 :=
  if s.getLast? = some newline then
    if s.dropLast.getLast? = some carriage then s.dropLast.dropLast else s.dropLast
  else s

/-- What `fgets(buf, size, f)` reads, call after call, from a file with the bytes `file`. `acc`
is what the call under way has read. -/
def fgetsAll (size : ℕ) : List UInt8 → List UInt8 → List (List UInt8)
  | acc, [] => if acc = [] then [] else [acc]
  | acc, c :: file =>
    if c = newline ∨ size ≤ acc.length + 2 then (acc ++ [c]) :: fgetsAll size [] file
    else fgetsAll size (acc ++ [c]) file

/-! ## The string at the start of a buffer -/

theorem cstr_append_zero {s : List UInt8} (h : (0 : UInt8) ∉ s) (t : List UInt8) :
    cstr (s ++ 0 :: t) = s := by
  have hs : ∀ c ∈ s, decide (c ≠ 0) = true := fun c hc => by
    simpa using ne_of_mem_of_not_mem hc h
  rw [cstr, List.takeWhile_append_of_pos hs, List.takeWhile_cons_of_neg (by simp),
    List.append_nil]

theorem cstr_of_not_mem {s : List UInt8} (h : (0 : UInt8) ∉ s) : cstr s = s :=
  List.takeWhile_eq_self_iff.2 fun c hc => by simpa using ne_of_mem_of_not_mem hc h

theorem cstr_cons {c : UInt8} (h : c ≠ 0) (s : List UInt8) : cstr (c :: s) = c :: cstr s :=
  List.takeWhile_cons_of_pos (by simpa using h)

theorem zero_not_mem_cstr (buf : List UInt8) : (0 : UInt8) ∉ cstr buf := fun h => by
  simpa using List.mem_takeWhile_imp h

theorem cstr_eq_nil_iff {buf : List UInt8} (h : buf ≠ []) : cstr buf = [] ↔ buf.head? = some 0 := by
  obtain ⟨c, s, rfl⟩ := List.exists_cons_of_ne_nil h
  rw [List.head?_cons, Option.some.injEq]
  by_cases hc : c = 0
  · rw [hc]
    exact iff_of_true rfl rfl
  · rw [cstr_cons hc]
    exact iff_of_false (List.cons_ne_nil _ _) hc

/-- What follows a zero does not belong to the string. -/
theorem cstr_append_zero_eq (s t : List UInt8) : cstr (s ++ 0 :: t) = cstr s := by
  induction s with
  | nil => rfl
  | cons c s ih =>
    by_cases hc : c = 0
    · rw [hc]
      rfl
    · rw [List.cons_append, cstr_cons hc, cstr_cons hc, ih]

/-- What stands behind a string is nothing or starts with a zero. -/
theorem exists_eq_cstr_append (buf : List UInt8) :
    ∃ stale, buf = cstr buf ++ stale ∧ ∀ k, cstr (stale.take k) = [] := by
  induction buf with
  | nil => exact ⟨[], rfl, fun k => by rw [List.take_nil]; rfl⟩
  | cons c buf ih =>
    by_cases hc : c = 0
    · refine ⟨c :: buf, by rw [hc]; rfl, fun k => ?_⟩
      cases k with
      | zero => rfl
      | succ k =>
        rw [List.take_succ_cons, hc]
        rfl
    · obtain ⟨stale, hbuf, hstale⟩ := ih
      refine ⟨stale, ?_, hstale⟩
      rw [cstr_cons hc, List.cons_append, ← hbuf]

/-- A string ends at a zero, unless it fills the buffer. -/
theorem getD_cstr_length (buf : List UInt8) : buf.getD (cstr buf).length 0 = 0 := by
  induction buf with
  | nil => rfl
  | cons c buf ih =>
    by_cases hc : c = 0
    · rw [hc]
      rfl
    · rw [cstr_cons hc, List.length_cons, List.getD_cons_succ, ih]

theorem cstr_length_le {buf : List UInt8} {j : ℕ} (h : buf[j]? = some 0) :
    (cstr buf).length ≤ j := by
  induction buf generalizing j with
  | nil => cases h
  | cons c buf ih =>
    by_cases hc : c = 0
    · rw [hc]
      exact Nat.zero_le j
    · cases j with
      | zero => exact absurd (Option.some.inj h) hc
      | succ j =>
        rw [cstr_cons hc, List.length_cons]
        exact Nat.succ_le_succ (ih h)

/-! ## Letters -/

theorem toUpper_toLower (c : UInt8) : toUpper (toLower c) = toUpper c := by
  unfold toUpper toLower
  simp only [Bool.and_eq_true, decide_eq_true_eq]
  split_ifs <;> grind

theorem toLower_toUpper (c : UInt8) : toLower (toUpper c) = toLower c := by
  unfold toUpper toLower
  simp only [Bool.and_eq_true, decide_eq_true_eq]
  split_ifs <;> grind

/-- It does not matter to which case letters are brought before they are compared. -/
theorem toUpper_eq_iff {c d : UInt8} : toUpper c = toUpper d ↔ toLower c = toLower d := by
  constructor
  · intro h
    rw [← toLower_toUpper c, h, toLower_toUpper]
  · intro h
    rw [← toUpper_toLower c, h, toUpper_toLower]

theorem toLower_eq_zero {c : UInt8} (h : toLower c = 0) : c = 0 := by
  unfold toLower at h
  split_ifs at h with hc
  · grind
  · exact h

/-! ## Decimal integers -/

theorem not_isSpace_of_isDigit {c : UInt8} (h : isDigit c = true) : isSpace c = false := by
  rw [isDigit, Bool.and_eq_true, decide_eq_true_eq, decide_eq_true_eq] at h
  rw [isSpace, Bool.or_eq_false_iff, Bool.and_eq_false_iff]
  refine ⟨beq_false_of_ne ?_, Or.inr (decide_eq_false ?_)⟩
  · rintro rfl
    exact absurd h.1 (by decide)
  · exact fun hle => absurd (UInt8.le_trans h.1 hle) (by decide)

/-- `strtol` reads digits as they are, and takes the closest `long`. -/
theorem strtol_of_writes {bits : ℕ} {text : List UInt8} {v : ℤ} (h : Writes text v) :
    strtol bits text = toLong bits v := by
  have hpow : (1 : ℤ) ≤ 2 ^ (bits - 1) := by
    have := Int.pow_pos (n := 2) (m := bits - 1) (by decide)
    omega
  rw [toLong]
  cases h with
  | @plain ds hne hdig =>
    obtain ⟨c, ds, rfl⟩ := List.exists_cons_of_ne_nil hne
    have hc : isDigit c = true := hdig c List.mem_cons_self
    have hdrop : (c :: ds).dropWhile isSpace = c :: ds :=
      List.dropWhile_cons_of_neg (by simp [not_isSpace_of_isDigit hc])
    have htake : (c :: ds).takeWhile isDigit = c :: ds := List.takeWhile_eq_self_iff.2 hdig
    have hminus : ¬c = 0x2D := by
      rintro rfl
      exact absurd hc (by decide)
    have hplus : ¬c = 0x2B := by
      rintro rfl
      exact absurd hc (by decide)
    simp only [strtol, hdrop, List.head?_cons, Option.some.injEq, hminus, hplus, or_self, if_false,
      htake]
    omega
  | @plus ds hne hdig =>
    have hdrop : (0x2B :: ds).dropWhile isSpace = 0x2B :: ds :=
      List.dropWhile_cons_of_neg (by decide)
    have htake : ds.takeWhile isDigit = ds := List.takeWhile_eq_self_iff.2 hdig
    have hminus : ¬(0x2B : UInt8) = 0x2D := by decide
    simp only [strtol, hdrop, List.head?_cons, Option.some.injEq, hminus, or_true, if_true,
      if_false, List.tail_cons, htake]
    omega
  | @minus ds hne hdig =>
    have hdrop : (0x2D :: ds).dropWhile isSpace = 0x2D :: ds :=
      List.dropWhile_cons_of_neg (by decide)
    have htake : ds.takeWhile isDigit = ds := List.takeWhile_eq_self_iff.2 hdig
    simp only [strtol, hdrop, List.head?_cons, true_or, if_true, List.tail_cons, htake]
    omega

/-! ## Decimal text -/

/-- The last digit comes off the end. -/
theorem natText_eq (n : ℕ) :
    natText n = (if n < 10 then [] else natText (n / 10)) ++ [UInt8.ofNat (48 + n % 10)] := by
  have hdigit : ∀ d < 10, UInt8.ofNat (Nat.digitChar d).toNat = UInt8.ofNat (48 + d) :=
    fun d hd => by rw [Nat.toNat_digitChar_of_lt_ten hd]
  rw [natText, Nat.toDigits_eq_if (by decide)]
  split_ifs with h
  · rw [List.map_singleton, hdigit n h, Nat.mod_eq_of_lt h, List.nil_append]
  · rw [List.map_append, List.map_singleton, hdigit _ (Nat.mod_lt n (by decide)), natText]

theorem natText_ne_nil (n : ℕ) : natText n ≠ [] := by
  rw [natText_eq]
  exact List.append_ne_nil_of_right_ne_nil _ (List.cons_ne_nil _ _)

theorem isDigit_natText (n : ℕ) : ∀ c ∈ natText n, isDigit c = true := by
  induction n using Nat.strongRecOn with
  | _ n ih =>
    rw [natText_eq]
    have hlast : isDigit (UInt8.ofNat (48 + n % 10)) = true := by
      have hlt := Nat.mod_lt n (show 0 < 10 by decide)
      generalize n % 10 = d at hlt
      revert d
      decide
    split_ifs with h
    · simpa using hlast
    · exact List.forall_mem_append.2
        ⟨ih _ (Nat.div_lt_self (by omega) (by decide)), List.forall_mem_singleton.2 hlast⟩

theorem decimal_natText (n : ℕ) : decimal (natText n) = n := by
  induction n using Nat.strongRecOn with
  | _ n ih =>
    have hlast : (UInt8.ofNat (48 + n % 10)).toNat - 48 = n % 10 := by
      rw [UInt8.toNat_ofNat']
      omega
    rw [natText_eq]
    split_ifs with h
    · rw [decimal, List.nil_append, List.foldl_cons, List.foldl_nil, hlast]
      omega
    · rw [decimal, List.foldl_append, ← decimal, ih _ (Nat.div_lt_self (by omega) (by decide)),
        List.foldl_cons, List.foldl_nil, hlast]
      omega

/-- The text of an integer is read back as the integer. -/
theorem writes_intText (v : ℤ) : Writes (intText v) v := by
  have hne := natText_ne_nil v.natAbs
  have hdig := isDigit_natText v.natAbs
  have hval := decimal_natText v.natAbs
  rw [intText]
  split_ifs with h
  · have hw := Writes.minus hne hdig
    rwa [hval, show -(v.natAbs : ℤ) = v by omega] at hw
  · have hw := Writes.plain hne hdig
    rwa [hval, show (v.natAbs : ℤ) = v by omega] at hw

/-- `strtol` stops behind the digits. -/
theorem strtol_append {bits : ℕ} {text : List UInt8} {v : ℤ} (h : Writes text v) {c : UInt8}
    (hc : isDigit c = false) (rest : List UInt8) :
    strtol bits (text ++ c :: rest) = strtol bits text := by
  have htake {ds : List UInt8} (hdig : ∀ c ∈ ds, isDigit c = true) :
      (ds ++ c :: rest).takeWhile isDigit = ds.takeWhile isDigit := by
    rw [List.takeWhile_append_of_pos hdig, List.takeWhile_cons_of_neg (by simp [hc]),
      List.append_nil, List.takeWhile_eq_self_iff.2 hdig]
  cases h with
  | @plain ds hne hdig =>
    obtain ⟨d, ds, rfl⟩ := List.exists_cons_of_ne_nil hne
    have hd : isDigit d = true := hdig d List.mem_cons_self
    have hdrop (r : List UInt8) : (d :: r).dropWhile isSpace = d :: r :=
      List.dropWhile_cons_of_neg (by simp [not_isSpace_of_isDigit hd])
    have hsign : ¬(some d = some 0x2D ∨ some d = some 0x2B) := by
      rintro (h | h) <;> obtain rfl := Option.some.inj h <;> exact absurd hd (by decide)
    simp only [strtol, List.cons_append, hdrop, List.head?_cons, if_neg hsign]
    rw [← List.cons_append, htake hdig]
  | @plus ds hne hdig =>
    have hdrop (r : List UInt8) : (0x2B :: r).dropWhile isSpace = 0x2B :: r :=
      List.dropWhile_cons_of_neg (by decide)
    simp only [strtol, List.cons_append, hdrop, List.head?_cons, or_true, if_true,
      List.tail_cons, htake hdig]
  | @minus ds hne hdig =>
    have hdrop (r : List UInt8) : (0x2D :: r).dropWhile isSpace = 0x2D :: r :=
      List.dropWhile_cons_of_neg (by decide)
    simp only [strtol, List.cons_append, hdrop, List.head?_cons, true_or, if_true,
      List.tail_cons, htake hdig]

/-- There is no zero in the text of an integer. -/
theorem zero_not_mem_intText (v : ℤ) : (0 : UInt8) ∉ intText v := by
  have hdig : (0 : UInt8) ∉ natText v.natAbs := fun h => by
    have hzero := isDigit_natText v.natAbs 0 h
    revert hzero
    decide
  rw [intText]
  split_ifs
  · exact List.not_mem_cons_of_ne_of_not_mem (by decide) hdig
  · exact hdig

/-! ## The end of a line -/

theorem dropLast_cons_of_getLast? {c d : UInt8} {s : List UInt8}
    (h : (c :: s).getLast? = some d) (hc : c ≠ d) : (c :: s).dropLast = c :: s.dropLast := by
  cases s with
  | nil => exact absurd (Option.some.inj h) hc
  | cons b s => rfl

/-- The first byte of a line stays unless it is the end of the line. -/
theorem head?_cutEol {c : UInt8} (hnl : c ≠ newline) (hcr : c ≠ carriage) (s : List UInt8) :
    (cutEol (c :: s)).head? = some c := by
  rw [cutEol]
  split_ifs with hlast hprev
  · rw [dropLast_cons_of_getLast? hlast hnl] at hprev ⊢
    rw [dropLast_cons_of_getLast? hprev hcr]
    rfl
  · rw [dropLast_cons_of_getLast? hlast hnl]
    rfl
  · rfl

/-! ## Conversions -/

theorem toLong_of_range {bits : ℕ} (hbits : 32 ≤ bits) {v : ℤ} (hlo : -2 ^ 31 ≤ v)
    (hhi : v < 2 ^ 31) : toLong bits v = v := by
  have hpow : (2 : ℤ) ^ 31 ≤ 2 ^ (bits - 1) := by
    exact_mod_cast Nat.pow_le_pow_right (n := 2) (by decide) (by omega)
  rw [toLong]
  omega

theorem toInt_of_range {n : ℤ} (hlo : -2 ^ 31 ≤ n) (hhi : n < 2 ^ 31) : toInt n = n := by
  rw [toInt]
  exact Int.bmod_eq_of_le (by omega) (by omega)

theorem toInt_neg_of_le {m : ℕ} (hlo : 2 ^ 31 ≤ m) (hhi : m < 2 ^ 32) : toInt m < 0 := by
  rw [toInt, Int.bmod_def]
  split_ifs <;> omega

theorem neg_le_toInt (n : ℤ) : -2 ^ 31 ≤ toInt n := by
  have h := Int.le_bmod (x := n) (m := 2 ^ 32) (by decide)
  rw [toInt]
  omega

theorem toUInt_of_range {n : ℕ} (h : n < 2 ^ 32) : toUInt n = n := by
  rw [toUInt]
  omega

theorem toUInt_add_one {n : ℕ} (h : n + 1 < 2 ^ 32) : toUInt ((n : ℤ) + 1) = n + 1 := by
  rw [toUInt]
  omega

theorem toUInt_lt (n : ℤ) : toUInt n < 2 ^ 32 := by
  rw [toUInt]
  omega

theorem toUInt_le (n : ℕ) : toUInt n ≤ n := by
  rw [toUInt]
  omega

theorem toShort_of_range {n : ℤ} (hlo : -2 ^ 15 ≤ n) (hhi : n < 2 ^ 15) : toShort n = n := by
  rw [toShort]
  exact Int.bmod_eq_of_le (by omega) (by omega)

theorem toShort_lt (n : ℤ) : toShort n < 2 ^ 15 := by
  have h := Int.bmod_lt (x := n) (m := 2 ^ 16) (by decide)
  rw [toShort]
  omega

theorem toInt_toLong_of_range {bits : ℕ} (hbits : 32 ≤ bits) {v : ℤ} (hlo : -2 ^ 31 ≤ v)
    (hhi : v < 2 ^ 31) : toInt (toLong bits v) = v := by
  rw [toLong_of_range hbits hlo hhi, toInt_of_range hlo hhi]

/-! ## Lines -/

/-- `fgets` reads a line that is short enough in one call. -/
theorem fgetsAll_line {size : ℕ} {acc line : List UInt8} (hline : newline ∉ line)
    (hlen : acc.length + line.length + 1 < size) (file : List UInt8) :
    fgetsAll size acc (line ++ newline :: file) =
      (acc ++ line ++ [newline]) :: fgetsAll size [] file := by
  induction line generalizing acc with
  | nil => simp [fgetsAll]
  | cons c line ih =>
    rw [List.mem_cons, not_or] at hline
    obtain ⟨hc, hline'⟩ := hline
    rw [List.length_cons] at hlen
    rw [List.cons_append, fgetsAll, if_neg, ih hline' (by simp; omega)]
    · simp
    · rintro (h | h)
      · exact hc h.symm
      · omega

/-- After the end of a line `fgets` starts anew. -/
theorem fgetsAll_append {size : ℕ} {acc lines : List UInt8} (h : lines.getLast? = some newline)
    (file : List UInt8) :
    fgetsAll size acc (lines ++ file) = fgetsAll size acc lines ++ fgetsAll size [] file := by
  induction lines generalizing acc with
  | nil => cases h
  | cons c lines ih =>
    rw [List.cons_append, fgetsAll, fgetsAll]
    cases lines with
    | nil =>
      have hc : c = newline := Option.some.inj h
      rw [if_pos (Or.inl hc), if_pos (Or.inl hc), List.nil_append]
      rfl
    | cons d lines =>
      rw [List.getLast?_cons_cons] at h
      split_ifs
      · rw [ih h, List.cons_append]
      · exact ih h

/-- What one call reads stands in the file. -/
theorem infix_of_mem_fgetsAll {size : ℕ} {acc file chunk : List UInt8}
    (h : chunk ∈ fgetsAll size acc file) : chunk <:+: acc ++ file := by
  induction file generalizing acc with
  | nil =>
    rw [fgetsAll] at h
    split_ifs at h
    · cases h
    · obtain rfl := List.mem_singleton.1 h
      exact (List.prefix_append _ _).isInfix
  | cons c file ih =>
    have hassoc : acc ++ c :: file = acc ++ [c] ++ file := by simp
    rw [hassoc]
    rw [fgetsAll] at h
    split_ifs at h
    · rcases List.mem_cons.1 h with rfl | h
      · exact (List.prefix_append _ _).isInfix
      · exact (ih h).trans (List.suffix_append _ _).isInfix
    · exact ih h

/-- What `fgets` reads is never empty and fits into the buffer. -/
theorem fgetsAll_mem {size : ℕ} {acc file chunk : List UInt8} (hacc : acc.length + 1 < size)
    (h : chunk ∈ fgetsAll size acc file) : chunk ≠ [] ∧ chunk.length < size := by
  induction file generalizing acc with
  | nil =>
    rw [fgetsAll] at h
    split_ifs at h with hnil
    · cases h
    · obtain rfl := List.mem_singleton.1 h
      exact ⟨hnil, by omega⟩
  | cons c file ih =>
    rw [fgetsAll] at h
    split_ifs at h with hend
    · rcases List.mem_cons.1 h with rfl | h
      · exact ⟨by simp, by rw [List.length_append, List.length_singleton]; omega⟩
      · have hnil : ([] : List UInt8).length + 1 < size := by
          rw [List.length_nil]
          omega
        exact ih hnil h
    · refine ih ?_ h
      rw [List.length_append, List.length_singleton]
      omega

end CStr
