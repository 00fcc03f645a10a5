import Xlab.ConfigLines
import Xlab.Words

/-!
# The words of a line

`xlab_string_split_line` looks for the next space from `i` on, and puts what is before it into the
list unless `i` is at the space. The length of the line is an `unsigned int`, which counts modulo
2 ^ 32, and the positions are converted to `int` and back, where numbers from 2 ^ 31 on are
negative.

`split_line_iff` : the list holds the words of the line exactly if the length the code counts is
less than 2 ^ 31 and the bytes it does not count are spaces.
-/

open CStr Words

namespace Xlab

/-! ## The code -/

/-- The result of an addition or subtraction of two `int`. -/
def intResult (v : ℤ) : Except Fault ℤ :=
  if -2 ^ 31 ≤ v ∧ v < 2 ^ 31 then .ok v else .error .overflow

/-- `xlab_string_char_search`, for any length. A `size_t` has `bits` bits, and `memchr` reads up
to the first `c`. -/
def charSearch (bits : ℕ) (string : List UInt8) (c : UInt8) (len : ℤ) : Except Fault ℤ := do
  let len ← if len < 0 then (stringLength string).map fun n => toInt n else .ok len
  let size := (len % 2 ^ bits).toNat
  match (string.take size).idxOf? c with
  | some p => return toInt p
  | none => if size ≤ string.length then return -1 else .error .outOfBounds

/-- `xlab_string_copy_substr`, for any positions. -/
def copySubstr (string : List UInt8) (posInit posEnd : ℤ) :
    Except Fault (Option (List UInt8)) := do
  let n ← intResult (posEnd - posInit)
  if posEnd < posInit then return none
  else if 0 ≤ posInit ∧ posEnd ≤ string.length then
    return some (cstr ((string.drop posInit.toNat).take n.toNat))
  else .error .outOfBounds

/-- `struct xlab_string_line`. -/
structure StringLine where
  val : Option (List UInt8)
  len : ℤ
  deriving DecidableEq, Repr

/-- A space is found at `stop`. -/
def splitAtSpace (line : List UInt8) (i : ℕ) (stop : ℤ) : Except Fault (ℕ × Option StringLine) :=
  if i = toUInt stop then .ok (toUInt (i + 1), none)
  else do
    let val ← copySubstr line (toInt i) stop
    let valLen ← intResult (stop - toInt i)
    return (toUInt (toUInt stop + 1), some ⟨val, toInt (toUInt valLen)⟩)

/-- No space is found. -/
def splitAtEnd (line : List UInt8) (len i : ℕ) : Except Fault (ℕ × Option StringLine) := do
  let val ← copySubstr line (toInt i) (toInt len)
  return (toUInt (toUInt (toInt len) + 1), some ⟨val, toInt (len - i : ℕ)⟩)

/-- A turn of the loop : the position after it, and the word it puts into the list. -/
def splitTurn (bits : ℕ) (line : List UInt8) (len i : ℕ) :
    Except Fault (ℕ × Option StringLine) := do
  let stop ← charSearch bits (line.drop i) 0x20 (toInt (len - i : ℕ))
  if 0 ≤ stop then
    let stop ← intResult (stop + toInt i)
    if stop < toInt len then splitAtSpace line i stop else splitAtEnd line len i
  else splitAtEnd line len i

/-- The loop over the turns, `none` where their number does not suffice. -/
def splitLoop (turn : ℕ → Except Fault (ℕ × Option StringLine)) (len : ℕ) :
    ℕ → ℕ → List StringLine → Option (Except Fault (List StringLine))
  | 0, _, _ => none
  | turns + 1, i, list =>
    if i < len then
      match turn i with
      | .error f => some (.error f)
      | .ok (i, new) => splitLoop turn len turns i (list ++ new.toList)
    else some (.ok list)

/-- `xlab_string_split_line`. -/
def stringSplitLine (bits turns : ℕ) :
    Option (List UInt8) → Option (Except Fault (Option (List StringLine)))
  | none => some (.ok none)
  | some line =>
    match stringLength line with
    | .error f => some (.error f)
    | .ok n =>
      (splitLoop (splitTurn bits line (toUInt n)) (toUInt n) turns 0 []).map (·.map some)

/-- The node of a word. -/
def StringLine.ofWord (w : List UInt8) : StringLine :=
  ⟨some w, w.length⟩

/-- The function returns the words of the line. -/
def SplitsExactly (bits : ℕ) (line stale : List UInt8) : Prop :=
  ∃ turns ws, WordsOf (· = 0x20) line ws ∧
    stringSplitLine bits turns (some (line ++ 0 :: stale)) =
      some (.ok (some (ws.map StringLine.ofWord)))

/-! ## Searches and copies in a short line -/

variable {bits : ℕ} {line stale : List UInt8}

theorem intResult_eq_ok {v : ℤ} (hlo : -2 ^ 31 ≤ v) (hhi : v < 2 ^ 31) : intResult v = .ok v :=
  if_pos ⟨hlo, hhi⟩

/-- A search in the object agrees with the one for short lengths. -/
theorem charSearch_eq_ok (hbits : 32 ≤ bits) {string : List UInt8} (c : UInt8) {len : ℤ}
    (hlo : 0 ≤ len) (hhi : len < 2 ^ 31) (hlen : len ≤ string.length) :
    charSearch bits string c len = .ok (stringCharSearch string c len) := by
  have hpow : (2 : ℤ) ^ 31 ≤ 2 ^ bits := by
    exact_mod_cast Nat.pow_le_pow_right (n := 2) (by decide) (by omega)
  have hmod : len % 2 ^ bits = len := Int.emod_eq_of_lt hlo (by omega)
  have hneg : ¬len < 0 := by omega
  rw [charSearch, stringCharSearch]
  rw [if_neg hneg, if_neg hneg, ok_bind]
  simp only [hmod]
  cases hp : (string.take len.toNat).idxOf? c with
  | none => exact if_pos (by omega)
  | some p =>
    have hlt : p < (string.take len.toNat).length := (List.idxOf?_eq_some_iff.1 hp).1
    rw [List.length_take] at hlt
    exact congrArg Except.ok (toInt_of_range (by omega) (by omega))

/-- A copy from inside the object agrees with the one for short lengths. -/
theorem copySubstr_eq {string : List UInt8} {posInit posEnd : ℤ} (hlo : 0 ≤ posInit)
    (hle : posInit ≤ posEnd) (hhi : posEnd < 2 ^ 31) :
    copySubstr string posInit posEnd = stringCopySubstr string posInit posEnd := by
  have hnot : ¬posEnd < posInit := by omega
  rw [copySubstr, stringCopySubstr, intResult_eq_ok (by omega) (by omega), ok_bind]
  simp only [if_neg hnot, hlo, true_and, Int.toNat_le]
  rfl

/-! ## Turns -/

section Loop

variable {turn : ℕ → Except Fault (ℕ × Option StringLine)} {len i j : ℕ}
  {list : List StringLine} {new : Option StringLine}

theorem splitLoop_of_ok (hi : i < len) (hturn : turn i = .ok (j, new))
    (turns : ℕ) : splitLoop turn len (turns + 1) i list =
      splitLoop turn len turns j (list ++ new.toList) := by
  rw [splitLoop, if_pos hi]
  simp only [hturn]

theorem splitLoop_of_error {f : Fault} (hi : i < len)
    (hturn : turn i = .error f) (turns : ℕ) :
    splitLoop turn len (turns + 1) i list = some (.error f) := by
  rw [splitLoop, if_pos hi]
  simp only [hturn]

theorem splitLoop_of_end (hi : ¬i < len) (turns : ℕ) :
    splitLoop turn len (turns + 1) i list = some (.ok list) :=
  if_neg hi

/-- More turns do not change what a run returns. -/
theorem splitLoop_add {turns : ℕ} {r : Except Fault (List StringLine)}
    (h : splitLoop turn len turns i list = some r) (k : ℕ) :
    splitLoop turn len (turns + k) i list = some r := by
  induction turns generalizing i list with
  | zero => cases h
  | succ turns ih =>
    rw [Nat.add_right_comm]
    by_cases hi : i < len
    · cases hturn : turn i with
      | error f => rwa [splitLoop_of_error hi hturn] at h ⊢
      | ok p =>
        rw [splitLoop_of_ok hi hturn] at h ⊢
        exact ih h
    · rwa [splitLoop_of_end hi] at h ⊢

/-- The words that are in the list stay there. -/
theorem splitLoop_keeps {turns : ℕ} {list' : List StringLine}
    (h : splitLoop turn len turns i list = some (.ok list')) : list <+: list' := by
  induction turns generalizing i list with
  | zero => cases h
  | succ turns ih =>
    by_cases hi : i < len
    · cases hturn : turn i with
      | error f =>
        rw [splitLoop_of_error hi hturn] at h
        cases h
      | ok p =>
        rw [splitLoop_of_ok hi hturn] at h
        exact (List.prefix_append _ _).trans (ih h)
    · rw [splitLoop_of_end hi] at h
      cases h
      exact List.prefix_rfl

end Loop

section Short

variable (stale) {m i : ℕ} {w rest : List UInt8}

/-- The part of the line that a search from `i` on looks at. -/
theorem take_drop_buffer (hm : m ≤ line.length) (i : ℕ) :
    ((line ++ 0 :: stale).drop i).take (m - i) = (line.take m).drop i := by
  rw [← List.drop_take, List.take_append_of_le_length hm]

/-- A word that the code finds is what it copies. -/
theorem copySubstr_word (hzero : 0 ∉ line) (hm : m ≤ line.length) (hint : m < 2 ^ 31)
    (hw : (line.take m).drop i = w ++ rest) (hi : i ≤ m) :
    copySubstr (line ++ 0 :: stale) i (i + w.length : ℕ) = .ok (some w) := by
  have hlen : m - i = w.length + rest.length := by
    rw [← List.length_append, ← hw, List.length_drop, List.length_take_of_le hm]
  have htake : ((line ++ 0 :: stale).drop i).take w.length = w := by
    have hview := congrArg (List.take w.length) (take_drop_buffer stale hm i)
    rwa [List.take_take, Nat.min_eq_left (by omega), hw, List.take_left] at hview
  have hw0 : 0 ∉ w := fun h => hzero <| List.mem_of_mem_take <| List.mem_of_mem_drop <|
    hw ▸ List.mem_append_left rest h
  have hnat : (((i + w.length : ℕ) : ℤ) - (i : ℤ)).toNat = w.length := by omega
  rw [copySubstr_eq (by omega) (by omega) (by omega), stringCopySubstr, if_neg (by omega),
    if_pos (by rw [List.length_append]; omega), hnat, Int.toNat_natCast, htake,
    cstr_of_not_mem hw0]

variable (hbits : 32 ≤ bits) (hzero : 0 ∉ line) (hm : m ≤ line.length) (hint : m < 2 ^ 31)

include hbits hm hint

/-- The search looks at the rest of the line. -/
theorem charSearch_rest (hi : i ≤ m) :
    charSearch bits ((line ++ 0 :: stale).drop i) 0x20 (toInt (m - i : ℕ)) =
      .ok ((((line.take m).drop i).idxOf? 0x20).elim (-1) Nat.cast) := by
  have hsize : m - i ≤ ((line ++ 0 :: stale).drop i).length := by
    rw [List.length_drop, List.length_append]
    omega
  rw [toInt_of_range (by omega) (by omega), charSearch_eq_ok hbits _ (by omega) (by omega)
    (by omega), stringCharSearch, if_neg (by omega), Int.toNat_natCast, take_drop_buffer stale hm]
  cases ((line.take m).drop i).idxOf? 0x20 <;> rfl

include hzero

/-- Where the rest of the line starts with a space, or a word and a space. -/
theorem splitTurn_of_space (hw : (line.take m).drop i = w ++ 0x20 :: rest) (hspace : 0x20 ∉ w) :
    splitTurn bits (line ++ 0 :: stale) m i = .ok (i + w.length + 1,
      if w = [] then none else some (.ofWord w)) := by
  have hlen : m - i = w.length + (rest.length + 1) := by
    rw [← List.length_cons, ← List.length_append, ← hw, List.length_drop,
      List.length_take_of_le hm]
  have hcopy := copySubstr_word stale hzero hm hint hw (by omega)
  have hsearch : charSearch bits ((line ++ 0 :: stale).drop i) 0x20 (toInt (m - i : ℕ)) =
      .ok w.length := by
    rw [charSearch_rest stale hbits hm hint (by omega), hw, idxOf?_append hspace]
    rfl
  have hi : toInt i = i := toInt_of_range (by omega) (by omega)
  have hstop : intResult (w.length + toInt i) = .ok (i + w.length : ℕ) := by
    rw [hi, intResult_eq_ok (by omega) (by omega)]
    exact congrArg Except.ok (by omega)
  have hinside : ((i + w.length : ℕ) : ℤ) < toInt m := by
    rw [toInt_of_range (by omega) (by omega)]
    omega
  rw [splitTurn, hsearch, ok_bind, if_pos (Int.natCast_nonneg _), hstop, ok_bind, if_pos hinside,
    splitAtSpace, toUInt_of_range (by omega)]
  by_cases hne : w = []
  · subst hne
    rw [List.length_nil, Nat.add_zero, if_pos rfl, if_pos rfl, toUInt_add_one (by omega)]
  · have hpos := List.length_pos_iff.2 hne
    have hval : intResult ((i + w.length : ℕ) - toInt i) = .ok w.length := by
      rw [hi, intResult_eq_ok (by omega) (by omega)]
      exact congrArg Except.ok (by omega)
    rw [if_neg (by omega), if_neg hne, hval, hi, hcopy, toUInt_add_one (by omega), ok_bind, ok_bind,
      toUInt_of_range (by omega), toInt_of_range (by omega) (by omega)]
    rfl

/-- Where the rest of the line is a word. -/
theorem splitTurn_of_end (hw : (line.take m).drop i = w) (hne : w ≠ []) (hspace : 0x20 ∉ w) :
    splitTurn bits (line ++ 0 :: stale) m i = .ok (m + 1, some (.ofWord w)) := by
  have hpos := List.length_pos_iff.2 hne
  have hlen : m - i = w.length := by
    rw [← hw, List.length_drop, List.length_take_of_le hm]
  have hcopy := copySubstr_word stale hzero hm hint
    (hw.trans (List.append_nil w).symm) (by omega)
  have hsearch : charSearch bits ((line ++ 0 :: stale).drop i) 0x20 (toInt (m - i : ℕ)) =
      .ok (-1) := by
    rw [charSearch_rest stale hbits hm hint (by omega), hw, List.idxOf?_eq_none_iff.2 hspace]
    rfl
  have hi : toInt i = i := toInt_of_range (by omega) (by omega)
  have hm' : toInt m = m := toInt_of_range (by omega) (by omega)
  have hend : i + w.length = m := by omega
  rw [hend] at hcopy
  rw [splitTurn, hsearch, ok_bind, if_neg (by decide), splitAtEnd, hi, hm', hcopy, hlen,
    toUInt_of_range (by omega), toUInt_add_one (by omega), toInt_of_range (by omega) (by omega),
    ok_bind]
  rfl

/-- From any position on, the loop puts the words of the rest into the list. -/
theorem splitLoop_eq_ok (i : ℕ) : ∃ turns ws, WordsOf (· = 0x20) ((line.take m).drop i) ws ∧
    ∀ list, splitLoop (splitTurn bits (line ++ 0 :: stale) m) m turns i list =
      some (.ok (list ++ ws.map StringLine.ofWord)) := by
  induction hk : m - i using Nat.strong_induction_on generalizing i with
  | _ k ih =>
    by_cases hi : i < m
    · by_cases hspace : 0x20 ∈ (line.take m).drop i
      · obtain ⟨w, rest, hw, hnot⟩ := List.eq_append_cons_of_mem hspace
        have hrest : (line.take m).drop (i + w.length + 1) = rest := by
          rw [Nat.add_assoc, ← List.drop_drop, hw, ← List.drop_drop, List.drop_left]
          rfl
        obtain ⟨turns, ws, hwords, hrun⟩ := ih (m - (i + w.length + 1)) (by omega) _ rfl
        have hturn := splitTurn_of_space stale hbits hzero hm hint hw hnot
        rw [hrest] at hwords
        by_cases hne : w = []
        · subst hne
          refine ⟨turns + 1, ws, hw ▸ hwords.cons rfl, fun list => ?_⟩
          rw [splitLoop_of_ok hi hturn, hrun, if_pos rfl, Option.toList_none, List.append_nil]
        · refine ⟨turns + 1, w :: ws, hw ▸ hwords.append_cons hne ?_ rfl, fun list => ?_⟩
          · rintro c hc rfl
            exact hnot hc
          · rw [splitLoop_of_ok hi hturn, hrun, if_neg hne, Option.toList_some, List.append_assoc,
              List.singleton_append, List.map_cons]
      · have hne : (line.take m).drop i ≠ [] := fun hnil => by
          have := List.drop_eq_nil_iff.1 hnil
          rw [List.length_take_of_le hm] at this
          omega
        have hturn := splitTurn_of_end stale hbits hzero hm hint rfl hne hspace
        refine ⟨2, _, .singleton hne ?_, fun list => ?_⟩
        · rintro c hc rfl
          exact hspace hc
        · rw [splitLoop_of_ok hi hturn, splitLoop_of_end (by omega), Option.toList_some,
            List.map_singleton]
    · have hnil : (line.take m).drop i = [] := by
        rw [List.drop_eq_nil_iff, List.length_take_of_le hm]
        omega
      refine ⟨1, [], hnil ▸ .nil, fun list => ?_⟩
      rw [splitLoop_of_end hi, List.map_nil, List.append_nil]

end Short

/-! ## Lengths from 2 ^ 31 on -/

/-- The first word that is put into the list is a null pointer. -/
theorem splitAtEnd_of_neg {m : ℕ} (hneg : toInt m < 0) (buf : List UInt8) :
    ∃ j len, splitAtEnd buf m 0 = .ok (j, some ⟨none, len⟩) := by
  have hlo := neg_le_toInt m
  have hzero : toInt (0 : ℕ) = 0 := toInt_of_range (by decide) (by decide)
  have hcopy : copySubstr buf (toInt (0 : ℕ)) (toInt m) = .ok none := by
    rw [hzero, copySubstr, intResult_eq_ok (by omega) (by omega), ok_bind, if_pos hneg]
    rfl
  exact ⟨_, _, by rw [splitAtEnd, hcopy, ok_bind]; rfl⟩

theorem splitTurn_of_neg (bits : ℕ) {m : ℕ} (hneg : toInt m < 0) (buf : List UInt8) :
    (∃ f, splitTurn bits buf m 0 = .error f) ∨
      ∃ j len, splitTurn bits buf m 0 = .ok (j, some ⟨none, len⟩) := by
  have hzero : toInt (0 : ℕ) = 0 := toInt_of_range (by decide) (by decide)
  rw [splitTurn, hzero]
  cases charSearch bits (buf.drop 0) 0x20 (toInt (m - 0 : ℕ)) with
  | error f => exact Or.inl ⟨f, rfl⟩
  | ok stop =>
    rw [ok_bind]
    by_cases hpos : 0 ≤ stop
    · rw [if_pos hpos, Int.add_zero]
      by_cases hfit : -2 ^ 31 ≤ stop ∧ stop < 2 ^ 31
      · rw [intResult, if_pos hfit, ok_bind, if_neg (by omega)]
        exact Or.inr (splitAtEnd_of_neg hneg buf)
      · rw [intResult, if_neg hfit]
        exact Or.inl ⟨_, rfl⟩
    · rw [if_neg hpos]
      exact Or.inr (splitAtEnd_of_neg hneg buf)

/-! ## Runs -/

theorem stringSplitLine_eq_ok_iff (hzero : 0 ∉ line) {turns : ℕ} {list : List StringLine} :
    stringSplitLine bits turns (some (line ++ 0 :: stale)) = some (.ok (some list)) ↔
      splitLoop (splitTurn bits (line ++ 0 :: stale) (toUInt line.length)) (toUInt line.length)
        turns 0 [] = some (.ok list) := by
  rw [stringSplitLine, stringLength_eq_ok hzero]
  simp only [Option.map_eq_some_iff]
  constructor
  · rintro ⟨r, hr, hlist⟩
    cases r with
    | error f => cases hlist
    | ok list' => rw [hr, Option.some.inj (Except.ok.inj hlist)]
  · exact fun h => ⟨_, h, rfl⟩

theorem StringLine.ofWord_injective : Function.Injective StringLine.ofWord :=
  fun _ _ h => Option.some.inj (congrArg StringLine.val h)

/-- A length from 2 ^ 31 on becomes negative, and then the words are not found. -/
theorem not_splits_of_neg (hzero : 0 ∉ line) (hneg : toInt (toUInt line.length) < 0) :
    ¬SplitsExactly bits line stale := by
  rintro ⟨turns, ws, -, hrun⟩
  rw [stringSplitLine_eq_ok_iff hzero] at hrun
  have hpos : 0 < toUInt line.length := by
    rcases Nat.eq_zero_or_pos (toUInt line.length) with hm | hm
    · rw [hm] at hneg
      exact absurd hneg (by decide)
    · exact hm
  cases turns with
  | zero => cases hrun
  | succ turns =>
    rcases splitTurn_of_neg bits hneg (line ++ 0 :: stale) with
      ⟨f, hturn⟩ | ⟨j, len, hturn⟩
    · rw [splitLoop_of_error hpos hturn] at hrun
      cases hrun
    · rw [splitLoop_of_ok hpos hturn] at hrun
      have hmem : ⟨none, len⟩ ∈ ws.map StringLine.ofWord :=
        (splitLoop_keeps hrun).subset (List.mem_singleton_self _)
      obtain ⟨w, -, hw⟩ := List.mem_map.1 hmem
      cases hw

/-- The list holds the words of the line exactly if the length the code counts is an `int` that
is not negative, and the rest of the line is spaces. -/
theorem split_line_iff (hbits : 32 ≤ bits) (hzero : 0 ∉ line) (stale : List UInt8) :
    SplitsExactly bits line stale ↔
      toUInt line.length < 2 ^ 31 ∧ ∀ c ∈ line.drop (toUInt line.length), c = 0x20 := by
  by_cases hint : toUInt line.length < 2 ^ 31
  · obtain ⟨turns, ws, hwords, hrun⟩ :=
      splitLoop_eq_ok stale hbits hzero (toUInt_le line.length) hint 0
    rw [List.drop_zero] at hwords
    have hiff := hwords.append_iff (t := line.drop (toUInt line.length))
    rw [List.take_append_drop] at hiff
    rw [and_iff_right hint, ← hiff]
    constructor
    · rintro ⟨turns', ws', hwords', hrun'⟩
      rw [stringSplitLine_eq_ok_iff hzero] at hrun'
      have hsame := (splitLoop_add (hrun []) turns').symm.trans
        (Nat.add_comm turns turns' ▸ splitLoop_add hrun' turns)
      have hlist := Except.ok.inj (Option.some.inj hsame)
      rw [List.nil_append] at hlist
      exact List.map_injective_iff.2 StringLine.ofWord_injective hlist ▸ hwords'
    · intro hline
      exact ⟨turns, ws, hline, (stringSplitLine_eq_ok_iff hzero).2 (hrun [])⟩
  · have hneg := toInt_neg_of_le (Nat.not_lt.1 hint) (toUInt_lt _)
    exact iff_of_false (not_splits_of_neg hzero hneg) fun h => hint h.1

/-- `" ab  c"` has the words `"ab"` and `"c"`. -/
theorem split_line_iff_words : SplitsExactly 64 [0x20, 0x61, 0x62, 0x20, 0x20, 0x63] [] :=
  (split_line_iff (by decide) (by decide) []).2 ⟨by decide, List.forall_mem_nil _⟩

/-- Of a line of 2 ^ 31 bytes with a space at its second the list gets no word, but a null
pointer. -/
theorem not_splits_longLine :
    ¬SplitsExactly 64 (0x78 :: 0x20 :: List.replicate (2 ^ 31 - 2) 0x78) [] := by
  have hlen : (0x78 :: 0x20 :: List.replicate (2 ^ 31 - 2) (0x78 : UInt8)).length = 2 ^ 31 := by
    rw [List.length_cons, List.length_cons, List.length_replicate]
    rfl
  refine not_splits_of_neg (fun h => ?_) ?_
  · rcases List.mem_cons.1 h with h | h
    · exact absurd h (by decide)
    · rcases List.mem_cons.1 h with h | h
      · exact absurd h (by decide)
      · exact absurd (List.eq_of_mem_replicate h) (by decide)
  · rw [hlen, toUInt_of_range (by decide)]
    exact toInt_neg_of_le (Nat.le_refl _) (by decide)

end Xlab
