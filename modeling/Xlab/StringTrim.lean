import Xlab.ConfigFile

/-!
# Trimming a string

`xlab_string_trim` finds the first byte that is not a space from the left and the last one from
the right, and moves what is between them to the start of the buffer. The source is ahead of the
target all the time, so no byte is overwritten before it is moved. The length of the string is an
`unsigned int`, which counts modulo 2 ^ 32.

`string_trim_iff` : the buffer holds the trimmed string exactly if the bytes the length does not
count are all spaces.
-/

open CStr

namespace Xlab

/-! ## The loops -/

/-- `buf[i]`. -/
def loadByte (buf : List UInt8) (i : ℕ) : Except Fault UInt8 :=
  match buf[i]? with
  | some c => .ok c
  | none => .error .outOfBounds

/-- `buf[i] = c`. -/
def storeByte (buf : List UInt8) (i : ℕ) (c : UInt8) : Except Fault (List UInt8) :=
  if i < buf.length then .ok (buf.set i c) else .error .outOfBounds

/-- The loop over the left spaces, with `left - buf` as `left`. -/
def leftLoop : List UInt8 → ℕ → Except Fault ℕ
  | [], _ => .error .outOfBounds
  | c :: p, left => if isSpace c then leftLoop p (left + 1) else .ok left

/-- The loop that moves back, with `right - buf` for `right`. -/
def rightLoop (buf : List UInt8) : ℕ → Except Fault ℕ
  | 0 => .ok 0
  | right + 1 => do
    let c ← loadByte buf (right + 1)
    if isSpace c then rightLoop buf right else return right + 1

/-- The loop that moves the string, with the turns it has left. -/
def copyLoop (left : ℕ) : ℕ → ℕ → List UInt8 → Except Fault (List UInt8)
  | 0, _, buf => .ok buf
  | turns + 1, i, buf => do
    let c ← loadByte buf (left + i)
    let buf ← storeByte buf i c
    copyLoop left turns (i + 1) buf

/-- `xlab_string_trim` : what it returns, and the buffer at `*str`. -/
def stringTrimInPlace : Option (List UInt8) → Except Fault (ℤ × Option (List UInt8))
  | none => .ok (-1, none)
  | some buf => do
    let n ← stringLength buf
    let len := toUInt n
    if len = 0 then return (0, some buf)
    else
      let left ← leftLoop buf 0
      if len - 1 < left then
        let buf ← storeByte buf 0 0
        return (-1, some buf)
      else
        let right ← rightLoop buf (len - 1)
        let len := toUInt (toUInt (right - left) + 1)
        let buf ← copyLoop left len 0 buf
        let buf ← storeByte buf len 0
        return (0, some buf)

/-- The buffer holds the trimmed string, nothing beyond the zero of the string is used or changed,
and a second call leaves it all as it is. -/
def TrimsInPlace (s : List UInt8) : Prop :=
  ∃ ret ret' buf, buf.length = s.length + 1 ∧ cstr buf = stringTrim s ∧ ∀ stale,
    stringTrimInPlace (some (s ++ 0 :: stale)) = .ok (ret, some (buf ++ stale)) ∧
      stringTrimInPlace (some (buf ++ stale)) = .ok (ret', some (buf ++ stale))

/-! ## Strings without spaces at the ends -/

section Ends

variable {s t a b : List UInt8}

theorem rdropWhile_append (hb : ∀ c ∈ b, isSpace c = true)
    (hlast : ∀ c ∈ t.getLast?, isSpace c = false) : (t ++ b).rdropWhile isSpace = t := by
  rw [List.rdropWhile, List.reverse_append,
    List.dropWhile_append_of_pos fun c hc => hb c (List.mem_reverse.1 hc)]
  refine List.rdropWhile_eq_self_iff.2 fun hne => ?_
  simpa using hlast _ (List.getLast?_eq_some_getLast hne)

/-- Spaces on both sides do not count. -/
theorem stringTrim_append (ha : ∀ c ∈ a, isSpace c = true) (hb : ∀ c ∈ b, isSpace c = true)
    (hhead : ∀ c ∈ t.head?, isSpace c = false) (hlast : ∀ c ∈ t.getLast?, isSpace c = false) :
    stringTrim (a ++ (t ++ b)) = t := by
  rw [stringTrim, List.dropWhile_append_of_pos ha]
  cases t with
  | nil => rw [List.nil_append, List.dropWhile_eq_nil_iff.2 hb, List.rdropWhile_nil]
  | cons c t =>
    rw [List.cons_append, List.dropWhile_cons_of_neg (by simp [hhead c rfl]), ← List.cons_append,
      rdropWhile_append hb hlast]

theorem stringTrim_of_not_space (hhead : ∀ c ∈ s.head?, isSpace c = false)
    (hlast : ∀ c ∈ s.getLast?, isSpace c = false) : stringTrim s = s := by
  simpa using stringTrim_append (List.forall_mem_nil _) (List.forall_mem_nil _) hhead hlast

/-- What is cut off are spaces, and what is left has none at its ends. -/
theorem exists_eq_append_stringTrim (s : List UInt8) : ∃ a b, s = a ++ (stringTrim s ++ b) ∧
    (∀ c ∈ a, isSpace c = true) ∧ (∀ c ∈ b, isSpace c = true) ∧
      (∀ c ∈ (stringTrim s).head?, isSpace c = false) ∧
        ∀ c ∈ (stringTrim s).getLast?, isSpace c = false := by
  refine ⟨s.takeWhile isSpace, (s.dropWhile isSpace).rtakeWhile isSpace, ?_,
    fun c hc => List.mem_takeWhile_imp hc, fun c hc => List.mem_rtakeWhile_imp hc, fun c hc => ?_,
    fun c hc => ?_⟩
  · rw [stringTrim, List.rdropWhile_append_rtakeWhile, List.takeWhile_append_dropWhile]
  · obtain ⟨r, hr⟩ := List.rdropWhile_prefix isSpace (s.dropWhile isSpace)
    have hdrop : (s.dropWhile isSpace).head? = some c := by
      rw [← hr, List.head?_append, show (List.rdropWhile _ _).head? = some c from hc]
      rfl
    have hnot := List.head?_dropWhile_not isSpace s
    rw [hdrop] at hnot
    exact Bool.eq_false_iff.2 (by simpa using hnot)
  · have hne : stringTrim s ≠ [] := by
      rintro hnil
      rw [hnil] at hc
      cases hc
    rw [List.getLast?_eq_some_getLast hne] at hc
    exact Option.mem_some.1 hc ▸ Bool.eq_false_iff.2 (List.rdropWhile_last_not isSpace _ hne)

theorem stringTrim_idem (s : List UInt8) : stringTrim (stringTrim s) = stringTrim s := by
  obtain ⟨a, b, -, -, -, hhead, hlast⟩ := exists_eq_append_stringTrim s
  exact stringTrim_of_not_space hhead hlast

/-- A string is left as it is if it has no spaces at its ends. -/
theorem stringTrim_eq_self_iff : stringTrim s = s ↔
    (∀ c ∈ s.head?, isSpace c = false) ∧ ∀ c ∈ s.getLast?, isSpace c = false := by
  constructor
  · intro h
    obtain ⟨a, b, -, -, -, hhead, hlast⟩ := exists_eq_append_stringTrim s
    rw [h] at hhead hlast
    exact ⟨hhead, hlast⟩
  · rintro ⟨hhead, hlast⟩
    exact stringTrim_of_not_space hhead hlast

theorem infix_stringTrim (s : List UInt8) : stringTrim s <:+: s :=
  (List.rdropWhile_prefix isSpace _).isInfix.trans (List.dropWhile_suffix isSpace).isInfix

/-- All other bytes stay. -/
theorem filter_stringTrim (s : List UInt8) :
    (stringTrim s).filter (!isSpace ·) = s.filter (!isSpace ·) := by
  obtain ⟨a, b, hs, ha, hb, -, -⟩ := exists_eq_append_stringTrim s
  have hnil {l : List UInt8} (hl : ∀ c ∈ l, isSpace c = true) : l.filter (!isSpace ·) = [] :=
    List.filter_eq_nil_iff.2 fun c hc => by simp [hl c hc]
  conv_rhs => rw [hs, List.filter_append, List.filter_append, hnil ha, hnil hb]
  rw [List.nil_append, List.append_nil]

/-- It suffices to trim the start of a string exactly if the rest is spaces. -/
theorem stringTrim_eq_append_iff :
    stringTrim s = stringTrim (s ++ t) ↔ ∀ c ∈ t, isSpace c = true := by
  constructor
  · intro h c hc
    have hfilter := congrArg (List.filter (!isSpace ·)) h
    rw [filter_stringTrim, filter_stringTrim, List.filter_append,
      List.self_eq_append_right] at hfilter
    simpa using List.filter_eq_nil_iff.1 hfilter c hc
  · intro ht
    obtain ⟨a, b, hs, ha, hb, hhead, hlast⟩ := exists_eq_append_stringTrim s
    have hbt : ∀ c ∈ b ++ t, isSpace c = true := fun c hc =>
      (List.mem_append.1 hc).elim (hb c) (ht c)
    conv_rhs => rw [hs, List.append_assoc, List.append_assoc, stringTrim_append ha hbt hhead hlast]

end Ends

/-! ## What the loops do -/

variable {s : List UInt8}

theorem leftLoop_eq_ok (s stale : List UInt8) (left : ℕ) :
    leftLoop (s ++ 0 :: stale) left = .ok (left + (s.takeWhile isSpace).length) := by
  induction s generalizing left with
  | nil => rfl
  | cons c s ih =>
    by_cases hc : isSpace c = true
    · rw [List.cons_append, leftLoop, if_pos hc, ih, List.takeWhile_cons_of_pos hc,
        List.length_cons, Nat.add_right_comm, Nat.add_assoc]
    · rw [List.cons_append, leftLoop, if_neg hc, List.takeWhile_cons_of_neg hc]
      rfl

/-- The right end is the last byte that is not a space. -/
theorem rightLoop_eq_ok {buf : List UInt8} {right : ℕ} (hlt : right < buf.length)
    (hne : (buf.take (right + 1)).rdropWhile isSpace ≠ []) :
    rightLoop buf right = .ok (((buf.take (right + 1)).rdropWhile isSpace).length - 1) := by
  induction right with
  | zero =>
    have hlen := (List.rdropWhile_prefix isSpace (buf.take (0 + 1))).length_le
    rw [List.length_take] at hlen
    rw [rightLoop, Nat.sub_eq_zero_of_le (hlen.trans (Nat.min_le_left _ _))]
  | succ right ih =>
    have htake : buf.take (right + 1 + 1) = buf.take (right + 1) ++ [buf[right + 1]] :=
      List.take_succ_eq_append_getElem hlt
    have hload : loadByte buf (right + 1) = .ok buf[right + 1] := by
      rw [loadByte, List.getElem?_eq_getElem hlt]
    rw [rightLoop, hload]
    show (if _ then _ else _) = _
    by_cases hspace : isSpace buf[right + 1] = true
    · rw [htake, List.rdropWhile_concat_pos _ _ _ hspace] at hne ⊢
      rw [if_pos hspace, ih (by omega) hne]
    · rw [if_neg hspace, htake, List.rdropWhile_concat_neg _ _ _ hspace, ← htake,
        List.length_take, Nat.min_eq_left (by omega)]
      rfl

/-- The loop reads every byte before it writes there. -/
theorem copyLoop_eq_ok {left turns i : ℕ} {buf : List UInt8}
    (hlen : left + i + turns ≤ buf.length) : copyLoop left turns i buf =
      .ok (buf.take i ++ (buf.drop (left + i)).take turns ++ buf.drop (i + turns)) := by
  induction turns generalizing i buf with
  | zero => rw [copyLoop, List.take_zero, List.append_nil, Nat.add_zero, List.take_append_drop]
  | succ turns ih =>
    have hload : loadByte buf (left + i) = .ok buf[left + i] := by
      rw [loadByte, List.getElem?_eq_getElem (by omega)]
    have hstore : storeByte buf i buf[left + i] = .ok (buf.set i buf[left + i]) :=
      if_pos (by omega)
    rw [copyLoop, hload]
    show (storeByte buf i buf[left + i] >>= _) = _
    rw [hstore]
    show copyLoop left turns (i + 1) (buf.set i buf[left + i]) = _
    rw [ih (by rw [List.length_set]; omega), List.drop_set_of_lt (by omega),
      List.drop_set_of_lt (by omega), List.drop_eq_getElem_cons (by omega : left + i < buf.length),
      List.take_succ_cons, Nat.add_assoc left i 1, Nat.add_assoc i 1 turns, Nat.add_comm 1 turns]
    have htake : (buf.set i buf[left + i]).take (i + 1) = buf.take i ++ [buf[left + i]] := by
      rw [List.take_succ_eq_append_getElem (by rw [List.length_set]; omega),
        List.take_set_of_le (Nat.le_refl i), List.getElem_set_self]
    rw [htake, List.append_assoc (buf.take i), List.singleton_append]

/-- The byte behind what has been moved becomes the end of the string. -/
theorem storeByte_eq_ok {t buf : List UInt8} (h : t.length < buf.length) :
    storeByte (t ++ buf.drop t.length) t.length 0 = .ok (t ++ 0 :: buf.drop (t.length + 1)) := by
  rw [storeByte, if_pos (by rw [List.length_append, List.length_drop]; omega),
    List.set_append_right _ _ (Nat.le_refl _), Nat.sub_self, List.drop_eq_getElem_cons h,
    List.set_cons_zero]

/-! ## What the code leaves in the buffer -/

/-- The string the code leaves : the bytes the length counts are trimmed, and the others are
lost unless it counts none. -/
def trimResult (s : List UInt8) : List UInt8 :=
  if toUInt s.length = 0 then s else stringTrim (s.take (toUInt s.length))

/-- The buffer up to the zero of the string before. -/
def trimBuffer (s : List UInt8) : List UInt8 :=
  trimResult s ++ 0 :: (s ++ [0]).drop ((trimResult s).length + 1)

theorem infix_trimResult (s : List UInt8) : trimResult s <:+: s := by
  rw [trimResult]
  split_ifs
  · exact List.infix_refl s
  · exact (infix_stringTrim _).trans (List.take_prefix _ s).isInfix

theorem trimResult_length_le (s : List UInt8) : (trimResult s).length ≤ s.length :=
  (infix_trimResult s).length_le

theorem trimBuffer_length (s : List UInt8) : (trimBuffer s).length = s.length + 1 := by
  have hle := trimResult_length_le s
  rw [trimBuffer, List.length_append, List.length_cons, List.length_drop, List.length_append,
    List.length_singleton]
  omega

theorem cstr_trimBuffer (hzero : 0 ∉ s) : cstr (trimBuffer s) = trimResult s :=
  cstr_append_zero (fun h => hzero ((infix_trimResult s).subset h)) _

/-- What is behind the string stays. -/
theorem trimBuffer_append (s stale : List UInt8) : trimBuffer s ++ stale =
    trimResult s ++ 0 :: (s ++ 0 :: stale).drop ((trimResult s).length + 1) := by
  have hle : (trimResult s).length + 1 ≤ (s ++ [0]).length := by
    rw [List.length_append, List.length_singleton]
    exact Nat.succ_le_succ (trimResult_length_le s)
  rw [trimBuffer, List.append_assoc, List.cons_append, ← List.drop_append_of_le_length hle,
    List.append_assoc, List.singleton_append]

/-- A string that is trimmed already is left as it is. -/
theorem trimResult_idem (s : List UInt8) : trimResult (trimResult s) = trimResult s := by
  by_cases hlen : toUInt s.length = 0
  · have hs : trimResult s = s := if_pos hlen
    rw [hs, hs]
  · have hs : trimResult s = stringTrim (s.take (toUInt s.length)) := if_neg hlen
    have hle : (trimResult s).length ≤ toUInt s.length := by
      rw [hs]
      exact (infix_stringTrim _).length_le.trans (List.length_take_le _ _)
    rw [trimResult, toUInt_of_range (hle.trans_lt (toUInt_lt _))]
    split_ifs with hnil
    · rfl
    · rw [List.take_length, hs, stringTrim_idem]

/-- If there are only spaces, the string becomes empty. -/
theorem stringTrimInPlace_of_spaces {a d : List UInt8} (hzero : 0 ∉ a ++ d)
    (ha : ∀ c ∈ a, isSpace c = true) (hne : a ≠ []) (hlen : toUInt (a ++ d).length = a.length)
    (stale : List UInt8) : stringTrimInPlace (some (a ++ d ++ 0 :: stale)) =
      .ok (-1, some (0 :: (a ++ d ++ 0 :: stale).drop 1)) := by
  have hpos := List.length_pos_iff.2 hne
  have hleft := leftLoop_eq_ok (a ++ d) stale 0
  rw [List.takeWhile_append_of_pos ha, List.length_append, Nat.zero_add] at hleft
  have hbuf : a ++ d ++ 0 :: stale ≠ [] :=
    List.append_ne_nil_of_right_ne_nil _ (List.cons_ne_nil _ _)
  have hstore : storeByte (a ++ d ++ 0 :: stale) 0 0 =
      .ok (0 :: (a ++ d ++ 0 :: stale).drop 1) :=
    storeByte_eq_ok (t := []) (List.length_pos_iff.2 hbuf)
  rw [stringTrimInPlace, stringLength_eq_ok hzero]
  simp only [bind, Except.bind, hleft, hlen, hstore]
  rw [if_neg (by omega), if_pos (by omega)]
  rfl

/-- Otherwise what is between the spaces is moved to the start. -/
theorem stringTrimInPlace_of_text {a t b d : List UInt8} (hzero : 0 ∉ a ++ (t ++ b) ++ d)
    (ha : ∀ c ∈ a, isSpace c = true) (hb : ∀ c ∈ b, isSpace c = true)
    (hhead : ∀ c ∈ t.head?, isSpace c = false) (hlast : ∀ c ∈ t.getLast?, isSpace c = false)
    (hne : t ≠ []) (hlen : toUInt (a ++ (t ++ b) ++ d).length = (a ++ (t ++ b)).length)
    (stale : List UInt8) : stringTrimInPlace (some (a ++ (t ++ b) ++ d ++ 0 :: stale)) =
      .ok (0, some (t ++ 0 :: (a ++ (t ++ b) ++ d ++ 0 :: stale).drop (t.length + 1))) := by
  have hpos := List.length_pos_iff.2 hne
  have hlt := toUInt_lt (a ++ (t ++ b) ++ d).length
  rw [hlen, List.length_append, List.length_append] at hlt
  generalize hbuf : a ++ (t ++ b) ++ d ++ 0 :: stale = buf
  have hsplit : buf = a ++ (t ++ (b ++ d ++ 0 :: stale)) := by
    rw [← hbuf]
    simp only [List.append_assoc]
  have hsize : a.length + t.length + b.length < buf.length := by
    rw [← hbuf]
    simp only [List.length_append, List.length_cons]
    omega
  have hsum : (a ++ (t ++ b)).length = a.length + t.length + b.length := by
    rw [List.length_append, List.length_append, Nat.add_assoc]
  have hleft : leftLoop buf 0 = .ok a.length := by
    rw [← hbuf, leftLoop_eq_ok, List.append_assoc, List.append_assoc,
      List.takeWhile_append_of_pos ha]
    obtain ⟨c, t, rfl⟩ := List.exists_cons_of_ne_nil hne
    rw [List.cons_append, List.takeWhile_cons_of_neg (by simp [hhead c rfl]), List.append_nil,
      Nat.zero_add]
  have hright : rightLoop buf ((a ++ (t ++ b)).length - 1) = .ok (a.length + t.length - 1) := by
    have htake : buf.take ((a ++ (t ++ b)).length - 1 + 1) = a ++ t ++ b := by
      rw [Nat.sub_add_cancel (by omega), ← hbuf, List.append_assoc (a ++ (t ++ b)), List.take_left,
        List.append_assoc]
    have hdrop : (a ++ t ++ b).rdropWhile isSpace = a ++ t :=
      rdropWhile_append hb (by rwa [List.getLast?_append_of_ne_nil a hne])
    have hnil : (buf.take ((a ++ (t ++ b)).length - 1 + 1)).rdropWhile isSpace ≠ [] := by
      rw [htake, hdrop]
      exact List.append_ne_nil_of_right_ne_nil a hne
    rw [rightLoop_eq_ok (by omega) hnil, htake, hdrop, List.length_append]
  have hcount : toUInt (toUInt ((a.length + t.length - 1 : ℕ) - a.length) + 1) = t.length := by
    simp only [toUInt]
    omega
  have hcopy : copyLoop a.length t.length 0 buf = .ok (t ++ buf.drop t.length) := by
    rw [copyLoop_eq_ok (by omega), List.take_zero, List.nil_append, Nat.add_zero, Nat.zero_add]
    conv_lhs => rw [hsplit, List.drop_left, List.take_left, ← hsplit]
  have hstore : storeByte (t ++ buf.drop t.length) t.length 0 =
      .ok (t ++ 0 :: buf.drop (t.length + 1)) := storeByte_eq_ok (by omega)
  have hlength : stringLength buf = .ok (a ++ (t ++ b) ++ d).length :=
    hbuf ▸ stringLength_eq_ok hzero stale
  rw [stringTrimInPlace, hlength]
  simp only [bind, Except.bind, hleft, hlen, hright, hcount, hcopy, hstore]
  rw [if_neg (by omega : ¬(a ++ (t ++ b)).length = 0),
    if_neg (by omega : ¬(a ++ (t ++ b)).length - 1 < a.length)]
  rfl

/-- What a call does, whatever is behind the string. -/
theorem stringTrimInPlace_eq_ok (hzero : 0 ∉ s) : ∃ ret, ∀ stale,
    stringTrimInPlace (some (s ++ 0 :: stale)) = .ok (ret, some (trimBuffer s ++ stale)) := by
  by_cases hlen : toUInt s.length = 0
  · refine ⟨0, fun stale => ?_⟩
    have hs : trimResult s = s := if_pos hlen
    have hdrop : (s ++ 0 :: stale).drop (s.length + 1) = stale := by
      rw [← List.drop_drop, List.drop_left]
      rfl
    rw [stringTrimInPlace, stringLength_eq_ok hzero, trimBuffer_append, hs, hdrop]
    exact if_pos hlen
  · have hs : trimResult s = stringTrim (s.take (toUInt s.length)) := if_neg hlen
    have hsplit := List.take_append_drop (toUInt s.length) s
    have hcount : (s.take (toUInt s.length)).length = toUInt s.length :=
      List.length_take_of_le (toUInt_le _)
    obtain ⟨a, b, htake, ha, hb, hhead, hlast⟩ :=
      exists_eq_append_stringTrim (s.take (toUInt s.length))
    rw [← hs] at htake hhead hlast
    by_cases hne : trimResult s = []
    · rw [hne, List.nil_append] at htake
      have hspaces : ∀ c ∈ a ++ b, isSpace c = true := fun c hc =>
        (List.mem_append.1 hc).elim (ha c) (hb c)
      refine ⟨-1, fun stale => ?_⟩
      rw [trimBuffer_append, hne]
      have hrun := stringTrimInPlace_of_spaces (a := a ++ b) (d := s.drop (toUInt s.length))
      rw [← htake, hsplit, hcount] at hrun
      exact hrun hzero (htake ▸ hspaces) (List.length_pos_iff.1 (by omega)) rfl stale
    · refine ⟨0, fun stale => ?_⟩
      rw [trimBuffer_append]
      have hrun := stringTrimInPlace_of_text (a := a) (b := b) (t := trimResult s)
        (d := s.drop (toUInt s.length))
      rw [← htake, hsplit, hcount] at hrun
      exact hrun hzero ha hb hhead hlast hne rfl stale

/-- The buffer holds the trimmed string if the code's result is it. -/
theorem trimsInPlace_iff (hzero : 0 ∉ s) : TrimsInPlace s ↔ trimResult s = stringTrim s := by
  obtain ⟨ret, hrun⟩ := stringTrimInPlace_eq_ok hzero
  constructor
  · rintro ⟨ret', _, buf, -, hbuf, hcall⟩
    have hsame : trimBuffer s ++ [] = buf ++ [] :=
      Option.some.inj (Prod.mk.inj (Except.ok.inj ((hrun []).symm.trans (hcall []).1))).2
    rw [List.append_nil, List.append_nil] at hsame
    rw [← hbuf, ← hsame, cstr_trimBuffer hzero]
  · intro hs
    have hzero' : 0 ∉ trimResult s := fun h => hzero ((infix_trimResult s).subset h)
    obtain ⟨ret', hrun'⟩ := stringTrimInPlace_eq_ok hzero'
    refine ⟨ret, ret', trimBuffer s, trimBuffer_length s, (cstr_trimBuffer hzero).trans hs,
      fun stale => ⟨hrun stale, ?_⟩⟩
    -- behind the new string the second call sees what is left of the old one
    have hagain (rest : List UInt8) : trimBuffer (trimResult s) ++ rest =
        trimResult s ++ 0 :: rest := by
      rw [trimBuffer_append, trimResult_idem, ← List.drop_drop, List.drop_left]
      rfl
    rw [trimBuffer, List.append_assoc, List.cons_append, hrun', hagain]

/-- The buffer holds the trimmed string exactly if the bytes that the length does not count are
all spaces, or it counts none and there are no spaces at the ends. -/
theorem string_trim_iff (hzero : 0 ∉ s) : TrimsInPlace s ↔
    (toUInt s.length ≠ 0 ∧ ∀ c ∈ s.drop (toUInt s.length), isSpace c = true) ∨
      toUInt s.length = 0 ∧ (∀ c ∈ s.head?, isSpace c = false) ∧
        ∀ c ∈ s.getLast?, isSpace c = false := by
  rw [trimsInPlace_iff hzero, trimResult]
  split_ifs with hlen
  · rw [eq_comm, stringTrim_eq_self_iff]
    simp only [hlen, ne_eq, not_true_eq_false, false_and, false_or, true_and]
  · have hiff := stringTrim_eq_append_iff (s := s.take (toUInt s.length))
      (t := s.drop (toUInt s.length))
    rw [List.take_append_drop] at hiff
    simp only [hiff, hlen, ne_eq, not_false_eq_true, true_and, false_and, or_false]

/-- A string shorter than 2 ^ 32 is trimmed, so every key and value of the file is. -/
theorem trimsInPlace_of_length_lt (hzero : 0 ∉ s) (hlen : s.length < 2 ^ 32) :
    TrimsInPlace s := by
  rw [trimsInPlace_iff hzero, trimResult, toUInt_of_range hlen]
  split_ifs with hnil
  · rw [List.length_eq_zero_iff.1 hnil]
    rfl
  · rw [List.take_length]

/-- `" a b "` becomes `"a b"`. -/
theorem string_trim_iff_words : TrimsInPlace [0x20, 0x61, 0x20, 0x62, 0x20] :=
  (string_trim_iff (by decide)).2 (Or.inl ⟨by decide, List.forall_mem_nil _⟩)

/-- Of 2 ^ 32 spaces none is counted, and all stay. -/
theorem not_trims_spaces : ¬TrimsInPlace (List.replicate (2 ^ 32) 0x20) := by
  have hzero : (0 : UInt8) ∉ List.replicate (2 ^ 32) 0x20 := fun h =>
    absurd (List.eq_of_mem_replicate h) (by decide)
  have hlen : toUInt (List.replicate (2 ^ 32) (0x20 : UInt8)).length = 0 := by
    rw [List.length_replicate]
    rfl
  have hhead : (0x20 : UInt8) ∈ (List.replicate (2 ^ 32) (0x20 : UInt8)).head? := by
    rw [List.head?_replicate]
    rfl
  rw [trimsInPlace_iff hzero, trimResult, if_pos hlen, eq_comm, stringTrim_eq_self_iff]
  exact fun h => absurd (h.1 _ hhead) (by decide)

end Xlab
