import Xlab.StringTrim

/-!
# Printing an integer

`xlab_string_itop` writes the digits of an integer from the last to the first, then the sign, turns
the text around in place, and puts the end of a line behind it. It never asks how long the buffer
is, and negates the value, which overflows for the least one.

`string_itop_iff` : it stays inside the buffer exactly if the text, the end of the line and a zero
fit, and leaves the text of the integer, which `strtol` reads back.
-/

open CStr

namespace Xlab

/-- `xlab_pointer`. -/
structure XlabPointer where
  data : List UInt8
  len : ℕ
  deriving DecidableEq, Repr

/-! ## The loops -/

/-- The `do` loop over the digits, with `wstr - p->data` for `wstr`. -/
def digitLoop (uvalue wstr : ℕ) (data : List UInt8) : Except Fault (ℕ × List UInt8) := do
  let data ← storeByte data wstr (UInt8.ofNat (48 + uvalue % 10))
  if uvalue / 10 = 0 then return (wstr + 1, data)
  else digitLoop (uvalue / 10) (wstr + 1) data
termination_by uvalue

/-- The sign. -/
def storeSign (value : ℤ) (wstr : ℕ) (data : List UInt8) : Except Fault (ℕ × List UInt8) :=
  if value < 0 then do
    let data ← storeByte data wstr 0x2D
    return (wstr + 1, data)
  else .ok (wstr, data)

/-- The loop that turns the text around, with the distances of `begin` and `end` from `p->data`. -/
def reverseLoop (first last : ℕ) (data : List UInt8) : Except Fault (List UInt8) := do
  if first < last then
    let aux ← loadByte data last
    let c ← loadByte data first
    let data ← storeByte data last c
    let data ← storeByte data first aux
    reverseLoop (first + 1) (last - 1) data
  else return data
termination_by last - first

/-- The end of the line and the zero behind it. -/
def storeEnd (wstr : ℕ) (data : List UInt8) : Except Fault (List UInt8) := do
  let data ← storeByte data wstr carriage
  let data ← storeByte data (wstr + 1) newline
  storeByte data (wstr + 2) 0

/-- `xlab_string_itop`. -/
def stringItop (value : ℤ) (p : XlabPointer) : Except Fault (ℤ × XlabPointer) :=
  if value = -2 ^ 31 then .error .overflow
  else do
    let uvalue := toUInt (if value < 0 then -value else value)
    let (wstr, data) ← digitLoop uvalue 0 p.data
    let (wstr, data) ← storeSign value wstr data
    let data ← storeByte data wstr 0
    let data ← reverseLoop 0 (wstr - 1) data
    let data ← storeEnd wstr data
    return (0, ⟨data, wstr + 3 - 1⟩)

/-! ## What the loops do -/

/-- The next byte behind what has been written. -/
theorem storeByte_next (text : List UInt8) (d c : UInt8) (rest : List UInt8) :
    storeByte (text ++ d :: rest) text.length c = .ok (text ++ c :: rest) := by
  rw [storeByte, if_pos (by simp), List.set_append_right _ _ (Nat.le_refl _), Nat.sub_self,
    List.set_cons_zero]

theorem storeByte_end (text : List UInt8) (c : UInt8) :
    storeByte text text.length c = .error .outOfBounds :=
  if_neg (Nat.lt_irrefl _)

/-- The digits come in reverse, as long as there is room. -/
theorem digitLoop_eq (n : ℕ) (text rest : List UInt8) :
    digitLoop n text.length (text ++ rest) =
      if (natText n).length ≤ rest.length then
        .ok (text.length + (natText n).length,
          text ++ (natText n).reverse ++ rest.drop (natText n).length)
      else .error .outOfBounds := by
  induction n using Nat.strongRecOn generalizing text rest with
  | _ n ih =>
    have hpos := List.length_pos_iff.2 (natText_ne_nil n)
    rw [digitLoop]
    cases rest with
    | nil =>
      rw [List.append_nil, storeByte_end, if_neg (by rw [List.length_nil]; omega)]
      rfl
    | cons d rest =>
      rw [storeByte_next]
      show (if n / 10 = 0 then _ else _) = _
      have hsplit : text ++ UInt8.ofNat (48 + n % 10) :: rest =
          text ++ [UInt8.ofNat (48 + n % 10)] ++ rest := by simp
      have hlen : (text ++ [UInt8.ofNat (48 + n % 10)]).length = text.length + 1 := by simp
      by_cases hlast : n < 10
      · rw [if_pos (Nat.div_eq_of_lt hlast), natText_eq, if_pos hlast]
        simp [pure, Except.pure]
      · have hrest := ih (n / 10) (Nat.div_lt_self (by omega) (by decide))
          (text ++ [UInt8.ofNat (48 + n % 10)]) rest
        rw [if_neg (by omega), hsplit, ← hlen, hrest, natText_eq n, if_neg hlast]
        simp [Nat.add_assoc, Nat.add_comm 1]

theorem loadByte_next (text : List UInt8) (d : UInt8) (rest : List UInt8) :
    loadByte (text ++ d :: rest) text.length = .ok d := by
  rw [loadByte, List.getElem?_append_right (Nat.le_refl _), Nat.sub_self]
  rfl

/-- Every turn exchanges the two ends of what is left between them. -/
theorem reverseLoop_eq_ok (xs front back : List UInt8) :
    reverseLoop front.length (front.length + xs.length - 1) (front ++ xs ++ back) =
      .ok (front ++ xs.reverse ++ back) := by
  induction xs using List.bidirectionalRec generalizing front back with
  | nil =>
    rw [reverseLoop, if_neg (by rw [List.length_nil]; omega)]
    rfl
  | singleton a =>
    rw [reverseLoop, if_neg (by rw [List.length_singleton]; omega)]
    rfl
  | cons_append a xs b ih =>
    have hlast : front.length + (a :: (xs ++ [b])).length - 1 = (front ++ a :: xs).length := by
      simp
    have hdata : front ++ a :: (xs ++ [b]) ++ back = (front ++ a :: xs) ++ b :: back := by simp
    have hfirst (c : UInt8) :
        (front ++ a :: xs) ++ c :: back = front ++ a :: (xs ++ c :: back) := by
      simp
    have hload : loadByte ((front ++ a :: xs) ++ b :: back) front.length = .ok a := by
      rw [hfirst]
      exact loadByte_next _ _ _
    have hstore : storeByte ((front ++ a :: xs) ++ a :: back) front.length b =
        .ok (front ++ [b] ++ xs ++ a :: back) := by
      rw [hfirst, storeByte_next]
      simp
    have hnext := ih (front ++ [b]) (a :: back)
    rw [List.length_append, List.length_singleton] at hnext
    have hbetween : (front ++ a :: xs).length - 1 = front.length + 1 + xs.length - 1 := by
      simp [Nat.add_right_comm]
    rw [reverseLoop, hlast, hdata, if_pos (by simp)]
    simp only [bind, Except.bind, loadByte_next, storeByte_next, hload, hstore]
    rw [hbetween, hnext]
    simp

/-- The sign comes behind the digits. -/
theorem printed_eq {v : ℤ} (hlo : -2 ^ 31 < v) (hhi : v < 2 ^ 31) (data : List UInt8) :
    (digitLoop (toUInt (if v < 0 then -v else v)) 0 data >>= fun r => storeSign v r.1 r.2) =
      if (intText v).length ≤ data.length then
        .ok ((intText v).length, (intText v).reverse ++ data.drop (intText v).length)
      else .error .outOfBounds := by
  have habs : (if v < 0 then -v else v) = (v.natAbs : ℤ) := by
    split_ifs <;> omega
  have hdigits := digitLoop_eq v.natAbs [] data
  rw [List.length_nil, Nat.zero_add, List.nil_append, List.nil_append] at hdigits
  rw [habs, toUInt_of_range (by omega), hdigits, intText]
  by_cases hroom : (natText v.natAbs).length ≤ data.length
  · have hlen := (natText v.natAbs).length_reverse
    simp only [if_pos hroom, bind, Except.bind, storeSign]
    split_ifs with hneg hsign
    · rw [List.length_cons] at hsign
      obtain ⟨d, rest, hrest⟩ := List.exists_cons_of_ne_nil
        (l := data.drop (natText v.natAbs).length)
        (by rw [Ne, List.drop_eq_nil_iff]; omega)
      have hdrop : data.drop ((natText v.natAbs).length + 1) = rest := by
        rw [← List.drop_drop, hrest, List.drop_one, List.tail_cons]
      rw [hrest, ← hlen, storeByte_next, List.length_cons, hlen, hdrop]
      simp [pure, Except.pure]
    · rw [List.length_cons] at hsign
      rw [List.drop_of_length_le (by omega), List.append_nil, ← hlen, storeByte_end]
    · rfl
  · have hle : (natText v.natAbs).length ≤
        (if v < 0 then 0x2D :: natText v.natAbs else natText v.natAbs).length := by
      split_ifs
      · exact Nat.le_succ _
      · exact Nat.le_refl _
    rw [if_neg hroom, if_neg (by omega)]
    rfl

theorem storeEnd_eq (text rest : List UInt8) : storeEnd text.length (text ++ rest) =
    if 3 ≤ rest.length then .ok (text ++ carriage :: newline :: 0 :: rest.drop 3)
    else .error .outOfBounds := by
  have hnext (front : List UInt8) (d c : UInt8) (rest : List UInt8) :
      storeByte (text ++ (front ++ d :: rest)) (text.length + front.length) c =
        .ok (text ++ (front ++ c :: rest)) := by
    rw [← List.append_assoc, ← List.length_append, storeByte_next, List.append_assoc]
  have hend (front : List UInt8) (c : UInt8) :
      storeByte (text ++ front) (text.length + front.length) c = .error .outOfBounds := by
    rw [← List.length_append, storeByte_end]
  have hcr (d : UInt8) (rest : List UInt8) : storeByte (text ++ d :: rest) text.length carriage =
      .ok (text ++ carriage :: rest) := hnext [] d carriage rest
  have hlf (d : UInt8) (rest : List UInt8) :
      storeByte (text ++ carriage :: d :: rest) (text.length + 1) newline =
        .ok (text ++ carriage :: newline :: rest) := hnext [carriage] d newline rest
  unfold storeEnd
  match rest with
  | [] =>
    have hfull : storeByte (text ++ []) text.length carriage = .error .outOfBounds := hend [] _
    rw [hfull]
    rfl
  | [a] =>
    have hfull : storeByte (text ++ [carriage]) (text.length + 1) newline = .error .outOfBounds :=
      hend [carriage] _
    simp only [bind, Except.bind, hcr, hfull]
    rfl
  | [a, b] =>
    have hfull : storeByte (text ++ [carriage, newline]) (text.length + 2) 0 =
      .error .outOfBounds := hend [carriage, newline] _
    simp only [bind, Except.bind, hcr, hlf, hfull]
    rfl
  | a :: b :: c :: rest =>
    have hzero : storeByte (text ++ carriage :: newline :: c :: rest) (text.length + 2) 0 =
      .ok (text ++ carriage :: newline :: 0 :: rest) := hnext [carriage, newline] c 0 rest
    simp only [bind, Except.bind, hcr, hlf, hzero]
    rw [if_pos (by simp)]
    rfl

/-- The text is turned around and ended. -/
theorem ended_eq (text rest : List UInt8) :
    (do
      let data ← storeByte (text.reverse ++ rest) text.length 0
      let data ← reverseLoop 0 (text.length - 1) data
      storeEnd text.length data) =
    if 3 ≤ rest.length then .ok (text ++ carriage :: newline :: 0 :: rest.drop 3)
    else .error .outOfBounds := by
  have hlen := text.length_reverse
  have hreverse (back : List UInt8) :
      reverseLoop 0 (text.length - 1) (text.reverse ++ back) = .ok (text ++ back) := by
    simpa using reverseLoop_eq_ok text.reverse [] back
  cases rest with
  | nil =>
    rw [List.append_nil, ← hlen, storeByte_end]
    rfl
  | cons d rest =>
    have hzero : storeByte (text.reverse ++ d :: rest) text.length 0 =
        .ok (text.reverse ++ 0 :: rest) := by
      rw [← hlen, storeByte_next]
    simp only [bind, Except.bind, hzero, hreverse, storeEnd_eq]
    rfl

theorem stringItop_eq {value : ℤ} (hlo : -2 ^ 31 < value) (hhi : value < 2 ^ 31)
    (p : XlabPointer) : stringItop value p =
      if (intText value).length + 3 ≤ p.data.length then
        .ok (0, ⟨intText value ++ carriage :: newline :: 0 ::
          p.data.drop ((intText value).length + 3), (intText value).length + 2⟩)
      else .error .outOfBounds := by
  have hrun : stringItop value p =
      (digitLoop (toUInt (if value < 0 then -value else value)) 0 p.data >>= fun r =>
        storeSign value r.1 r.2) >>= fun r => (do
          let data ← storeByte r.2 r.1 0
          let data ← reverseLoop 0 (r.1 - 1) data
          storeEnd r.1 data) >>= fun data => .ok (0, ⟨data, r.1 + 3 - 1⟩) := by
    rw [stringItop, if_neg (by omega), bind_assoc]
    simp only [bind_assoc]
    rfl
  rw [hrun, printed_eq hlo hhi]
  by_cases htext : (intText value).length ≤ p.data.length
  · rw [if_pos htext]
    show (do
      let data ← storeByte ((intText value).reverse ++ p.data.drop (intText value).length)
        (intText value).length 0
      let data ← reverseLoop 0 ((intText value).length - 1) data
      storeEnd (intText value).length data) >>= _ = _
    rw [ended_eq, List.length_drop, List.drop_drop]
    by_cases hroom : (intText value).length + 3 ≤ p.data.length
    · rw [if_pos hroom, if_pos (by omega)]
      rfl
    · rw [if_neg hroom, if_neg (by omega)]
      rfl
  · rw [if_neg htext, if_neg (by omega)]
    rfl

/-- `xlab_string_itop` has a defined run on an `int` exactly if it is not the least one, and its
text, the end of the line and a zero fit into the buffer. Then they are at the start of it, the rest
is as before, and `strtol` reads the value back. -/
theorem string_itop_iff {value : ℤ} (hlo : -2 ^ 31 ≤ value) (hhi : value < 2 ^ 31)
    (p : XlabPointer) :
    ((∃ r, stringItop value p = .ok r) ↔
        value ≠ -2 ^ 31 ∧ (intText value).length + 3 ≤ p.data.length) ∧
      ∀ ret p', stringItop value p = .ok (ret, p') → ret = 0 ∧
        p'.data = intText value ++ carriage :: newline :: 0 ::
          p.data.drop ((intText value).length + 3) ∧
        p'.len = (intText value).length + 2 ∧
        ∀ bits, 32 ≤ bits → strtol bits (cstr p'.data) = value := by
  by_cases hleast : value = -2 ^ 31
  · have hfault : stringItop value p = .error .overflow := if_pos hleast
    refine ⟨iff_of_false ?_ fun hand => hand.1 hleast, fun ret p' h => ?_⟩
    · rintro ⟨r, hr⟩
      rw [hfault] at hr
      cases hr
    · rw [hfault] at h
      cases h
  rw [stringItop_eq (by omega) hhi]
  refine ⟨⟨fun h => ⟨hleast, ?_⟩, fun h => ⟨_, if_pos h.2⟩⟩, fun ret p' h => ?_⟩
  · obtain ⟨r, hr⟩ := h
    by_contra hroom
    rw [if_neg hroom] at hr
    cases hr
  · split_ifs at h
    cases h
    refine ⟨rfl, rfl, rfl, fun bits hbits => ?_⟩
    have hwrites := writes_intText value
    have hdigit : isDigit carriage = false := by decide
    have hcstr : cstr (intText value ++ carriage :: newline :: 0 ::
        p.data.drop ((intText value).length + 3)) = intText value ++ carriage :: [newline] := by
      have hzero : (0 : UInt8) ∉ intText value ++ carriage :: [newline] := fun h =>
        (List.mem_append.1 h).elim (zero_not_mem_intText value) (by decide)
      rw [← cstr_append_zero hzero (p.data.drop ((intText value).length + 3)), List.append_assoc]
      rfl
    rw [hcstr, strtol_append hwrites hdigit, strtol_of_writes hwrites]
    exact toLong_of_range hbits hlo hhi

/-- A buffer of six bytes is just enough for −12. -/
theorem string_itop_minusTwelve : ∃ p', stringItop (-12) ⟨[9, 9, 9, 9, 9, 9], 0⟩ = .ok (0, p') ∧
    p'.data = [0x2D, 0x31, 0x32, carriage, newline, 0] ∧ strtol 64 (cstr p'.data) = -12 := by
  have hlo : (-2 ^ 31 : ℤ) ≤ -12 := by decide
  have hhi : (-12 : ℤ) < 2 ^ 31 := by decide
  have hiff := string_itop_iff hlo hhi ⟨[9, 9, 9, 9, 9, 9], 0⟩
  obtain ⟨⟨ret, p'⟩, hr⟩ := hiff.1.2 ⟨by decide, by decide⟩
  obtain ⟨rfl, hdata, -, hread⟩ := hiff.2 ret p' hr
  exact ⟨p', hr, hdata, hread 64 (by decide)⟩

end Xlab
