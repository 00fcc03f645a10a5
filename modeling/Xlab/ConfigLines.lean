import Mathlib.Data.List.GetD
import Mathlib.Data.List.Infix
import Xlab.ConfigFile

/-!
# The lines of a configuration file

What one turn of the loop of `xlab_config_create` does once the end of the line is cut off : nothing
for an empty line or a comment, a new section for a header, and for any other line the check of
its indent, and an entry unless a comment or the end of the line follows.

The key and the value come from the text of the line if that is longer than the indent
(`readKeyVal_of_space`, `readKeyVal_of_no_space`). Behind a shorter line the code looks at what
earlier lines have left in the buffer (`readKeyVal_of_short`). `Reader.Sound` holds between the
lines of any file.
-/

open CStr

namespace Xlab

/-! ## Searches and copies -/

theorem idxOf?_append {s : List UInt8} {c : UInt8} (hc : c ∉ s) (t : List UInt8) :
    (s ++ c :: t).idxOf? c = some s.length := by
  refine List.idxOf?_eq_some_iff.2 ⟨by simp, by simp, fun j hj => ?_⟩
  rw [List.getElem_append_left hj]
  simpa using ne_of_mem_of_not_mem (List.getElem_mem hj) hc

theorem stringCopySubstr_append {s : List UInt8} (hs : (0 : UInt8) ∉ s) (t : List UInt8) :
    stringCopySubstr (s ++ t) 0 s.length = .ok (some s) := by
  rw [stringCopySubstr, if_neg (by omega), if_pos (by simp)]
  simp [cstr_of_not_mem hs]

/-! ## The end of a line -/

theorem getElem?_of_lt (t s : List UInt8) (a b : UInt8) {j : ℕ} (hj : t.length < j) :
    (t ++ a :: s)[j]? = (t ++ b :: s)[j]? := by
  obtain ⟨k, rfl⟩ : ∃ k, j = t.length + (k + 1) := ⟨j - t.length - 1, by omega⟩
  rw [List.getElem?_append_right (Nat.le_add_right _ _), Nat.add_sub_cancel_left,
    List.getElem?_append_right (Nat.le_add_right _ _), Nat.add_sub_cancel_left]
  rfl

/-- The end of a line is cut off its string, and nothing changes behind the string. -/
theorem stripEol_eq_ok {buf : List UInt8} (h : cstr buf ≠ []) : ∃ buf' : List UInt8,
    stripEol buf = .ok buf' ∧ cstr buf' = cutEol (cstr buf) ∧ buf'.length = buf.length ∧
      ∀ j, (cstr buf).length ≤ j → buf'[j]? = buf[j]? := by
  obtain ⟨stale, hbuf, -⟩ := exists_eq_cstr_append buf
  have hzero := zero_not_mem_cstr buf
  obtain ⟨t, c, hs⟩ : ∃ t c, cstr buf = t ++ [c] :=
    ⟨_, _, (List.dropLast_append_getLast h).symm⟩
  have hlen : (cstr buf).length = t.length + 1 := by rw [hs, List.length_append]; rfl
  rw [hs, List.append_assoc, List.singleton_append] at hbuf
  rw [hs] at hzero
  have hget : buf.getD t.length 0 = c := by rw [hbuf]; simp
  rw [stripEol, hlen]
  simp only [hget]
  by_cases hc : c = newline
  · have hset : buf.set t.length 0 = t ++ 0 :: stale := by rw [hbuf]; simp
    have ht : (0 : UInt8) ∉ t := fun h0 => hzero (List.mem_append_left _ h0)
    have hcut : cutEol (cstr buf) = if t.getLast? = some carriage then t.dropLast else t := by
      rw [hs, cutEol, List.getLast?_concat, List.dropLast_concat, if_pos (congrArg some hc)]
    have hline : ∀ j, t.length + 1 ≤ j → (t ++ 0 :: stale)[j]? = buf[j]? := fun j hj => by
      rw [hbuf]
      exact getElem?_of_lt t stale 0 c hj
    rw [if_pos hc, hset, hcut]
    by_cases hcr : t.getLast? = some carriage
    · obtain ⟨u, rfl⟩ : ∃ u, t = u ++ [carriage] := List.getLast?_eq_some_iff.1 hcr
      have hu : (0 : UInt8) ∉ u := fun h0 => ht (List.mem_append_left _ h0)
      have hcond : 0 < (u ++ [carriage]).length ∧
          (u ++ [carriage] ++ 0 :: stale).getD ((u ++ [carriage]).length - 1) 0 = carriage := by
        simp
      have hset' : (u ++ [carriage] ++ 0 :: stale).set ((u ++ [carriage]).length - 1) 0 =
          u ++ 0 :: 0 :: stale := by simp
      rw [if_pos hcond, hset', if_pos hcr, List.dropLast_concat]
      refine ⟨_, rfl, cstr_append_zero hu _, by rw [hbuf]; simp, fun j hj => ?_⟩
      rw [List.length_append, List.length_singleton] at hj
      rw [← hline j (by simpa using hj), List.append_assoc]
      exact getElem?_of_lt u (0 :: stale) 0 carriage (by omega)
    · have hcond : ¬(0 < t.length ∧ (t ++ 0 :: stale).getD (t.length - 1) 0 = carriage) := by
        rintro ⟨hpos, hget⟩
        refine hcr ?_
        rw [List.getLast?_eq_getElem?, ← hget, List.getD_eq_getElem?_getD,
          List.getElem?_append_left (by omega), List.getElem?_eq_getElem (by omega)]
        rfl
      rw [if_neg hcond, if_neg hcr]
      exact ⟨_, rfl, cstr_append_zero ht _, by rw [hbuf]; simp, hline⟩
  · have hcut : cutEol (cstr buf) = cstr buf := by
      rw [hs, cutEol, List.getLast?_concat, if_neg fun h => hc (Option.some.inj h)]
    rw [if_neg hc, hcut]
    exact ⟨buf, rfl, rfl, rfl, fun _ _ => rfl⟩

/-- What stands behind the end of the string plays no part. -/
theorem stripEol_append {buf : List UInt8} (h : (0 : UInt8) ∈ buf) (stale : List UInt8) :
    stripEol (buf ++ stale) = (stripEol buf).map (· ++ stale) := by
  obtain ⟨s, t, rfl, hs⟩ := List.eq_append_cons_of_mem h
  have hcstr : cstr (s ++ 0 :: t ++ stale) = cstr (s ++ 0 :: t) := by
    rw [List.append_assoc, List.cons_append, cstr_append_zero hs, cstr_append_zero hs]
  have hle : (cstr (s ++ 0 :: t)).length ≤ (s ++ 0 :: t).length :=
    (List.takeWhile_prefix _).length_le
  rw [stripEol, stripEol, hcstr]
  generalize s ++ 0 :: t = buf at hle
  cases hlen : (cstr buf).length with
  | zero => rfl
  | succ len =>
    have hlt : len < buf.length := by omega
    have hlt' : len - 1 < (buf.set len 0).length := by
      rw [List.length_set]
      omega
    simp only [List.getD_append _ _ _ _ hlt, List.set_append_left _ _ hlt,
      List.getD_append _ _ _ _ hlt', List.set_append_left _ _ hlt']
    split_ifs <;> rfl

/-- The text of a line that `fgets` has read. -/
def lineText (chunk : List UInt8) : List UInt8 :=
  cutEol (cstr chunk)

/-- Before the end of an empty string there is no byte to look at. -/
theorem stripEol_of_zero {chunk : List UInt8} (h : chunk.head? = some 0) (stale : List UInt8) :
    stripEol (chunk ++ 0 :: stale) = .error .outOfBounds := by
  obtain ⟨s, rfl⟩ := List.head?_eq_some_iff.1 h
  rfl

theorem exists_stripEol {chunk : List UInt8} (hne : chunk ≠ []) (h : chunk.head? ≠ some 0)
    (stale : List UInt8) : ∃ buf, stripEol (chunk ++ 0 :: stale) = .ok buf := by
  have hcstr : cstr (chunk ++ 0 :: stale) ≠ [] := by
    rw [cstr_append_zero_eq]
    exact mt (cstr_eq_nil_iff hne).1 h
  obtain ⟨buf, hstrip, -⟩ := stripEol_eq_ok hcstr
  exact ⟨buf, hstrip⟩

/-- What is left of a line that `fgets` has read, and of the bytes behind it. -/
theorem stripEol_chunk {chunk stale buf : List UInt8}
    (h : stripEol (chunk ++ 0 :: stale) = .ok buf) :
    cstr buf = lineText chunk ∧ buf.length = chunk.length + (stale.length + 1) ∧
      ∀ k : ℕ, buf[chunk.length + k]? = (0 :: stale)[k]? := by
  have hcstr := cstr_append_zero_eq chunk stale
  have hne : cstr (chunk ++ 0 :: stale) ≠ [] := by
    intro hnil
    rw [stripEol, hnil] at h
    cases h
  obtain ⟨buf', hstrip, htext, hsize, hkept⟩ := stripEol_eq_ok hne
  obtain rfl := Except.ok.inj (h.symm.trans hstrip)
  rw [hcstr] at htext hkept
  refine ⟨htext, by rw [hsize, List.length_append, List.length_cons], fun k => ?_⟩
  have hshort : (cstr chunk).length ≤ chunk.length := (List.takeWhile_prefix _).length_le
  rw [hkept _ (Nat.le_trans hshort (Nat.le_add_right _ _)),
    List.getElem?_append_right (Nat.le_add_right _ _), Nat.add_sub_cancel_left]

/-! ## The line in the buffer -/

/-- A turn of the loop, once the end of the line is cut off. -/
def readText (r : Reader) : Except Fault Reader :=
  let text := cstr r.buf
  if text = [] ∨ text.head? = some 0x23 then .ok r
  else if text.head? = some 0x5B then
    let stop := stringCharSearch r.buf 0x5D text.length
    if 0 < stop then readSection stop r else readEntry (r.error .badHeader)
  else readEntry r

/-- The reader with a new line in its buffer. -/
def Reader.load (buf : List UInt8) (r : Reader) : Reader :=
  { r with buf := buf, line := r.line + 1 }

theorem readLine_eq (r : Reader) (chunk : List UInt8) :
    readLine r chunk = stripEol (chunk ++ 0 :: r.buf.drop (chunk.length + 1)) >>= fun buf =>
      readText (r.load buf) :=
  rfl

namespace Reader

/-- The text of the line. -/
def text (r : Reader) : List UInt8 :=
  cstr r.buf

/-- The line is empty or a comment. -/
def IsSkipped (r : Reader) : Prop :=
  r.text = [] ∨ r.text.head? = some 0x23

/-- The line opens a section. -/
def IsHeader (r : Reader) : Prop :=
  r.text.head? = some 0x5B ∧ 0x5D ∈ r.text

/-- The line is read as an entry. -/
def IsEntry (r : Reader) : Prop :=
  ¬r.IsSkipped ∧ ¬r.IsHeader

/-- The indent, which is that of the line if it is not known before. -/
def indented (r : Reader) : List UInt8 :=
  r.indent.getD (indentOf r.text)

/-- The line has another indent. -/
def BadIndent (r : Reader) : Prop :=
  ¬r.indented <+: r.text ∨ isBlank (r.buf.getD r.indented.length 0) = true

/-- The line is read as an entry, and is not over after the indent and no comment there. -/
def Adds (r : Reader) : Prop :=
  r.IsEntry ∧ r.buf.getD r.indented.length 0 ≠ 0x23 ∧ r.indented.length ≠ r.text.length

instance (r : Reader) : Decidable r.IsSkipped :=
  inferInstanceAs (Decidable (_ ∨ _))

instance (r : Reader) : Decidable r.IsHeader :=
  inferInstanceAs (Decidable (_ ∧ _))

instance (r : Reader) : Decidable r.IsEntry :=
  inferInstanceAs (Decidable (_ ∧ _))

instance (r : Reader) : Decidable r.BadIndent :=
  inferInstanceAs (Decidable (_ ∨ _))

instance (r : Reader) : Decidable r.Adds :=
  inferInstanceAs (Decidable (_ ∧ _))

/-- The reader once the indent is known and checked. -/
def indentChecked (r : Reader) : Reader :=
  { r with
    indent := some r.indented
    errors := r.errors ++ if r.BadIndent then [(r.line, .badIndent)] else [] }

/-- The errors of a line before its key and value. -/
def complaints (r : Reader) : List ConfigError :=
  (if r.text.head? = some 0x5B then [.badHeader] else []) ++
    if r.BadIndent then [.badIndent] else []

/-- The reader before the key and value of a line. -/
def checked (r : Reader) : Reader :=
  { r with indent := some r.indented, errors := r.errors ++ r.complaints.map (r.line, ·) }

/-- The name of the section a header opens. -/
def header (r : Reader) : List UInt8 :=
  (r.text.drop 1).takeWhile (· ≠ 0x5D)

/-- What follows the indent. -/
def rest (r : Reader) : List UInt8 :=
  r.text.drop r.indented.length

/-- There is no space behind the key, or no key. -/
def NoValue (r : Reader) : Prop :=
  0x20 ∉ r.rest ∨ r.rest.head? = some 0x20

instance (r : Reader) : Decidable r.NoValue :=
  inferInstanceAs (Decidable (_ ∨ _))

/-- The reader before the entry of a line is added. -/
def judged (r : Reader) : Reader :=
  { r.checked with
    errors := r.checked.errors ++ if r.NoValue then [(r.line, .noValue)] else [] }

/-- With the length of its key the line goes beyond the buffer. -/
def Overflows (r : Reader) : Prop :=
  ∃ key val, r.rest = key ++ 0x20 :: val ∧ 0x20 ∉ key ∧ 255 < r.text.length + key.length

end Reader

variable {r : Reader}

theorem readText_of_skipped (h : r.IsSkipped) : readText r = .ok r :=
  if_pos h

theorem Reader.IsEntry.ne_nil (h : r.IsEntry) : r.text ≠ [] := fun hnil => h.1 (Or.inl hnil)

/-- A search up to the end of the text finds what is in the text. -/
theorem take_buf (r : Reader) (m : ℕ) :
    (r.buf.drop m).take (r.text.length - m) = r.text.drop m := by
  have htake : r.buf.take r.text.length = r.text :=
    (List.prefix_iff_eq_take.1 (List.takeWhile_prefix _)).symm
  rw [← List.drop_take, htake]

/-- Behind the text there is nothing, or a zero first. -/
theorem drop_buf (r : Reader) {m : ℕ} (hm : m ≤ r.text.length) :
    ∃ stale, r.buf.drop m = r.text.drop m ++ stale ∧ ∀ k, cstr (stale.take k) = [] := by
  obtain ⟨stale, hbuf, hstale⟩ := exists_eq_cstr_append r.buf
  refine ⟨stale, ?_, hstale⟩
  conv_lhs => rw [hbuf]
  exact List.drop_append_of_le_length hm

theorem getD_of_rest {r : Reader} {m : ℕ} {c : UInt8} {s : List UInt8}
    (h : r.text.drop m = c :: s) :
    r.buf.getD m 0 = c := by
  have hm : m ≤ r.text.length := by
    by_contra hgt
    rw [List.drop_eq_nil_of_le (by omega)] at h
    cases h
  obtain ⟨stale, hdrop, -⟩ := drop_buf r hm
  have hhead : (r.buf.drop m).head? = some c := by rw [hdrop, h]; rfl
  rw [List.head?_drop] at hhead
  rw [List.getD_eq_getElem?_getD, hhead, Option.getD_some]

theorem stringCharSearch_of_mem {r : Reader} {m : ℕ} {c : UInt8} {s t : List UInt8}
    (h : r.text.drop m = s ++ c :: t) (hc : c ∉ s) :
    stringCharSearch (r.buf.drop m) c ((r.text.length : ℤ) - m) = s.length := by
  have hlen := congrArg List.length h
  rw [List.length_drop, List.length_append, List.length_cons] at hlen
  have hpos : ¬(r.text.length : ℤ) - m < 0 := by omega
  have hnat : ((r.text.length : ℤ) - m).toNat = r.text.length - m := by omega
  rw [stringCharSearch, if_neg hpos, hnat, take_buf, h, idxOf?_append hc]

/-- A line has one key. -/
theorem overflows_iff {key val : List UInt8} (hrest : r.rest = key ++ 0x20 :: val)
    (hspace : 0x20 ∉ key) : r.Overflows ↔ 255 < r.text.length + key.length := by
  constructor
  · rintro ⟨key', val', hrest', hspace', hlong⟩
    have hsame : (key.length : ℤ) = key'.length :=
      (stringCharSearch_of_mem hrest hspace).symm.trans (stringCharSearch_of_mem hrest' hspace')
    rw [Int.natCast_inj.1 hsame]
    exact hlong
  · exact fun hlong => ⟨key, val, hrest, hspace, hlong⟩

theorem not_overflows (h : 0x20 ∉ r.rest) : ¬r.Overflows := by
  rintro ⟨key, val, hrest, -, -⟩
  exact h (hrest ▸ List.mem_append_right key List.mem_cons_self)

theorem stringCharSearch_of_not_mem {r : Reader} {m : ℕ} {c : UInt8} (hm : m ≤ r.text.length)
    (h : c ∉ r.text.drop m) :
    stringCharSearch (r.buf.drop m) c ((r.text.length : ℤ) - m) = -1 := by
  have hpos : ¬(r.text.length : ℤ) - m < 0 := by omega
  have hnat : ((r.text.length : ℤ) - m).toNat = r.text.length - m := by omega
  rw [stringCharSearch, if_neg hpos, hnat, take_buf, List.idxOf?_eq_none_iff.2 h]

/-- The name of a header is what stands between the brackets. -/
theorem Reader.IsHeader.text_eq (h : r.IsHeader) :
    ∃ t, r.text = (0x5B :: r.header) ++ 0x5D :: t ∧ 0x5D ∉ 0x5B :: r.header := by
  obtain ⟨hhead, hmem⟩ := h
  obtain ⟨s, hs⟩ := List.head?_eq_some_iff.1 hhead
  rw [hs, List.mem_cons, or_iff_right (by decide)] at hmem
  obtain ⟨name, t, rfl, hname⟩ := List.eq_append_cons_of_mem hmem
  have hheader : r.header = name := by
    have hall : ∀ c ∈ name, decide (c ≠ 0x5D) = true := fun c hc => by
      simpa using ne_of_mem_of_not_mem hc hname
    rw [Reader.header, hs, List.drop_succ_cons, List.drop_zero,
      List.takeWhile_append_of_pos hall, List.takeWhile_cons_of_neg (by simp), List.append_nil]
  refine ⟨t, by rw [hheader, hs, List.cons_append], ?_⟩
  rw [hheader, List.mem_cons, or_iff_right (by decide)]
  exact hname

theorem search_of_header (h : r.IsHeader) :
    stringCharSearch r.buf 0x5D r.text.length = (r.header.length + 1 : ℕ) := by
  obtain ⟨t, htext, hnot⟩ := h.text_eq
  simpa using stringCharSearch_of_mem (m := 0) htext hnot

theorem search_of_not_mem (h : 0x5D ∉ r.text) :
    stringCharSearch r.buf 0x5D r.text.length = -1 := by
  simpa using stringCharSearch_of_not_mem (m := 0) (Nat.zero_le _) h

/-- A header opens its section. -/
theorem readText_of_header (h : r.IsHeader) : readText r = .ok
    ((if r.sections ≠ [] ∧ r.nKeys = 0 then r.error .emptySection else r).sectionAdd r.header) := by
  obtain ⟨t, htext, -⟩ := h.text_eq
  obtain ⟨stale, hbuf, -⟩ := exists_eq_cstr_append r.buf
  have hskip : ¬r.IsSkipped := by
    rintro (hnil | hhash)
    · have hhead := h.1
      rw [hnil] at hhead
      cases hhead
    · exact absurd (h.1.symm.trans hhash) (by decide)
  have hzero : (0 : UInt8) ∉ r.header := fun h0 => zero_not_mem_cstr r.buf <| by
    rw [← Reader.text, htext]
    exact List.mem_append_left _ (List.mem_cons_of_mem _ h0)
  have hcopy : stringCopySubstr r.buf 1 (r.header.length + 1 : ℕ) = .ok (some r.header) := by
    rw [← Reader.text, htext] at hbuf
    rw [stringCopySubstr, if_neg (by omega), if_pos (by rw [hbuf]; simp), hbuf]
    simp [cstr_of_not_mem hzero]
  refine (if_neg hskip).trans ((if_pos h.1).trans ?_)
  rw [← Reader.text, search_of_header h]
  refine (if_pos (Int.natCast_pos.2 (Nat.succ_pos _))).trans ?_
  rw [readSection]
  split_ifs
  · rw [show (r.error .emptySection).buf = r.buf from rfl, hcopy]
    rfl
  · rw [hcopy]
    rfl

theorem prefix_indentOf (text : List UInt8) : indentOf text <+: text := by
  obtain ⟨t, ht⟩ := List.takeWhile_prefix (l := text.drop 1) isBlank
  refine ⟨t, ?_⟩
  rw [indentOf, List.append_assoc, ht, List.take_append_drop]

/-- The indent is known and checked before the code looks at what follows it. -/
theorem readEntry_eq (r : Reader) : readEntry r =
    if r.buf.getD r.indented.length 0 = 0x23 ∨ r.indented.length = r.text.length then
      .ok r.indentChecked
    else readKeyVal r.indented.length r.text.length r.indentChecked := by
  rw [readEntry]
  by_cases hend : r.indent = none ∧ r.indented.length = r.text.length
  · -- the first line that is not empty consists of its indent
    have hindented : r.indented = indentOf r.text := by rw [Reader.indented, hend.1]; rfl
    have hgood : ¬r.BadIndent := by
      rintro (hnot | hblank)
      · exact hnot (hindented ▸ prefix_indentOf r.text)
      · rw [hend.2, Reader.text, getD_cstr_length] at hblank
        exact absurd hblank (by decide)
    refine (if_pos hend).trans ?_
    rw [if_pos (Or.inr hend.2), Reader.indentChecked, if_neg hgood, List.append_nil]
    rfl
  · refine (if_neg hend).trans ?_
    show (fun r' : Reader => if r'.buf.getD r.indented.length 0 = 0x23 ∨
        r.indented.length = r.text.length then .ok r'
      else readKeyVal r.indented.length r.text.length r') (if r.BadIndent then _ else _) = _
    rw [Reader.indentChecked]
    by_cases hbad : r.BadIndent
    · rw [if_pos hbad, if_pos hbad]
      rfl
    · rw [if_neg hbad, if_neg hbad, List.append_nil]
      rfl

/-- A line that is neither skipped nor a header has its indent checked. -/
theorem readText_of_entry (h : r.IsEntry) : readText r =
    if r.buf.getD r.indented.length 0 = 0x23 ∨ r.indented.length = r.text.length then .ok r.checked
    else readKeyVal r.indented.length r.text.length r.checked := by
  refine (if_neg h.1).trans ?_
  by_cases hhead : r.text.head? = some 0x5B
  · have hchecked : (r.error .badHeader).indentChecked = r.checked := by
      have herrors : r.errors ++ [(r.line, .badHeader)] ++
          (if r.BadIndent then [(r.line, .badIndent)] else []) =
            r.errors ++ r.complaints.map (r.line, ·) := by
        rw [Reader.complaints, if_pos hhead]
        split_ifs <;> simp
      exact congrArg (fun es => { r with indent := some r.indented, errors := es }) herrors
    refine (if_pos hhead).trans ?_
    rw [← Reader.text, search_of_not_mem fun hmem => h.2 ⟨hhead, hmem⟩]
    refine (if_neg (by decide)).trans ?_
    rw [readEntry_eq, hchecked]
    rfl
  · have hchecked : r.indentChecked = r.checked := by
      rw [Reader.checked, Reader.complaints, if_neg hhead, Reader.indentChecked, List.nil_append]
      split_ifs <;> rfl
    refine (if_neg hhead).trans ?_
    rw [readEntry_eq, hchecked]

/-- An entry line that is over after the indent adds nothing. -/
theorem readText_of_idle (h : r.IsEntry) (hadds : ¬r.Adds) : readText r = .ok r.checked := by
  rw [readText_of_entry h]
  refine if_pos ?_
  by_contra hor
  exact hadds ⟨h, not_or.1 hor⟩

theorem readText_of_adds (h : r.Adds) :
    readText r = readKeyVal r.indented.length r.text.length r.checked := by
  rw [readText_of_entry h.1]
  exact if_neg (not_or.2 h.2)

/-! ## Keys and values -/

/-- What the code does with the two copies. -/
theorem readKeyVal_of_copies {indentLen len : ℕ} {i : ℤ} {key val : Option (List UInt8)}
    (hsearch : stringCharSearch (r.buf.drop indentLen) 0x20 ((len : ℤ) - indentLen) = i)
    (hkey : stringCopySubstr (r.buf.drop indentLen) 0 i = .ok key)
    (hval : stringCopySubstr (r.buf.drop ((indentLen : ℤ) + i).toNat) 1 ((len : ℤ) - indentLen) =
      .ok val) :
    readKeyVal indentLen len r =
      (if key = none ∨ val = none ∨ i = 0 then r.error .noValue else r).entryAdd
        (key.map stringTrim) (val.map stringTrim) := by
  rw [readKeyVal]
  simp only [hsearch, hkey, hval]
  rfl

/-- The value is copied to the end of the line if that is still inside as many bytes further as
the key is long. -/
theorem stringCopySubstr_value {m : ℕ} {key val : List UInt8} (hbuf : r.buf.length = 255)
    (hrest : r.text.drop m = key ++ 0x20 :: val) :
    stringCopySubstr (r.buf.drop ((m : ℤ) + key.length).toNat) 1 ((r.text.length : ℤ) - m) =
      if r.text.length + key.length ≤ 255 then .ok (some val) else .error .outOfBounds := by
  have hlen := congrArg List.length hrest
  rw [List.length_drop, List.length_append, List.length_cons] at hlen
  obtain ⟨stale, hdrop, hcut⟩ := drop_buf r (m := m) (by omega)
  rw [hrest, List.append_assoc, List.cons_append] at hdrop
  have hnat : ((m : ℤ) + key.length).toNat = m + key.length := by omega
  have hend : ((r.text.length : ℤ) - m).toNat = key.length + 1 + val.length := by omega
  have hsize : (0x20 :: (val ++ stale)).length + m + key.length = 255 := by
    have := congrArg List.length hdrop
    rw [List.length_drop, hbuf, List.length_append, List.length_cons] at this
    rw [List.length_cons]
    omega
  rw [stringCopySubstr, if_neg (by omega), hend, hnat, ← List.drop_drop, hdrop, List.drop_left]
  by_cases hroom : r.text.length + key.length ≤ 255
  · have htake : ((r.text.length : ℤ) - m - 1).toNat = val.length + key.length := by omega
    have hval0 : ∀ c ∈ val, decide (c ≠ 0) = true := fun c hc => by
      have hmem : c ∈ r.text.drop m :=
        hrest ▸ List.mem_append_right key (List.mem_cons_of_mem _ hc)
      simpa using ne_of_mem_of_not_mem (List.mem_of_mem_drop hmem) (zero_not_mem_cstr r.buf)
    rw [if_pos (by omega), if_pos hroom, htake, Int.toNat_one, List.drop_succ_cons,
      List.drop_zero, List.take_length_add_append, cstr, List.takeWhile_append_of_pos hval0]
    rw [← cstr, hcut, List.append_nil]
  · rw [if_neg (by omega), if_neg hroom]

/-- With a space in it, the rest of a line is split there. The length that bounds the copy of
the value counts from the indent, and the copy starts behind the key. -/
theorem readKeyVal_of_space {m : ℕ} {key val : List UInt8} (hbuf : r.buf.length = 255)
    (hrest : r.text.drop m = key ++ 0x20 :: val) (hspace : 0x20 ∉ key) :
    readKeyVal m r.text.length r =
      if r.text.length + key.length ≤ 255 then
        (if key = [] then r.error .noValue else r).entryAdd (some (stringTrim key))
          (some (stringTrim val))
      else .error .outOfBounds := by
  have hkey0 : (0 : UInt8) ∉ key := fun h0 => zero_not_mem_cstr r.buf <|
    List.mem_of_mem_drop (hrest ▸ List.mem_append_left _ h0 : (0 : UInt8) ∈ r.text.drop m)
  have hsearch := stringCharSearch_of_mem hrest hspace
  have hkey : stringCopySubstr (r.buf.drop m) 0 key.length = .ok (some key) := by
    have hlen := congrArg List.length hrest
    rw [List.length_drop, List.length_append, List.length_cons] at hlen
    obtain ⟨stale, hdrop, -⟩ := drop_buf r (m := m) (by omega)
    rw [hdrop, hrest, List.append_assoc]
    exact stringCopySubstr_append hkey0 _
  have hval := stringCopySubstr_value hbuf hrest
  by_cases hroom : r.text.length + key.length ≤ 255
  · rw [if_pos hroom] at hval ⊢
    rw [readKeyVal_of_copies hsearch hkey hval]
    simp [List.length_eq_zero_iff]
  · rw [if_neg hroom] at hval ⊢
    rw [readKeyVal]
    simp only [hsearch, hkey, hval]
    rfl

/-- Without a space there is no key, and the value is one byte short. -/
theorem readKeyVal_of_no_space {m : ℕ} (hbuf : r.buf.length = 255) (hm : 0 < m)
    (hlt : m < r.text.length) (hspace : 0x20 ∉ r.text.drop m) :
    readKeyVal m r.text.length r =
      (r.error .noValue).entryAdd none (some (stringTrim (r.text.drop m).dropLast)) := by
  obtain ⟨stale, hstale, -⟩ := exists_eq_cstr_append r.buf
  have hle : r.text.length ≤ 255 := by
    rw [← hbuf, hstale, List.length_append]
    exact Nat.le_add_right _ _
  have hsearch := stringCharSearch_of_not_mem (Nat.le_of_lt hlt) hspace
  have hkey : stringCopySubstr (r.buf.drop m) 0 (-1) = .ok none := if_pos (by decide)
  have hval : stringCopySubstr (r.buf.drop ((m : ℤ) + -1).toNat) 1 ((r.text.length : ℤ) - m) =
      .ok (some (r.text.drop m).dropLast) := by
    have hnat : ((m : ℤ) + -1).toNat = m - 1 := by omega
    have hend : ((r.text.length : ℤ) - m).toNat = r.text.length - m := by omega
    have hbytes : ((r.text.length : ℤ) - m - 1).toNat = r.text.length - m - 1 := by omega
    have hcopy : ((r.buf.drop (m - 1)).drop 1).take (r.text.length - m - 1) =
        (r.text.drop m).dropLast := by
      rw [List.drop_drop, Nat.sub_add_cancel hm, List.dropLast_eq_take, List.length_drop,
        ← take_buf, List.take_take, Nat.min_eq_left (Nat.sub_le _ _)]
    have hzero : (0 : UInt8) ∉ (r.text.drop m).dropLast := fun h0 =>
      zero_not_mem_cstr r.buf (List.mem_of_mem_drop (List.mem_of_mem_dropLast h0))
    rw [hnat, stringCopySubstr, if_neg (by omega), hend,
      if_pos (by rw [List.length_drop, hbuf]; omega), Int.toNat_one, hbytes, hcopy,
      cstr_of_not_mem hzero]
  rw [readKeyVal_of_copies hsearch hkey hval]
  simp

/-- Behind a line shorter than the indent, the key is what is left in the buffer there. -/
theorem readKeyVal_of_short {m : ℕ} (hshort : r.text.length < m) :
    readKeyVal m r.text.length r = (r.error .noValue).entryAdd
      (((cstr (r.buf.drop m)).idxOf? 0x20).map fun i => stringTrim ((cstr (r.buf.drop m)).take i))
      none := by
  have hneg : (r.text.length : ℤ) - m < 0 := by omega
  obtain ⟨stale, hdrop, -⟩ := exists_eq_cstr_append (r.buf.drop m)
  have htake : (r.buf.drop m).take (cstr (r.buf.drop m)).length = cstr (r.buf.drop m) :=
    (List.prefix_iff_eq_take.1 (List.takeWhile_prefix _)).symm
  have hval : ∀ i : ℤ, stringCopySubstr (r.buf.drop ((m : ℤ) + i).toNat) 1
      ((r.text.length : ℤ) - m) = .ok none := fun i => if_pos (by omega)
  cases hfind : (cstr (r.buf.drop m)).idxOf? 0x20 with
  | none =>
    have hsearch : stringCharSearch (r.buf.drop m) 0x20 ((r.text.length : ℤ) - m) = -1 := by
      rw [stringCharSearch, if_pos hneg, htake, hfind]
    have hkey : stringCopySubstr (r.buf.drop m) 0 (-1) = .ok none := if_pos (by decide)
    rw [readKeyVal_of_copies hsearch hkey (hval _)]
    rfl
  | some j =>
    have hsearch : stringCharSearch (r.buf.drop m) 0x20 ((r.text.length : ℤ) - m) = j := by
      rw [stringCharSearch, if_pos hneg, htake, hfind]
    obtain ⟨hj, -⟩ := List.idxOf?_eq_some_iff.1 hfind
    have hprefix : (r.buf.drop m).take j = (cstr (r.buf.drop m)).take j := by
      conv_lhs => rw [hdrop]
      exact List.take_append_of_le_length (Nat.le_of_lt hj)
    have hzero : (0 : UInt8) ∉ (cstr (r.buf.drop m)).take j := fun h0 =>
      zero_not_mem_cstr _ (List.mem_of_mem_take h0)
    have hle := congrArg List.length hdrop
    rw [List.length_append] at hle
    have hkey : stringCopySubstr (r.buf.drop m) 0 j =
        .ok (some ((cstr (r.buf.drop m)).take j)) := by
      refine (if_neg (by omega)).trans ((if_pos (by omega)).trans ?_)
      show Except.ok (some (cstr ((r.buf.drop m).take ((j : ℤ) - 0).toNat))) = _
      rw [show ((j : ℤ) - 0).toNat = j by omega, hprefix, cstr_of_not_mem hzero]
    rw [readKeyVal_of_copies hsearch hkey (hval _)]
    simp

/-! ## Between the lines -/

/-- The buffer has its length, and there is a zero in it behind the indent. -/
structure Reader.Sound (r : Reader) : Prop where
  buf : r.buf.length = 255
  indent : ∀ ind, r.indent = some ind → ind ≠ [] ∧ ∃ j, ind.length ≤ j ∧ r.buf[j]? = some 0

/-- A line is in the buffer, and ends there. -/
structure Reader.Loaded (r : Reader) : Prop extends r.Sound where
  zero : ∃ j : ℕ, r.buf[j]? = some 0

theorem Reader.sound_start (junk : Vector UInt8 255) : (Reader.start junk).Sound :=
  ⟨junk.size_toArray, nofun⟩

theorem Reader.Loaded.text_length_lt (h : r.Loaded) : r.text.length < 255 := by
  obtain ⟨j, hj⟩ := h.zero
  have hle : r.text.length ≤ j := cstr_length_le hj
  have hlt := (List.getElem?_eq_some_iff.1 hj).1
  rw [h.buf] at hlt
  omega

/-- A line in the buffer, which keeps its length. -/
theorem length_load {chunk buf : List UInt8} (hbuf : r.buf.length = 255)
    (hlen : chunk.length < 255)
    (hstrip : stripEol (chunk ++ 0 :: r.buf.drop (chunk.length + 1)) = .ok buf) :
    (r.load buf).buf.length = 255 := by
  obtain ⟨-, hsize, -⟩ := stripEol_chunk hstrip
  show buf.length = 255
  rw [hsize, List.length_drop]
  omega

/-- What `fgets` leaves in the buffer. -/
theorem load_eq_ok (hr : r.Sound) {chunk buf : List UInt8} (hlen : chunk.length < 255)
    (hstrip : stripEol (chunk ++ 0 :: r.buf.drop (chunk.length + 1)) = .ok buf) :
    (r.load buf).Loaded ∧ (r.load buf).text = lineText chunk ∧
      ∀ j, chunk.length < j → buf[j]? = r.buf[j]? := by
  obtain ⟨htext, -, hkept⟩ := stripEol_chunk hstrip
  have hzero : buf[chunk.length]? = some 0 := hkept 0
  have hstale : ∀ j, chunk.length < j → buf[j]? = r.buf[j]? := by
    intro j hj
    obtain ⟨k, rfl⟩ := Nat.exists_eq_add_of_lt hj
    rw [Nat.add_assoc, hkept, List.getElem?_cons_succ, List.getElem?_drop, Nat.add_right_comm,
      Nat.add_assoc]
  refine ⟨⟨⟨length_load hr.buf hlen hstrip, fun ind hind => ?_⟩, _, hzero⟩, htext, hstale⟩
  obtain ⟨hne, j, hj, hget⟩ := hr.indent ind hind
  refine ⟨hne, ?_⟩
  rcases Nat.lt_or_ge chunk.length j with hlt | hge
  · exact ⟨j, hj, (hstale j hlt).trans hget⟩
  · exact ⟨chunk.length, Nat.le_trans hj hge, hzero⟩

/-- The indent that counts for a line. -/
theorem Reader.Loaded.indented (hr : r.Loaded) (hne : r.text ≠ []) :
    r.indented ≠ [] ∧ ∃ j, r.indented.length ≤ j ∧ r.buf[j]? = some 0 := by
  rw [Reader.indented]
  cases hind : r.indent with
  | some ind => exact hr.indent ind hind
  | none =>
    obtain ⟨j, hj⟩ := hr.zero
    have hle : r.text.length ≤ j := cstr_length_le hj
    obtain ⟨c, s, hs⟩ := List.exists_cons_of_ne_nil hne
    refine ⟨?_, j, Nat.le_trans (prefix_indentOf r.text).length_le hle, hj⟩
    rw [Option.getD_none, hs]
    exact List.cons_ne_nil _ _

theorem Reader.entryAdd_eq_ok {key val : Option (List UInt8)} {r' : Reader} :
    r.entryAdd key val = .ok r' ↔ ∃ s, r.sections.getLast? = some s ∧ r' = { r with
      sections := r.sections.dropLast ++ [{ s with entries := s.entries ++ [⟨key, val⟩] }]
      nKeys := r.nKeys + 1 } := by
  rw [Reader.entryAdd]
  cases r.sections.getLast? with
  | none =>
    refine iff_of_false (fun h => by cases h) ?_
    rintro ⟨s, hs, -⟩
    cases hs
  | some s =>
    simp only [Option.some.injEq, exists_eq_left', Except.ok.injEq]
    exact eq_comm

theorem noValue_iff {key val : List UInt8} (hrest : r.rest = key ++ 0x20 :: val)
    (hspace : 0x20 ∉ key) : r.NoValue ↔ key = [] := by
  have hmem : (0x20 : UInt8) ∈ r.rest := hrest ▸ List.mem_append_right key List.mem_cons_self
  rw [Reader.NoValue, or_iff_right (not_not.2 hmem), hrest]
  cases key with
  | nil => exact iff_of_true rfl rfl
  | cons c key =>
    rw [List.mem_cons, not_or] at hspace
    exact iff_of_false (fun h => hspace.1 (Option.some.inj h).symm) (List.cons_ne_nil _ _)

theorem judged_of_space {key val : List UInt8} (hrest : r.rest = key ++ 0x20 :: val)
    (hspace : 0x20 ∉ key) :
    r.judged = if key = [] then r.checked.error .noValue else r.checked := by
  rw [Reader.judged, if_congr (noValue_iff hrest hspace) rfl rfl]
  split_ifs
  · rfl
  · rw [List.append_nil]

theorem judged_of_not_mem (h : 0x20 ∉ r.rest) : r.judged = r.checked.error .noValue := by
  have hmissing : r.NoValue := Or.inl h
  rw [Reader.judged, if_pos hmissing]
  rfl

/-- A line that gets as far as its key and value adds an entry, unless the copy of the value
leaves the buffer. -/
theorem readText_adds_cases (hr : r.Loaded) (h : r.Adds) :
    (r.Overflows ∧ readText r = .error .outOfBounds) ∨
      (¬r.Overflows ∧ ∃ key val, readText r = r.judged.entryAdd key val) := by
  obtain ⟨hpos, -⟩ := hr.indented h.1.ne_nil
  rw [readText_of_adds h]
  rcases Nat.lt_or_gt_of_ne h.2.2 with hlt | hgt
  · by_cases hspace : 0x20 ∈ r.rest
    · obtain ⟨key, val, hrest, hkey⟩ := List.eq_append_cons_of_mem hspace
      have hread := readKeyVal_of_space (r := r.checked) hr.buf hrest hkey
      rw [overflows_iff hrest hkey, ← Nat.not_le, judged_of_space hrest hkey]
      by_cases hroom : r.text.length + key.length ≤ 255
      · exact Or.inr ⟨not_not.2 hroom, _, _, hread.trans (if_pos hroom)⟩
      · exact Or.inl ⟨hroom, hread.trans (if_neg hroom)⟩
    · rw [judged_of_not_mem hspace]
      exact Or.inr ⟨not_overflows hspace, _, _,
        readKeyVal_of_no_space (r := r.checked) hr.buf (List.length_pos_iff.2 hpos) hlt hspace⟩
  · have hspace : 0x20 ∉ r.rest := by
      rw [Reader.rest, List.drop_eq_nil_of_le (Nat.le_of_lt hgt)]
      exact List.not_mem_nil
    rw [judged_of_not_mem hspace]
    exact Or.inr ⟨not_overflows hspace, _, _, readKeyVal_of_short (r := r.checked) hgt⟩

/-- What a line does to the reader. -/
theorem readText_cases (hr : r.Loaded) {r' : Reader} (h : readText r = .ok r') :
    (r.IsSkipped ∧ r' = r) ∨
      (r.IsHeader ∧ r'.indent = r.indent ∧ r'.buf = r.buf ∧
        r'.sections = r.sections ++ [⟨r.header, []⟩]) ∨
      (r.IsEntry ∧ ¬r.Adds ∧ r' = r.checked) ∨
      (r.Adds ∧ ∃ key val, r.judged.entryAdd key val = .ok r') := by
  by_cases hskip : r.IsSkipped
  · rw [readText_of_skipped hskip] at h
    exact Or.inl ⟨hskip, (Except.ok.inj h).symm⟩
  refine Or.inr ?_
  by_cases hheader : r.IsHeader
  · rw [readText_of_header hheader] at h
    obtain rfl := Except.ok.inj h
    refine Or.inl ⟨hheader, ?_⟩
    split_ifs <;> exact ⟨rfl, rfl, rfl⟩
  refine Or.inr ?_
  by_cases hadds : r.Adds
  · rcases readText_adds_cases hr hadds with ⟨-, herr⟩ | ⟨-, key, val, hadd⟩
    · rw [herr] at h
      cases h
    · exact Or.inr ⟨hadds, key, val, hadd.symm.trans h⟩
  · rw [readText_of_idle ⟨hskip, hheader⟩ hadds] at h
    exact Or.inl ⟨⟨hskip, hheader⟩, hadds, (Except.ok.inj h).symm⟩

/-- A line stays in the buffer as it is. -/
theorem readText_buf (hr : r.Loaded) {r' : Reader} (h : readText r = .ok r') : r'.buf = r.buf := by
  rcases readText_cases hr h with ⟨-, rfl⟩ | ⟨-, -, hbuf, -⟩ | ⟨-, -, rfl⟩ | ⟨-, key, val, hadd⟩
  · rfl
  · exact hbuf
  · rfl
  · obtain ⟨s, -, rfl⟩ := Reader.entryAdd_eq_ok.1 hadd
    rfl

/-- A line keeps the buffer sound. -/
theorem Reader.Loaded.readText (hr : r.Loaded) {r' : Reader} (h : readText r = .ok r') :
    r'.Sound := by
  have hindented : ∀ {ind}, r.IsEntry → some r.indented = some ind →
      ind ≠ [] ∧ ∃ j, ind.length ≤ j ∧ r.buf[j]? = some 0 := fun hentry hind =>
    Option.some.inj hind ▸ hr.indented hentry.ne_nil
  rcases readText_cases hr h with ⟨-, rfl⟩ | ⟨-, hind, hbuf, -⟩ | ⟨hentry, -, rfl⟩ |
    ⟨hadds, key, val, hadd⟩
  · exact hr.toSound
  · exact ⟨hbuf ▸ hr.buf, fun ind h => hbuf ▸ hr.indent ind (hind ▸ h)⟩
  · exact ⟨hr.buf, fun ind => hindented hentry⟩
  · obtain ⟨s, -, rfl⟩ := Reader.entryAdd_eq_ok.1 hadd
    exact ⟨hr.buf, fun ind => hindented hadds.1⟩

theorem readLine_eq_ok {chunk : List UInt8} {r' : Reader} : readLine r chunk = .ok r' ↔
    ∃ buf, stripEol (chunk ++ 0 :: r.buf.drop (chunk.length + 1)) = .ok buf ∧
      readText (r.load buf) = .ok r' := by
  rw [readLine_eq]
  exact bind_eq_ok

/-- The buffer after a line holds what was read, without the end of the line. -/
theorem readLine_buf (hr : r.Sound) {chunk : List UInt8} (hlen : chunk.length < 255) {r' : Reader}
    (h : readLine r chunk = .ok r') :
    stripEol (chunk ++ 0 :: r.buf.drop (chunk.length + 1)) = .ok r'.buf := by
  obtain ⟨buf, hstrip, hread⟩ := readLine_eq_ok.1 h
  rw [readText_buf (load_eq_ok hr hlen hstrip).1 hread]
  exact hstrip

theorem Reader.Sound.readLine (hr : r.Sound) {chunk : List UInt8} (hlen : chunk.length < 255)
    {r' : Reader} (h : readLine r chunk = .ok r') : r'.Sound := by
  obtain ⟨buf, hstrip, hread⟩ := readLine_eq_ok.1 h
  exact (load_eq_ok hr hlen hstrip).1.readText hread

/-- The run over the file gets to the line `chunk` with the reader in the state `r`. -/
def ReachesLine (junk : Vector UInt8 255) (file : List UInt8) (r : Reader) (chunk : List UInt8) :
    Prop :=
  ∃ pre post, fgetsAll 255 [] file = pre ++ chunk :: post ∧
    pre.foldlM readLine (.start junk) = .ok r

theorem Reader.Sound.run (hr : r.Sound) {chunks : List (List UInt8)}
    (hlen : ∀ chunk ∈ chunks, chunk.length < 255) {r' : Reader}
    (h : chunks.foldlM Xlab.readLine r = .ok r') : r'.Sound := by
  induction chunks generalizing r with
  | nil => exact Except.ok.inj h ▸ hr
  | cons chunk chunks ih =>
    rw [List.foldlM_cons] at h
    obtain ⟨r₁, hread, hrun⟩ := bind_eq_ok.1 h
    exact ih (hr.readLine (hlen _ List.mem_cons_self) hread)
      (fun c hc => hlen c (List.mem_cons_of_mem _ hc)) hrun

theorem ReachesLine.sound {junk : Vector UInt8 255} {file chunk : List UInt8}
    (h : ReachesLine junk file r chunk) : r.Sound ∧ chunk ≠ [] ∧ chunk.length < 255 := by
  obtain ⟨pre, post, hfile, hrun⟩ := h
  have hmem : ∀ c ∈ pre ++ chunk :: post, c ≠ [] ∧ c.length < 255 := fun c hc =>
    fgetsAll_mem (by decide) (hfile.symm ▸ hc : c ∈ fgetsAll 255 [] file)
  exact ⟨(Reader.sound_start junk).run (fun c hc => (hmem c (List.mem_append_left _ hc)).2) hrun,
    hmem chunk (List.mem_append_right _ List.mem_cons_self)⟩

end Xlab
