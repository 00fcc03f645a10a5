import Xlab.ConfigLines

/-!
# Accesses to the line buffer

Every access of `xlab_config_create` to its line buffer, line by line : the reads and writes of
the code itself, the bytes `strlen`, `strncmp` and `memchr` are given, and the copies. Two lines
make the code leave the buffer. A line that starts with a zero has length 0, and the byte before
its end is looked at. And the copy of a value starts behind the key, but its length counts from
the indent.

`lineBuffer_inside_iff` : all accesses are inside exactly when no line of the file starts with a
zero, and no entry line is so long that with the length of its key it goes beyond 255.
-/

open CStr

namespace Xlab

/-! ## Accesses -/

/-- The indices of the buffer from `lo` on and below `hi`. -/
structure Span where
  lo : ℤ
  hi : ℤ
  deriving DecidableEq, Repr

namespace Span

/-- Every index is one of the buffer. -/
def Inside (s : Span) : Prop :=
  ∀ i, s.lo ≤ i → i < s.hi → 0 ≤ i ∧ i ≤ 254

/-- `buf[i]`. -/
def byte (i : ℤ) : Span :=
  ⟨i, i + 1⟩

/-- `strlen(buf + p)` reads up to the zero. -/
def strlen (buf : List UInt8) (p : ℕ) : Span :=
  ⟨p, p + (cstr (buf.drop p)).length + 1⟩

/-- `xlab_string_char_search(buf + p, c, len)`. -/
def search (buf : List UInt8) (p : ℕ) (len : ℤ) : List Span :=
  if len < 0 then [strlen buf p, ⟨p, p + (cstr (buf.drop p)).length⟩] else [⟨p, p + len⟩]

/-- `xlab_string_copy_substr(buf + p, pos_init, pos_end)`. -/
def copy (p posInit posEnd : ℤ) : List Span :=
  if posEnd < posInit then [] else [⟨p + posInit, p + posEnd⟩]

/-- The end of a line is cut off. The index before the end of an empty string is −1. -/
def eol (buf : List UInt8) : List Span :=
  match (cstr buf).length with
  | 0 => [strlen buf 0, byte (-1)]
  | len + 1 =>
    [strlen buf 0, byte len] ++
      if buf.getD len 0 = newline then
        [byte len] ++
          if 0 < len then
            [byte (len - 1)] ++
              if (buf.set len 0).getD (len - 1) 0 = carriage then [byte (len - 1)] else []
          else []
      else []

/-- The indent is taken from the line. -/
def indent (indentLen len : ℕ) : List Span :=
  ⟨1, min (indentLen + 1) len⟩ :: copy 0 0 indentLen

/-- The key and the value of a line of length `len` are found and copied. -/
def keyVal (buf : List UInt8) (indentLen len : ℕ) : List Span :=
  let i := stringCharSearch (buf.drop indentLen) 0x20 ((len : ℤ) - indentLen)
  search buf indentLen ((len : ℤ) - indentLen) ++ copy indentLen 0 i ++
    copy (indentLen + i) 1 ((len : ℤ) - indentLen)

/-- An entry line. -/
def entry (r : Reader) : List Span :=
  (if r.indent = none then indent r.indented.length r.text.length else []) ++
    if r.indent = none ∧ r.indented.length = r.text.length then []
    else
      -- `isblank` is asked only if the line has the indent
      [⟨0, r.indented.length⟩] ++
        (if r.indented <+: r.text then [byte r.indented.length] else []) ++
        [byte r.indented.length] ++
        if r.buf.getD r.indented.length 0 = 0x23 ∨ r.indented.length = r.text.length then []
        else keyVal r.buf r.indented.length r.text.length

/-- A line whose end is cut off. -/
def text (r : Reader) : List Span :=
  byte 0 ::
    if r.text = [] ∨ r.text.head? = some 0x23 then []
    else if r.text.head? = some 0x5B then
      let stop := stringCharSearch r.buf 0x5D r.text.length
      search r.buf 0 r.text.length ++ if 0 < stop then copy 0 1 stop else entry r
    else entry r

/-- One turn of the loop, where `fgets` has read `chunk`. -/
def line (r : Reader) (chunk : List UInt8) : List Span :=
  let buf := chunk ++ 0 :: r.buf.drop (chunk.length + 1)
  ⟨0, chunk.length + 1⟩ :: eol buf ++
    match stripEol buf with
    | .error _ => []
    | .ok buf => text (r.load buf)

end Span

/-- The text is that of an entry with a key and a value, and too long for its key. -/
def Overlong (indent : Option (List UInt8)) (text : List UInt8) : Prop :=
  text.head? ≠ some 0x23 ∧ ¬(text.head? = some 0x5B ∧ 0x5D ∈ text) ∧
    ∃ key val, text.drop (indent.getD (indentOf text)).length = key ++ 0x20 :: val ∧
      0x20 ∉ key ∧ key.head? ≠ some 0x23 ∧ 255 < text.length + key.length

/-! ## Which accesses are inside -/

namespace Span

theorem inside_iff {s : Span} : s.Inside ↔ (s.lo < s.hi → 0 ≤ s.lo ∧ s.hi ≤ 255) := by
  constructor
  · intro h hlt
    have hlo := h s.lo (Int.le_refl _) hlt
    have hhi := h (s.hi - 1) (by omega) (by omega)
    omega
  · intro h i hlo hhi
    have := h (by omega)
    omega

theorem inside_of_le {s : Span} (hlo : 0 ≤ s.lo) (hhi : s.hi ≤ 255) : s.Inside :=
  inside_iff.2 fun _ => ⟨hlo, hhi⟩

theorem inside_byte {i : ℕ} (h : i < 255) : (byte i).Inside :=
  inside_of_le (Int.natCast_nonneg i) (by simp only [byte]; omega)

/-- `strlen` stays inside if a zero follows. -/
theorem inside_strlen {buf : List UInt8} (hbuf : buf.length = 255) {p j : ℕ} (hp : p ≤ j)
    (hj : buf[j]? = some 0) : (strlen buf p).Inside := by
  have hlt := (List.getElem?_eq_some_iff.1 hj).1
  have hle : (cstr (buf.drop p)).length ≤ j - p := by
    refine cstr_length_le ?_
    rw [List.getElem?_drop, Nat.add_sub_cancel' hp]
    exact hj
  refine inside_of_le (Int.natCast_nonneg p) ?_
  simp only [strlen]
  omega

theorem inside_copy {p posInit posEnd : ℤ} (hlo : 0 ≤ p + posInit) (hhi : p + posEnd ≤ 255) :
    ∀ s ∈ copy p posInit posEnd, s.Inside := by
  intro s hs
  rw [copy] at hs
  split_ifs at hs with hlt
  · cases hs
  · obtain rfl := List.mem_singleton.1 hs
    exact inside_of_le hlo hhi

theorem forall_copy {p posInit posEnd : ℤ} (hle : posInit ≤ posEnd) :
    (∀ s ∈ copy p posInit posEnd, s.Inside) ↔ Inside ⟨p + posInit, p + posEnd⟩ := by
  rw [copy, if_neg (Int.not_lt.2 hle), List.forall_mem_singleton]

variable {r : Reader}

/-- The search in the rest of a line that is longer than its indent. -/
theorem inside_search (hr : r.Loaded) {m : ℕ} (hle : m ≤ r.text.length) :
    ∀ s ∈ search r.buf m ((r.text.length : ℤ) - m), s.Inside := by
  have hlt := hr.text_length_lt
  rw [search, if_neg (by omega), List.forall_mem_singleton]
  refine inside_of_le (Int.natCast_nonneg m) ?_
  simp only []
  omega

theorem inside_keyVal_of_space (hr : r.Loaded) {m : ℕ} {key val : List UInt8}
    (hrest : r.text.drop m = key ++ 0x20 :: val) (hspace : 0x20 ∉ key) :
    (∀ s ∈ keyVal r.buf m r.text.length, s.Inside) ↔ r.text.length + key.length ≤ 255 := by
  have hlt := hr.text_length_lt
  have hlen := congrArg List.length hrest
  rw [List.length_drop, List.length_append, List.length_cons] at hlen
  have hkey : ∀ s ∈ copy m 0 key.length, s.Inside :=
    inside_copy (by omega) (by omega)
  rw [keyVal, stringCharSearch_of_mem hrest hspace]
  simp only [List.forall_mem_append]
  rw [and_iff_right ⟨inside_search hr (by omega), hkey⟩, forall_copy (by omega), inside_iff]
  simp only []
  constructor
  · intro h
    by_contra hgt
    have := h (by omega)
    omega
  · intro h _
    omega

theorem inside_keyVal_of_no_space (hr : r.Loaded) {m : ℕ} (hm : 0 < m) (hlt : m < r.text.length)
    (hspace : 0x20 ∉ r.text.drop m) : ∀ s ∈ keyVal r.buf m r.text.length, s.Inside := by
  have hlen := hr.text_length_lt
  rw [keyVal, stringCharSearch_of_not_mem (Nat.le_of_lt hlt) hspace]
  simp only [List.forall_mem_append]
  exact ⟨⟨inside_search hr (Nat.le_of_lt hlt), inside_copy (by omega) (by omega)⟩,
    inside_copy (by omega) (by omega)⟩

/-- Behind a shorter line the code finds a zero. -/
theorem inside_keyVal_of_short (hr : r.Loaded) {m j : ℕ} (hj : m ≤ j) (hzero : r.buf[j]? = some 0)
    (hshort : r.text.length < m) : ∀ s ∈ keyVal r.buf m r.text.length, s.Inside := by
  have hneg : (r.text.length : ℤ) - m < 0 := by omega
  have hstrlen := inside_strlen hr.buf hj hzero
  have hend : (m : ℤ) + (cstr (r.buf.drop m)).length + 1 ≤ 255 :=
    (inside_iff.1 hstrlen (by simp only [strlen]; omega)).2
  have hsearch : stringCharSearch (r.buf.drop m) 0x20 ((r.text.length : ℤ) - m) ≤
      (cstr (r.buf.drop m)).length := by
    rw [stringCharSearch, if_pos hneg]
    cases hfind : ((r.buf.drop m).take (cstr (r.buf.drop m)).length).idxOf? 0x20 with
    | none =>
      simp only []
      omega
    | some k =>
      obtain ⟨hk, -⟩ := List.idxOf?_eq_some_iff.1 hfind
      rw [List.length_take] at hk
      simp only []
      omega
  rw [keyVal, search, if_pos hneg]
  simp only [List.forall_mem_append, List.forall_mem_cons]
  refine ⟨⟨⟨hstrlen, inside_of_le (Int.natCast_nonneg m) (by simp only []; omega),
    fun s hs => absurd hs List.not_mem_nil⟩, inside_copy (by omega) (by omega)⟩, ?_⟩
  rw [copy, if_pos (by omega)]
  exact fun s hs => absurd hs List.not_mem_nil

/-- The copies and checks of the indent stay inside. -/
theorem inside_checks (hr : r.Loaded) (hne : r.text ≠ []) :
    (∀ s ∈ if r.indent = none then indent r.indented.length r.text.length else [], s.Inside) ∧
      Inside ⟨0, r.indented.length⟩ ∧ (byte r.indented.length).Inside := by
  obtain ⟨-, j, hj, hzero⟩ := hr.indented hne
  have hlt := (List.getElem?_eq_some_iff.1 hzero).1
  have hlen := hr.text_length_lt
  rw [hr.buf] at hlt
  refine ⟨?_, inside_of_le (Int.le_refl 0) (by simp only []; omega), inside_byte (by omega)⟩
  split_ifs
  · rw [indent, List.forall_mem_cons]
    exact ⟨inside_of_le Int.one_nonneg (by simp only []; omega), inside_copy (by omega) (by omega)⟩
  · nofun

/-- A line that is too long for its key gets as far as the key. -/
theorem overlong_iff : Overlong r.indent r.text ↔ r.Adds ∧ r.Overflows := by
  constructor
  · rintro ⟨hhash, hheader, key, val, hrest, hspace, hhead, hlong⟩
    have hlen := congrArg List.length hrest
    rw [List.length_drop, List.length_append, List.length_cons] at hlen
    have hentry : r.IsEntry := by
      refine ⟨?_, hheader⟩
      rintro (hnil | hcomment)
      · rw [hnil, List.length_nil] at hlen
        omega
      · exact hhash hcomment
    refine ⟨⟨hentry, ?_, ?_⟩, key, val, hrest, hspace, hlong⟩
    · cases key with
      | nil =>
        rw [Reader.indented, getD_of_rest hrest]
        decide
      | cons c key =>
        rw [Reader.indented, getD_of_rest hrest]
        exact fun hc => hhead (congrArg some hc)
    · rw [Reader.indented]
      omega
  · rintro ⟨hadds, key, val, hrest, hspace, hlong⟩
    refine ⟨fun hcomment => hadds.1.1 (Or.inr hcomment), hadds.1.2, key, val, hrest, hspace,
      fun hhead => ?_, hlong⟩
    obtain ⟨s, rfl⟩ := List.head?_eq_some_iff.1 hhead
    exact hadds.2.1 (getD_of_rest hrest)

/-- The accesses of a line that gets as far as its key and value. -/
theorem forall_keyVal (hr : r.Loaded) (h : r.Adds) :
    (∀ s ∈ keyVal r.buf r.indented.length r.text.length, s.Inside) ↔
      ¬Overlong r.indent r.text := by
  obtain ⟨hpos, j, hj, hzero⟩ := hr.indented h.1.ne_nil
  rw [overlong_iff, and_iff_right h]
  rcases Nat.lt_or_gt_of_ne h.2.2 with hlt | hgt
  · by_cases hspace : 0x20 ∈ r.rest
    · obtain ⟨key, val, hrest, hkey⟩ := List.eq_append_cons_of_mem hspace
      rw [inside_keyVal_of_space hr hrest hkey, overflows_iff hrest hkey, Nat.not_lt]
    · exact iff_of_true (inside_keyVal_of_no_space hr (List.length_pos_iff.2 hpos) hlt hspace)
        (not_overflows hspace)
  · refine iff_of_true (inside_keyVal_of_short hr hj hzero hgt) (not_overflows ?_)
    rw [Reader.rest, List.drop_eq_nil_of_le (Nat.le_of_lt hgt)]
    exact List.not_mem_nil

/-- An entry line stays inside unless it is too long for its key. -/
theorem forall_entry (hr : r.Loaded) (h : r.IsEntry) :
    (∀ s ∈ entry r, s.Inside) ↔ ¬Overlong r.indent r.text := by
  obtain ⟨hindent, hcompare, hbyte⟩ := inside_checks hr h.ne_nil
  have hblank : ∀ s ∈ if r.indented <+: r.text then [byte r.indented.length] else [],
      s.Inside := by
    split_ifs
    · exact List.forall_mem_singleton.2 hbyte
    · nofun
  rw [entry, List.forall_mem_append, and_iff_right hindent]
  by_cases hend : r.indent = none ∧ r.indented.length = r.text.length
  · rw [if_pos hend]
    exact iff_of_true nofun fun hlong => (overlong_iff.1 hlong).1.2.2 hend.2
  rw [if_neg hend]
  simp only [List.forall_mem_append, List.forall_mem_singleton]
  rw [and_iff_right ⟨⟨hcompare, hblank⟩, hbyte⟩]
  by_cases hstop : r.buf.getD r.indented.length 0 = 0x23 ∨ r.indented.length = r.text.length
  · rw [if_pos hstop]
    refine iff_of_true nofun fun hlong => ?_
    exact not_or.2 (overlong_iff.1 hlong).1.2 hstop
  · rw [if_neg hstop]
    exact forall_keyVal hr ⟨h, not_or.1 hstop⟩

/-- A line whose end is cut off stays inside unless it is too long for its key. -/
theorem forall_text (hr : r.Loaded) :
    (∀ s ∈ text r, s.Inside) ↔ ¬Overlong r.indent r.text := by
  have hlen := hr.text_length_lt
  have hfirst : (byte 0).Inside := inside_byte (i := 0) (by decide)
  rw [text, List.forall_mem_cons, and_iff_right hfirst]
  by_cases hskip : r.text = [] ∨ r.text.head? = some 0x23
  · rw [if_pos hskip]
    exact iff_of_true nofun fun hlong => (overlong_iff.1 hlong).1.1.1 hskip
  rw [if_neg hskip]
  by_cases hhead : r.text.head? = some 0x5B
  · have hsearch := inside_search hr (m := 0) (Nat.zero_le _)
    rw [Int.natCast_zero, Int.sub_zero] at hsearch
    rw [if_pos hhead]
    simp only [List.forall_mem_append]
    rw [and_iff_right hsearch]
    by_cases hmem : 0x5D ∈ r.text
    · obtain ⟨t, htext, -⟩ := Reader.IsHeader.text_eq ⟨hhead, hmem⟩
      have hsize := congrArg List.length htext
      rw [List.length_append, List.length_cons] at hsize
      rw [search_of_header ⟨hhead, hmem⟩, if_pos (Int.natCast_pos.2 (Nat.succ_pos _))]
      exact iff_of_true (inside_copy (by omega) (by omega)) fun hlong => hlong.2.1 ⟨hhead, hmem⟩
    · rw [search_of_not_mem hmem, if_neg (by decide)]
      exact forall_entry hr ⟨hskip, fun h => hmem h.2⟩
  · rw [if_neg hhead]
    exact forall_entry hr ⟨hskip, fun h => hhead h.1⟩

/-- Cutting off the end of a line stays inside unless the line starts with a zero. -/
theorem forall_eol {buf : List UInt8} (hbuf : buf.length = 255) {j : ℕ}
    (hj : buf[j]? = some 0) : (∀ s ∈ eol buf, s.Inside) ↔ cstr buf ≠ [] := by
  have hstrlen := inside_strlen hbuf (Nat.zero_le j) hj
  have hlt := (List.getElem?_eq_some_iff.1 hj).1
  have hle := cstr_length_le hj
  rw [hbuf] at hlt
  rw [eol]
  cases hlen : (cstr buf).length with
  | zero =>
    refine iff_of_false (fun h => ?_) (not_not.2 (List.eq_nil_of_length_eq_zero hlen))
    have hbefore := h (byte (-1)) (by simp) (-1) (Int.le_refl _) (by decide)
    omega
  | succ n =>
    have hlast : (byte n).Inside := inside_byte (by omega)
    have hprev : 0 < n → (byte ((n : ℤ) - 1)).Inside := fun hpos =>
      inside_of_le (by simp only [byte]; omega) (by simp only [byte]; omega)
    have hne : cstr buf ≠ [] := fun hnil => by rw [hnil] at hlen; cases hlen
    refine iff_of_true ?_ hne
    simp only [List.forall_mem_append, List.forall_mem_cons]
    refine ⟨⟨hstrlen, hlast, nofun⟩, ?_⟩
    split_ifs with hnl hpos hcr
    · simpa using ⟨hlast, hprev hpos⟩
    · simpa using ⟨hlast, hprev hpos⟩
    · simpa using hlast
    · nofun

/-- One turn of the loop stays inside unless the line starts with a zero or is too long for its
key. -/
theorem forall_line (hr : r.Sound) {chunk : List UInt8} (hne : chunk ≠ [])
    (hlen : chunk.length < 255) : (∀ s ∈ line r chunk, s.Inside) ↔
      chunk.head? ≠ some 0 ∧ ¬Overlong r.indent (lineText chunk) := by
  have hbuf : (chunk ++ 0 :: r.buf.drop (chunk.length + 1)).length = 255 := by
    rw [List.length_append, List.length_cons, List.length_drop, hr.buf]
    omega
  have hzero : (chunk ++ 0 :: r.buf.drop (chunk.length + 1))[chunk.length]? = some 0 := by simp
  have hfgets : Inside ⟨0, chunk.length + 1⟩ :=
    inside_of_le (Int.le_refl 0) (by simp only []; omega)
  rw [line, List.cons_append, List.forall_mem_cons, and_iff_right hfgets]
  simp only [List.forall_mem_append]
  rw [forall_eol hbuf hzero, cstr_append_zero_eq, ne_eq, cstr_eq_nil_iff hne]
  refine and_congr_right fun hstart => ?_
  obtain ⟨buf, hstrip⟩ := exists_stripEol hne hstart (r.buf.drop (chunk.length + 1))
  obtain ⟨hloaded, htext, -⟩ := load_eq_ok hr hlen hstrip
  rw [hstrip, ← htext]
  exact forall_text hloaded

end Span

/-! ## Lines and files -/

/-- A line in the buffer is read to its end unless it is too long for its key, or an entry without
a section. -/
theorem exists_readText_eq_ok_iff {r : Reader} (hr : r.Loaded) :
    (∃ r', readText r = .ok r') ↔
      ¬Overlong r.indent r.text ∧ (r.Adds → r.sections ≠ []) := by
  rw [Span.overlong_iff]
  by_cases hadds : r.Adds
  · rw [and_iff_right hadds]
    rcases readText_adds_cases hr hadds with ⟨hover, herr⟩ | ⟨hroom, key, val, hadd⟩
    · rw [herr]
      exact iff_of_false nofun fun h => h.1 hover
    · rw [hadd, and_iff_right hroom, iff_true_intro hadds, true_imp_iff]
      simp only [Reader.entryAdd_eq_ok]
      constructor
      · rintro ⟨r', s, hs, -⟩ hnil
        have hlast : r.sections.getLast? = some s := hs
        rw [hnil] at hlast
        cases hlast
      · intro hsec
        obtain ⟨s, hs⟩ := Option.ne_none_iff_exists'.1 (mt List.getLast?_eq_none_iff.1 hsec)
        exact ⟨_, s, hs, rfl⟩
  · refine iff_of_true ?_ ⟨fun h => hadds h.1, fun h => absurd h hadds⟩
    by_cases hskip : r.IsSkipped
    · exact ⟨_, readText_of_skipped hskip⟩
    by_cases hheader : r.IsHeader
    · exact ⟨_, readText_of_header hheader⟩
    · exact ⟨_, readText_of_idle ⟨hskip, hheader⟩ hadds⟩

/-- A line is read to its end exactly when its accesses are inside and an entry has a section to
go to. -/
theorem exists_readLine_eq_ok_iff {r : Reader} (hr : r.Sound) {chunk : List UInt8}
    (hne : chunk ≠ []) (hlen : chunk.length < 255) : (∃ r', readLine r chunk = .ok r') ↔
      (∀ s ∈ Span.line r chunk, s.Inside) ∧
        ∀ buf, stripEol (chunk ++ 0 :: r.buf.drop (chunk.length + 1)) = .ok buf →
          (r.load buf).Adds → r.sections ≠ [] := by
  rw [Span.forall_line hr hne hlen]
  simp only [readLine_eq_ok]
  by_cases hstart : chunk.head? = some 0
  · refine iff_of_false ?_ fun h => h.1.1 hstart
    rintro ⟨r', buf, hbuf, -⟩
    rw [stripEol_of_zero hstart] at hbuf
    cases hbuf
  · obtain ⟨buf, hstrip⟩ := exists_stripEol hne hstart (r.buf.drop (chunk.length + 1))
    obtain ⟨hloaded, htext, -⟩ := load_eq_ok hr hlen hstrip
    have hiff := exists_readText_eq_ok_iff hloaded
    rw [htext] at hiff
    simp only [hstrip, Except.ok.injEq, exists_eq_left', forall_eq']
    rw [and_iff_right hstart]
    exact hiff

/-- Every access to the line buffer is inside exactly when no line starts with a zero or is too
long for its key. -/
theorem lineBuffer_inside_iff (junk : Vector UInt8 255) (file : List UInt8) :
    (∀ r chunk, ReachesLine junk file r chunk → ∀ s ∈ Span.line r chunk, s.Inside) ↔
      ∀ r chunk, ReachesLine junk file r chunk →
        chunk.head? ≠ some 0 ∧ ¬Overlong r.indent (lineText chunk) := by
  refine forall_congr' fun r => forall_congr' fun chunk => forall_congr' fun hreach => ?_
  obtain ⟨hsound, hne, hlen⟩ := hreach.sound
  exact Span.forall_line hsound hne hlen

/-- The line ` k` of 128 bytes, a space, and 100 bytes more. -/
def longKey : List UInt8 :=
  0x20 :: List.replicate 128 0x6B ++ 0x20 :: List.replicate 100 0x76 ++ [newline]

/-- The copy of the value of such a line reads beyond the buffer. -/
theorem not_inside_longKey : ¬∀ (junk : Vector UInt8 255) (file : List UInt8) (r : Reader)
    (chunk : List UInt8), ReachesLine junk file r chunk → ∀ s ∈ Span.line r chunk, s.Inside := by
  intro h
  have hspan := h (Vector.replicate 255 0) longKey (.start (Vector.replicate 255 0)) longKey
    ⟨[], [], by decide +kernel, rfl⟩ ⟨130, 358⟩ (by decide +kernel)
  have := hspan 357 (by decide) (by decide)
  omega

end Xlab
