import Xlab.ConfigLines

/-!
# Readers that see the same line

An `Outline` is what the reader takes from the lines of a configuration file, and `readText_added`
how much a line adds to it. Two readers that have the same line before them, and the same string
behind its indent, take the same from it (`Alike.outline`).

Behind a line that is shorter than the indent stands what earlier lines have left in the buffer.
`Agree` says where two buffers are the same : in what lines read by both have written, and beyond
what only one of them has read. A line written over both keeps it (`Agree.write`).
-/

open CStr

namespace Xlab

theorem map_eq_ok {ε α β : Type} {f : α → β} {x : Except ε α} {b : β} (h : x.map f = .ok b) :
    ∃ a, x = .ok a ∧ f a = b := by
  cases x with
  | error e => cases h
  | ok a => exact ⟨a, rfl, Except.ok.inj h⟩

/-! ## What the reader takes -/

/-- What the reader keeps of the lines : the indent, the number of keys of the last section, and the
sections. -/
structure Outline where
  indent : Option (List UInt8)
  nKeys : ℕ
  sections : List ConfigSection
  deriving DecidableEq, Repr

/-- What the reader keeps. -/
def Reader.outline (r : Reader) : Outline :=
  ⟨r.indent, r.nKeys, r.sections⟩

namespace Outline

/-- An entry goes to the last section. -/
def add (key val : Option (List UInt8)) (o : Outline) : Except Fault Outline :=
  match o.sections.getLast? with
  | none => .error .outOfBounds
  | some s => .ok
    { o with
      nKeys := o.nKeys + 1
      sections := o.sections.dropLast ++ [{ s with entries := s.entries ++ [⟨key, val⟩] }] }

/-- The number of sections and entries. -/
def size (o : Outline) : ℕ :=
  (o.sections.map fun s => s.entries.length + 1).sum

end Outline

/-- The string behind the indent, in the line or beyond its end. -/
def Reader.behind (r : Reader) : List UInt8 :=
  cstr (r.buf.drop r.indented.length)

/-- The number of sections and entries a line adds. -/
def Reader.added (r : Reader) : ℕ :=
  if r.IsHeader ∨ r.Adds then 1 else 0

variable {r r₁ r₂ : Reader}

theorem outline_entryAdd (key val : Option (List UInt8)) (r : Reader) :
    (r.entryAdd key val).map Reader.outline = r.outline.add key val := by
  rw [Reader.entryAdd, Outline.add]
  show _ = match r.sections.getLast? with | none => _ | some s => _
  cases r.sections.getLast? <;> rfl

theorem outline_header (h : r.IsHeader) : (readText r).map Reader.outline =
    .ok ⟨r.indent, 0, r.sections ++ [⟨r.header, []⟩]⟩ := by
  rw [readText_of_header h]
  split_ifs <;> rfl

/-- The key and the value of a line that is longer than its indent. -/
theorem outline_keyVal (hr : r.Loaded) (hadds : r.Adds)
    (hlt : r.indented.length < r.text.length) : (readText r).map Reader.outline =
      match r.rest.idxOf? 0x20 with
      | none => r.checked.outline.add none (some (stringTrim r.rest.dropLast))
      | some i =>
        if r.text.length + i ≤ 255 then
          r.checked.outline.add (some (stringTrim (r.rest.take i)))
            (some (stringTrim (r.rest.drop (i + 1))))
        else .error .outOfBounds := by
  obtain ⟨hpos, -⟩ := hr.indented hadds.1.ne_nil
  rw [readText_of_adds hadds]
  by_cases hspace : 0x20 ∈ r.rest
  · obtain ⟨key, val, hrest, hkey⟩ := List.eq_append_cons_of_mem hspace
    have hread := readKeyVal_of_space (r := r.checked) hr.buf hrest hkey
    have hval : (key ++ 0x20 :: val).drop (key.length + 1) = val := by
      rw [← List.drop_drop, List.drop_left]
      rfl
    rw [hrest, idxOf?_append hkey]
    simp only [List.take_left, hval]
    refine (congrArg (Except.map Reader.outline) hread).trans ?_
    show Except.map Reader.outline (if r.text.length + key.length ≤ 255 then _ else _) = _
    split_ifs
    · exact outline_entryAdd _ _ _
    · exact outline_entryAdd _ _ _
    · rfl
  · rw [List.idxOf?_eq_none_iff.2 hspace]
    have hread := readKeyVal_of_no_space (r := r.checked) hr.buf (List.length_pos_iff.2 hpos) hlt
      hspace
    exact (congrArg (Except.map Reader.outline) hread).trans (outline_entryAdd _ _ _)

/-- A line that is shorter than its indent has no value, and the key stands behind the indent. -/
theorem outline_short (hadds : r.Adds) (hgt : r.text.length < r.indented.length) :
    (readText r).map Reader.outline = r.checked.outline.add
      ((r.behind.idxOf? 0x20).map fun i => stringTrim (r.behind.take i)) none := by
  rw [readText_of_adds hadds]
  have hread := readKeyVal_of_short (r := r.checked) hgt
  exact (congrArg (Except.map Reader.outline) hread).trans (outline_entryAdd _ _ _)

theorem Outline.add_eq_ok {key val : Option (List UInt8)} {o o' : Outline}
    (h : o.add key val = .ok o') : o'.indent = o.indent ∧ o'.size = o.size + 1 := by
  rw [Outline.add] at h
  cases hs : o.sections.getLast? with
  | none =>
    rw [hs] at h
    cases h
  | some s =>
    rw [hs] at h
    obtain rfl := Except.ok.inj h
    refine ⟨rfl, ?_⟩
    have hsplit : o.sections = o.sections.dropLast ++ [s] :=
      (List.dropLast_append_getLast? s hs).symm
    have hsize : o.size = (o.sections.dropLast.map fun s => s.entries.length + 1).sum +
        (s.entries.length + 1) := by
      rw [Outline.size]
      conv_lhs => rw [hsplit]
      simp
    rw [hsize, Outline.size]
    simp
    omega

/-- What a line adds, and the indent after it. -/
theorem readText_added (hr : r.Loaded) {r' : Reader} (h : readText r = .ok r') :
    r'.indent = (if r.IsEntry then some r.indented else r.indent) ∧
      r'.outline.size = r.outline.size + r.added := by
  rw [Reader.added]
  rcases readText_cases hr h with ⟨hskip, rfl⟩ | ⟨hheader, hsame, -, hsections⟩ |
    ⟨hentry, hadds, rfl⟩ | ⟨hadds, key, val, hadd⟩
  · have hheader : ¬r'.IsHeader := by
      rintro ⟨hhead, -⟩
      rcases hskip with hnil | hhash
      · rw [hnil] at hhead
        cases hhead
      · exact absurd (hhead.symm.trans hhash) (by decide)
    have hentry : ¬r'.IsEntry := fun he => he.1 hskip
    rw [if_neg hentry, if_neg (not_or.2 ⟨hheader, fun ha => hentry ha.1⟩)]
    exact ⟨rfl, rfl⟩
  · rw [if_neg fun he => he.2 hheader, if_pos (Or.inl hheader)]
    refine ⟨hsame, ?_⟩
    show (List.map _ r'.sections).sum = (List.map _ r.sections).sum + 1
    rw [hsections]
    simp
  · rw [if_pos hentry, if_neg (not_or.2 ⟨hentry.2, hadds⟩)]
    exact ⟨rfl, rfl⟩
  · have houtline := outline_entryAdd key val r.judged
    rw [hadd] at houtline
    rw [if_pos hadds.1, if_pos (Or.inr hadds)]
    exact Outline.add_eq_ok houtline.symm

/-! ## Readers that see the same line -/

theorem getD_eq_headD (buf : List UInt8) (m : ℕ) : buf.getD m 0 = (cstr (buf.drop m)).headD 0 := by
  rw [List.getD_eq_getElem?_getD, ← List.head?_drop]
  cases buf.drop m with
  | nil => rfl
  | cons c s =>
    by_cases hc : c = 0
    · rw [hc]
      rfl
    · rw [cstr_cons hc]
      rfl

/-- Two readers have the same line, and the same string behind its indent. -/
structure Alike (r₁ r₂ : Reader) : Prop where
  text : r₁.text = r₂.text
  indent : r₁.indent = r₂.indent
  behind : r₁.IsEntry → r₁.behind = r₂.behind

namespace Alike

theorem indented (h : Alike r₁ r₂) : r₁.indented = r₂.indented := by
  rw [Reader.indented, Reader.indented, h.text, h.indent]

theorem isSkipped_iff (h : Alike r₁ r₂) : r₁.IsSkipped ↔ r₂.IsSkipped := by
  rw [Reader.IsSkipped, Reader.IsSkipped, h.text]

theorem isHeader_iff (h : Alike r₁ r₂) : r₁.IsHeader ↔ r₂.IsHeader := by
  rw [Reader.IsHeader, Reader.IsHeader, h.text]

theorem isEntry_iff (h : Alike r₁ r₂) : r₁.IsEntry ↔ r₂.IsEntry :=
  and_congr (not_congr h.isSkipped_iff) (not_congr h.isHeader_iff)

theorem adds_iff (h : Alike r₁ r₂) : r₁.Adds ↔ r₂.Adds := by
  by_cases hentry : r₁.IsEntry
  · have hbehind : r₁.buf.getD r₁.indented.length 0 = r₂.buf.getD r₂.indented.length 0 := by
      rw [getD_eq_headD, getD_eq_headD]
      exact congrArg (·.headD 0) (h.behind hentry)
    rw [Reader.Adds, Reader.Adds, hbehind, h.isEntry_iff, h.indented, h.text]
  · exact iff_of_false (fun ha => hentry ha.1) fun ha => hentry (h.isEntry_iff.2 ha.1)

theorem checked (h : Alike r₁ r₂) (ho : r₁.outline = r₂.outline) :
    r₁.checked.outline = r₂.checked.outline := by
  show Outline.mk (some r₁.indented) r₁.outline.nKeys r₁.outline.sections = _
  rw [h.indented, ho]
  rfl

/-- They take the same from it. -/
theorem outline (h : Alike r₁ r₂) (h₁ : r₁.Loaded) (h₂ : r₂.Loaded)
    (ho : r₁.outline = r₂.outline) :
    (readText r₁).map Reader.outline = (readText r₂).map Reader.outline := by
  by_cases hskip : r₁.IsSkipped
  · rw [readText_of_skipped hskip, readText_of_skipped (h.isSkipped_iff.1 hskip)]
    exact congrArg Except.ok ho
  by_cases hheader : r₁.IsHeader
  · have hsections : r₁.sections = r₂.sections := congrArg Outline.sections ho
    rw [outline_header hheader, outline_header (h.isHeader_iff.1 hheader), Reader.header,
      Reader.header, h.text, h.indent, hsections]
  have hchecked := h.checked ho
  by_cases hadds : r₁.Adds
  · have hadds₂ := h.adds_iff.1 hadds
    rcases Nat.lt_or_gt_of_ne hadds.2.2 with hlt | hgt
    · rw [outline_keyVal h₁ hadds hlt,
        outline_keyVal h₂ hadds₂ (by rwa [← h.indented, ← h.text]), hchecked, Reader.rest,
        Reader.rest, h.text, h.indented]
    · rw [outline_short hadds hgt, outline_short hadds₂ (by rwa [← h.indented, ← h.text]),
        hchecked, h.behind hadds.1]
  · have hentry : r₁.IsEntry := ⟨hskip, hheader⟩
    rw [readText_of_idle hentry hadds,
      readText_of_idle (h.isEntry_iff.1 hentry) (mt h.adds_iff.2 hadds)]
    exact congrArg Except.ok hchecked

/-- It adds as much to both. -/
theorem added (h : Alike r₁ r₂) : r₁.added = r₂.added := by
  rw [Reader.added, Reader.added]
  exact if_congr (or_congr h.isHeader_iff h.adds_iff) rfl rfl

end Alike

/-! ## What a comment leaves in the buffer -/

theorem cstr_congr {b₁ b₂ : List UInt8} {k : ℕ} (hzero : b₁[k]? = some 0)
    (h : ∀ j ≤ k, b₁[j]? = b₂[j]?) : cstr b₁ = cstr b₂ := by
  have hsplit : ∀ b : List UInt8, b[k]? = some 0 → cstr b = cstr (b.take k) := fun b hb => by
    obtain ⟨hk, hget⟩ := List.getElem?_eq_some_iff.1 hb
    have heq : b = b.take k ++ 0 :: b.drop (k + 1) := by
      rw [← hget, ← List.drop_eq_getElem_cons, List.take_append_drop]
    conv_lhs => rw [heq]
    exact cstr_append_zero_eq _ _
  have htake : b₁.take k = b₂.take k := List.ext_getElem? fun j => by
    rw [List.getElem?_take, List.getElem?_take]
    split_ifs with hj
    · exact h j (Nat.le_of_lt hj)
    · rfl
  rw [hsplit b₁ hzero, hsplit b₂ ((h k (Nat.le_refl k)).symm.trans hzero), htake]

/-- Two buffers agree in their first `seen` bytes, the last of them a zero, and from `reach` on. -/
structure Agree (seen reach : ℕ) (b₁ b₂ : List UInt8) : Prop where
  below : ∀ j < seen, b₁[j]? = b₂[j]?
  zero : ∀ j, seen = j + 1 → b₁[j]? = some 0
  above : ∀ j, reach ≤ j → b₁[j]? = b₂[j]?

/-- The end of a line is cut off in the same way, whatever the buffer holds behind it. -/
theorem exists_line {chunk stale buf : List UInt8}
    (h : stripEol (chunk ++ 0 :: stale) = .ok buf) : ∃ cut, stripEol (chunk ++ [0]) = .ok cut ∧
      buf = cut ++ stale ∧ cut.length = chunk.length + 1 ∧ cut[chunk.length]? = some 0 := by
  have happend : chunk ++ 0 :: stale = chunk ++ [0] ++ stale := by simp
  rw [happend, stripEol_append (by simp)] at h
  obtain ⟨cut, hcut, hbuf⟩ := map_eq_ok h
  obtain ⟨-, hlen, hkept⟩ := stripEol_chunk hcut
  exact ⟨cut, hcut, hbuf.symm, hlen, hkept 0⟩

namespace Agree

variable {seen reach : ℕ} {b₁ b₂ : List UInt8}

theorem cstr_drop (h : Agree seen reach b₁ b₂) {m : ℕ} (hm : m < seen ∨ reach ≤ m) :
    cstr (b₁.drop m) = cstr (b₂.drop m) := by
  rcases hm with hlt | hle
  · obtain ⟨k, rfl⟩ : ∃ k, seen = m + k + 1 := ⟨seen - m - 1, by omega⟩
    refine cstr_congr (k := k) ?_ fun j hj => ?_
    · rw [List.getElem?_drop]
      exact h.zero _ rfl
    · rw [List.getElem?_drop, List.getElem?_drop]
      exact h.below _ (by omega)
  · have hdrop : b₁.drop m = b₂.drop m := List.ext_getElem? fun j => by
      rw [List.getElem?_drop, List.getElem?_drop]
      exact h.above _ (by omega)
    rw [hdrop]

/-- A line is written over both. -/
theorem write (h : Agree seen reach b₁ b₂) {chunk buf₁ buf₂ : List UInt8}
    (h₁ : stripEol (chunk ++ 0 :: b₁.drop (chunk.length + 1)) = .ok buf₁)
    (h₂ : stripEol (chunk ++ 0 :: b₂.drop (chunk.length + 1)) = .ok buf₂) :
    Agree (max seen (chunk.length + 1)) reach buf₁ buf₂ := by
  obtain ⟨cut, hcut, rfl, hlen, hzero⟩ := exists_line h₁
  obtain ⟨cut₂, hcut₂, rfl, -⟩ := exists_line h₂
  obtain rfl := Except.ok.inj (hcut.symm.trans hcut₂)
  have hfront : ∀ (b : List UInt8) j, j ≤ chunk.length →
      (cut ++ b.drop (chunk.length + 1))[j]? = cut[j]? := fun b j hj =>
    List.getElem?_append_left (by omega)
  have hback : ∀ (b : List UInt8) j, chunk.length < j →
      (cut ++ b.drop (chunk.length + 1))[j]? = b[j]? := fun b j hj => by
    rw [List.getElem?_append_right (by omega), List.getElem?_drop, hlen]
    congr 1
    omega
  refine ⟨fun j hj => ?_, fun j hj => ?_, fun j hj => ?_⟩
  · rcases Nat.lt_or_ge chunk.length j with hlt | hge
    · rw [hback _ _ hlt, hback _ _ hlt]
      exact h.below j (by omega)
    · rw [hfront _ _ hge, hfront _ _ hge]
  · rcases Nat.lt_or_ge chunk.length j with hlt | hge
    · rw [hback _ _ hlt]
      exact h.zero j (by omega)
    · obtain rfl : j = chunk.length := by omega
      rw [hfront _ _ hge, hzero]
  · rcases Nat.lt_or_ge chunk.length j with hlt | hge
    · rw [hback _ _ hlt, hback _ _ hlt]
      exact h.above j hj
    · rw [hfront _ _ hge, hfront _ _ hge]

end Agree

end Xlab
