import Xlab.ConfigLines
import Xlab.Configure
import Xlab.StringTrim

/-!
# Malformed lines

A line with a bad header, a bad indent or without a value is reported, and so is an entry before
any section. The code goes on with the line all the same : it is left out only if a comment or
the end of the line follows the indent, and otherwise becomes an entry.

`discarded_iff` : malformed lines contribute nothing, and the entries that are stored are complete
and come each from a line of its own, exactly when every line that gets as far as its key and value
is an entry as it should be, in a section.
-/

open CStr

namespace Xlab

/-! ## What a line reports -/

/-- The error is one of a line. -/
def ConfigError.IsMalformed (e : ConfigError) : Prop :=
  e = .badHeader ∨ e = .badIndent ∨ e = .noValue

namespace Reader

/-- The errors a line reports. -/
def reports (r : Reader) : List ConfigError :=
  if r.IsSkipped then []
  else if r.IsHeader then if r.sections ≠ [] ∧ r.nKeys = 0 then [.emptySection] else []
  else r.complaints ++ if r.Adds ∧ r.NoValue then [.noValue] else []

/-- The line is reported, or stands before any section. -/
def IsMalformed (r : Reader) : Prop :=
  (∃ e ∈ r.reports, e.IsMalformed) ∨ (r.IsEntry ∧ r.sections = [])

/-- If the line is malformed, it leaves the sections and their entries as they were. -/
def IsInert (r : Reader) : Prop :=
  r.IsMalformed → ∃ r', readText r = .ok r' ∧ r'.sections = r.sections

/-- The line has the indent, a key, a space and a section. -/
structure WellFormed (r : Reader) : Prop where
  bracket : r.text.head? ≠ some 0x5B
  indent : r.indented <+: r.text
  key : ∃ c s, r.rest = c :: s ∧ isBlank c = false
  space : 0x20 ∈ r.rest
  sections : r.sections ≠ []

end Reader

/-- The entry has a key and a value, and both are parts of the line. -/
def ConfigEntry.From (e : ConfigEntry) (line : List UInt8) : Prop :=
  ∃ key val, e = ⟨some key, some val⟩ ∧ key <:+: line ∧ val <:+: line

/-- The entries come from lines of their own, in their order. -/
def FromLines (sections : List ConfigSection) (lines : List (List UInt8)) : Prop :=
  ∃ own, own.Sublist lines ∧ List.Forall₂ ConfigEntry.From (sections.flatMap (·.entries)) own

/-- Malformed lines contribute nothing : they are inert, every stored entry comes from a line of its
own, and no lookup follows a null key. -/
structure Discarded (junk : Vector UInt8 255) (file : List UInt8) : Prop where
  inert : ∀ r chunk buf, ReachesLine junk file r chunk →
    stripEol (chunk ++ 0 :: r.buf.drop (chunk.length + 1)) = .ok buf → (r.load buf).IsInert
  entries : ∀ pre post r, fgetsAll 255 [] file = pre ++ post →
    pre.foldlM readLine (.start junk) = .ok r → FromLines r.sections (pre.map lineText)
  lookups : ∀ pre post r, fgetsAll 255 [] file = pre ++ post →
    pre.foldlM readLine (.start junk) = .ok r →
      ∀ s ∈ r.sections, ∀ key, ∃ e, findEntry key s.entries = .ok e

/-! ## Lines -/

variable {r : Reader}

/-- The errors are those a line reports. -/
theorem errors_readText (hr : r.Loaded) {r' : Reader} (h : readText r = .ok r') :
    r'.errors = r.errors ++ r.reports.map (r.line, ·) := by
  rw [Reader.reports]
  by_cases hskip : r.IsSkipped
  · rw [readText_of_skipped hskip] at h
    obtain rfl := Except.ok.inj h
    rw [if_pos hskip, List.map_nil, List.append_nil]
  rw [if_neg hskip]
  by_cases hheader : r.IsHeader
  · rw [readText_of_header hheader] at h
    obtain rfl := Except.ok.inj h
    rw [if_pos hheader]
    split_ifs
    · rfl
    · exact (List.append_nil _).symm
  rw [if_neg hheader]
  by_cases hadds : r.Adds
  · rcases readText_adds_cases hr hadds with ⟨-, herr⟩ | ⟨-, key, val, hadd⟩
    · rw [herr] at h
      cases h
    · obtain ⟨s, -, rfl⟩ := Reader.entryAdd_eq_ok.1 (hadd.symm.trans h)
      show r.checked.errors ++ _ = _
      rw [Reader.checked, List.map_append, ← List.append_assoc,
        if_congr (and_iff_right hadds) rfl rfl]
      split_ifs <;> rfl
  · rw [readText_of_idle ⟨hskip, hheader⟩ hadds] at h
    obtain rfl := Except.ok.inj h
    rw [if_neg fun hboth => hadds hboth.1, List.append_nil]
    rfl

theorem wellFormed_iff : r.WellFormed ↔
    r.text.head? ≠ some 0x5B ∧ ¬r.BadIndent ∧ ¬r.NoValue ∧ r.sections ≠ [] := by
  constructor
  · rintro ⟨hbracket, hindent, ⟨c, s, hrest, hc⟩, hspace, hsections⟩
    refine ⟨hbracket, ?_, ?_, hsections⟩
    · rintro (hnot | hblank)
      · exact hnot hindent
      · rw [getD_of_rest hrest, hc] at hblank
        cases hblank
    · rintro (hnot | hhead)
      · exact hnot hspace
      · rw [hrest, List.head?_cons] at hhead
        obtain rfl := Option.some.inj hhead
        cases hc
  · rintro ⟨hbracket, hindent, hvalue, hsections⟩
    obtain ⟨hstarts, hblank⟩ := not_or.1 hindent
    have hspace : 0x20 ∈ r.rest := not_not.1 fun h => hvalue (Or.inl h)
    obtain ⟨c, s, hrest⟩ := List.exists_cons_of_ne_nil (List.ne_nil_of_mem hspace)
    rw [getD_of_rest hrest] at hblank
    exact ⟨hbracket, not_not.1 hstarts, ⟨c, s, hrest, Bool.eq_false_iff.2 hblank⟩, hspace,
      hsections⟩

/-- A line that gets as far as its key and value is malformed unless it is as it should be. -/
theorem isMalformed_iff (h : r.Adds) : r.IsMalformed ↔ ¬r.WellFormed := by
  have hreports : (∃ e ∈ r.reports, e.IsMalformed) ↔
      r.text.head? = some 0x5B ∨ r.BadIndent ∨ r.NoValue := by
    rw [Reader.reports, if_neg h.1.1, if_neg h.1.2, Reader.complaints,
      if_congr (and_iff_right h) rfl rfl]
    by_cases h₁ : r.text.head? = some 0x5B <;> by_cases h₂ : r.BadIndent <;>
      by_cases h₃ : r.NoValue <;> simp [h₁, h₂, h₃, ConfigError.IsMalformed]
  rw [Reader.IsMalformed, hreports, wellFormed_iff, and_iff_right h.1]
  by_cases h₁ : r.text.head? = some 0x5B <;> by_cases h₂ : r.BadIndent <;>
    by_cases h₃ : r.NoValue <;> simp [h₁, h₂, h₃]

/-- A new entry changes the sections. -/
theorem sections_entryAdd_ne {key val : Option (List UInt8)} {r' : Reader}
    (h : r.entryAdd key val = .ok r') : r'.sections ≠ r.sections := by
  obtain ⟨s, hs, rfl⟩ := Reader.entryAdd_eq_ok.1 h
  intro heq
  have hlast := congrArg List.getLast? heq
  simp only [List.getLast?_concat, hs, Option.some.injEq] at hlast
  have hlen := congrArg (List.length ∘ ConfigSection.entries) hlast
  simp at hlen

/-- A line is inert unless it gets as far as its key and value and is not as it should be. -/
theorem isInert_iff (hr : r.Loaded) : r.IsInert ↔ (r.Adds → r.WellFormed) := by
  constructor
  · intro hinert hadds
    by_contra hbad
    obtain ⟨r', hread, hsame⟩ := hinert ((isMalformed_iff hadds).2 hbad)
    rcases readText_adds_cases hr hadds with ⟨-, herr⟩ | ⟨-, key, val, hadd⟩
    · rw [herr] at hread
      cases hread
    · exact sections_entryAdd_ne (hadd.symm.trans hread) hsame
  · intro hgood hmal
    by_cases hadds : r.Adds
    · exact absurd (hgood hadds) ((isMalformed_iff hadds).1 hmal)
    by_cases hskip : r.IsSkipped
    · exact ⟨r, readText_of_skipped hskip, rfl⟩
    by_cases hheader : r.IsHeader
    · rcases hmal with ⟨e, he, hkind⟩ | ⟨hentry, -⟩
      · rw [Reader.reports, if_neg hskip, if_pos hheader] at he
        split_ifs at he
        · obtain rfl := List.mem_singleton.1 he
          rcases hkind with h | h | h <;> cases h
        · cases he
      · exact absurd hheader hentry.2
    · exact ⟨r.checked, readText_of_idle ⟨hskip, hheader⟩ hadds, rfl⟩

/-! ## Entries -/

theorem entries_entryAdd {key val : Option (List UInt8)} {r' : Reader}
    (h : r.entryAdd key val = .ok r') : r'.sections.flatMap (·.entries) =
      r.sections.flatMap (·.entries) ++ [⟨key, val⟩] := by
  obtain ⟨s, hs, rfl⟩ := Reader.entryAdd_eq_ok.1 h
  have hsplit : r.sections = r.sections.dropLast ++ [s] :=
    (List.dropLast_append_getLast? s hs).symm
  conv_rhs => rw [hsplit]
  simp only [List.flatMap_append, List.flatMap_singleton, List.append_assoc]

/-- The entry of a line as it should be comes from the line. -/
theorem readText_of_wellFormed (hr : r.Loaded) (hadds : r.Adds) (hgood : r.WellFormed)
    {r' : Reader} (h : readText r = .ok r') : ∃ e : ConfigEntry, e.From r.text ∧
      r'.sections.flatMap (·.entries) = r.sections.flatMap (·.entries) ++ [e] := by
  obtain ⟨key, val, hrest, hkey⟩ := List.eq_append_cons_of_mem hgood.space
  have hrest_part : r.rest <:+: r.text := (List.drop_suffix _ _).isInfix
  have hkey_part : stringTrim key <:+: r.text :=
    (infix_stringTrim key).trans (List.IsInfix.trans ⟨[], 0x20 :: val, hrest.symm⟩ hrest_part)
  have hval_part : stringTrim val <:+: r.text := by
    refine (infix_stringTrim val).trans (List.IsInfix.trans ⟨key ++ [0x20], [], ?_⟩ hrest_part)
    rw [hrest, List.append_nil, List.append_assoc, List.singleton_append]
  have hread := readKeyVal_of_space (r := r.checked) hr.buf hrest hkey
  rw [readText_of_adds hadds] at h
  have hadd := hread.symm.trans h
  refine ⟨⟨some (stringTrim key), some (stringTrim val)⟩, ⟨_, _, rfl, hkey_part, hval_part⟩, ?_⟩
  split_ifs at hadd
  · exact entries_entryAdd (r := r.checked.error .noValue) hadd
  · exact entries_entryAdd (r := r.checked) hadd

/-- A line as it should be adds an entry of its own, or a new section, or nothing. -/
theorem fromLines_readText (hr : r.Loaded) (hgood : r.Adds → r.WellFormed) {r' : Reader}
    (h : readText r = .ok r') {lines : List (List UInt8)} (hlines : FromLines r.sections lines) :
    FromLines r'.sections (lines ++ [r.text]) := by
  obtain ⟨own, hsub, hall⟩ := hlines
  rcases readText_cases hr h with ⟨-, rfl⟩ | ⟨-, -, -, hsections⟩ | ⟨-, -, rfl⟩ |
    ⟨hadds, key, val, hadd⟩
  · exact ⟨own, hsub.trans (List.sublist_append_left _ _), hall⟩
  · refine ⟨own, hsub.trans (List.sublist_append_left _ _), ?_⟩
    rw [hsections, List.flatMap_append]
    simpa using hall
  · exact ⟨own, hsub.trans (List.sublist_append_left _ _), hall⟩
  · obtain ⟨e, hfrom, hentries⟩ := readText_of_wellFormed hr hadds (hgood hadds) h
    refine ⟨own ++ [r.text], hsub.append (List.Sublist.refl _), ?_⟩
    rw [hentries]
    exact List.rel_append hall (.cons hfrom .nil)

/-! ## Files -/

/-- Every line that gets as far as its key and value is as it should be. -/
def AllWellFormed (junk : Vector UInt8 255) (file : List UInt8) : Prop :=
  ∀ r chunk buf, ReachesLine junk file r chunk →
    stripEol (chunk ++ 0 :: r.buf.drop (chunk.length + 1)) = .ok buf →
      (r.load buf).Adds → (r.load buf).WellFormed

/-- The entries of a run come from its lines. -/
theorem fromLines_run {junk : Vector UInt8 255} {file : List UInt8}
    (hgood : AllWellFormed junk file) {pre post : List (List UInt8)}
    (hfile : fgetsAll 255 [] file = pre ++ post)
    (hrun : pre.foldlM readLine (.start junk) = .ok r) :
    FromLines r.sections (pre.map lineText) := by
  induction pre using List.reverseRecOn generalizing r post with
  | nil =>
    obtain rfl := Except.ok.inj hrun
    exact ⟨[], List.Sublist.refl _, .nil⟩
  | append_singleton pre chunk ih =>
    rw [List.foldlM_append] at hrun
    obtain ⟨r₁, hpre, hline⟩ := bind_eq_ok.1 hrun
    rw [List.append_assoc] at hfile
    have hreach : ReachesLine junk file r₁ chunk := ⟨pre, post, hfile, hpre⟩
    obtain ⟨hsound, -, hlen⟩ := hreach.sound
    have hread : readLine r₁ chunk = .ok r := by
      rw [List.foldlM_cons] at hline
      obtain ⟨r₂, hread, hnil⟩ := bind_eq_ok.1 hline
      exact Except.ok.inj hnil ▸ hread
    obtain ⟨buf, hstrip, htext⟩ := readLine_eq_ok.1 hread
    obtain ⟨hloaded, heq, -⟩ := load_eq_ok hsound hlen hstrip
    have hbefore : FromLines r₁.sections (pre.map lineText) := ih hfile hpre
    have hlines := fromLines_readText (r := r₁.load buf) hloaded
      (hgood r₁ chunk buf hreach hstrip) htext hbefore
    rw [List.map_append, List.map_singleton, ← heq]
    exact hlines

/-- A lookup among complete entries never follows a null key. -/
theorem findEntry_of_fromLines {sections : List ConfigSection} {lines : List (List UInt8)}
    (h : FromLines sections lines) {s : ConfigSection} (hs : s ∈ sections) (key : List UInt8) :
    ∃ e, findEntry key s.entries = .ok e := by
  obtain ⟨own, -, hall⟩ := h
  have hboth : List.Forall₂ (fun e l => e.key ≠ none ∧ e.From l)
      (sections.flatMap (·.entries)) own :=
    hall.imp fun e l hfrom => by
      refine ⟨?_, hfrom⟩
      obtain ⟨k, v, rfl, -⟩ := hfrom
      exact Option.some_ne_none k
  have hkeys := ((List.forall₂_and_left _ _).1 hboth).1
  refine ⟨_, findEntry_eq_ok.2 ⟨fun e he => ?_, rfl⟩⟩
  exact hkeys e (List.mem_flatMap.2 ⟨s, hs, (List.takeWhile_prefix _).subset he⟩)

/-- Malformed lines contribute nothing exactly when every line that gets as far as its key and
value is as it should be. -/
theorem discarded_iff (junk : Vector UInt8 255) (file : List UInt8) :
    Discarded junk file ↔ AllWellFormed junk file := by
  constructor
  · intro h r chunk buf hreach hstrip
    obtain ⟨hsound, -, hlen⟩ := hreach.sound
    exact (isInert_iff (load_eq_ok hsound hlen hstrip).1).1 (h.inert r chunk buf hreach hstrip)
  · intro h
    refine ⟨fun r chunk buf hreach hstrip => ?_, fun pre post r => fromLines_run h,
      fun pre post r hfile hrun s hs => findEntry_of_fromLines (fromLines_run h hfile hrun) hs⟩
    obtain ⟨hsound, -, hlen⟩ := hreach.sound
    exact (isInert_iff (load_eq_ok hsound hlen hstrip).1).2 (h r chunk buf hreach hstrip)

/-- The section `[A]`, and a line without a value. -/
def noValueConf : List UInt8 :=
  [0x5B, 0x41, 0x5D, 0x0A, 0x20, 0x78, 0x0A]

/-- The line becomes an entry without a key. -/
theorem not_discarded_noValueConf : ¬∀ (junk : Vector UInt8 255) (file : List UInt8),
    Discarded junk file := by
  intro h
  have hsections : ((fgetsAll 255 [] noValueConf).foldlM readLine
      (.start (Vector.replicate 255 0))).toOption.map Reader.sections =
        some [⟨[0x41], [⟨none, some []⟩]⟩] := by decide +kernel
  cases hrun : (fgetsAll 255 [] noValueConf).foldlM readLine (.start (Vector.replicate 255 0)) with
  | error f =>
    rw [hrun] at hsections
    cases hsections
  | ok r =>
    rw [hrun] at hsections
    have hlookup := (h (Vector.replicate 255 0) noValueConf).lookups _ [] r
      (List.append_nil _).symm hrun ⟨[0x41], [⟨none, some []⟩]⟩
      (Option.some.inj hsections ▸ List.mem_singleton_self _) keyPort
    obtain ⟨e, he⟩ := hlookup
    cases he

end Xlab
