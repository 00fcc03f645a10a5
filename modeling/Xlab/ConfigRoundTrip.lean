import Xlab.ConfigLines
import Xlab.Runs
import Xlab.StringTrim

/-!
# Configuration files read as they were written

A file is written line by line : sections with their entries, and between them empty lines and
comments. A `Rendering` of a list of sections is any such file whose lines fit into the buffer
of `xlab_config_create`. `readLine_source` says what one line does to the reader. The entries
before a line do not matter to it, except for the indent, which is the same in all of them.
`configCreate_rendering` : the file gives back its sections, and no error is reported.
-/

open CStr

namespace Xlab

/-! ## Files as they are written -/

/-- A key and a value that can be written on a line. -/
structure EntrySource where
  key : List UInt8
  val : List UInt8
  key_ne : key ≠ []
  key_graphic : ∀ c ∈ key, 0x21 ≤ c ∧ c ≤ 0x7E
  key_head : key.head? ≠ some 0x23
  val_ne : val ≠ []
  val_text : ∀ c ∈ val, c < 0x80 ∧ c ≠ 0 ∧ c ≠ newline ∧ c ≠ carriage
  val_head : ∀ c ∈ val.head?, isSpace c = false
  val_last : ∀ c ∈ val.getLast?, isSpace c = false

/-- A section that can be written. -/
structure SectionSource where
  name : List UInt8
  entries : List EntrySource
  name_text : ∀ c ∈ name, c ≠ 0x5D ∧ c ≠ 0 ∧ c ≠ newline ∧ c ≠ carriage
  entries_ne : entries ≠ []

/-- A line of a file. -/
inductive SourceLine where
  | empty
  | comment (text : List UInt8) (h : newline ∉ text)
  | header (s : SectionSource)
  | entry (e : EntrySource)

/-- The end of a line. -/
inductive Eol where
  | lf
  | crlf

/-- What stands before the newline. -/
def Eol.carriages : Eol → List UInt8
  | .lf => []
  | .crlf => [carriage]

/-- The text of a line. -/
def SourceLine.text (indent : List UInt8) : SourceLine → List UInt8
  | .empty => []
  | .comment text _ => 0x23 :: text
  | .header s => 0x5B :: s.name ++ [0x5D]
  | .entry e => indent ++ e.key ++ 0x20 :: e.val

/-- The line is empty or a comment. -/
def SourceLine.isFiller : SourceLine → Bool
  | .empty => true
  | .comment _ _ => true
  | _ => false

/-- The lines of a section. -/
def SectionSource.lines (s : SectionSource) : List SourceLine :=
  .header s :: s.entries.map .entry

/-- A file with the sections `secs`, an indent, and empty lines and comments anywhere. -/
structure Rendering (secs : List SectionSource) where
  indent : List UInt8
  lines : List (SourceLine × Eol)
  indent_ne : indent ≠ []
  indent_blank : ∀ c ∈ indent, isBlank c = true
  content : (lines.map Prod.fst).filter (fun l => !l.isFiller) = secs.flatMap SectionSource.lines
  short : ∀ l ∈ lines, (l.1.text indent).length ≤ 252
  room : ∀ e eol, (SourceLine.entry e, eol) ∈ lines →
    ((SourceLine.entry e).text indent).length + e.key.length ≤ 255

/-- A line with its end. -/
def lineBytes (indent : List UInt8) (l : SourceLine × Eol) : List UInt8 :=
  l.1.text indent ++ l.2.carriages ++ [newline]

/-- The bytes of the file. -/
def Rendering.bytes {secs : List SectionSource} (f : Rendering secs) : List UInt8 :=
  f.lines.flatMap (lineBytes f.indent)

/-- The entry as the reader keeps it. -/
def EntrySource.entry (e : EntrySource) : ConfigEntry :=
  ⟨some e.key, some e.val⟩

/-- The section as the reader keeps it. -/
def SectionSource.section (s : SectionSource) : ConfigSection :=
  ⟨s.name, s.entries.map EntrySource.entry⟩

/-! ## What a line does to the reader -/

/-- The sections so far, and the number of entries of the last one. -/
abbrev Progress := List ConfigSection × ℕ

/-- A line is read. -/
def Progress.read (p : Progress) : SourceLine → Progress
  | .header s => (p.1 ++ [⟨s.name, []⟩], 0)
  | .entry e =>
    match p.1.getLast? with
    | none => p
    | some s => (p.1.dropLast ++ [{ s with entries := s.entries ++ [e.entry] }], p.2 + 1)
  | _ => p

/-- A header stands at the start or after an entry, and an entry in a section. -/
def Progress.Tidy (p : Progress) : SourceLine → Prop
  | .header _ => p.1 = [] ∨ p.2 ≠ 0
  | .entry _ => p.1 ≠ []
  | _ => True

/-- The sections so far, and the number of entries of the last one. -/
def Reader.progress (r : Reader) : Progress :=
  (r.sections, r.nKeys)

/-- The buffer has its length, and the indent, once it is known, is `indent`. -/
structure Reader.Shape (indent : List UInt8) (r : Reader) : Prop where
  buf : r.buf.length = 255
  indent : r.indent = none ∨ r.indent = some indent

/-- The reader has read a line without reporting an error. -/
structure Reader.Reads (indent : List UInt8) (l : SourceLine) (r r' : Reader) : Prop where
  shape : r'.Shape indent
  progress : r'.progress = r.progress.read l
  errors : r'.errors = r.errors

theorem Reader.Shape.load {indent : List UInt8} {r : Reader} (h : r.Shape indent)
    {buf : List UInt8} (hbuf : buf.length = 255) : (r.load buf).Shape indent :=
  ⟨hbuf, h.indent⟩

variable {indent : List UInt8} {r : Reader}

theorem length_lineBytes_le {l : SourceLine × Eol} (h : (l.1.text indent).length ≤ 252) :
    (lineBytes indent l).length ≤ 254 := by
  have heol : l.2.carriages.length ≤ 1 := by
    cases l.2 <;> simp [Eol.carriages]
  simp only [lineBytes, List.length_append, List.length_cons, List.length_nil]
  omega

/-- A line without its end. -/
theorem lineText_lineBytes {l : SourceLine}
    (h : ∀ c ∈ l.text indent, c ≠ 0 ∧ c ≠ newline ∧ c ≠ carriage) (eol : Eol) :
    lineText (lineBytes indent (l, eol)) = l.text indent := by
  have hzero : (0 : UInt8) ∉ lineBytes indent (l, eol) := by
    have htext : (0 : UInt8) ∉ l.text indent := fun h0 => (h 0 h0).1 rfl
    cases eol <;> simp [lineBytes, Eol.carriages, htext, newline, carriage]
  have hbytes : lineBytes indent (l, eol) = l.text indent ++ eol.carriages ++ [newline] := rfl
  rw [lineText, cstr_of_not_mem hzero, cutEol, hbytes, List.getLast?_concat,
    List.dropLast_concat, if_pos rfl]
  cases eol with
  | lf =>
    -- the last byte of the text is no carriage return
    simp only [Eol.carriages, List.append_nil]
    exact if_neg fun hlast => (h carriage (List.mem_of_getLast? hlast)).2.2 rfl
  | crlf =>
    have hend : Eol.crlf.carriages = [carriage] := rfl
    rw [hend, List.getLast?_concat, List.dropLast_concat, if_pos rfl]

/-- A line gets into the buffer. -/
theorem readLine_load {l : SourceLine} (hshort : (l.text indent).length ≤ 252) (eol : Eol)
    (hstart : (l.text indent).head? ≠ some 0) (hr : r.Shape indent) :
    ∃ buf, readLine r (lineBytes indent (l, eol)) = readText (r.load buf) ∧
      (r.load buf).Shape indent ∧ (r.load buf).text = lineText (lineBytes indent (l, eol)) := by
  have hne : lineBytes indent (l, eol) ≠ [] :=
    List.append_ne_nil_of_right_ne_nil _ (List.cons_ne_nil _ _)
  have hhead : (lineBytes indent (l, eol)).head? ≠ some 0 := by
    rw [lineBytes, List.append_assoc]
    cases htext : l.text indent with
    | nil => cases eol <;> exact fun h => absurd (Option.some.inj h) (by decide)
    | cons c s =>
      rw [htext] at hstart
      exact hstart
  have hle := length_lineBytes_le (l := (l, eol)) hshort
  obtain ⟨buf, hstrip⟩ := exists_stripEol hne hhead
    (r.buf.drop ((lineBytes indent (l, eol)).length + 1))
  refine ⟨buf, ?_, hr.load (length_load hr.buf (by omega) hstrip), (stripEol_chunk hstrip).1⟩
  rw [readLine_eq, hstrip]
  rfl

/-- An empty line or a comment changes nothing. -/
theorem readLine_filler {l : SourceLine} (hl : l.isFiller = true)
    (hshort : (l.text indent).length ≤ 252) (eol : Eol) (hr : r.Shape indent) :
    ∃ r', readLine r (lineBytes indent (l, eol)) = .ok r' ∧ r.Reads indent l r' := by
  cases l with
  | empty =>
    obtain ⟨buf, hread, hshape, htext⟩ :=
      readLine_load (l := .empty) hshort eol (Option.some_ne_none _).symm hr
    rw [lineText_lineBytes fun c hc => absurd hc List.not_mem_nil] at htext
    exact ⟨_, hread.trans (readText_of_skipped (Or.inl htext)), hshape, rfl, rfl⟩
  | comment text hnl =>
    obtain ⟨buf, hread, hshape, htext⟩ :=
      readLine_load (l := .comment text hnl) hshort eol
        (fun h => absurd (Option.some.inj h) (by decide)) hr
    have hhash : (r.load buf).text.head? = some 0x23 := by
      rw [htext]
      show (cutEol (cstr (0x23 :: _))).head? = _
      rw [cstr_cons (by decide)]
      exact head?_cutEol (by decide) (by decide) _
    exact ⟨_, hread.trans (readText_of_skipped (Or.inr hhash)), hshape, rfl, rfl⟩
  | header s => cases hl
  | entry e => cases hl

theorem SectionSource.text_ok (s : SectionSource) :
    ∀ c ∈ (SourceLine.header s).text indent, c ≠ 0 ∧ c ≠ newline ∧ c ≠ carriage := by
  intro c hc
  simp only [SourceLine.text, List.cons_append, List.mem_cons, List.mem_append,
    List.not_mem_nil, or_false] at hc
  rcases hc with rfl | hc | rfl
  · decide
  · exact (s.name_text c hc).2
  · decide

/-- The line of a section is a header with its name. -/
theorem header_of_text {s : SectionSource} (h : r.text = (SourceLine.header s).text indent) :
    r.IsHeader ∧ r.header = s.name := by
  rw [Reader.IsHeader, Reader.header, h]
  refine ⟨⟨rfl, by simp [SourceLine.text]⟩, ?_⟩
  have hall : ∀ c ∈ s.name, decide (c ≠ 0x5D) = true := fun c hc => by
    simpa using (s.name_text c hc).1
  rw [SourceLine.text, List.cons_append, List.drop_succ_cons, List.drop_zero,
    List.takeWhile_append_of_pos hall, List.takeWhile_cons_of_neg (by simp), List.append_nil]

/-- A header opens its section. -/
theorem readLine_header {s : SectionSource}
    (hshort : ((SourceLine.header s).text indent).length ≤ 252) (eol : Eol)
    (hr : r.Shape indent) (htidy : r.progress.Tidy (.header s)) :
    ∃ r', readLine r (lineBytes indent (.header s, eol)) = .ok r' ∧
      r.Reads indent (.header s) r' := by
  obtain ⟨buf, hread, hshape, htext⟩ :=
    readLine_load (l := .header s) hshort eol
      (fun h => absurd (Option.some.inj h) (by decide)) hr
  rw [lineText_lineBytes s.text_ok] at htext
  obtain ⟨hheader, hname⟩ := header_of_text htext
  have htidy' : ¬((r.load buf).sections ≠ [] ∧ (r.load buf).nKeys = 0) := by
    rintro ⟨hne, h0⟩
    rcases htidy with h | h
    · exact hne h
    · exact h h0
  rw [readText_of_header hheader, hname, if_neg htidy'] at hread
  exact ⟨_, hread, ⟨hshape.buf, hr.indent⟩, rfl, rfl⟩

/-! ## Entry lines -/

theorem lt_toNat_of_graphic {c : UInt8} (h : 0x21 ≤ c ∧ c ≤ 0x7E) : 0x20 < c.toNat :=
  UInt8.le_iff_toNat_le.1 h.1

theorem ne_of_graphic {c d : UInt8} (h : 0x21 ≤ c ∧ c ≤ 0x7E) (hd : d.toNat ≤ 0x20) : c ≠ d := by
  rintro rfl
  exact Nat.not_lt.2 hd (lt_toNat_of_graphic h)

theorem not_space_of_graphic {c : UInt8} (h : 0x21 ≤ c ∧ c ≤ 0x7E) : isSpace c = false := by
  have hgt := lt_toNat_of_graphic h
  have hne : c ≠ 0x20 := ne_of_graphic h (by decide)
  have hle : ¬c ≤ 0x0D := fun hle => by
    have hle' : c.toNat ≤ 0x0D := UInt8.le_iff_toNat_le.1 hle
    omega
  simp [isSpace, hne, hle]

theorem not_blank_of_graphic {c : UInt8} (h : 0x21 ≤ c ∧ c ≤ 0x7E) : isBlank c = false := by
  have hne : c ≠ 0x20 := ne_of_graphic h (by decide)
  have hne' : c ≠ 0x09 := ne_of_graphic h (by decide)
  simp [isBlank, hne, hne']

theorem blank_cases {c : UInt8} (h : isBlank c = true) : c = 0x20 ∨ c = 0x09 := by
  simpa [isBlank] using h

/-- The indent of a line is the blanks it starts with. -/
theorem indentOf_append (hne : indent ≠ []) (hblank : ∀ c ∈ indent, isBlank c = true) {c : UInt8}
    (hc : isBlank c = false) (rest : List UInt8) : indentOf (indent ++ c :: rest) = indent := by
  obtain ⟨b, bs, rfl⟩ := List.exists_cons_of_ne_nil hne
  simp only [indentOf, List.cons_append, List.take_succ_cons, List.take_zero, List.drop_succ_cons,
    List.drop_zero]
  rw [List.takeWhile_append_of_pos fun c hc => hblank c (List.mem_cons_of_mem _ hc),
    List.takeWhile_cons_of_neg (by simp [hc]), List.append_nil]
  rfl

theorem EntrySource.text_ok (e : EntrySource) (hblank : ∀ c ∈ indent, isBlank c = true) :
    ∀ c ∈ (SourceLine.entry e).text indent, c ≠ 0 ∧ c ≠ newline ∧ c ≠ carriage := by
  intro c hc
  simp only [SourceLine.text, List.mem_append, List.mem_cons] at hc
  rcases hc with (hc | hc) | rfl | hc
  · rcases blank_cases (hblank c hc) with rfl | rfl <;> decide
  · have hg := e.key_graphic c hc
    exact ⟨ne_of_graphic hg (by decide), ne_of_graphic hg (by decide), ne_of_graphic hg (by decide)⟩
  · decide
  · exact (e.val_text c hc).2

theorem EntrySource.trim_key (e : EntrySource) : stringTrim e.key = e.key :=
  stringTrim_of_not_space
    (fun c hc => not_space_of_graphic (e.key_graphic c (List.mem_of_head? hc)))
    fun c hc => not_space_of_graphic (e.key_graphic c (List.mem_of_getLast? hc))

theorem EntrySource.trim_val (e : EntrySource) : stringTrim e.val = e.val :=
  stringTrim_of_not_space e.val_head e.val_last

theorem entryAdd_entry {e : EntrySource} (h : r.sections ≠ []) :
    ∃ r', r.entryAdd (some e.key) (some e.val) = .ok r' ∧ r'.buf = r.buf ∧
      r'.indent = r.indent ∧ r'.progress = r.progress.read (.entry e) ∧ r'.errors = r.errors := by
  obtain ⟨s, hs⟩ := Option.ne_none_iff_exists'.1 (mt List.getLast?_eq_none_iff.1 h)
  simp only [Reader.entryAdd, Reader.progress, Progress.read, hs]
  exact ⟨_, rfl, rfl, rfl, rfl, rfl⟩

/-- The line of an entry has its indent, and adds the entry without an error. -/
theorem adds_of_text {e : EntrySource} (hne : indent ≠ [])
    (hblank : ∀ c ∈ indent, isBlank c = true) (hr : r.Shape indent)
    (h : r.text = (SourceLine.entry e).text indent) :
    r.indented = indent ∧ r.Adds ∧ r.complaints = [] := by
  obtain ⟨k, ks, hk⟩ := List.exists_cons_of_ne_nil e.key_ne
  have hkey : 0x21 ≤ k ∧ k ≤ 0x7E := e.key_graphic k (hk ▸ List.mem_cons_self)
  have htext : r.text = indent ++ k :: (ks ++ 0x20 :: e.val) := by
    rw [h]
    simp [SourceLine.text, hk]
  have hindented : r.indented = indent := by
    rw [Reader.indented]
    rcases hr.indent with hind | hind <;> rw [hind]
    · rw [Option.getD_none, htext]
      exact indentOf_append hne hblank (not_blank_of_graphic hkey) _
    · rfl
  have hnext : r.buf.getD indent.length 0 = k :=
    getD_of_rest (s := ks ++ 0x20 :: e.val) (by rw [htext, List.drop_left])
  -- the line starts with a blank
  obtain ⟨b, bs, hb⟩ := List.exists_cons_of_ne_nil hne
  have hhead : r.text.head? = some b := by rw [htext, hb]; rfl
  have hstart : b ≠ 0x23 ∧ b ≠ 0x5B := by
    rcases blank_cases (hblank b (hb ▸ List.mem_cons_self)) with rfl | rfl <;> decide
  have hentry : r.IsEntry := by
    refine ⟨?_, fun hheader => hstart.2 (Option.some.inj (hhead.symm.trans hheader.1))⟩
    rintro (hnil | hhash)
    · rw [hnil] at hhead
      cases hhead
    · exact hstart.1 (Option.some.inj (hhead.symm.trans hhash))
  have hgood : ¬r.BadIndent := by
    rw [Reader.BadIndent, hindented, hnext, not_blank_of_graphic hkey, htext, not_or]
    exact ⟨not_not.2 (List.prefix_append _ _), Bool.false_ne_true⟩
  refine ⟨hindented, ⟨hentry, ?_, ?_⟩, ?_⟩
  · rw [hindented, hnext]
    exact fun hhash => e.key_head (by rw [hk, hhash]; rfl)
  · rw [hindented, htext, List.length_append, List.length_cons]
    omega
  · rw [Reader.complaints, if_neg hgood, List.append_nil, hhead]
    exact if_neg fun hbracket => hstart.2 (Option.some.inj hbracket)

/-- The key and the value are found on the line. -/
theorem readText_entry {e : EntrySource} (hne : indent ≠ [])
    (hblank : ∀ c ∈ indent, isBlank c = true)
    (hroom : ((SourceLine.entry e).text indent).length + e.key.length ≤ 255)
    (hr : r.Shape indent) (h : r.text = (SourceLine.entry e).text indent) :
    readText r = { r with indent := some indent }.entryAdd (some e.key) (some e.val) := by
  obtain ⟨hindented, hadds, hclean⟩ := adds_of_text hne hblank hr h
  have hchecked : r.checked = { r with indent := some indent } := by
    rw [Reader.checked, hclean, hindented, List.map_nil, List.append_nil]
  have hspace : (0x20 : UInt8) ∉ e.key := fun hmem =>
    ne_of_graphic (e.key_graphic _ hmem) (by decide) rfl
  have hrest : r.text.drop indent.length = e.key ++ 0x20 :: e.val := by
    rw [h, SourceLine.text, List.append_assoc, List.drop_left]
  rw [← h] at hroom
  rw [readText_of_adds hadds, hchecked, hindented]
  refine (readKeyVal_of_space (r := { r with indent := some indent }) hr.buf hrest hspace).trans ?_
  rw [if_neg e.key_ne, e.trim_key, e.trim_val]
  exact if_pos hroom

/-- An entry goes to the last section. -/
theorem readLine_entry {e : EntrySource} (hne : indent ≠ [])
    (hblank : ∀ c ∈ indent, isBlank c = true)
    (hshort : ((SourceLine.entry e).text indent).length ≤ 252)
    (hroom : ((SourceLine.entry e).text indent).length + e.key.length ≤ 255) (eol : Eol)
    (hr : r.Shape indent) (htidy : r.progress.Tidy (.entry e)) :
    ∃ r', readLine r (lineBytes indent (.entry e, eol)) = .ok r' ∧
      r.Reads indent (.entry e) r' := by
  have hok := e.text_ok hblank
  obtain ⟨buf, hread, hshape, htext⟩ := readLine_load (l := .entry e) hshort eol
    (fun h0 => (hok 0 (List.mem_of_head? h0)).1 rfl) hr
  rw [lineText_lineBytes hok] at htext
  obtain ⟨r', hadd, hbuf, hind, hprog, herr⟩ := entryAdd_entry (e := e)
    (r := { r.load buf with indent := some indent }) htidy
  rw [readText_entry hne hblank hroom hshape htext] at hread
  exact ⟨r', hread.trans hadd, ⟨hbuf ▸ hshape.buf, Or.inr hind⟩, hprog, herr⟩

/-! ## Files -/

theorem readLine_source {l : SourceLine} (hne : indent ≠ [])
    (hblank : ∀ c ∈ indent, isBlank c = true) (hshort : (l.text indent).length ≤ 252)
    (hroom : ∀ e, l = .entry e → (l.text indent).length + e.key.length ≤ 255) (eol : Eol)
    (hr : r.Shape indent) (htidy : r.progress.Tidy l) :
    ∃ r', readLine r (lineBytes indent (l, eol)) = .ok r' ∧ r.Reads indent l r' := by
  cases l with
  | empty => exact readLine_filler rfl hshort eol hr
  | comment text h => exact readLine_filler rfl hshort eol hr
  | header s => exact readLine_header hshort eol hr htidy
  | entry e => exact readLine_entry hne hblank hshort (hroom e rfl) eol hr htidy

/-- Lines are read one after the other. -/
theorem readLines_source {lines : List (SourceLine × Eol)} (hne : indent ≠ [])
    (hblank : ∀ c ∈ indent, isBlank c = true)
    (hshort : ∀ l ∈ lines, (l.1.text indent).length ≤ 252)
    (hroom : ∀ e eol, (SourceLine.entry e, eol) ∈ lines →
      ((SourceLine.entry e).text indent).length + e.key.length ≤ 255)
    (hr : r.Shape indent)
    (htidy : Runs.Guarded Progress.read Progress.Tidy r.progress (lines.map Prod.fst)) :
    ∃ r', (lines.map (lineBytes indent)).foldlM readLine r = .ok r' ∧
      r'.progress = Runs.run Progress.read r.progress (lines.map Prod.fst) ∧
      r'.errors = r.errors := by
  induction lines generalizing r with
  | nil => exact ⟨r, rfl, rfl, rfl⟩
  | cons l lines ih =>
    obtain ⟨l, eol⟩ := l
    obtain ⟨r₁, hread, hreads⟩ := readLine_source hne hblank
      (hshort _ List.mem_cons_self)
      (fun e he => by
        subst he
        exact hroom e eol List.mem_cons_self)
      eol hr htidy.1
    have htidy' := htidy.2
    rw [← hreads.progress] at htidy'
    obtain ⟨r', hfold, hprog, herr⟩ := ih (fun l hl => hshort l (List.mem_cons_of_mem _ hl))
      (fun e eol he => hroom e eol (List.mem_cons_of_mem _ he)) hreads.shape htidy'
    refine ⟨r', ?_, ?_, herr.trans hreads.errors⟩
    · rw [List.map_cons, List.foldlM_cons, hread]
      exact hfold
    · rw [hprog, hreads.progress]
      rfl

/-- Empty lines and comments may be left out. -/
theorem tidy_filter {p : Progress} {lines : List SourceLine} :
    (Runs.Guarded Progress.read Progress.Tidy p (lines.filter fun l => !l.isFiller) ↔
      Runs.Guarded Progress.read Progress.Tidy p lines) ∧
    Runs.run Progress.read p (lines.filter fun l => !l.isFiller) =
      Runs.run Progress.read p lines := by
  induction lines generalizing p with
  | nil => exact ⟨Iff.rfl, rfl⟩
  | cons l lines ih =>
    cases l with
    | empty => exact ⟨ih.1.trans (and_iff_right trivial).symm, ih.2⟩
    | comment text h => exact ⟨ih.1.trans (and_iff_right trivial).symm, ih.2⟩
    | header s => exact ⟨and_congr_right fun _ => ih.1, ih.2⟩
    | entry e => exact ⟨and_congr_right fun _ => ih.1, ih.2⟩

/-- The entries of a section are added one after the other. -/
theorem run_entries (sections : List ConfigSection) (name : List UInt8)
    (before : List ConfigEntry) (n : ℕ) (es : List EntrySource) :
    Runs.Guarded Progress.read Progress.Tidy (sections ++ [⟨name, before⟩], n)
        (es.map .entry) ∧
      Runs.run Progress.read (sections ++ [⟨name, before⟩], n) (es.map .entry) =
        (sections ++ [⟨name, before ++ es.map EntrySource.entry⟩], n + es.length) := by
  induction es generalizing before n with
  | nil => simp [Runs.Guarded]
  | cons e es ih =>
    have hread : Progress.read (sections ++ [⟨name, before⟩], n) (.entry e) =
        (sections ++ [⟨name, before ++ [e.entry]⟩], n + 1) := by
      simp [Progress.read]
    obtain ⟨hguard, hrun⟩ := ih (before ++ [e.entry]) (n + 1)
    refine ⟨⟨by simp [Progress.Tidy], hread.symm ▸ hguard⟩, ?_⟩
    rw [List.map_cons, Runs.run_cons, hread, hrun]
    simp [Nat.add_assoc, Nat.add_comm 1]

/-- The sections are opened one after the other. -/
theorem run_sections {p : Progress} (hp : p.1 = [] ∨ p.2 ≠ 0) (secs : List SectionSource) :
    Runs.Guarded Progress.read Progress.Tidy p (secs.flatMap SectionSource.lines) ∧
      (Runs.run Progress.read p (secs.flatMap SectionSource.lines)).1 =
        p.1 ++ secs.map SectionSource.section ∧
      (secs ≠ [] → (Runs.run Progress.read p (secs.flatMap SectionSource.lines)).2 ≠ 0) := by
  induction secs generalizing p with
  | nil => exact ⟨trivial, by simp, fun h => absurd rfl h⟩
  | cons s secs ih =>
    obtain ⟨hguard, hrun⟩ := run_entries p.1 s.name [] 0 s.entries
    have hpos : s.entries.length ≠ 0 := mt List.eq_nil_of_length_eq_zero s.entries_ne
    have hstart : Progress.read p (.header s) = (p.1 ++ [⟨s.name, []⟩], 0) := rfl
    obtain ⟨hguard', hrun', hne'⟩ := ih
      (p := (p.1 ++ [⟨s.name, s.entries.map EntrySource.entry⟩], s.entries.length)) (Or.inr hpos)
    have hend : Runs.run Progress.read p s.lines =
        (p.1 ++ [⟨s.name, s.entries.map EntrySource.entry⟩], s.entries.length) := by
      rw [SectionSource.lines, Runs.run_cons, hstart, hrun, List.nil_append, Nat.zero_add]
    rw [List.flatMap_cons, Runs.guarded_append, Runs.run_append, hend]
    refine ⟨⟨⟨hp, hguard⟩, hguard'⟩, ?_, fun _ => ?_⟩
    · rw [hrun']
      simp [SectionSource.section]
    · cases secs with
      | nil => exact hpos
      | cons s' secs => exact hne' (List.cons_ne_nil _ _)

theorem newline_not_mem_text (hblank : ∀ c ∈ indent, isBlank c = true) (l : SourceLine) :
    newline ∉ l.text indent := by
  intro hmem
  cases l with
  | empty => exact absurd hmem List.not_mem_nil
  | comment text h =>
    rcases List.mem_cons.1 hmem with h' | h'
    · exact absurd h' (by decide)
    · exact h h'
  | header s =>
    simp only [SourceLine.text, List.cons_append, List.mem_cons, List.mem_append,
      List.not_mem_nil, or_false] at hmem
    rcases hmem with h | h | h
    · exact absurd h (by decide)
    · exact (s.name_text _ h).2.2.1 rfl
    · exact absurd h (by decide)
  | entry e => exact (e.text_ok hblank _ hmem).2.1 rfl

/-- `fgets` reads the file line by line. -/
theorem fgetsAll_lines {lines : List (SourceLine × Eol)}
    (hblank : ∀ c ∈ indent, isBlank c = true)
    (hshort : ∀ l ∈ lines, (l.1.text indent).length ≤ 252) :
    fgetsAll 255 [] (lines.flatMap (lineBytes indent)) = lines.map (lineBytes indent) := by
  induction lines with
  | nil => rfl
  | cons l lines ih =>
    have hle := length_lineBytes_le (hshort l List.mem_cons_self)
    have hnl : newline ∉ l.1.text indent ++ l.2.carriages := by
      rw [List.mem_append, not_or]
      refine ⟨newline_not_mem_text hblank l.1, ?_⟩
      cases l.2 <;> decide
    rw [List.flatMap_cons, lineBytes, List.append_assoc, List.singleton_append, fgetsAll_line hnl,
      ih fun l hl => hshort l (List.mem_cons_of_mem _ hl)]
    · rfl
    · simp only [lineBytes, List.length_append, List.length_cons, List.length_nil] at hle ⊢
      omega

/-- A file with sections gives back its sections, and no error is reported. -/
theorem configCreate_rendering {secs : List SectionSource} (hne : secs ≠ []) (f : Rendering secs)
    (junk : Vector UInt8 255) : configCreate junk (some f.bytes) =
      .ok (some ⟨secs.map SectionSource.section, []⟩) := by
  have hstart : (Reader.start junk).Shape f.indent := ⟨junk.size_toArray, Or.inl rfl⟩
  obtain ⟨hguard, hsecs, hkeys⟩ :=
    run_sections (p := (Reader.start junk).progress) (Or.inl rfl) secs
  rw [← f.content] at hguard hsecs hkeys
  rw [(tidy_filter).1] at hguard
  rw [(tidy_filter).2] at hsecs hkeys
  obtain ⟨r, hfold, hprog, herr⟩ := readLines_source f.indent_ne f.indent_blank f.short f.room
    hstart hguard
  rw [← hprog] at hsecs hkeys
  have hn : r.nKeys ≠ 0 := hkeys hne
  have hsections : r.sections = secs.map SectionSource.section := hsecs
  have hfinish : r.finish = ⟨secs.map SectionSource.section, []⟩ := by
    rw [Reader.finish]
    simp only [if_neg hn, hsections, herr]
    rfl
  rw [configCreate, Rendering.bytes, fgetsAll_lines f.indent_blank f.short, hfold, ← hfinish]
  rfl

/-- `"Port"`. -/
def portKey : List UInt8 := [0x50, 0x6F, 0x72, 0x74]

/-- `"2001"`. -/
def portVal : List UInt8 := [0x32, 0x30, 0x30, 0x31]

/-- `"SERVER"`. -/
def serverName : List UInt8 := [0x53, 0x45, 0x52, 0x56, 0x45, 0x52]

theorem portKey_graphic : ∀ c ∈ portKey, 0x21 ≤ c ∧ c ≤ 0x7E := by
  simp only [portKey, List.forall_mem_cons]
  exact ⟨by decide, by decide, by decide, by decide, nofun⟩

theorem portVal_text : ∀ c ∈ portVal, c < 0x80 ∧ c ≠ 0 ∧ c ≠ newline ∧ c ≠ carriage := by
  simp only [portVal, List.forall_mem_cons]
  exact ⟨by decide, by decide, by decide, by decide, nofun⟩

theorem portVal_head : ∀ c ∈ portVal.head?, isSpace c = false := by
  rintro c ⟨⟩
  decide

theorem portVal_last : ∀ c ∈ portVal.getLast?, isSpace c = false := by
  rintro c ⟨⟩
  decide

theorem serverName_text : ∀ c ∈ serverName, c ≠ 0x5D ∧ c ≠ 0 ∧ c ≠ newline ∧ c ≠ carriage := by
  simp only [serverName, List.forall_mem_cons]
  exact ⟨by decide, by decide, by decide, by decide, by decide, by decide, nofun⟩

/-- `Port 2001`. -/
def portSource : EntrySource where
  key := portKey
  val := portVal
  key_ne := List.cons_ne_nil _ _
  key_graphic := portKey_graphic
  key_head := nofun
  val_ne := List.cons_ne_nil _ _
  val_text := portVal_text
  val_head := portVal_head
  val_last := portVal_last

/-- The section `SERVER` with a port. -/
def serverSource : SectionSource :=
  ⟨serverName, [portSource], serverName_text, List.cons_ne_nil _ _⟩

/-- An empty line, the header, a comment, and the port, with both ends of lines. -/
def serverLines : List (SourceLine × Eol) :=
  [(.empty, .lf), (.header serverSource, .crlf), (.comment [] List.not_mem_nil, .lf),
    (.entry portSource, .crlf)]

theorem serverLines_short : ∀ l ∈ serverLines, (l.1.text [0x20]).length ≤ 252 := by
  simp only [serverLines, List.forall_mem_cons]
  exact ⟨by decide, by decide, by decide, by decide, nofun⟩

theorem serverLines_room : ∀ e eol, (SourceLine.entry e, eol) ∈ serverLines →
    ((SourceLine.entry e).text [0x20]).length + e.key.length ≤ 255 := by
  intro e eol h
  have he : e = portSource ∧ eol = .crlf := by simpa [serverLines] using h
  rw [he.1]
  decide

/-- The lines with an indent of one space. -/
def serverFile : Rendering [serverSource] where
  indent := [0x20]
  lines := serverLines
  indent_ne := List.cons_ne_nil _ _
  indent_blank := fun _ hc => List.mem_singleton.1 hc ▸ rfl
  content := rfl
  short := serverLines_short
  room := serverLines_room

theorem configCreate_serverFile : configCreate (Vector.replicate 255 0) (some serverFile.bytes) =
    .ok (some ⟨[serverSource].map SectionSource.section, []⟩) :=
  configCreate_rendering (List.cons_ne_nil _ _) serverFile (Vector.replicate 255 0)

end Xlab
