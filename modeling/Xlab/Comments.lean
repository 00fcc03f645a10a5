import Xlab.SameLine

/-!
# Comments

`fgets` reads a comment in pieces of 254 bytes, and only the first of them starts with `#`. The
others are read as lines of their own. A comment also stays in the buffer, where the code looks
behind a line that is shorter than the indent : a later line is `Exposed` if what it finds there was
left by the comment.

`comment_invisible` : a comment leaves the sections as they are if its pieces are idle and no later
line is exposed. With the indent known before the comment, the pieces have to be idle.
-/

open CStr

namespace Xlab

variable {r r₁ r₂ : Reader}

/-! ## Files with a comment -/

/-- The line is read as an entry, and the comment has left what stands behind the indent : the
comment has written the first `reach` bytes of the buffer, the lines up to this one since then the
first `seen`. -/
def Exposed (seen reach : ℕ) (indent : Option (List UInt8)) (text : List UInt8) : Prop :=
  ¬(text = [] ∨ text.head? = some 0x23) ∧ ¬(text.head? = some 0x5B ∧ 0x5D ∈ text) ∧
    seen ≤ (indent.getD (indentOf text)).length ∧ (indent.getD (indentOf text)).length < reach

instance (seen reach : ℕ) (indent : Option (List UInt8)) (text : List UInt8) :
    Decidable (Exposed seen reach indent text) :=
  inferInstanceAs (Decidable (_ ∧ _ ∧ _ ∧ _))

/-- No line is exposed. -/
def Reader.Covered (reach : ℕ) : ℕ → Reader → List (List UInt8) → Prop
  | _, _, [] => True
  | seen, r, chunk :: chunks =>
    ¬Exposed (max seen (chunk.length + 1)) reach r.indent (lineText chunk) ∧
      ∀ r', readLine r chunk = .ok r' →
        r'.Covered reach (max seen (chunk.length + 1)) chunks

/-- What `xlab_config_create` returns of the sections. -/
def sectionsOf (result : Except Fault (Option ConfigFile)) :
    Except Fault (Option (List ConfigSection)) :=
  result.map (Option.map ConfigFile.sections)

/-- The comment between `pre` and `post` changes no section and no entry. -/
def Invisible (junk : Vector UInt8 255) (pre comment post : List UInt8) : Prop :=
  sectionsOf (configCreate junk (some (pre ++ (0x23 :: comment ++ [newline]) ++ post))) =
    sectionsOf (configCreate junk (some (pre ++ post)))

/-- The line leaves what the reader keeps. -/
def Reader.IsIdle (r : Reader) : Prop :=
  r.IsSkipped ∨ (r.IsEntry ∧ ¬r.Adds ∧ r.indent ≠ none)

/-- The pieces of a comment are idle, one after the other. -/
def Reader.PiecesIdle : Reader → List (List UInt8) → Prop
  | _, [] => True
  | r, piece :: pieces =>
    (∀ buf, stripEol (piece ++ 0 :: r.buf.drop (piece.length + 1)) = .ok buf →
      (r.load buf).IsIdle) ∧ ∀ r', readLine r piece = .ok r' → r'.PiecesIdle pieces

/-- The number of bytes of the buffer that a comment writes, with the zero behind its longest
piece. -/
def commentReach (comment : List UInt8) : ℕ :=
  min 254 (comment.length + 2) + 1

/-- In the state before the comment its pieces are idle and no later line is exposed. -/
def Quiet (junk : Vector UInt8 255) (pre comment post : List UInt8) : Prop :=
  ∀ r, (fgetsAll 255 [] pre).foldlM readLine (.start junk) = .ok r →
    r.PiecesIdle (fgetsAll 255 [] (0x23 :: comment ++ [newline])) ∧
      r.Covered (commentReach comment) 0 (fgetsAll 255 [] post)

/-! ### Runs -/

/-- What `fgets` reads of lines. -/
def Chunks (chunks : List (List UInt8)) : Prop :=
  ∀ chunk ∈ chunks, chunk ≠ [] ∧ chunk.length < 255

theorem chunks_fgetsAll (file : List UInt8) : Chunks (fgetsAll 255 [] file) := fun _ hchunk =>
  fgetsAll_mem (by decide) hchunk

/-- The pieces of a comment do not reach further. -/
theorem length_lt_commentReach {comment piece : List UInt8}
    (h : piece ∈ fgetsAll 255 [] (0x23 :: comment ++ [newline])) :
    piece.length < commentReach comment := by
  have hlt := (chunks_fgetsAll _ piece h).2
  have hle := (infix_of_mem_fgetsAll h).length_le
  simp only [List.nil_append, List.cons_append, List.length_cons, List.length_append,
    List.length_nil] at hle
  rw [commentReach]
  omega

section Steps

variable {seen reach : ℕ} {chunk : List UInt8}

/-- A line that is not exposed looks the same to both. -/
theorem alike_load (hind : r₁.indent = r₂.indent) (ha : Agree seen reach r₁.buf r₂.buf)
    (hcovered : ¬Exposed (max seen (chunk.length + 1)) reach r₁.indent (lineText chunk))
    {buf₁ buf₂ : List UInt8}
    (h₁ : stripEol (chunk ++ 0 :: r₁.buf.drop (chunk.length + 1)) = .ok buf₁)
    (h₂ : stripEol (chunk ++ 0 :: r₂.buf.drop (chunk.length + 1)) = .ok buf₂) :
    Alike (r₁.load buf₁) (r₂.load buf₂) := by
  have htext₁ : (r₁.load buf₁).text = lineText chunk := (stripEol_chunk h₁).1
  have htext₂ : (r₂.load buf₂).text = lineText chunk := (stripEol_chunk h₂).1
  refine ⟨htext₁.trans htext₂.symm, hind, fun hentry => ?_⟩
  have hindented : (r₁.load buf₁).indented = (r₂.load buf₂).indented := by
    rw [Reader.indented, Reader.indented, htext₁, htext₂]
    exact congrArg (Option.getD · _) hind
  rw [Reader.behind, Reader.behind, ← hindented]
  refine (ha.write h₁ h₂).cstr_drop ?_
  by_contra hor
  rw [not_or, Nat.not_lt, Nat.not_le] at hor
  rw [Reader.IsEntry, Reader.IsSkipped, Reader.IsHeader, htext₁] at hentry
  rw [Reader.indented, htext₁] at hor
  exact hcovered ⟨hentry.1, hentry.2, hor⟩

/-- After a line the buffers agree in it as well. -/
theorem agree_readLine (h₁ : r₁.Sound) (h₂ : r₂.Sound) (ha : Agree seen reach r₁.buf r₂.buf)
    (hlen : chunk.length < 255) {r₁' r₂' : Reader} (hread₁ : readLine r₁ chunk = .ok r₁')
    (hread₂ : readLine r₂ chunk = .ok r₂') :
    Agree (max seen (chunk.length + 1)) reach r₁'.buf r₂'.buf :=
  ha.write (readLine_buf h₁ hlen hread₁) (readLine_buf h₂ hlen hread₂)

theorem outline_readLine (h₁ : r₁.Sound) (h₂ : r₂.Sound) (ho : r₁.outline = r₂.outline)
    (ha : Agree seen reach r₁.buf r₂.buf) (hne : chunk ≠ []) (hlen : chunk.length < 255)
    (hcovered : ¬Exposed (max seen (chunk.length + 1)) reach r₁.indent (lineText chunk)) :
    (readLine r₁ chunk).map Reader.outline = (readLine r₂ chunk).map Reader.outline := by
  rw [readLine_eq, readLine_eq]
  by_cases hstart : chunk.head? = some 0
  · rw [stripEol_of_zero hstart, stripEol_of_zero hstart]
    rfl
  · obtain ⟨buf₁, hstrip₁⟩ := exists_stripEol hne hstart (r₁.buf.drop (chunk.length + 1))
    obtain ⟨buf₂, hstrip₂⟩ := exists_stripEol hne hstart (r₂.buf.drop (chunk.length + 1))
    rw [hstrip₁, hstrip₂]
    have halike := alike_load (congrArg Outline.indent ho) ha hcovered hstrip₁ hstrip₂
    exact halike.outline (load_eq_ok h₁ hlen hstrip₁).1 (load_eq_ok h₂ hlen hstrip₂).1 ho

theorem lockstep_readLine (h₁ : r₁.Sound) (h₂ : r₂.Sound) (hind : r₁.indent = r₂.indent)
    (ha : Agree seen reach r₁.buf r₂.buf) (hlen : chunk.length < 255)
    (hcovered : ¬Exposed (max seen (chunk.length + 1)) reach r₁.indent (lineText chunk))
    {r₁' r₂' : Reader} (hread₁ : readLine r₁ chunk = .ok r₁')
    (hread₂ : readLine r₂ chunk = .ok r₂') : r₁'.indent = r₂'.indent ∧
      r₁'.outline.size + r₂.outline.size = r₂'.outline.size + r₁.outline.size := by
  obtain ⟨buf₁, hstrip₁, htext₁⟩ := readLine_eq_ok.1 hread₁
  obtain ⟨buf₂, hstrip₂, htext₂⟩ := readLine_eq_ok.1 hread₂
  have halike := alike_load hind ha hcovered hstrip₁ hstrip₂
  obtain ⟨hind₁, hsize₁⟩ := readText_added (load_eq_ok h₁ hlen hstrip₁).1 htext₁
  obtain ⟨hind₂, hsize₂⟩ := readText_added (load_eq_ok h₂ hlen hstrip₂).1 htext₂
  constructor
  · rw [hind₁, hind₂, halike.indented, halike.indent]
    exact if_congr halike.isEntry_iff rfl rfl
  · rw [halike.added] at hsize₁
    change r₁'.outline.size = r₁.outline.size + _ at hsize₁
    change r₂'.outline.size = r₂.outline.size + _ at hsize₂
    omega

end Steps

/-- Lines that are not exposed are read alike. -/
theorem outline_run {seen reach : ℕ} (h₁ : r₁.Sound) (h₂ : r₂.Sound)
    (ho : r₁.outline = r₂.outline) (ha : Agree seen reach r₁.buf r₂.buf)
    {chunks : List (List UInt8)} (hchunks : Chunks chunks)
    (hcovered : r₁.Covered reach seen chunks) :
    (chunks.foldlM readLine r₁).map Reader.outline =
      (chunks.foldlM readLine r₂).map Reader.outline := by
  induction chunks generalizing r₁ r₂ seen with
  | nil => exact congrArg Except.ok ho
  | cons chunk chunks ih =>
    obtain ⟨hne, hlen⟩ := hchunks chunk List.mem_cons_self
    have hread := outline_readLine h₁ h₂ ho ha hne hlen hcovered.1
    rw [List.foldlM_cons, List.foldlM_cons]
    cases hread₁ : readLine r₁ chunk with
    | error f =>
      rw [hread₁] at hread
      cases hread₂ : readLine r₂ chunk with
      | error f₂ =>
        rw [hread₂] at hread
        exact hread
      | ok r₂' =>
        rw [hread₂] at hread
        cases hread
    | ok r₁' =>
      rw [hread₁] at hread
      obtain ⟨r₂', hread₂, hsame⟩ := map_eq_ok hread.symm
      rw [hread₂]
      exact ih (h₁.readLine hlen hread₁) (h₂.readLine hlen hread₂) hsame.symm
        (agree_readLine h₁ h₂ ha hlen hread₁ hread₂)
        (fun c hc => hchunks c (List.mem_cons_of_mem _ hc)) (hcovered.2 r₁' hread₁)

/-- With the same indent before them they add as much to both. -/
theorem lockstep_run {seen reach : ℕ} (h₁ : r₁.Sound) (h₂ : r₂.Sound)
    (hind : r₁.indent = r₂.indent) (ha : Agree seen reach r₁.buf r₂.buf)
    {chunks : List (List UInt8)} (hchunks : Chunks chunks)
    (hcovered : r₁.Covered reach seen chunks) {r₁' r₂' : Reader}
    (hrun₁ : chunks.foldlM readLine r₁ = .ok r₁') (hrun₂ : chunks.foldlM readLine r₂ = .ok r₂') :
    r₁'.outline.size + r₂.outline.size = r₂'.outline.size + r₁.outline.size := by
  induction chunks generalizing r₁ r₂ seen with
  | nil =>
    obtain rfl := Except.ok.inj hrun₁
    obtain rfl := Except.ok.inj hrun₂
    exact Nat.add_comm _ _
  | cons chunk chunks ih =>
    obtain ⟨-, hlen⟩ := hchunks chunk List.mem_cons_self
    rw [List.foldlM_cons] at hrun₁ hrun₂
    obtain ⟨s₁, hread₁, hrun₁⟩ := bind_eq_ok.1 hrun₁
    obtain ⟨s₂, hread₂, hrun₂⟩ := bind_eq_ok.1 hrun₂
    obtain ⟨hind', hsize⟩ := lockstep_readLine h₁ h₂ hind ha hlen hcovered.1 hread₁ hread₂
    have hrest := ih (h₁.readLine hlen hread₁) (h₂.readLine hlen hread₂) hind'
      (agree_readLine h₁ h₂ ha hlen hread₁ hread₂)
      (fun c hc => hchunks c (List.mem_cons_of_mem _ hc)) (hcovered.2 s₁ hread₁) hrun₁ hrun₂
    omega

/-- Pieces change no more of the buffer than they reach. -/
theorem agree_pieces (hr : r.Sound) {reach : ℕ} {pieces : List (List UInt8)}
    (hpieces : Chunks pieces) (hreach : ∀ piece ∈ pieces, piece.length < reach) {r' : Reader}
    (h : pieces.foldlM readLine r = .ok r') : Agree 0 reach r.buf r'.buf := by
  refine ⟨fun j hj => absurd hj (Nat.not_lt_zero j), fun j hj => absurd hj (by omega), ?_⟩
  induction pieces generalizing r with
  | nil =>
    obtain rfl := Except.ok.inj h
    exact fun j _ => rfl
  | cons piece pieces ih =>
    obtain ⟨-, hlen⟩ := hpieces piece List.mem_cons_self
    rw [List.foldlM_cons] at h
    obtain ⟨r₁, hread, hrun⟩ := bind_eq_ok.1 h
    obtain ⟨-, -, hkept⟩ := load_eq_ok hr hlen (readLine_buf hr hlen hread)
    intro j hj
    have hrest := ih (hr.readLine hlen hread) (fun c hc => hpieces c (List.mem_cons_of_mem _ hc))
      (fun c hc => hreach c (List.mem_cons_of_mem _ hc)) hrun j hj
    have hpiece := hreach piece List.mem_cons_self
    exact (hkept j (by omega)).symm.trans hrest

/-- An idle line leaves what the reader keeps. -/
theorem outline_of_idle (h : r.IsIdle) : ∃ r', readText r = .ok r' ∧ r'.outline = r.outline := by
  rcases h with hskip | ⟨hentry, hadds, hknown⟩
  · exact ⟨r, readText_of_skipped hskip, rfl⟩
  · obtain ⟨ind, hind⟩ := Option.ne_none_iff_exists'.1 hknown
    refine ⟨r.checked, readText_of_idle hentry hadds, ?_⟩
    show Outline.mk (some r.indented) r.nKeys r.sections = _
    rw [Reader.indented, hind, Option.getD_some, ← hind]
    rfl

/-- Idle pieces leave what the reader keeps. -/
theorem outline_pieces (hr : r.Sound) {pieces : List (List UInt8)} (hpieces : Chunks pieces)
    (hzero : ∀ piece ∈ pieces, piece.head? ≠ some 0) (h : r.PiecesIdle pieces) :
    ∃ r', pieces.foldlM readLine r = .ok r' ∧ r'.Sound ∧ r'.outline = r.outline := by
  induction pieces generalizing r with
  | nil => exact ⟨r, rfl, hr, rfl⟩
  | cons piece pieces ih =>
    obtain ⟨hne, hlen⟩ := hpieces piece List.mem_cons_self
    obtain ⟨buf, hstrip⟩ := exists_stripEol hne (hzero piece List.mem_cons_self)
      (r.buf.drop (piece.length + 1))
    obtain ⟨r₁, htext, houtline⟩ := outline_of_idle (h.1 buf hstrip)
    have hread : readLine r piece = .ok r₁ := readLine_eq_ok.2 ⟨buf, hstrip, htext⟩
    obtain ⟨r', hrun, hsound, hkept⟩ := ih (hr.readLine hlen hread)
      (fun c hc => hpieces c (List.mem_cons_of_mem _ hc))
      (fun c hc => hzero c (List.mem_cons_of_mem _ hc)) (h.2 r₁ hread)
    refine ⟨r', ?_, hsound, hkept.trans houtline⟩
    rw [List.foldlM_cons, hread]
    exact hrun

theorem sectionsOf_configCreate (junk : Vector UInt8 255) (file : List UInt8) :
    sectionsOf (configCreate junk (some file)) =
      ((fgetsAll 255 [] file).foldlM readLine (.start junk)).map
        fun r => some r.outline.sections := by
  rw [configCreate]
  cases (fgetsAll 255 [] file).foldlM readLine (.start junk) with
  | error f => rfl
  | ok r =>
    show Except.ok (some r.finish.sections) = Except.ok (some r.sections)
    rw [Reader.finish]
    split_ifs <;> rfl

/-- The lines before a position are read first. -/
theorem fgetsAll_pre {pre : List UInt8} (hpre : pre = [] ∨ pre.getLast? = some newline)
    (file : List UInt8) :
    fgetsAll 255 [] (pre ++ file) = fgetsAll 255 [] pre ++ fgetsAll 255 [] file := by
  rcases hpre with rfl | hlast
  · rfl
  · exact fgetsAll_append hlast file

/-- The sections of a file from the state at a position. -/
theorem sectionsOf_pre (junk : Vector UInt8 255) {pre : List UInt8}
    (hpre : pre = [] ∨ pre.getLast? = some newline) (file : List UInt8) :
    sectionsOf (configCreate junk (some (pre ++ file))) =
      (fgetsAll 255 [] pre).foldlM readLine (.start junk) >>= fun r =>
        ((fgetsAll 255 [] file).foldlM readLine r).map fun r => some r.outline.sections := by
  rw [sectionsOf_configCreate, fgetsAll_pre hpre, List.foldlM_append]
  cases (fgetsAll 255 [] pre).foldlM readLine (.start junk) <;> rfl

theorem sections_congr {x y : Except Fault Reader}
    (h : x.map Reader.outline = y.map Reader.outline) :
    (x.map fun r => some r.outline.sections) = y.map fun r => some r.outline.sections := by
  have hmap : ∀ z : Except Fault Reader, (z.map fun r => some r.outline.sections) =
      (z.map Reader.outline).map fun o => some o.sections := fun z => by cases z <;> rfl
  rw [hmap x, hmap y, h]

/-- A quiet comment is invisible. -/
theorem invisible_of_quiet (junk : Vector UInt8 255) {pre comment post : List UInt8}
    (hpre : pre = [] ∨ pre.getLast? = some newline) (hzero : 0 ∉ comment)
    (h : Quiet junk pre comment post) : Invisible junk pre comment post := by
  have hcomment : (0x23 :: comment ++ [newline]).getLast? = some newline :=
    List.getLast?_concat
  have hpieces : ∀ piece ∈ fgetsAll 255 [] (0x23 :: comment ++ [newline]),
      piece.head? ≠ some 0 := by
    intro piece hpiece hhead
    have hmem := (infix_of_mem_fgetsAll hpiece).subset (List.mem_of_head? hhead)
    simp [hzero, newline] at hmem
  rw [Invisible, List.append_assoc, sectionsOf_pre junk hpre, sectionsOf_pre junk hpre,
    fgetsAll_append hcomment]
  cases hrun : (fgetsAll 255 [] pre).foldlM readLine (.start junk) with
  | error f => rfl
  | ok r =>
    obtain ⟨hidle, hcovered⟩ := h r hrun
    have hsound : r.Sound := (Reader.sound_start junk).run
      (fun c hc => (chunks_fgetsAll pre c hc).2) hrun
    obtain ⟨r', hrun', hsound', hsame⟩ :=
      outline_pieces hsound (chunks_fgetsAll _) hpieces hidle
    have hagree := agree_pieces hsound (chunks_fgetsAll _)
      (fun _ hpiece => length_lt_commentReach hpiece) hrun'
    have hpost := outline_run hsound hsound' hsame.symm hagree (chunks_fgetsAll post) hcovered
    show (List.foldlM readLine r (_ ++ _)).map _ = (List.foldlM readLine r _).map _
    rw [List.foldlM_append, hrun']
    exact sections_congr hpost.symm

/-! ### Comments that are not quiet -/

/-- With the indent known, a line is idle or adds something. -/
theorem readText_effect (hr : r.Loaded) (hknown : r.indent ≠ none) {r' : Reader}
    (h : readText r = .ok r') : r'.indent = r.indent ∧
      ((r.IsIdle ∧ r'.outline.size = r.outline.size) ∨ r.outline.size < r'.outline.size) := by
  obtain ⟨hind, hsize⟩ := readText_added hr h
  obtain ⟨ind, hknown'⟩ := Option.ne_none_iff_exists'.1 hknown
  have hindented : some r.indented = r.indent := by
    rw [Reader.indented, hknown', Option.getD_some]
  refine ⟨?_, ?_⟩
  · rw [hind, hindented, ite_self]
  rw [hsize, Reader.added]
  by_cases hheader : r.IsHeader
  · rw [if_pos (Or.inl hheader)]
    exact Or.inr (Nat.lt_succ_self _)
  by_cases hadds : r.Adds
  · rw [if_pos (Or.inr hadds)]
    exact Or.inr (Nat.lt_succ_self _)
  rw [if_neg (not_or.2 ⟨hheader, hadds⟩)]
  refine Or.inl ⟨?_, rfl⟩
  by_cases hskip : r.IsSkipped
  · exact Or.inl hskip
  · exact Or.inr ⟨⟨hskip, hheader⟩, hadds, hknown⟩

/-- With the indent known, the pieces of a comment are idle or add something. -/
theorem pieces_effect (hr : r.Sound) (hknown : r.indent ≠ none) {pieces : List (List UInt8)}
    (hpieces : Chunks pieces) {r' : Reader} (h : pieces.foldlM readLine r = .ok r') :
    r'.indent = r.indent ∧ (r.PiecesIdle pieces ∨ r.outline.size < r'.outline.size) ∧
      r.outline.size ≤ r'.outline.size := by
  induction pieces generalizing r with
  | nil =>
    obtain rfl := Except.ok.inj h
    exact ⟨rfl, Or.inl trivial, Nat.le_refl _⟩
  | cons piece pieces ih =>
    obtain ⟨-, hlen⟩ := hpieces piece List.mem_cons_self
    rw [List.foldlM_cons] at h
    obtain ⟨r₁, hread, hrun⟩ := bind_eq_ok.1 h
    obtain ⟨buf, hstrip, htext⟩ := readLine_eq_ok.1 hread
    obtain ⟨hloaded, -, -⟩ := load_eq_ok hr hlen hstrip
    obtain ⟨hind₁, heffect⟩ := readText_effect hloaded hknown htext
    have hsame : r₁.indent = r.indent := hind₁
    obtain ⟨hind', hidle, hle⟩ := ih (hr.readLine hlen hread) (hsame.symm ▸ hknown)
      (fun c hc => hpieces c (List.mem_cons_of_mem _ hc)) hrun
    refine ⟨hind'.trans hsame, ?_, ?_⟩
    · rcases heffect with ⟨hidle₁, hsize⟩ | hlt
      · rcases hidle with hrest | hlt
        · refine Or.inl ⟨fun buf' h' => ?_, fun r₁' h' => ?_⟩
          · obtain rfl := Except.ok.inj (hstrip.symm.trans h')
            exact hidle₁
          · obtain rfl := Except.ok.inj (hread.symm.trans h')
            exact hrest
        · exact Or.inr (hsize ▸ hlt)
      · exact Or.inr (Nat.lt_of_lt_of_le hlt hle)
    · rcases heffect with ⟨-, hsize⟩ | hlt
      · exact hsize ▸ hle
      · exact Nat.le_trans (Nat.le_of_lt hlt) hle

/-- With the indent known, only idle pieces leave the sections as they are. -/
theorem piecesIdle_of_invisible (junk : Vector UInt8 255) {pre comment post : List UInt8}
    (hpre : pre = [] ∨ pre.getLast? = some newline)
    (hrun : (fgetsAll 255 [] pre).foldlM readLine (.start junk) = .ok r) (hknown : r.indent ≠ none)
    (hcovered : r.Covered (commentReach comment) 0 (fgetsAll 255 [] post))
    {secs : Option (List ConfigSection)}
    (hreturns : sectionsOf (configCreate junk (some (pre ++ post))) = .ok secs)
    (h : Invisible junk pre comment post) :
    r.PiecesIdle (fgetsAll 255 [] (0x23 :: comment ++ [newline])) := by
  have hcomment : (0x23 :: comment ++ [newline]).getLast? = some newline :=
    List.getLast?_concat
  have hsound : r.Sound := (Reader.sound_start junk).run
    (fun c hc => (chunks_fgetsAll pre c hc).2) hrun
  rw [Invisible, hreturns, List.append_assoc, sectionsOf_pre junk hpre, fgetsAll_append hcomment,
    hrun] at h
  rw [sectionsOf_pre junk hpre, hrun] at hreturns
  obtain ⟨r₁, hrun₁, hsecs₁⟩ := map_eq_ok hreturns
  obtain ⟨r₂, hrun₂, hsecs₂⟩ := map_eq_ok h
  rw [List.foldlM_append] at hrun₂
  obtain ⟨r', hpieces, hrun₂⟩ := bind_eq_ok.1 hrun₂
  obtain ⟨hind, heffect, -⟩ := pieces_effect hsound hknown (chunks_fgetsAll _) hpieces
  refine heffect.resolve_right fun hlt => ?_
  have hsound' : r'.Sound := hsound.run (fun c hc => (chunks_fgetsAll _ c hc).2) hpieces
  have hagree := agree_pieces hsound (chunks_fgetsAll _)
    (fun _ hpiece => length_lt_commentReach hpiece) hpieces
  have hsizes := lockstep_run hsound hsound' hind.symm hagree (chunks_fgetsAll post) hcovered
    hrun₁ hrun₂
  have hsame : r₁.outline.size = r₂.outline.size := by
    have hsecs := Option.some.inj (hsecs₁.trans hsecs₂.symm)
    rw [Outline.size, Outline.size, hsecs]
  omega

/-- A comment that `fgets` reads in one piece is idle. -/
theorem piecesIdle_of_length_le {comment : List UInt8} (hnl : newline ∉ comment)
    (hlen : comment.length ≤ 252) (r : Reader) :
    r.PiecesIdle (fgetsAll 255 [] (0x23 :: comment ++ [newline])) := by
  have hline : newline ∉ 0x23 :: comment := by
    rw [List.mem_cons, not_or]
    exact ⟨by decide, hnl⟩
  rw [fgetsAll_line hline (by simp only [List.length_nil, List.length_cons]; omega)]
  refine ⟨fun buf hstrip => Or.inl (Or.inr ?_), fun _ _ => trivial⟩
  have htext : (r.load buf).text = lineText (0x23 :: comment ++ [newline]) :=
    (stripEol_chunk hstrip).1
  rw [htext, lineText, List.cons_append, cstr_cons (by decide)]
  exact head?_cutEol (by decide) (by decide) _

/-- A comment is invisible if its pieces are idle and no later line is exposed. With the indent
known, the pieces have to be idle. -/
theorem comment_invisible (junk : Vector UInt8 255) {pre comment post : List UInt8}
    (hpre : pre = [] ∨ pre.getLast? = some newline)
    (hcomment : ∀ c ∈ comment, c ≠ newline ∧ c ≠ 0) :
    (Quiet junk pre comment post → Invisible junk pre comment post) ∧
      ∀ r secs, (fgetsAll 255 [] pre).foldlM readLine (.start junk) = .ok r → r.indent ≠ none →
        r.Covered (commentReach comment) 0 (fgetsAll 255 [] post) →
        sectionsOf (configCreate junk (some (pre ++ post))) = .ok secs →
          (Invisible junk pre comment post ↔
            r.PiecesIdle (fgetsAll 255 [] (0x23 :: comment ++ [newline]))) := by
  have hzero : 0 ∉ comment := fun h => (hcomment 0 h).2 rfl
  refine ⟨invisible_of_quiet junk hpre hzero, fun r secs hrun hknown hcovered hreturns => ?_⟩
  refine ⟨piecesIdle_of_invisible junk hpre hrun hknown hcovered hreturns, fun hidle => ?_⟩
  refine invisible_of_quiet junk hpre hzero fun r' hrun' => ?_
  obtain rfl := Except.ok.inj (hrun.symm.trans hrun')
  exact ⟨hidle, hcovered⟩

/-- The section `[A]` with an entry that has two blanks before it. -/
def oneEntry : List UInt8 :=
  [0x5B, 0x41, 0x5D, 0x0A, 0x20, 0x20, 0x6B, 0x20, 0x76, 0x0A]

/-- A line as long as these blanks, with its end. -/
def shortLine : List UInt8 :=
  [0x78, 0x0A]

theorem comment_invisible_between : Invisible (Vector.replicate 255 0) oneEntry [0x78] shortLine ∧
    ∃ r, (fgetsAll 255 [] oneEntry).foldlM readLine (.start (Vector.replicate 255 0)) = .ok r ∧
      r.PiecesIdle (fgetsAll 255 [] (0x23 :: [0x78] ++ [newline])) := by
  have houtline : ((fgetsAll 255 [] oneEntry).foldlM readLine
      (.start (Vector.replicate 255 0))).map Reader.outline =
        .ok ⟨some [0x20, 0x20], 1, [⟨[0x41], [⟨some [0x6B], some [0x76]⟩]⟩]⟩ := by decide +kernel
  obtain ⟨r, hrun, hr⟩ := map_eq_ok houtline
  have hind : r.indent = some [0x20, 0x20] := congrArg Outline.indent hr
  have hcovered : r.Covered (commentReach [0x78]) 0 (fgetsAll 255 [] shortLine) := by
    refine ⟨?_, fun _ _ => trivial⟩
    rw [hind]
    decide
  have hknown : r.indent ≠ none := by
    rw [hind]
    exact Option.some_ne_none _
  have hreturns : sectionsOf (configCreate (Vector.replicate 255 0)
      (some (oneEntry ++ shortLine))) = .ok (some
        [⟨[0x41], [⟨some [0x6B], some [0x76]⟩, ⟨none, none⟩]⟩]) := by decide +kernel
  obtain ⟨hquiet, hiff⟩ := @comment_invisible (Vector.replicate 255 0) oneEntry [0x78]
    shortLine (Or.inr rfl) (List.forall_mem_singleton.2 (by decide))
  have hinvisible := hquiet fun r' hrun' => by
    obtain rfl := Except.ok.inj (hrun.symm.trans hrun')
    exact ⟨piecesIdle_of_length_le (by decide) (by decide) r, hcovered⟩
  exact ⟨hinvisible, r, hrun, (hiff r _ hrun hknown hcovered hreturns).1 hinvisible⟩

/-- A comment of 256 bytes that ends in `[B]`. -/
def longComment : List UInt8 :=
  List.replicate 253 0x78 ++ [0x5B, 0x42, 0x5D]

/-- Its second piece is the header of a section. -/
theorem not_invisible_longComment : ¬∀ (junk : Vector UInt8 255) (pre comment post : List UInt8),
    (pre = [] ∨ pre.getLast? = some newline) → (∀ c ∈ comment, c ≠ newline ∧ c ≠ 0) →
      Invisible junk pre comment post := by
  intro h
  have hcomment : ∀ c ∈ longComment, c ≠ newline ∧ c ≠ 0 := by
    rw [longComment, List.forall_mem_append]
    refine ⟨fun c hc => ?_, ?_⟩
    · rw [List.eq_of_mem_replicate hc]
      decide
    · simp only [List.forall_mem_cons]
      exact ⟨by decide, by decide, by decide, nofun⟩
  have hsame := h (Vector.replicate 255 0) [] longComment [0x5B, 0x41, 0x5D, 0x0A] (Or.inl rfl)
    hcomment
  revert hsame
  unfold Invisible
  decide +kernel

end Xlab
