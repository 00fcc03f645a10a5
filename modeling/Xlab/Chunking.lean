import Xlab.Receiving

/-!
# Cutting a stream into reads

A read that ends inside a frame answers the half frame with an F4 and drops it byte by byte.
Only a lone head byte at the end is kept for the next read. So what is recognised depends on
how the stream is cut.

`chunking_independent_iff` : all ways to cut a stream recognise the same frames exactly when
it contains no valid frame at all, since a stream read byte by byte recognises nothing. A way
to cut it of which no piece ends inside a frame recognises the frames of the whole stream.
-/

open Scanner

namespace Xlab

variable {W : Type}

/-- The stream contains a valid frame. -/
def HasFrame (stream : List UInt8) : Prop :=
  ∃ ys, ys <:+ stream ∧ StartsKept classify Item.isFrame ys

/-- The run of the session reads the stream, with no write in between. -/
structure Cutting (cfg : ServerConfig) (w : ℕ) (t : RouterTable W) (l : Link W)
    (stream : List UInt8) (es : List (RecvEvent W)) : Prop where
  proceeds : Runs.Guarded (recvStep cfg w t) (Proceeds w) l es
  noWrite : ∀ e ∈ es, e.isWrite = false
  stream : (chunks es).flatten = stream

theorem pieces_of_noWrite {es : List (RecvEvent W)} (h : ∀ e ∈ es, e.isWrite = false) :
    pieces false es = plain (chunks es) := by
  induction es with
  | nil => rfl
  | cons e es ih =>
    have ih' := ih fun e he => h e (List.mem_cons_of_mem _ he)
    cases e with
    | read chunk => exact congrArg ((false, chunk) :: ·) ih'
    | write => cases h .write List.mem_cons_self
    | flush w => exact ih'
    | others sh => exact ih'

/-- A valid frame has between 4 and 253 bytes, and they are enough to find it. -/
theorem startsFrame_take {ys : List UInt8} (h : StartsKept classify Item.isFrame ys) :
    ∃ n, 4 ≤ n ∧ n ≤ 253 ∧ n ≤ ys.length ∧ StartsKept classify Item.isFrame (ys.take n) := by
  obtain ⟨x, zs, tok, n, rfl, h, ht⟩ := h
  have hn := classify_within h
  obtain ⟨f, rfl⟩ := Item.isFrame_iff.1 ht
  obtain ⟨-, hbad, hlen, -⟩ := classify_eq_frame.1 h
  have h2 := (not_or.1 hbad).1
  have h251 : (byteAt (x :: zs) 1).toNat ≤ 251 := by
    have hle := (not_or.1 hbad).2
    rwa [UInt8.lt_iff_toNat_lt, Nat.not_lt] at hle
  rw [UInt8.lt_iff_toNat_lt, Nat.not_lt] at h2
  have h2' : 2 ≤ (byteAt (x :: zs) 1).toNat := h2
  refine ⟨n + 1, by omega, by omega, by simpa using hn, x, zs.take n, _, n, rfl, ?_, ht⟩
  refine classify_selfDelimiting.restrict x (zs.take n) (zs.drop n) _ n ?_ ht (by simpa using hn)
  rwa [List.take_append_drop]

theorem length_of_startsFrame {ys : List UInt8} (h : StartsKept classify Item.isFrame ys) :
    2 < ys.length := by
  obtain ⟨n, h4, -, hlen, -⟩ := startsFrame_take h
  omega

/-- Reads of whole pieces that fit next to a byte left over. -/
theorem guarded_reads (cfg : ServerConfig) (w : ℕ) (t : RouterTable W) {cs : List (List UInt8)}
    (hcs : ∀ c ∈ cs, c ≠ [] ∧ c.length ≤ 253) {l : Link W} (hl : l.cs.body.length ≤ 1) :
    Runs.Guarded (recvStep cfg w t) (Proceeds w) l (cs.map .read) := by
  induction cs generalizing l with
  | nil => trivial
  | cons c cs ih =>
    obtain ⟨hne, hlen⟩ := hcs c List.mem_cons_self
    have hp : Proceeds w l (.read c) := by
      refine ⟨hne, ?_⟩
      unfold requestChunk
      omega
    refine ⟨hp, ih (fun c hc => hcs c (List.mem_cons_of_mem _ hc)) ?_⟩
    have hbody := congrArg Prod.fst (inbox_read cfg t hp)
    change (recvStep cfg w t l (.read c)).cs.body = _ at hbody
    rw [hbody]
    exact length_scan_rest_le _

theorem pieces_reads (cs : List (List UInt8)) :
    pieces (W := W) false (cs.map .read) = plain cs := by
  induction cs with
  | nil => rfl
  | cons c cs ih => exact congrArg ((false, c) :: ·) ih

/-- Pieces of at most 253 bytes are a way to cut their concatenation. -/
theorem cutting_reads (cfg : ServerConfig) (w : ℕ) (t : RouterTable W) {l : Link W} (hl : l.Fresh)
    (cs : List (List UInt8)) (hcs : ∀ c ∈ cs, c ≠ [] ∧ c.length ≤ 253) :
    Cutting cfg w t l cs.flatten (cs.map .read) where
  proceeds := guarded_reads cfg w t hcs (by rw [hl.cs]; exact Nat.zero_le 1)
  noWrite := by
    intro e he
    obtain ⟨c, -, rfl⟩ := List.mem_map.1 he
    rfl
  stream := by
    rw [chunks, pieces_reads, plain, List.map_map]
    exact congrArg List.flatten (List.map_id cs)

/-- Byte by byte. -/
def singles (stream : List UInt8) : List (List UInt8) :=
  stream.map fun x => [x]

theorem flatten_singles (stream : List UInt8) : (singles stream).flatten = stream := by
  rw [singles, ← List.flatMap_def, List.flatMap_singleton']

theorem mem_singles {stream c : List UInt8} (h : c ∈ singles stream) : c ≠ [] ∧ c.length ≤ 1 := by
  obtain ⟨x, -, rfl⟩ := List.mem_map.1 h
  exact ⟨List.cons_ne_nil x [], Nat.le_refl 1⟩

variable {cfg : ServerConfig} {w : ℕ} {t : RouterTable W} {l : Link W}

/-- A stream without a valid frame recognises nothing, however it is cut. -/
theorem recognised_eq_nil (hl : l.Fresh) {stream : List UInt8} (hno : ¬HasFrame stream)
    {es : List (RecvEvent W)} (h : Cutting cfg w t l stream es) :
    (Runs.run (recvStep cfg w t) l es).cs.recognised = [] := by
  have hnil : kept Item.isFrame (scan classify 0 stream).1 = [] :=
    (classify_selfDelimiting.kept_scan_eq_nil 0 stream).2 fun ys hys hk => hno ⟨ys, hys, hk⟩
  have hfeed := classify_selfDelimiting.kept_feed (chunks es) 0 []
    (by rw [List.nil_append, h.stream, hnil]; simp)
  rw [recognised_run cfg t hl h.proceeds, pieces_of_noWrite h.noWrite, framesIn_eq_nil, hfeed,
    List.nil_append, h.stream, hnil]

/-- A way to cut the stream of which no piece ends inside a frame recognises the frames of
the whole stream. -/
theorem recognised_of_clean_cut (hl : l.Fresh) {stream : List UInt8} {es : List (RecvEvent W)}
    (h : Cutting cfg w t l stream es)
    (hcut : ∀ hit ∈ kept Item.isFrame (scan classify 0 stream).1, ∀ k ∈ cuts 0 (chunks es),
      ¬(hit.pos + 1 < k ∧ k < hit.pos + hit.len)) :
    (Runs.run (recvStep cfg w t) l es).cs.recognised = framesOf (itemsOf stream) := by
  have hfeed := classify_selfDelimiting.kept_feed (chunks es) 0 []
    (by rw [List.nil_append, h.stream]; exact hcut)
  rw [List.nil_append, h.stream] at hfeed
  rw [recognised_run cfg t hl h.proceeds, pieces_of_noWrite h.noWrite, ← framesIn_kept, hfeed,
    framesIn_kept]
  rfl

/-- Byte by byte nothing is recognised. -/
theorem recognised_singles (hl : l.Fresh) (stream : List UInt8) :
    (Runs.run (recvStep cfg w t) l ((singles stream).map .read)).cs.recognised = [] := by
  have hp := (cutting_reads cfg w t hl (singles stream) fun c hc =>
    ⟨(mem_singles hc).1, Nat.le_trans (mem_singles hc).2 (by decide)⟩).proceeds
  rw [recognised_run cfg t hl hp, pieces_reads, framesIn_eq_nil]
  refine classify_selfDelimiting.kept_feed_short (fun ys hys => length_of_startsFrame hys) ?_ 0
    (Nat.zero_le 2)
  intro e he
  obtain ⟨c, hc, rfl⟩ := List.mem_map.1 he
  exact (mem_singles hc).2

/-- A stream with a valid frame in it is recognised at least in part when a piece is that
frame. -/
theorem exists_cutting_recognised (cfg : ServerConfig) (w : ℕ) (t : RouterTable W)
    (hl : l.Fresh) {stream : List UInt8} (h : HasFrame stream) :
    ∃ es, Cutting cfg w t l stream es ∧
      (Runs.run (recvStep cfg w t) l es).cs.recognised ≠ [] := by
  obtain ⟨ys, ⟨pre, rfl⟩, hk⟩ := h
  obtain ⟨n, h4, h253, hlen, hk⟩ := startsFrame_take hk
  let cs := singles pre ++ ys.take n :: singles (ys.drop n)
  have hcs : ∀ c ∈ cs, c ≠ [] ∧ c.length ≤ 253 := by
    intro c hc
    have hsingle : ∀ xs, c ∈ singles xs → c ≠ [] ∧ c.length ≤ 253 := fun xs hc =>
      ⟨(mem_singles hc).1, Nat.le_trans (mem_singles hc).2 (by decide)⟩
    rcases List.mem_append.1 hc with hc | hc
    · exact hsingle _ hc
    · rcases List.mem_cons.1 hc with rfl | hc
      · have htake : (ys.take n).length = n := List.length_take_of_le hlen
        exact ⟨List.ne_nil_of_length_pos (by omega), by omega⟩
      · exact hsingle _ hc
  have hflat : cs.flatten = pre ++ ys := by
    simp only [cs, List.flatten_append, List.flatten_cons, flatten_singles,
      List.take_append_drop]
  have hcut := cutting_reads cfg w t hl cs hcs
  rw [hflat] at hcut
  refine ⟨_, hcut, ?_⟩
  rw [recognised_run cfg t hl hcut.proceeds, pieces_reads, Ne, framesIn_eq_nil]
  refine classify_selfDelimiting.kept_feed_ne_nil 0 [] ⟨(false, ys.take n), ?_, _,
    List.suffix_refl _, hk⟩
  exact List.mem_map_of_mem (List.mem_append_right _ List.mem_cons_self)

/-- All ways to cut a stream into reads recognise the same frames exactly when it contains
no valid frame. And a way to cut it recognises the frames of the whole stream if no piece
ends inside one of them, past its first byte. -/
theorem chunking_independent_iff (cfg : ServerConfig) (w : ℕ) (t : RouterTable W) {l : Link W}
    (hl : l.Fresh) (stream : List UInt8) :
    ((∀ es es', Cutting cfg w t l stream es → Cutting cfg w t l stream es' →
        (Runs.run (recvStep cfg w t) l es).cs.recognised =
          (Runs.run (recvStep cfg w t) l es').cs.recognised) ↔ ¬HasFrame stream) ∧
      ∀ es, Cutting cfg w t l stream es →
        (∀ hit ∈ kept Item.isFrame (scan classify 0 stream).1, ∀ k ∈ cuts 0 (chunks es),
          ¬(hit.pos + 1 < k ∧ k < hit.pos + hit.len)) →
        (Runs.run (recvStep cfg w t) l es).cs.recognised = framesOf (itemsOf stream) := by
  refine ⟨⟨fun h hframe => ?_, fun hno es es' hes hes' => ?_⟩,
    fun es hes hcut => recognised_of_clean_cut hl hes hcut⟩
  · obtain ⟨es, hes, hne⟩ := exists_cutting_recognised cfg w t hl hframe
    have hsingles := cutting_reads cfg w t hl (singles stream) fun c hc =>
      ⟨(mem_singles hc).1, Nat.le_trans (mem_singles hc).2 (by decide)⟩
    rw [flatten_singles] at hsingles
    exact hne ((h es _ hes hsingles).trans (recognised_singles hl stream))
  · rw [recognised_eq_nil hl hno hes, recognised_eq_nil hl hno hes']

/-- A request for the version, cut after its first byte. -/
theorem chunking_independent_getVer :
    (Runs.run (recvStep ⟨32768, by decide⟩ 0 cmdTable) idleLink
      [.read [0x40], .read [0x02, 0x02, 0xBC]]).cs.recognised = [getVer] := by
  have hcut := cutting_reads ⟨32768, by decide⟩ 0 cmdTable idleLink_fresh
    [[0x40], [0x02, 0x02, 0xBC]] (by decide)
  exact (chunking_independent_iff ⟨32768, by decide⟩ 0 cmdTable idleLink_fresh
    [0x40, 0x02, 0x02, 0xBC]).2 _ hcut (by decide)

/-- `40 02 02 BC`, a request for the version, cut in the middle is not recognised. -/
theorem frame_lost_when_cut :
    ¬∀ (stream : List UInt8) (es es' : List (RecvEvent Unit)),
      Cutting ⟨32768, by decide⟩ 0 cmdTable idleLink stream es →
        Cutting ⟨32768, by decide⟩ 0 cmdTable idleLink stream es' →
          (Runs.run (recvStep ⟨32768, by decide⟩ 0 cmdTable) idleLink es).cs.recognised =
            (Runs.run (recvStep ⟨32768, by decide⟩ 0 cmdTable) idleLink es').cs.recognised := by
  intro h
  have heq := h [0x40, 0x02, 0x02, 0xBC] _ _
    (cutting_reads _ 0 cmdTable idleLink_fresh [[0x40, 0x02, 0x02, 0xBC]] (by decide))
    (cutting_reads _ 0 cmdTable idleLink_fresh [[0x40, 0x02], [0x02, 0xBC]] (by decide))
  revert heq
  decide +kernel

end Xlab
