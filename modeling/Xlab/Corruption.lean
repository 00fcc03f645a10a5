import Xlab.Decoders
import Xlab.Receiving

/-!
# A corrupted frame

One byte of a frame after its length byte is replaced by another one. The scan loop finds
the wrong checksum, answers it, and looks for the next head byte from the second byte of
the frame on (`xlab_conn_read` skips the head byte only, so as not to swallow the head of a
following frame). So the frames around it are dispatched as they are, and nothing of the
corrupted one is, exactly when no suffix of its bytes after the head starts a valid frame
in the stream (`only_others_dispatched_iff`).
-/

open Scanner

namespace Xlab

variable {W : Type}

/-- A stream of frames, one of them with a byte after its length byte replaced by another
one. -/
structure Corruption where
  before : List Frame
  frame : Frame
  after : List Frame
  pos : ℕ
  byte : UInt8
  pos_ge : 2 ≤ pos
  pos_lt : pos < frame.request.bytes.length
  byte_ne : byte ≠ byteAt frame.request.bytes pos

namespace Corruption

variable (c : Corruption)

/-- The corrupted frame. -/
def bad : List UInt8 :=
  c.frame.request.bytes.set c.pos c.byte

/-- The frames before it, as bytes. -/
def front : List UInt8 :=
  requestStream (c.before.map Frame.request)

/-- The frames after it, as bytes. -/
def back : List UInt8 :=
  requestStream (c.after.map Frame.request)

/-- The whole stream. -/
def stream : List UInt8 :=
  c.front ++ c.bad ++ c.back

/-- A valid frame starts inside the corrupted one, after its head. -/
def InnerFrame : Prop :=
  ∃ ys, ys <:+ c.bad.tail ∧ ys ≠ [] ∧ StartsKept classify Item.isFrame (ys ++ c.back)

end Corruption

/-- The valid frames of a buffer, with the bytes they are dispatched from. -/
def dispatched (buf : List UInt8) : List (Hit Item) :=
  kept Item.isFrame (scan classify 0 buf).1

/-- Frames as they lie one after the other from `pos` on. -/
def framesFrom (pos : ℕ) (fs : List Frame) : List (Hit Item) :=
  layout (fun f => f.request.bytes.length) .frame pos fs

theorem kept_framesFrom (pos : ℕ) (fs : List Frame) :
    kept Item.isFrame (framesFrom pos fs) = framesFrom pos fs :=
  kept_layout (fun _ _ => rfl) pos

/-- The frames after the corrupted one, scanned from where they start. -/
theorem kept_scan_requestStream (pos : ℕ) (fs : List Frame) :
    kept Item.isFrame (scan classify pos (requestStream (fs.map Frame.request))).1 =
      framesFrom pos fs := by
  have hscan := scan_frames fs pos []
  rw [List.append_nil] at hscan
  rw [hscan, scan_nil, List.append_nil]
  exact kept_framesFrom pos fs

/-- The scan of the stream reaches the second byte of the corrupted frame. -/
theorem dispatched_stream (c : Corruption) : dispatched c.stream = framesFrom 0 c.before ++
    kept Item.isFrame (scan classify (c.front.length + 1) (c.bad.tail ++ c.back)).1 := by
  have hbad : classify (c.bad ++ c.back) = .advance (some .chkErr) 0 :=
    chkErr_of_corrupt c.frame c.pos_ge c.pos_lt c.byte_ne c.back
  have hcons : c.bad = bootCodeHead :: c.bad.tail := by
    obtain ⟨p, hp⟩ : ∃ p, c.pos = p + 1 := ⟨c.pos - 1, by have := c.pos_ge; omega⟩
    rw [Corruption.bad, hp]
    rfl
  have hfront := scan_frames c.before 0 (c.bad ++ c.back)
  rw [Nat.zero_add] at hfront
  rw [dispatched, Corruption.stream, List.append_assoc, Corruption.front, hfront, kept_append]
  refine congrArg₂ _ (kept_framesFrom 0 c.before) ?_
  rw [hcons, List.cons_append] at hbad ⊢
  exact kept_scan_drop hbad (by rintro _ ⟨⟩; rfl) _

/-- The scan loop passes over the corrupted frame exactly when no valid frame starts inside. -/
theorem dispatched_stream_iff (c : Corruption) :
    dispatched c.stream = framesFrom 0 c.before ++
        framesFrom (c.front.length + c.bad.length) c.after ↔ ¬c.InnerFrame := by
  have hpos : c.front.length + c.bad.length = c.front.length + 1 + c.bad.tail.length := by
    have hlen : c.bad.length = c.frame.payload.length + 4 := by
      rw [Corruption.bad, List.length_set]
      exact c.frame.request.length_bytes
    rw [List.length_tail]
    omega
  rw [dispatched_stream, List.append_cancel_left_eq, hpos, ← kept_scan_requestStream,
    ← Corruption.back, classify_selfDelimiting.kept_scan_skip]
  simp [Corruption.InnerFrame]

/-- A frame starts with a head byte, so no valid frame starts among other bytes. -/
theorem not_innerFrame_of_no_head {c : Corruption} (h : ∀ x ∈ c.bad.tail, x ≠ bootCodeHead) :
    ¬c.InnerFrame := by
  rintro ⟨ys, hys, hne, x, zs, t, n, heq, hv, ht⟩
  obtain ⟨y, ys, rfl⟩ := List.exists_cons_of_ne_nil hne
  obtain ⟨rfl, rfl⟩ := List.cons.inj heq
  obtain ⟨f, rfl⟩ := Item.isFrame_iff.1 ht
  exact h y (hys.subset List.mem_cons_self) (classify_eq_frame.1 hv).1

/-- A read of the stream dispatches exactly the frames that are not corrupted, each from its
own bytes. -/
structure OnlyOthers (cfg : ServerConfig) (w : ℕ) (t : RouterTable W) (l : Link W)
    (c : Corruption) : Prop where
  recognised : (connReadTcp cfg w t (.data c.stream) l).link.cs.recognised =
    l.cs.recognised ++ (c.before ++ c.after)
  dispatched : dispatched c.stream = framesFrom 0 c.before ++
    framesFrom (c.front.length + c.bad.length) c.after

theorem framesIn_framesFrom (pos : ℕ) (fs : List Frame) : framesIn (framesFrom pos fs) = fs := by
  rw [framesIn, framesFrom, map_tok_layout, framesOf, List.filterMap_map]
  exact List.filterMap_some

/-- A stream with one corrupted frame that fits the body buffer : exactly the other frames
are dispatched, each from its own bytes, exactly when no valid frame starts inside the
corrupted one. -/
theorem only_others_dispatched_iff (cfg : ServerConfig) (w : ℕ) (t : RouterTable W) {l : Link W}
    (hbody : l.cs.body = []) {c : Corruption} (hfit : c.stream.length ≤ requestChunk) :
    OnlyOthers cfg w t l c ↔ ¬c.InnerFrame := by
  rw [← dispatched_stream_iff]
  refine ⟨fun h => h.dispatched, fun h => ⟨?_, h⟩⟩
  rw [recognised_read cfg w t hbody hfit, ← framesIn_pos 0, ← framesIn_kept, ← dispatched, h,
    framesIn_append, framesIn_framesFrom, framesIn_framesFrom]

/-- StartRead between two requests for the version, its command replaced by another one. -/
theorem only_others_dispatched_getVer : OnlyOthers ⟨32768, by decide⟩ 0 cmdTable idleLink
    ⟨[getVer], ⟨cmdStartRead, [0x00, 0x01], by decide⟩, [getVer], 2, 0x07, by decide, by decide,
      by decide⟩ :=
  (only_others_dispatched_iff ⟨32768, by decide⟩ 0 cmdTable rfl (by decide)).2
    (not_innerFrame_of_no_head (by decide +kernel))

/-- `40 06 06 40 02 02 BC 00` : StartRead with the payload `40 02 02 BC` and a wrong checksum.
The request for the version in the payload is dispatched. -/
theorem payload_dispatched_after_corruption :
    ¬∀ c : Corruption, c.stream.length ≤ requestChunk →
      OnlyOthers ⟨32768, by decide⟩ 0 cmdTable idleLink c := by
  intro h
  have hrec := (h ⟨[], ⟨cmdStartRead, [0x40, 0x02, 0x02, 0xBC], by decide⟩, [], 7, 0x00,
    by decide, by decide, by decide⟩ (by decide)).recognised
  revert hrec
  decide +kernel

end Xlab
