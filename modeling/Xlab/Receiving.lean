import Xlab.Link

/-!
# Receiving a stream in pieces

A stream reaches a session in the pieces of successive reads, and other calls come in between :
writes, flushes, and whatever the rest of the gateway does. `recvStep` is one such call.

A read changes the receive side by `inbox_read` and a write by `inbox_write`, and nothing
else does. `recognised_run` says what a run recognises : the frames the scanner finds in the
pieces, each with what the read before left in front, unless a write threw it away.
-/

open Scanner

namespace Xlab

variable {W : Type}

/-- A call on a session. -/
inductive RecvEvent (W : Type) where
  /-- `xlab_conn_read` with bytes to read. -/
  | read (chunk : List UInt8)
  /-- `xlab_conn_write`. -/
  | write
  /-- `xlab_async_flush_completed` in the event loop of worker `w`. -/
  | flush (w : ℕ)
  /-- Anything the rest of the gateway does. -/
  | others (sh : Shared W)

/-- The event is a write. -/
def RecvEvent.isWrite : RecvEvent W → Bool
  | .write => true
  | _ => false

/-- A call on a session of worker `w`. -/
def recvStep (cfg : ServerConfig) (w : ℕ) (t : RouterTable W) (l : Link W) : RecvEvent W → Link W
  | .read chunk => (connReadTcp cfg w t (.data chunk) l).link
  | .write => (connWriteTcp w l).link
  | .flush w' => flushCompleted w' l
  | .others sh => ⟨l.cs, sh⟩

/-- The call goes on with the session : a read brings at least one byte and at most what the
body has room for, and the session survives a write. -/
def Proceeds (w : ℕ) (l : Link W) : RecvEvent W → Prop
  | .read chunk => chunk ≠ [] ∧ chunk.length ≤ requestChunk - l.cs.body.length
  | .write => (connWriteTcp w l).removals = 0
  | _ => True

instance (w : ℕ) (l : Link W) (e : RecvEvent W) : Decidable (Proceeds w l e) :=
  match e with
  | .read _ => inferInstanceAs (Decidable (_ ∧ _))
  | .write => inferInstanceAs (Decidable (_ = _))
  | .flush _ => inferInstanceAs (Decidable True)
  | .others _ => inferInstanceAs (Decidable True)

/-! ## What a call does to the receive side -/

/-- The bytes not yet parsed, and the frames recognised. -/
def Link.inbox (l : Link W) : List UInt8 × List Frame :=
  (l.cs.body, l.cs.recognised)

/-- The receive side after a read. -/
def readInbox (chunk : List UInt8) (b : List UInt8 × List Frame) : List UInt8 × List Frame :=
  ((scan classify 0 (b.1 ++ chunk)).2, b.2 ++ framesOf (itemsOf (b.1 ++ chunk)))

theorem connReadTcp_of_proceeds (cfg : ServerConfig) {w : ℕ} (t : RouterTable W) {l : Link W}
    {chunk : List UInt8} (h : Proceeds w l (.read chunk)) :
    connReadTcp cfg w t (.data chunk) l = ⟨chunk.length, 0, connParse w t chunk l⟩ := by
  obtain ⟨hne, hlen⟩ := h
  have hbody : (connParse w t chunk l).cs.body.length ≤ 1 := by
    rw [connParse_eq]
    exact length_scan_rest_le _
  have hcfg := cfg.maxRequestSize_ge
  rw [connReadTcp, connReadMax]
  simp only [List.take_of_length_le hlen, if_neg hne]
  rw [if_neg (by omega)]

/-- A read leaves one byte at most, so it never removes the session. -/
theorem inbox_read (cfg : ServerConfig) {w : ℕ} (t : RouterTable W) {l : Link W}
    {chunk : List UInt8} (h : Proceeds w l (.read chunk)) :
    (recvStep cfg w t l (.read chunk)).inbox = readInbox chunk l.inbox := by
  rw [recvStep, connReadTcp_of_proceeds cfg t h]
  simp only [connParse_eq]
  exact Prod.ext rfl (reactAll_recognised w t _ (l.setBody (l.cs.body ++ chunk)))

/-- A write the session survives clears the body. -/
theorem inbox_write (cfg : ServerConfig) {w : ℕ} (t : RouterTable W) {l : Link W}
    (h : Proceeds w l .write) : (recvStep cfg w t l .write).inbox = ([], l.cs.recognised) := by
  have hrec := congrArg Received.recognised (handlerWrite_received w l)
  have hsurv : (connWriteTcp w l).removals = 0 := h
  rw [recvStep]
  by_cases hret : (handlerWrite w l).ret < 0
  · rw [connWriteTcp, if_pos hret] at hsurv
    cases hsurv
  · rw [connWriteTcp, if_neg hret]
    exact Prod.ext rfl hrec

theorem inbox_flushOwn (w : ℕ) (i : Fin asyncQueueDepth) (l : Link W) :
    (flushOwn w i l).inbox = l.inbox := by
  unfold flushOwn
  split_ifs
  · unfold flushDeliver
    simp only []
    split_ifs
    · rfl
    · split <;> rfl
  · rfl

theorem inbox_flush (w : ℕ) (l : Link W) : (flushCompleted w l).inbox = l.inbox := by
  rw [flushCompleted]
  generalize List.finRange asyncQueueDepth = is
  induction is generalizing l with
  | nil => rfl
  | cons i is ih => exact (ih (flushOwn w i l)).trans (inbox_flushOwn w i l)

/-! ## Runs -/

/-- The pieces of a run, marked when what was left before them was thrown away. -/
def pieces : Bool → List (RecvEvent W) → List (Bool × List UInt8)
  | _, [] => []
  | discard, .read chunk :: es => (discard, chunk) :: pieces false es
  | _, .write :: es => pieces true es
  | discard, .flush _ :: es => pieces discard es
  | discard, .others _ :: es => pieces discard es

/-- The pieces the reads of a run bring. -/
def chunks (es : List (RecvEvent W)) : List (List UInt8) :=
  (pieces false es).map Prod.snd

/-- The frames among some hits. -/
def framesIn (hits : List (Hit Item)) : List Frame :=
  framesOf (hits.map Hit.tok)

theorem framesIn_append (hits hits' : List (Hit Item)) :
    framesIn (hits ++ hits') = framesIn hits ++ framesIn hits' := by
  rw [framesIn, List.map_append, framesOf_append]
  rfl

theorem framesIn_pos (pos : ℕ) (buf : List UInt8) :
    framesIn (scan classify pos buf).1 = framesOf (itemsOf buf) := by
  have h := scan_shift classify pos 0 buf
  rw [Nat.zero_add] at h
  rw [h, framesIn, List.map_map]
  rfl

/-- A run recognises the frames found in its pieces, each with what was left before it in
front. -/
theorem recognised_run_from (cfg : ServerConfig) {w : ℕ} (t : RouterTable W)
    (es : List (RecvEvent W)) (discard : Bool) (pos : ℕ) (buf : List UInt8) (before : List Frame)
    {l : Link W} (hG : Runs.Guarded (recvStep cfg w t) (Proceeds w) l es)
    (hl : l.inbox = (if discard then [] else (scan classify pos buf).2,
      before ++ framesIn (scan classify pos buf).1)) :
    (Runs.run (recvStep cfg w t) l es).cs.recognised =
      before ++ framesIn (feed classify pos buf (pieces discard es)) := by
  induction es generalizing discard pos buf before l with
  | nil => exact congrArg Prod.snd hl
  | cons e es ih =>
    obtain ⟨he, hG⟩ := hG
    rw [Runs.run_cons]
    cases e with
    | read chunk =>
      have hin := inbox_read cfg t he
      rw [hl, readInbox] at hin
      simp only [pieces, feed]
      generalize (if discard = true then [] else (scan classify pos buf).2) = rest at hin ⊢
      rw [framesIn_append, ← List.append_assoc]
      refine ih false _ _ _ hG (hin.trans (Prod.ext ?_ ?_))
      · exact (scan_rest_pos classify _ _).symm
      · exact congrArg (before ++ framesIn (scan classify pos buf).1 ++ ·) (framesIn_pos _ _).symm
    | write =>
      refine ih true pos buf before hG ?_
      rw [inbox_write cfg t he, show l.cs.recognised = _ from congrArg Prod.snd hl]
      rfl
    | flush w' => exact ih discard pos buf before hG ((inbox_flush w' l).trans hl)
    | others sh => exact ih discard pos buf before hG hl

theorem recognised_run (cfg : ServerConfig) {w : ℕ} (t : RouterTable W) {l : Link W}
    (hl : l.Fresh) {es : List (RecvEvent W)}
    (hG : Runs.Guarded (recvStep cfg w t) (Proceeds w) l es) :
    (Runs.run (recvStep cfg w t) l es).cs.recognised =
      framesIn (feed classify 0 [] (pieces false es)) :=
  recognised_run_from cfg t es false 0 [] [] hG (by rw [Link.inbox, hl.cs]; rfl)

/-- Equal kept hits hold equal frames. -/
theorem framesIn_kept (hits : List (Hit Item)) :
    framesIn (kept Item.isFrame hits) = framesIn hits := by
  induction hits with
  | nil => rfl
  | cons h hits ih =>
    rw [← List.singleton_append, kept_append, framesIn_append, framesIn_append, ih]
    congr 1
    obtain ⟨pos, len, tok⟩ := h
    cases tok <;> rfl

theorem framesIn_eq_nil {hits : List (Hit Item)} :
    framesIn hits = [] ↔ kept Item.isFrame hits = [] := by
  rw [← framesIn_kept]
  constructor
  · intro h
    by_contra hne
    obtain ⟨hit, hits', hk⟩ := List.exists_cons_of_ne_nil hne
    have hmem := mem_kept.1 (hk ▸ List.mem_cons_self : hit ∈ kept Item.isFrame hits)
    obtain ⟨f, hf⟩ := Item.isFrame_iff.1 hmem.2
    rw [hk, framesIn, List.map_cons, hf] at h
    cases h
  · intro h
    rw [h]
    rfl

end Xlab
