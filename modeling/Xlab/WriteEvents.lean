import Xlab.Receiving

/-!
# Receiving next to writes

A write that goes well resets the session, and with it `body_length`. A lone head byte that
the read before left for the next one is lost, and with it the frame it starts.

`receiving_independent_iff` compares a run with the same run without its writes. They
recognise the same frames at every moment and by whatever is read next exactly when each
write finds an empty body. Over a whole run the frames are the same if no byte thrown away
starts a frame that the next read completes.
-/

open Scanner

namespace Xlab

variable {W : Type}

/-- The run without its writes. -/
def withoutWrites (es : List (RecvEvent W)) : List (RecvEvent W) :=
  es.filter fun e => !e.isWrite

theorem withoutWrites_write {e : RecvEvent W} (he : e.isWrite = true) (es : List (RecvEvent W)) :
    withoutWrites (e :: es) = withoutWrites es := by
  simp [withoutWrites, he]

theorem withoutWrites_other {e : RecvEvent W} (he : e.isWrite = false) (es : List (RecvEvent W)) :
    withoutWrites (e :: es) = e :: withoutWrites es := by
  simp [withoutWrites, he]

/-- A write finds no bytes in the body. -/
def EmptyAtWrite (l : Link W) : RecvEvent W → Prop
  | .write => l.cs.body = []
  | _ => True

/-- The sessions recognised the same frames, and recognise the same by the next read. -/
def SameReceived (cfg : ServerConfig) (w : ℕ) (t : RouterTable W) (l l' : Link W) : Prop :=
  l.cs.recognised = l'.cs.recognised ∧
    ∀ chunk, Proceeds w l (.read chunk) → Proceeds w l' (.read chunk) →
      (recvStep cfg w t l (.read chunk)).cs.recognised =
        (recvStep cfg w t l' (.read chunk)).cs.recognised

/-! ## Two runs side by side -/

/-- A call on a session, and on its twin without writes. -/
def twinStep (cfg : ServerConfig) (w : ℕ) (t : RouterTable W) (p : Link W × Link W)
    (e : RecvEvent W) : Link W × Link W :=
  (recvStep cfg w t p.1 e, if e.isWrite then p.2 else recvStep cfg w t p.2 e)

theorem run_twinStep (cfg : ServerConfig) (w : ℕ) (t : RouterTable W) (p : Link W × Link W)
    (es : List (RecvEvent W)) : Runs.run (twinStep cfg w t) p es =
      (Runs.run (recvStep cfg w t) p.1 es, Runs.run (recvStep cfg w t) p.2 (withoutWrites es)) := by
  induction es generalizing p with
  | nil => rfl
  | cons e es ih =>
    rw [Runs.run_cons, ih, twinStep]
    cases he : e.isWrite with
    | true => rw [withoutWrites_write he, Runs.run_cons, if_pos rfl]
    | false => rw [withoutWrites_other he, Runs.run_cons, Runs.run_cons, if_neg (by simp)]

/-- The calls go on with both sessions. -/
def TwinProceeds (w : ℕ) (p : Link W × Link W) (e : RecvEvent W) : Prop :=
  Proceeds w p.1 e ∧ (e.isWrite = false → Proceeds w p.2 e)

theorem guarded_twinProceeds {cfg : ServerConfig} {w : ℕ} {t : RouterTable W}
    {p : Link W × Link W} {es : List (RecvEvent W)}
    (h : Runs.Guarded (recvStep cfg w t) (Proceeds w) p.1 es)
    (h' : Runs.Guarded (recvStep cfg w t) (Proceeds w) p.2 (withoutWrites es)) :
    Runs.Guarded (twinStep cfg w t) (TwinProceeds w) p es := by
  induction es generalizing p with
  | nil => trivial
  | cons e es ih =>
    cases he : e.isWrite with
    | true =>
      rw [withoutWrites_write he] at h'
      refine ⟨⟨h.1, fun hw => ?_⟩, ih h.2 ?_⟩
      · rw [he] at hw
        cases hw
      · rwa [twinStep, he]
    | false =>
      rw [withoutWrites_other he] at h'
      refine ⟨⟨h.1, fun _ => h'.1⟩, ih h.2 ?_⟩
      rw [twinStep, he]
      exact h'.2

/-- The receive sides are the same, with at most a lone head byte not yet parsed. -/
def Twins (p : Link W × Link W) : Prop :=
  p.1.inbox = p.2.inbox ∧ (p.1.cs.body = [] ∨ p.1.cs.body = [bootCodeHead])

theorem rest_eq_head (buf : List UInt8) : (scan classify 0 buf).2 = [] ∨
    (scan classify 0 buf).2 = [bootCodeHead] := by
  refine (classify_selfDelimiting.rest_eq 0 buf).imp_right ?_
  rintro ⟨x, hx, hstop⟩
  rw [hx]
  by_contra hne
  have hx' : byteAt [x] 0 ≠ bootCodeHead := fun h => hne (congrArg (fun x => [x]) h)
  rw [classify, if_neg (List.cons_ne_nil x []), if_pos hx'] at hstop
  cases hstop

variable {cfg : ServerConfig} {w : ℕ} {t : RouterTable W}

theorem Twins.same {p : Link W × Link W} (h : Twins p) : SameReceived cfg w t p.1 p.2 := by
  refine ⟨congrArg Prod.snd h.1, fun chunk hc hc' => ?_⟩
  have h1 := congrArg Prod.snd (inbox_read cfg t hc)
  rw [h.1, ← inbox_read cfg t hc'] at h1
  exact h1

theorem body_eq_of_inbox {l l' : Link W} (h : l.inbox = l'.inbox) : l.cs.body = l'.cs.body :=
  congrArg Prod.fst h

theorem twins_twinStep {p : Link W × Link W} {e : RecvEvent W} (h : Twins p)
    (hp : TwinProceeds w p e) (hw : EmptyAtWrite p.1 e) : Twins (twinStep cfg w t p e) := by
  cases e with
  | read chunk =>
    have h1 := inbox_read cfg t hp.1
    have h2 := inbox_read cfg t (hp.2 rfl)
    refine ⟨?_, ?_⟩
    · rw [← h.1] at h2
      exact h1.trans h2.symm
    · have hbody : (twinStep cfg w t p (.read chunk)).1.cs.body = _ := congrArg Prod.fst h1
      rw [hbody]
      exact rest_eq_head _
  | write =>
    have h1 := inbox_write cfg t hp.1
    refine ⟨h1.trans ?_, Or.inl (congrArg Prod.fst h1)⟩
    rw [← show p.1.cs.body = [] from hw]
    exact h.1
  | flush w' =>
    have h1 := inbox_flush w' p.1
    have hbody := body_eq_of_inbox h1
    have hstep : twinStep cfg w t p (.flush w') =
        (flushCompleted w' p.1, flushCompleted w' p.2) := rfl
    rw [Twins, hstep, h1, inbox_flush, hbody]
    exact h
  | others sh => exact h

/-- A lone head byte that a write throws away is missed by a read that completes its frame. -/
theorem emptyAtWrite_of_same {p : Link W × Link W} {e : RecvEvent W} (h : Twins p)
    (hp : TwinProceeds w p e)
    (hs : SameReceived cfg w t (twinStep cfg w t p e).1 (twinStep cfg w t p e).2) :
    EmptyAtWrite p.1 e := by
  cases e with
  | read chunk => trivial
  | write =>
    refine h.2.resolve_right fun hhead => ?_
    have h1 := inbox_write cfg t hp.1
    have hbody : (recvStep cfg w t p.1 .write).cs.body = [] := congrArg Prod.fst h1
    have h2 : p.2.inbox = ([bootCodeHead], p.1.cs.recognised) := by
      rw [← h.1, ← hhead]
      rfl
    have hbody2 : p.2.cs.body = [bootCodeHead] := congrArg Prod.fst h2
    have hc1 : Proceeds w (recvStep cfg w t p.1 .write) (.read [0x02, 0x02, 0xBC]) :=
      ⟨by simp, by rw [hbody]; decide⟩
    have hc2 : Proceeds w p.2 (.read [0x02, 0x02, 0xBC]) :=
      ⟨by simp, by rw [hbody2]; decide⟩
    have heq := hs.2 _ hc1 hc2
    have hr1 := congrArg Prod.snd (inbox_read cfg t hc1)
    have hr2 := congrArg Prod.snd (inbox_read cfg t hc2)
    rw [h1] at hr1
    rw [h2] at hr2
    have hframes : framesOf (itemsOf [0x02, 0x02, 0xBC]) =
        framesOf (itemsOf [bootCodeHead, 0x02, 0x02, 0xBC]) :=
      List.append_cancel_left (hr1.symm.trans (heq.trans hr2))
    exact absurd hframes (by decide)
  | flush w' => trivial
  | others sh => trivial

/-! ## The comparison -/

theorem pieces_withoutWrites (es : List (RecvEvent W)) :
    pieces false (withoutWrites es) = plain (chunks es) := by
  have hchunks : ∀ (es : List (RecvEvent W)) (d : Bool),
      (pieces d es).map Prod.snd = chunks es := fun es => by
    induction es with
    | nil => exact fun _ => rfl
    | cons e es ih =>
      intro d
      cases e with
      | read chunk => exact congrArg (chunk :: ·) (ih false)
      | write => exact (ih true).trans (ih true).symm
      | flush w' => exact ih d
      | others sh => exact ih d
  induction es with
  | nil => rfl
  | cons e es ih =>
    cases e with
    | read chunk => exact congrArg ((false, chunk) :: ·) ih
    | write => exact ih.trans (congrArg plain (hchunks es true).symm)
    | flush w' => exact ih
    | others sh => exact ih

theorem pieces_ne_nil {es : List (RecvEvent W)} (discard : Bool) {l : Link W}
    (h : Runs.Guarded (recvStep cfg w t) (Proceeds w) l es) :
    ∀ e ∈ pieces discard es, e.2 ≠ [] := by
  induction es generalizing discard l with
  | nil => exact fun _ he => nomatch he
  | cons e es ih =>
    cases e with
    | read chunk =>
      intro e he
      rcases List.mem_cons.1 he with rfl | he
      · exact h.1.1
      · exact ih false h.2 e he
    | write => exact ih true h.2
    | flush w' => exact ih discard h.2
    | others sh => exact ih discard h.2

/-- A run recognises the same frames as the same run without its writes, at every moment and
by whatever is read next, exactly when each write finds an empty body. And the whole run
does if no byte thrown away starts a frame that the next read completes. -/
theorem receiving_independent_iff (cfg : ServerConfig) (w : ℕ) (t : RouterTable W) {l : Link W}
    (hl : l.Fresh) (es : List (RecvEvent W))
    (hes : Runs.Guarded (recvStep cfg w t) (Proceeds w) l es)
    (hes' : Runs.Guarded (recvStep cfg w t) (Proceeds w) l (withoutWrites es)) :
    ((∀ pre, pre <+: es → SameReceived cfg w t (Runs.run (recvStep cfg w t) l pre)
        (Runs.run (recvStep cfg w t) l (withoutWrites pre))) ↔
      Runs.Guarded (recvStep cfg w t) EmptyAtWrite l es) ∧
      (SelfDelimiting.Harmless classify Item.isFrame [] (pieces false es) →
        (Runs.run (recvStep cfg w t) l es).cs.recognised =
          (Runs.run (recvStep cfg w t) l (withoutWrites es)).cs.recognised) := by
  constructor
  · have hbody : l.cs.body = [] := by rw [hl.cs]; rfl
    have hiff := Runs.prefixes_iff_guarded (I := Twins) (C := fun p e => EmptyAtWrite p.1 e)
      (P := fun p => SameReceived cfg w t p.1 p.2) (fun p h => h.same)
      (fun p e h hp hw => twins_twinStep h hp hw) (fun p e h hp hs => emptyAtWrite_of_same h hp hs)
      (show Twins (l, l) from ⟨rfl, Or.inl hbody⟩) (guarded_twinProceeds hes hes')
    have hguard : Runs.Guarded (twinStep cfg w t) (fun p e => EmptyAtWrite p.1 e) (l, l) es ↔
        Runs.Guarded (recvStep cfg w t) EmptyAtWrite l es :=
      Runs.guarded_map (fun _ _ => rfl)
    rw [hguard] at hiff
    simpa only [run_twinStep] using hiff
  · intro hharm
    have hkept := (classify_selfDelimiting.kept_feed_discard (pieces false es)
      (pieces_ne_nil false hes) 0 []).2 hharm
    rw [recognised_run cfg t hl hes, recognised_run cfg t hl hes', pieces_withoutWrites,
      ← framesIn_kept, hkept, framesIn_kept]
    rfl

/-- The socket does not take a version answer, it is written later, and the next request
comes. -/
def queuedVersion : List (RecvEvent Unit) :=
  [.others { idleLink.sh with script := [⟨.fail, .eagain⟩] },
    .read [0x40, 0x02, 0x02, 0xBC], .write, .read [0x40, 0x02, 0x02, 0xBC]]

theorem receiving_independent_getVer :
    SameReceived ⟨32768, by decide⟩ 0 cmdTable
      (Runs.run (recvStep ⟨32768, by decide⟩ 0 cmdTable) idleLink queuedVersion)
      (Runs.run (recvStep ⟨32768, by decide⟩ 0 cmdTable) idleLink
        (withoutWrites queuedVersion)) :=
  (receiving_independent_iff ⟨32768, by decide⟩ 0 cmdTable idleLink_fresh queuedVersion
    ⟨trivial, by decide +kernel, by decide +kernel, by decide +kernel, trivial⟩
    ⟨trivial, by decide +kernel, by decide +kernel, trivial⟩).1.2
    ⟨trivial, trivial, by unfold EmptyAtWrite; decide +kernel, trivial, trivial⟩ _
    (List.prefix_refl _)

/-- `40 02 02 BC 40` leaves a head byte, the write of the version answer throws it away, and
the request that `02 02 BC` completes is not recognised. -/
theorem frame_lost_by_write :
    ¬∀ es : List (RecvEvent Unit),
      Runs.Guarded (recvStep ⟨32768, by decide⟩ 0 cmdTable) (Proceeds 0) idleLink es →
        Runs.Guarded (recvStep ⟨32768, by decide⟩ 0 cmdTable) (Proceeds 0) idleLink
            (withoutWrites es) →
          (Runs.run (recvStep ⟨32768, by decide⟩ 0 cmdTable) idleLink es).cs.recognised =
            (Runs.run (recvStep ⟨32768, by decide⟩ 0 cmdTable) idleLink
              (withoutWrites es)).cs.recognised := by
  intro h
  have heq := h [.others { idleLink.sh with script := [⟨.fail, .eagain⟩] },
      .read [0x40, 0x02, 0x02, 0xBC, 0x40], .write, .read [0x02, 0x02, 0xBC]]
    ⟨trivial, by decide +kernel, by decide +kernel, by decide +kernel, trivial⟩
    ⟨trivial, by decide +kernel, by decide +kernel, trivial⟩
  revert heq
  decide +kernel

end Xlab
