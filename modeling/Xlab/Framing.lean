import Mathlib.Data.List.Flatten
import Mathlib.Data.List.Perm.Subperm
import Xlab.DirectAnswer
import Xlab.Ledger

/-!
# Framing on the wire

The bytes the kernel took for a socket should be a prefix of whole responses, one after the
other, each built once (`Output.Framed`). Two channels write to the socket, the direct sends
and the ring, and only the ring remembers how far a response was sent.

`Output.Integral` is the invariant : the bytes taken followed by the bytes the ring still owes
are whole responses, and only the head slot of the ring may be partly sent. A direct send
keeps it when it takes all of its response, or nothing, and takes bytes only while the head
slot is untouched (`CleanSend`). `framed_of_clean` : a run whose direct sends are clean
keeps the framing, whatever the `writev` calls take.
-/

namespace Xlab

variable {W : Type}

namespace Output

/-- The bytes taken for the socket. -/
def bytes (o : Output) : List UInt8 :=
  o.wire.flatMap Segment.bytes

/-- The bytes taken are a prefix of whole responses, each built once. -/
def Framed (o : Output) : Prop :=
  ∃ frames : List Response, frames.Subperm o.built ∧ o.bytes <+: frames.flatMap Response.bytes

/-- The responses that wait in the ring. -/
def waiting (o : Output) : List Response :=
  o.respQueue.pending.map RespSlot.resp

/-- The bytes taken and the bytes owed are whole responses, each built once, and no slot but
the head is partly sent. -/
def Integral (o : Output) : Prop :=
  (∀ s ∈ o.respQueue.pending.tail, s.unsent = true) ∧
    ∃ done : List Response, (done ++ o.waiting).Subperm o.built ∧
      o.bytes ++ owed o.respQueue.pending = (done ++ o.waiting).flatMap Response.bytes

/-- The head slot of the ring is not partly sent. -/
def HeadUnsent (o : Output) : Prop :=
  ∀ s ∈ o.respQueue.pending.head?, s.unsent = true

variable {o : Output}

theorem Integral.framed (h : o.Integral) : o.Framed := by
  obtain ⟨-, done, hbuilt, hbytes⟩ := h
  exact ⟨done ++ o.waiting, hbuilt, _, hbytes⟩

theorem owed_of_unsent {slots : List RespSlot} (h : ∀ s ∈ slots, s.unsent = true) :
    owed slots = (slots.map RespSlot.resp).flatMap Response.bytes := by
  induction slots with
  | nil => rfl
  | cons s slots ih =>
    have hs : s.sentLen = 0 := by simpa [RespSlot.unsent] using h s List.mem_cons_self
    rw [owed_cons, ih fun t ht => h t (List.mem_cons_of_mem s ht), hs]
    rfl

theorem Integral.all_unsent (h : o.Integral) (hh : o.HeadUnsent) :
    ∀ s ∈ o.respQueue.pending, s.unsent = true := by
  intro s hs
  unfold HeadUnsent at hh
  have htail := h.1
  cases hp : o.respQueue.pending with
  | nil => simp [hp] at hs
  | cons t ts =>
    rw [hp] at hs hh htail
    rcases List.mem_cons.1 hs with rfl | hs
    · exact hh s rfl
    · exact htail s hs

/-- A response is built and nothing of it taken. -/
theorem Integral.build (h : o.Integral) (resp : Response) :
    ({ o with built := o.built ++ [resp] } : Output).Integral := by
  obtain ⟨htail, done, hbuilt, hbytes⟩ := h
  exact ⟨htail, done, hbuilt.trans (List.sublist_append_left _ _).subperm, hbytes⟩

/-- A response is built and taken whole, while the head slot is untouched. -/
theorem Integral.send (h : o.Integral) (hh : o.HeadUnsent) (resp : Response) :
    ({ o with
      built := o.built ++ [resp]
      wire := o.wire ++ [⟨resp, 0, resp.bytes.length⟩] } : Output).Integral := by
  have howed := owed_of_unsent (h.all_unsent hh)
  obtain ⟨htail, done, hbuilt, hbytes⟩ := h
  refine ⟨htail, done ++ [resp], ?_, ?_⟩
  · have hperm : (done ++ [resp] ++ o.waiting).Perm (done ++ o.waiting ++ [resp]) := by
      rw [List.append_assoc, List.append_assoc]
      exact List.Perm.append_left done List.perm_append_comm
    exact hperm.subperm.trans (hbuilt.append (List.Subperm.refl [resp]))
  · rw [howed, List.flatMap_append] at hbytes
    have hdone := List.append_cancel_right hbytes
    simp only [bytes] at hdone ⊢
    rw [List.flatMap_append, hdone, howed]
    simp [waiting, Segment.bytes]

/-- A response is built and queued. -/
theorem Integral.enqueue (h : o.Integral) {resp : Response} {q : RespQueue}
    (hq : o.respQueue.enqueue resp = some q) :
    ({ o with
      built := o.built ++ [resp]
      respQueue := q } : Output).Integral := by
  have hp := RespQueue.pending_of_enqueue hq
  obtain ⟨htail, done, hbuilt, hbytes⟩ := h
  have hw : (done ++ q.pending.map RespSlot.resp) = done ++ o.waiting ++ [resp] := by
    rw [hp, List.map_append, List.append_assoc]
    rfl
  refine ⟨?_, done, ?_, ?_⟩
  · intro s hs
    rw [hp] at hs
    cases hpend : o.respQueue.pending with
    | nil => simp [hpend] at hs
    | cons t ts =>
      rw [hpend] at hs htail
      rcases List.mem_append.1 hs with hs | hs
      · exact htail s hs
      · rw [List.mem_singleton.1 hs]
        rfl
  · rw [waiting, hw]
    exact hbuilt.append (List.Subperm.refl [resp])
  · rw [waiting, hw, List.flatMap_append, ← hbytes, hp, owed_append, List.append_assoc]
    simp [bytes, RespSlot.fresh]

/-- The kernel takes `n` bytes of the slots a turn offers, and the turn accounts for them. -/
theorem Integral.turn (h : o.Integral) {iov : List RespSlot} (hpre : iov <+: o.respQueue.pending)
    (hiov : ∀ s ∈ iov, s.unsent = true) {n : ℕ} (hn : n ≤ (iov.map RespSlot.len).sum)
    {q : RespQueue} (hq : q.pending = drain o.respQueue.pending n) :
    ({ o with wire := o.wire ++ takeSegments iov n, respQueue := q } : Output).Integral := by
  obtain ⟨htail, done, hbuilt, hbytes⟩ := h
  obtain ⟨rest, hrest⟩ := hpre
  obtain ⟨k, hk⟩ := drain_resp o.respQueue.pending n
  have hw : done ++ o.waiting.take k ++ q.pending.map RespSlot.resp = done ++ o.waiting := by
    rw [hq, hk, List.append_assoc, waiting, List.take_append_drop]
  refine ⟨fun s hs => htail s (mem_tail_drain _ n (hq ▸ hs)), done ++ o.waiting.take k, ?_, ?_⟩
  · change (done ++ o.waiting.take k ++ q.pending.map RespSlot.resp).Subperm o.built
    rwa [hw]
  · change (o.wire ++ takeSegments iov n).flatMap Segment.bytes ++ owed q.pending =
      (done ++ o.waiting.take k ++ q.pending.map RespSlot.resp).flatMap Response.bytes
    have hcons := takeSegments_owed iov rest n hiov hn
    rw [hrest] at hcons
    rw [hw, ← hbytes, hq, ← hcons, List.flatMap_append, List.append_assoc]
    rfl

end Output

/-! ## The steps -/

/-- The next call, a direct send, takes nothing, or all of its response while the head slot is not
partly sent. -/
def CleanSend (o : Output) (script : List IoOutcome) : Prop :=
  match script with
  | [] => o.HeadUnsent
  | r :: _ => r.taken = .fail ∨ r.taken = .all ∧ o.HeadUnsent

/-- The step makes a second direct send : the response of a command that ran is not taken, nor
queued, and an error is sent in its place. -/
def SendsAgain (t : RouterTable W) (l : Link W) : LinkEvent W → Prop
  | .react (.frame f) => routerAccepts t f = true ∧ ∃ r ∈ l.sh.script.head?,
      r.taken ≠ .all ∧ (r.errno = .eagain → l.cs.respQueue.pending.length = 63)
  | _ => False

/-- A send that would block is the last one while the ring has room. -/
theorem not_sendsAgain {t : RouterTable W} {l : Link W} {r : IoOutcome} {rest : List IoOutcome}
    (hs : l.sh.script = r :: rest) (hr : r.errno = .eagain)
    (hroom : l.cs.respQueue.pending.length ≠ 63) (e : LinkEvent W) : ¬SendsAgain t l e := by
  intro h
  cases e with
  | react it =>
    cases it with
    | frame f =>
      obtain ⟨-, r', hr', -, hfull⟩ := h
      rw [hs] at hr'
      obtain rfl := Option.some.inj hr'
      exact hroom (hfull hr)
    | _ => exact h
  | _ => exact h

/-- The direct sends that the step makes are clean. -/
def Clean (t : RouterTable W) (l : Link W) (e : LinkEvent W) : Prop :=
  AnswersDirectly t l e → CleanSend l.cs.output l.sh.script ∧
    (SendsAgain t l e → CleanSend l.cs.output l.sh.script.tail)

theorem CleanSend.call {o : Output} {sh : Shared W} (h : CleanSend o sh.script) (len : ℕ) :
    (sh.call len).1.accepted = none ∨ (sh.call len).1.accepted = some len ∧ o.HeadUnsent := by
  unfold Shared.call
  cases hs : sh.script with
  | nil =>
    rw [hs] at h
    exact Or.inr ⟨rfl, h⟩
  | cons r rest =>
    rw [hs] at h
    rcases h with ht | ⟨ht, hh⟩
    · exact Or.inl (by simp [IoOutcome.offer, ht])
    · exact Or.inr ⟨by simp [IoOutcome.offer, ht], hh⟩

/-- A response is built and sent. -/
theorem integral_buildSend {l : Link W} (h : l.cs.output.Integral)
    (hc : CleanSend l.cs.output l.sh.script) (resp : Response) :
    (sockSend resp (l.build resp)).2.cs.output.Integral ∧
      ((sockSend resp (l.build resp)).1.accepted ≠ some resp.bytes.length →
        (sockSend resp (l.build resp)).2.cs.output =
          { l.cs.output with built := l.cs.output.built ++ [resp] }) := by
  have hacc := hc.call resp.bytes.length
  have hout : (sockSend resp (l.build resp)).2.cs.output = { l.cs.output with
      built := l.cs.output.built ++ [resp]
      wire := l.cs.output.wire ++
        (l.sh.call resp.bytes.length).1.accepted.toList.map (Segment.mk resp 0) } := rfl
  refine ⟨?_, fun hne => ?_⟩
  · rw [hout]
    rcases hacc with ha | ⟨ha, hh⟩
    · simp only [ha, Option.toList_none, List.map_nil, List.append_nil]
      exact h.build resp
    · simp only [ha, Option.toList_some, List.map_singleton]
      exact h.send hh resp
  · rw [hout, hacc.resolve_right fun ha => hne ha.1]
    simp

/-- A response is neither taken whole nor queued. -/
theorem outcome_of_sendOrQueue {w : ℕ} {resp : Response} {l : Link W}
    (h : (sendOrQueue w resp l).1 = false) : ∃ r ∈ l.sh.script.head?,
      r.taken ≠ .all ∧ (r.errno = .eagain → l.cs.respQueue.pending.length = 63) := by
  cases hs : l.sh.script with
  | nil =>
    rw [sendOrQueue_whole (Shared.nextWhole_of_nil hs)] at h
    cases h
  | cons r rest =>
    refine ⟨r, rfl, fun ht => ?_, fun he => ?_⟩
    · have hnext : l.sh.nextWhole := fun o ho => by
        rw [hs] at ho
        rwa [← Option.some.inj ho]
      rw [sendOrQueue_whole hnext] at h
      cases h
    · have herrno : (sockSend resp l).1.errno = .eagain := by
        simp only [sockSend, Shared.call, hs, IoOutcome.offer]
        cases r.taken <;> exact he
      rw [← RespQueue.enqueue_eq_none _ resp, ← Option.not_isSome_iff_eq_none]
      intro hq
      obtain ⟨q, hq⟩ := Option.isSome_iff_exists.1 hq
      have hq' : (sockSend resp l).2.cs.respQueue.enqueue resp = some q := hq
      unfold sendOrQueue at h
      simp only [herrno, if_true, hq'] at h
      split_ifs at h

theorem integral_errorAnswer {l : Link W} (h : l.cs.output.Integral)
    (hc : CleanSend l.cs.output l.sh.script) (entry : Option (RouterEntry W)) (f : Frame)
    (seq : UInt32) : (errorAnswer entry f seq l).cs.output.Integral :=
  (integral_buildSend h hc _).1

/-- A direct answer : the response of a command that ran is taken whole, or queued, or nothing
of it is taken and the error is sent in its place. -/
theorem integral_directAnswer {t : RouterTable W} {l : Link W} {f : Frame}
    (h : l.cs.output.Integral) (hc : CleanSend l.cs.output l.sh.script)
    (hagain : SendsAgain t l (.react (.frame f)) → CleanSend l.cs.output l.sh.script.tail) (w : ℕ)
    (seq : UInt32) : (directAnswer w t f seq l).cs.output.Integral := by
  rw [directAnswer, syncAnswer]
  cases hp : (routerProcess t f.cmd f.payload seq l.sh.world).1 with
  | reject code =>
    exact integral_errorAnswer (l := { l with sh := { l.sh with
      world := (routerProcess t f.cmd f.payload seq l.sh.world).2.1
      invoked := l.sh.invoked ++ (routerProcess t f.cmd f.payload seq l.sh.world).2.2 } })
      h hc _ f seq
  | respond resp =>
    have ha : routerAccepts t f = true := by
      by_contra hrej
      obtain ⟨code, hcode⟩ :=
        routerProcess_rejects (Bool.not_eq_true _ ▸ hrej) seq l.sh.world
      rw [hp] at hcode
      cases hcode
    simp only []
    generalize hl : ({ l with sh := { l.sh with
      world := (routerProcess t f.cmd f.payload seq l.sh.world).2.1
      invoked := l.sh.invoked ++ (routerProcess t f.cmd f.payload seq l.sh.world).2.2 } } :
        Link W) = l1
    have h1 : l1.cs.output.Integral := hl ▸ h
    have hc1 : CleanSend l1.cs.output l1.sh.script := hl ▸ hc
    have hagain1 : SendsAgain t l1 (.react (.frame f)) →
        CleanSend l1.cs.output l1.sh.script.tail := hl ▸ hagain
    obtain ⟨hint, hout⟩ := integral_buildSend h1 hc1 resp
    rcases sendOrQueue_cases w resp (l1.build resp) with ⟨-, hr⟩ | ⟨hne, hr | ⟨q, hq, hr⟩⟩
    · rw [hr]
      exact hint
    · have hfail := outcome_of_sendOrQueue (congrArg Prod.fst hr)
      rw [hr]
      refine integral_errorAnswer (l := { (sockSend resp (l1.build resp)).2 with cs :=
        { (sockSend resp (l1.build resp)).2.cs with respSeqExpected := seq + 1 } }) hint ?_ _ f seq
      have hscript : (sockSend resp (l1.build resp)).2.sh.script = l1.sh.script.tail :=
        Shared.script_call _ _
      change CleanSend (sockSend resp (l1.build resp)).2.cs.output
        (sockSend resp (l1.build resp)).2.sh.script
      rw [hscript, hout hne]
      exact hagain1 ⟨ha, hfail⟩
    · -- nothing was taken, so the wire is as it was
      have hwire : (sockSend resp (l1.build resp)).2.cs.wire = l1.cs.wire :=
        congrArg Output.wire (hout hne)
      have hq' := h1.enqueue hq
      rw [hr]
      change (⟨q, l1.cs.built ++ [resp], (sockSend resp (l1.build resp)).2.cs.wire⟩ :
        Output).Integral
      rwa [hwire]

theorem integral_linkStep (w : ℕ) (t : RouterTable W) {l : Link W} {e : LinkEvent W}
    (h : l.cs.output.Integral) (hc : Clean t l e) : (linkStep w t l e).cs.output.Integral := by
  cases e with
  | others sh => exact h
  | body bytes => exact h
  | react it =>
    have hbad : CleanSend l.cs.output l.sh.script → (badFrame l).cs.output.Integral := fun hc =>
      (integral_buildSend (l := { l with cs := { l.cs with nextReqSeq := l.cs.nextReqSeq + 1 } })
        h hc _).1
    cases it with
    | incomplete => exact hbad (hc trivial).1
    | chkErr => exact hbad (hc trivial).1
    | frame f =>
      by_cases hs : l.submits t f = true
      · obtain ⟨_, _, -, -, -, h'⟩ := tcpFrame_of_submits hs w
        rw [linkStep, tcpReact, h']
        exact h
      · have hs' := Bool.not_eq_true _ ▸ hs
        rw [linkStep, tcpReact, tcpFrame_of_not_submits hs']
        exact integral_directAnswer (l := l.recognise f) h (hc hs').1 (hc hs').2 w _
  | work i => exact h
  | flush w' i =>
    by_cases hd : l.deliverable i = true
    · rw [linkStep]
      rcases output_flushOwn hd w' with ⟨hfull, ho⟩ | ⟨q, hq, ho⟩ <;> rw [ho]
      · exact (integral_buildSend h (hc ⟨hd, hfull⟩).1 _).1
      · exact h.enqueue hq
    · rwa [linkStep, flushOwn_of_not_deliverable (Bool.not_eq_true _ ▸ hd)]
  | turn =>
    rw [linkStep]
    rcases writeTurn_cases l with ⟨-, h'⟩ | ⟨n, -, hle, -, h'⟩ | ⟨-, -, turn, -, h'⟩ <;> rw [h']
    · exact h
    · exact h.turn (prefix_iov l) (iov_unsent l) hle (pending_account_turn _ n)
    · exact h

/-- A run whose direct sends are clean keeps the framing at every moment, for every outcome of
the `writev` calls and every stale `errno`. -/
theorem framed_of_clean (w : ℕ) (t : RouterTable W) {l : Link W} (hl : l.Fresh)
    (es : List (LinkEvent W)) (hc : Runs.Guarded (linkStep w t) (Clean t) l es) :
    (Runs.run (linkStep w t) l es).cs.output.Framed := by
  have hinit : l.cs.output.Integral := by
    rw [hl.cs]
    exact ⟨by simp [Session.output, Session.create],
      [], by simp [Output.waiting, Session.output, Session.create],
      by simp [Output.bytes, Output.waiting, Session.output, Session.create]⟩
  exact (Runs.run_invariant (I := fun l : Link W => l.cs.output.Integral)
    (fun l e h hc => integral_linkStep w t h hc) hinit hc).framed

/-- A version answer waits in the ring, `writev` takes two bytes of it, and the answer to the next
request is queued behind it. -/
theorem framed_getVer :
    (Runs.run (linkStep 0 cmdTable) idleLink [.others { idleLink.sh with
        script := [⟨.fail, .eagain⟩, ⟨.part 1, .other⟩, ⟨.fail, .eagain⟩] },
      .react (.frame getVer), .turn, .react (.frame getVer)]).cs.output.Framed := by
  refine framed_of_clean 0 cmdTable idleLink_fresh _
    ⟨False.elim, fun _ => ⟨Or.inl rfl, fun ha => ?_⟩, False.elim,
      fun _ => ⟨Or.inl rfl, fun ha => ?_⟩, trivial⟩
  · exact absurd ha (not_sendsAgain rfl rfl (by decide) _)
  · exact absurd ha (not_sendsAgain rfl rfl (by decide +kernel) _)

theorem Output.Framed.length_le {o : Output} (h : o.Framed) :
    o.bytes.length ≤ (o.built.flatMap Response.bytes).length := by
  obtain ⟨frames, ⟨frames', hperm, hsub⟩, hpre⟩ := h
  calc o.bytes.length ≤ (frames.flatMap Response.bytes).length := hpre.length_le
    _ = (frames'.flatMap Response.bytes).length := (hperm.symm.flatMap_right _).length_eq
    _ ≤ (o.built.flatMap Response.bytes).length := (hsub.flatMap _).length_le

/-- A send takes two bytes of a version answer, and `errno` is left at `EAGAIN` by an earlier
call. The answer is queued and sent again from its start. -/
theorem response_repeated_after_partial_send :
    ¬∀ (l : Link Unit) (es : List (LinkEvent Unit)), l.Fresh →
      Runs.Guarded (linkStep 0 cmdTable) Admissible l es →
        (Runs.run (linkStep 0 cmdTable) l es).cs.output.Framed := by
  intro h
  have hframed := h idleLink [.others { idleLink.sh with script := [⟨.part 1, .eagain⟩] },
    .react (.frame getVer), .turn] idleLink_fresh ⟨fun _ _ => rfl, trivial, trivial, trivial⟩
  have hle := hframed.length_le
  revert hle
  decide +kernel

end Xlab
