import Xlab.ConnRead

/-!
# Direct answers

What a frame is answered with when the socket takes everything. `directResponse` is the one
response a frame gets that is not submitted, and `directAnswer_sent` says it is
sent whole and nothing else is.

`one_right_answer_iff` compares it with the answer a request should get. They agree unless
the parameter length is out of the entry's range : the router rejects such a frame with
`XLAB_ERR_PARAM_RANGE`, and the caller sends `XLAB_ERR_INTERNAL` in place of the code it was
given.
-/

open Scanner

namespace Xlab

variable {W : Type}

/-- All bytes of a response, taken in one call. -/
def Segment.whole (resp : Response) : Segment :=
  ⟨resp, 0, resp.bytes.length⟩

@[simp] theorem bytes_whole (resp : Response) : (Segment.whole resp).bytes = resp.bytes := by
  simp [Segment.whole, Segment.bytes]

theorem sockSend_whole {l : Link W} (h : l.sh.nextWhole) (resp : Response) :
    (sockSend resp l).1.accepted = some resp.bytes.length ∧
      (sockSend resp l).2 = ⟨{ l.cs with wire := l.cs.wire ++ [.whole resp] },
        (l.sh.call resp.bytes.length).2⟩ := by
  have ha := h.call resp.bytes.length
  refine ⟨ha, ?_⟩
  simp only [sockSend, ha]
  rfl

theorem sendOrQueue_whole {l : Link W} (h : l.sh.nextWhole) (w : ℕ) (resp : Response) :
    sendOrQueue w resp l = (true, (sockSend resp l).2) := by
  rw [sendOrQueue]
  exact if_pos (sockSend_whole h resp).1

/-- The response to a frame that is answered directly. -/
def directResponse (t : RouterTable W) (f : Frame) (seq : UInt32) (world : W) : Response :=
  match (routerProcess t f.cmd f.payload seq world).1 with
  | .respond resp => resp
  | .reject _ => routerBuildResponse f.cmd
      (if (routerLookup t f.cmd).isSome then errInternal else errUnknownCmd) [] seq

/-- One response is sent, whole, in one call, and the ring is not touched. -/
structure Link.Sent (l l' : Link W) (resp : Response) : Prop where
  wire : l'.cs.wire = l.cs.wire ++ [.whole resp]
  respQueue : l'.cs.respQueue = l.cs.respQueue
  script : l'.sh.script = l.sh.script.tail

theorem Link.Sent.takesAll {l l' : Link W} {resp : Response} (h : l.Sent l' resp)
    (hs : l.sh.takesAll) : l'.sh.takesAll := by
  intro o ho
  rw [h.script] at ho
  exact hs o (List.mem_of_mem_tail ho)

theorem sent_sockSend {l : Link W} (h : l.sh.nextWhole) (resp : Response) :
    l.Sent (sockSend resp (l.build resp)).2 resp where
  wire := by rw [(sockSend_whole (l := l.build resp) h resp).2]; rfl
  respQueue := rfl
  script := Shared.script_call _ _

theorem sent_badFrame {l : Link W} (h : l.sh.nextWhole) :
    l.Sent (badFrame l) (routerBuildResponse cmdNone errChecksum [] l.cs.nextReqSeq) := by
  obtain ⟨h1, h2, h3⟩ := sent_sockSend
    (l := { l with cs := { l.cs with nextReqSeq := l.cs.nextReqSeq + 1 } }) h
    (routerBuildResponse cmdNone errChecksum [] l.cs.nextReqSeq)
  exact ⟨h1, h2, h3⟩

theorem directAnswer_sent {l : Link W} (h : l.sh.nextWhole) (w : ℕ) (t : RouterTable W)
    (f : Frame) (seq : UInt32) :
    l.Sent (directAnswer w t f seq l) (directResponse t f seq l.sh.world) ∧
      (directAnswer w t f seq l).sh.world =
        (routerProcess t f.cmd f.payload seq l.sh.world).2.1 := by
  have hworld : ∀ (resp : Response) (l : Link W), (sockSend resp (l.build resp)).2.sh.world =
      l.sh.world := fun resp l => by
    simp only [sockSend, Link.build]
    rw [Shared.call_eq]
  rw [directAnswer, syncAnswer, directResponse]
  cases hp : (routerProcess t f.cmd f.payload seq l.sh.world).1 with
  | reject code =>
    simp only [Bool.false_eq_true, if_false, errorAnswer]
    refine ⟨?_, hworld _ _⟩
    obtain ⟨h1, h2, h3⟩ := sent_sockSend (l := { l with sh := { l.sh with
      world := (routerProcess t f.cmd f.payload seq l.sh.world).2.1
      invoked := l.sh.invoked ++ (routerProcess t f.cmd f.payload seq l.sh.world).2.2 } }) h
      (routerBuildResponse f.cmd
        (if (routerLookup t f.cmd).isSome then errInternal else errUnknownCmd) [] seq)
    exact ⟨h1, h2, h3⟩
  | respond resp =>
    obtain ⟨h1, h2, h3⟩ := sent_sockSend (l := { l with sh := { l.sh with
      world := (routerProcess t f.cmd f.payload seq l.sh.world).2.1
      invoked := l.sh.invoked ++ (routerProcess t f.cmd f.payload seq l.sh.world).2.2 } }) h resp
    simp only []
    rw [sendOrQueue_whole (by exact h)]
    exact ⟨⟨h1, h2, h3⟩, hworld _ _⟩

/-! ## The right answer -/

/-- The answer a frame should get : the handler's data or error code if it ran, else the
code the frame is rejected with. -/
def RightAnswer (t : RouterTable W) (f : Frame) (world : W) (bytes : List UInt8) : Prop :=
  match routerLookup t f.cmd with
  | none => bytes = errFrame f.cmd errUnknownCmd
  | some e =>
    if e.inRange f.payload.length then
      (0 ≤ (e.handler world f.payload).1.ret →
        bytes = okFrame f.cmd (e.handler world f.payload).1.resp) ∧
      (-255 ≤ (e.handler world f.payload).1.ret → (e.handler world f.payload).1.ret < 0 →
        bytes = errFrame f.cmd (-(e.handler world f.payload).1.ret).toNat)
    else bytes = errFrame f.cmd errParamRange

/-- Exactly one response is sent for the frame, whole, and it is the right one. -/
def OneRightAnswer (w : ℕ) (t : RouterTable W) (f : Frame) (l : Link W) : Prop :=
  ∃ resp, (tcpFrame w t f l).cs.wire = l.cs.wire ++ [.whole resp] ∧
    RightAnswer t f l.sh.world resp.bytes

theorem submits_of_not_blocking {t : RouterTable W} {f : Frame}
    (hb : ∀ e, routerLookup t f.cmd = some e → e.blocking = false) (l : Link W) :
    l.submits t f = false := by
  unfold Link.submits
  cases he : routerLookup t f.cmd with
  | none => rfl
  | some e => simp [hb e he]

/-- A response the router built is the handler's data or its error code. -/
theorem bytes_of_handlerResult (r : HandlerResult) (cmd : UInt8) (seq : UInt32) :
    (0 ≤ r.ret → (routerBuildResponse cmd r.errCode r.resp seq).bytes = okFrame cmd r.resp) ∧
      (r.ret < 0 → (routerBuildResponse cmd r.errCode r.resp seq).bytes =
        errFrame cmd (-r.ret).toNat) := by
  have hlen : r.resp.length ≤ 251 := Nat.le_trans r.resp_le (by decide)
  constructor
  · intro h
    rw [HandlerResult.errCode, if_neg (by omega), routerBuildResponse_ok cmd hlen]
  · intro h
    have hne : (-r.ret).toNat ≠ errOk := by
      unfold errOk
      omega
    rw [HandlerResult.errCode, if_pos h, routerBuildResponse_err hne]

/-- Frames with different codes differ. -/
theorem errFrame_ne (cmd : UInt8) : errFrame cmd errInternal ≠ errFrame cmd errParamRange := by
  intro h
  have h4 := congrArg (fun bytes => bytes.getD 3 0) h
  revert h4
  exact (by decide : (0xFF : UInt8) ≠ 4)

/-- The direct response is the right one exactly when the router knows no entry for the
command or the parameter length is in its range. -/
theorem rightAnswer_directResponse (t : RouterTable W) (f : Frame) (seq : UInt32) (world : W) :
    RightAnswer t f world (directResponse t f seq world).bytes ↔
      ∀ e, routerLookup t f.cmd = some e → e.inRange f.payload.length := by
  unfold RightAnswer directResponse
  cases he : routerLookup t f.cmd with
  | none =>
    rw [routerProcess_of_none he]
    refine iff_of_true ?_ (by simp)
    have hne : errUnknownCmd ≠ errOk := by decide
    exact congrArg Response.bytes (routerBuildResponse_err hne f.cmd [] seq)
  | some e =>
    simp only [Option.some.injEq, forall_eq', Option.isSome_some, if_true]
    by_cases hr : e.inRange f.payload.length
    · rw [routerProcess_of_inRange he hr]
      simp only [if_pos hr]
      obtain ⟨hok, herr⟩ := bytes_of_handlerResult (e.handler world f.payload).1 f.cmd seq
      exact iff_of_true ⟨hok, fun _ => herr⟩ hr
    · rw [routerProcess_of_not_inRange he hr]
      simp only [if_neg hr]
      refine iff_of_false ?_ hr
      rw [routerBuildResponse_err (by decide)]
      exact errFrame_ne f.cmd

/-- When every send takes the whole frame, a frame whose command is unregistered or not
blocking gets exactly one response, and it is the right one exactly when the command is
unregistered or its parameter length is in range. -/
theorem one_right_answer_iff (w : ℕ) (t : RouterTable W) (f : Frame) (l : Link W)
    (hb : ∀ e, routerLookup t f.cmd = some e → e.blocking = false) (hs : l.sh.takesAll) :
    OneRightAnswer w t f l ↔
      ∀ e, routerLookup t f.cmd = some e → e.inRange f.payload.length := by
  obtain ⟨hsent, -⟩ :=
    directAnswer_sent (l := l.recognise f) hs.nextWhole w t f l.cs.nextReqSeq
  have hwire : (tcpFrame w t f l).cs.wire =
      l.cs.wire ++ [.whole (directResponse t f l.cs.nextReqSeq l.sh.world)] := by
    rw [tcpFrame_of_not_submits (submits_of_not_blocking hb l), hsent.wire]
    rfl
  rw [← rightAnswer_directResponse t f l.cs.nextReqSeq l.sh.world, OneRightAnswer, hwire]
  constructor
  · rintro ⟨resp, heq, hresp⟩
    have hwhole := List.singleton_inj.1 (List.append_cancel_left heq)
    have hr : directResponse t f l.cs.nextReqSeq l.sh.world = resp :=
      congrArg Segment.resp hwhole
    rwa [hr]
  · exact fun h => ⟨_, rfl, h⟩

theorem idleLink_takesAll : idleLink.sh.takesAll := by
  intro o ho
  cases ho

/-- `40 02 02 BC`, a request for the version, gets its one right answer. -/
theorem one_right_answer_getVer : OneRightAnswer 0 cmdTable getVer idleLink := by
  have he : routerLookup (cmdTable (W := Unit)) cmdGetVer =
      some ⟨cmdGetVer, cmd02HandlerGetVersion, 0, 0, cmdFlagNone⟩ := rfl
  refine (one_right_answer_iff 0 cmdTable getVer idleLink ?_
    idleLink_takesAll).2 ?_ <;>
  · intro e h
    obtain rfl := Option.some.inj (he.symm.trans h)
    decide

/-- `40 03 02 00 BB`, a request for the version with a parameter it does not take, is
answered `F4 03 02 FF`, not `F4 03 02 04`. -/
theorem wrong_answer_getVer_param :
    ¬∀ (f : Frame) (l : Link Unit),
      (∀ e : RouterEntry Unit, routerLookup cmdTable f.cmd = some e → e.blocking = false) →
        l.sh.takesAll → OneRightAnswer 0 cmdTable f l := by
  intro h
  have he : routerLookup (cmdTable (W := Unit)) cmdGetVer =
      some ⟨cmdGetVer, cmd02HandlerGetVersion, 0, 0, cmdFlagNone⟩ := rfl
  obtain ⟨resp, hwire, hright⟩ := h ⟨cmdGetVer, [0x00], by decide⟩ idleLink (fun e hl => by
    obtain rfl := Option.some.inj (he.symm.trans hl)
    decide) idleLink_takesAll
  have hsent : (tcpFrame 0 cmdTable ⟨cmdGetVer, [0x00], by decide⟩ idleLink).cs.wire =
      [.whole ⟨0, [0xF4, 0x03, 0x02, 0xFF, 0x08]⟩] := by decide +kernel
  rw [hsent] at hwire
  have hresp : (⟨0, [0xF4, 0x03, 0x02, 0xFF, 0x08]⟩ : Response) = resp :=
    congrArg Segment.resp (List.singleton_inj.1 hwire)
  subst hresp
  simp only [RightAnswer, he] at hright
  rw [if_neg (by decide)] at hright
  revert hright
  decide

end Xlab
