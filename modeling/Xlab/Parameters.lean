import Xlab.Ledger

/-!
# The parameters handlers see

A frame reaches a handler on three routes : at once through the router on TCP, at once
through the router on UDP/UART, and through the task table and the background thread. The
router checks the parameter length, the task table does not. `legal_calls_iff` : a handler
gets a parameter length outside its entry's range exactly for a frame on TCP whose command
is blocking, whose length is out of range, and for which a slot is free.
-/

namespace Xlab

variable {W : Type}

/-- The command is registered and the parameter length in its range. -/
def Legal (t : RouterTable W) (call : Invocation) : Prop :=
  ∃ e, routerLookup t call.1 = some e ∧ e.inRange call.2.length

/-- The handler calls made for a frame on TCP : those made at once, and those the background
thread makes for the slots that were free before. -/
def tcpCalls (w : ℕ) (t : RouterTable W) (f : Frame) (l : Link W) : List Invocation :=
  let l' := tcpFrame w t f l
  l'.sh.invoked.drop l.sh.invoked.length ++ (List.finRange asyncQueueDepth).flatMap fun i =>
    if (l.sh.queue i).valid then [] else (asyncWorkSlot i l'.sh.queue l'.sh.world).2.2

/-- The handler calls made for a frame on UDP/UART. -/
def udpCalls (tr : TransType) (t : RouterTable W) (f : Frame) (s : Shared W × UInt32) :
    List Invocation :=
  (udpFrame tr t f s).1.invoked.drop s.1.invoked.length

/-- The router calls a handler with legal parameters only. -/
theorem legal_of_mem_routerProcess {t : RouterTable W} {f : Frame} {seq : UInt32} {world : W}
    {call : Invocation} (h : call ∈ (routerProcess t f.cmd f.payload seq world).2.2) :
    Legal t call := by
  cases he : routerLookup t f.cmd with
  | none => simp [routerProcess_of_none he] at h
  | some e =>
    by_cases hr : e.inRange f.payload.length
    · rw [routerProcess_of_inRange he hr] at h
      rw [List.mem_singleton.1 h]
      exact ⟨e, he, hr⟩
    · simp [routerProcess_of_not_inRange he hr] at h

theorem asyncWorkSlot_calls_of_not_valid {q : AsyncQueue W} {i : Fin asyncQueueDepth}
    (h : (q i).valid = false) (world : W) : (asyncWorkSlot i q world).2.2 = [] := by
  simp [asyncWorkSlot, AsyncTask.ready, h]

/-- A submitted frame's handler is called with its payload, whatever its length. -/
theorem mem_tcpCalls_of_submits {t : RouterTable W} {f : Frame} {l : Link W}
    (h : l.submits t f = true) (w : ℕ) {call : Invocation} :
    call ∈ tcpCalls w t f l ↔ call = (f.cmd, f.payload) := by
  obtain ⟨e, i, -, -, hi, ht⟩ := tcpFrame_of_submits h w
  have hfree := SlotTable.free_of_firstFree hi
  have hcall : (asyncWorkSlot i (Function.update l.sh.queue i (l.task f e i)) l.sh.world).2.2 =
      [(f.cmd, f.payload)] := by
    have hargs : (l.task f e i).args = f.payload := AsyncTask.submitted_args ..
    have hready : (l.task f e i).ready = true := rfl
    rw [asyncWorkSlot, Function.update_self, if_pos hready, hargs]
    rfl
  rw [tcpCalls, ht, List.mem_append, List.mem_flatMap]
  simp only [List.drop_length, List.not_mem_nil, false_or]
  constructor
  · rintro ⟨j, -, hj⟩
    by_cases hij : j = i
    · subst hij
      rw [hfree, hcall] at hj
      exact List.mem_singleton.1 hj
    · split_ifs at hj with hv
      · cases hj
      · rw [asyncWorkSlot_calls_of_not_valid] at hj
        · cases hj
        · rw [Function.update_of_ne hij]
          exact Bool.not_eq_true _ ▸ hv
  · rintro rfl
    refine ⟨i, List.mem_finRange i, ?_⟩
    rw [hfree, hcall]
    exact List.mem_cons_self

theorem legal_of_not_submits {t : RouterTable W} {f : Frame} {l : Link W}
    (h : l.submits t f = false) (w : ℕ) {call : Invocation} (hc : call ∈ tcpCalls w t f l) :
    Legal t call := by
  have hcontrol := directAnswer_control w t f l.cs.nextReqSeq (l.recognise f)
  rw [← tcpFrame_of_not_submits h] at hcontrol
  have hq : (tcpFrame w t f l).sh.queue = l.sh.queue := congrArg Control.queue hcontrol
  have hinv := congrArg Control.invoked hcontrol
  rw [tcpCalls, List.mem_append, List.mem_flatMap] at hc
  rcases hc with hc | ⟨i, -, hc⟩
  · change call ∈ (tcpFrame w t f l).control.invoked.drop l.sh.invoked.length at hc
    rw [hinv] at hc
    exact legal_of_mem_routerProcess (List.drop_left ▸ hc)
  · split_ifs at hc with hv
    · cases hc
    · rw [hq, asyncWorkSlot_calls_of_not_valid (Bool.not_eq_true _ ▸ hv)] at hc
      cases hc

theorem legal_of_mem_udpCalls {tr : TransType} {t : RouterTable W} {f : Frame}
    {s : Shared W × UInt32} {call : Invocation} (hc : call ∈ udpCalls tr t f s) :
    Legal t call := by
  have hinv : (udpFrame tr t f s).1.invoked =
      s.1.invoked ++ (routerProcess t f.cmd f.payload s.2 s.1.world).2.2 := by
    simp only [udpFrame]
    split <;> rfl
  rw [udpCalls, hinv, List.drop_left] at hc
  exact legal_of_mem_routerProcess hc

theorem submits_iff {t : RouterTable W} {f : Frame} {l : Link W} : l.submits t f = true ↔
    ∃ e i, routerLookup t f.cmd = some e ∧ e.blocking = true ∧
      SlotTable.firstFree AsyncTask.valid l.sh.queue = some i := by
  unfold Link.submits
  cases he : routerLookup t f.cmd with
  | none => simp
  | some e => simp [Option.isSome_iff_exists]

/-- For every frame, table and state of the task table : the handler calls made for the frame
are legal on every route exactly when its parameter length is in range or it is not submitted
on TCP. -/
theorem legal_calls_iff (w : ℕ) (tr : TransType) (t : RouterTable W) (f : Frame) (l : Link W)
    (s : Shared W × UInt32) :
    ((∀ call ∈ tcpCalls w t f l, Legal t call) ∧ (∀ call ∈ udpCalls tr t f s, Legal t call)) ↔
      ∀ e i, routerLookup t f.cmd = some e → e.blocking = true →
        SlotTable.firstFree AsyncTask.valid l.sh.queue = some i → e.inRange f.payload.length := by
  constructor
  · rintro ⟨htcp, -⟩ e i he hb hi
    have hs := submits_iff.2 ⟨e, i, he, hb, hi⟩
    obtain ⟨e', he', hr⟩ := htcp _ ((mem_tcpCalls_of_submits hs w).2 rfl)
    obtain rfl := Option.some.inj (he.symm.trans he')
    exact hr
  · intro h
    refine ⟨fun call hc => ?_, fun call hc => legal_of_mem_udpCalls hc⟩
    by_cases hs : l.submits t f = true
    · rw [(mem_tcpCalls_of_submits hs w).1 hc]
      obtain ⟨e, i, he, hb, hi⟩ := submits_iff.1 hs
      exact ⟨e, he, h e i he hb hi⟩
    · exact legal_of_not_submits (Bool.not_eq_true _ ▸ hs) w hc

/-- `40 02 06 B8`, a request to start reading without its parameters, is submitted and its
handler called. -/
theorem illegal_call_startRead :
    ¬∀ (f : Frame) (l : Link Unit), ∀ call ∈ tcpCalls 0 cmdTable f l,
      Legal (cmdTable (W := Unit)) call := by
  intro h
  have hlook : routerLookup (cmdTable (W := Unit)) cmdStartRead =
      some ⟨cmdStartRead, cmd06HandlerStartRead, 2, 4, cmdFlagBlocking⟩ := rfl
  have hs : idleLink.submits cmdTable ⟨cmdStartRead, [], by decide⟩ = true := by decide +kernel
  obtain ⟨e, he, hr⟩ := h ⟨cmdStartRead, [], by decide⟩ idleLink _
    ((mem_tcpCalls_of_submits hs 0).2 rfl)
  obtain rfl := Option.some.inj (hlook.symm.trans he)
  revert hr
  decide

end Xlab
