import Xlab.Agreement
import Xlab.OnePass
import Xlab.Projection

/-!
# One pass of the flush

`xlab_async_flush_completed` goes once over the task table, in the order of the slots. A
delivery can make a task due in a slot the pass has left behind, since a freed slot is the
first to be filled again. `passStep` are the runs of a gateway whose sessions send blocking
commands : submissions, background work, flushes and writes in any order. In such a run the
tasks of a session have consecutive numbers, and each has a session (`Orderly`).

A flush acts on a session as a pass over the numbers of its completed tasks
(`due_flushCompleted`). `flush_complete_iff` : no task is left due exactly when, for every
session, the completed tasks from the expected one on stand in the table in the order of their
numbers.
-/

open SeqRange

namespace Xlab

variable {W : Type}

/-! ## The numbers a session waits for -/

/-- The number of the completed task of the session in slot `i`. -/
def Link.held (l : Link W) (i : Fin asyncQueueDepth) : Option UInt32 :=
  if (l.sh.queue i).own l.cs.ident && (l.sh.queue i).completed then some (l.sh.queue i).seq
  else none

/-- The expected number, and the numbers of the completed tasks. -/
def Link.due (l : Link W) : UInt32 × (Fin asyncQueueDepth → Option UInt32) :=
  (l.cs.respSeqExpected, l.held)

theorem held_eq_some {l : Link W} {i : Fin asyncQueueDepth} {n : UInt32} :
    l.held i = some n ↔ (l.sh.queue i).own l.cs.ident = true ∧
      (l.sh.queue i).completed = true ∧ (l.sh.queue i).seq = n := by
  simp [Link.held, and_assoc]

/-- A task is deliverable exactly if its slot holds the expected number. -/
theorem deliverable_iff_held {l : Link W} {i : Fin asyncQueueDepth} :
    l.deliverable i = true ↔ l.held i = some l.cs.respSeqExpected := by
  rw [held_eq_some]
  simp only [Link.deliverable, AsyncTask.flushable, AsyncTask.own, Bool.and_eq_true, beq_iff_eq]
  tauto

/-- A flush at a slot is a visit of the slot. -/
theorem due_flushOwn (w : ℕ) (i : Fin asyncQueueDepth) (l : Link W) :
    (flushOwn w i l).due = OnePass.turn l.due i := by
  by_cases hd : l.deliverable i = true
  · have hc := control_flushOwn hd w
    have hid : (flushOwn w i l).cs.ident = l.cs.ident := ident_flushOwn w i l
    have hq : (flushOwn w i l).sh.queue = l.sh.queue.free i := (congrArg Control.queue hc).trans rfl
    have hexp : (flushOwn w i l).cs.respSeqExpected = l.cs.respSeqExpected + 1 :=
      (congrArg Control.respSeqExpected hc).trans rfl
    rw [OnePass.turn, if_pos (show l.due.2 i = some l.due.1 from deliverable_iff_held.1 hd)]
    refine Prod.ext hexp (funext fun j => ?_)
    show (flushOwn w i l).held j = Function.update l.held i none j
    rw [Link.held, hid, hq, AsyncQueue.free]
    by_cases hj : j = i
    · subst hj
      rw [Function.update_self, Function.update_self, own_eq_false_of_not_valid rfl]
      rfl
    · rw [Function.update_of_ne hj, Function.update_of_ne hj]
      rfl
  · rw [flushOwn_of_not_deliverable (Bool.not_eq_true _ ▸ hd), OnePass.turn, if_neg]
    exact fun h => hd (deliverable_iff_held.2 h)

/-- What others do changes no number of the session. -/
theorem othersKeep_due (id : SessionIdent) (d : UInt32 × (Fin asyncQueueDepth → Option UInt32)) :
    OthersKeep fun l : Link W => l.cs.ident = id → l.due = d := by
  intro cs sh sh' hq h hid
  rw [← h hid]
  refine Prod.ext rfl (funext fun i => ?_)
  show (⟨cs, sh'⟩ : Link W).held i = (⟨cs, sh⟩ : Link W).held i
  simp only [Link.held]
  by_cases hown : (sh'.queue i).own cs.ident = true ∨ (sh.queue i).own cs.ident = true
  · rw [hq i hown]
  · rw [not_or, Bool.not_eq_true, Bool.not_eq_true] at hown
    rw [hown.1, hown.2]
    rfl

/-! ## Sessions in line -/

/-- The outstanding numbers follow the expected one, and the next number follows them. -/
def Ledger.InLine (g : Ledger) : Prop :=
  g.Consecutive ∧ g.Lost 0

theorem Ledger.inLine_submit {g : Ledger} (h : g.InLine) : g.submit.InLine := by
  obtain ⟨hc, hl⟩ := h
  refine ⟨(Ledger.consecutive_submit hc).2 ?_, Ledger.lost_submit hl⟩
  exact hl.trans (UInt32.add_zero _)

theorem inLine_flushOwn (w : ℕ) (i : Fin asyncQueueDepth) {l : Link W} (h : l.ledger.InLine) :
    (flushOwn w i l).ledger.InLine :=
  ⟨(consecutive_flushOwn w i l).2 h.1,
    lost_linkStep w [] (e := .flush w i) trivial h.2⟩

theorem ledger_handlerWrite (w : ℕ) (l : Link W) : (handlerWrite w l).link.ledger = l.ledger := by
  obtain ⟨hcs, hq⟩ := handlerWrite_link w l
  have hloop : (writeLoop 65 false l).2.2.ledger = l.ledger :=
    writeLoop_keeps (P := fun l' => l'.ledger = l.ledger)
      (fun l' h => (ledger_turn l').trans h) 65 false rfl
  rw [← hloop]
  simp only [Link.ledger, Control.ledger, Control.tasks, Link.control, hcs, hq]

theorem othersKeep_inLine : OthersKeep fun l : Link W => l.ledger.InLine := by
  intro cs sh sh' hq h
  have hsame : (⟨cs, sh'⟩ : Link W).ledger = (⟨cs, sh⟩ : Link W).ledger := 
    ledger_others (l := ⟨cs, sh⟩) hq
  rwa [hsame]

/-- In line, no two tasks of the session have the same number. -/
theorem held_injective {l : Link W} (h : l.ledger.Consecutive) (i j : Fin asyncQueueDepth)
    (n : UInt32) (hi : l.held i = some n) (hj : l.held j = some n) : i = j := by
  obtain ⟨howni, -, hseqi⟩ := held_eq_some.1 hi
  obtain ⟨hownj, -, hseqj⟩ := held_eq_some.1 hj
  have hnodup : l.ledger.outstanding.Nodup := by
    rw [h]
    exact Multiset.coe_nodup.2 (nodup_from32 _ (Nat.le_trans (card_outstanding_le l) (by decide)))
  exact SlotTable.eq_of_nodup_map_live hnodup howni hownj (hseqi.trans hseqj.symm)

namespace Gateway

/-! ## Runs of submissions, work and flushes -/

/-- An event of a gateway whose sessions send blocking commands. -/
inductive PassEvent where
  /-- Worker `w` creates the session of a connection. -/
  | connect (w : ℕ) (fd : ℤ)
  /-- A session submits a frame. -/
  | submit (sid : ℕ) (f : Frame)
  /-- The background thread is at a slot. -/
  | work (i : Fin asyncQueueDepth)
  /-- Worker `w` flushes the task table. -/
  | flush (w : ℕ)
  /-- A session writes its responses. -/
  | write (sid : ℕ)
  /-- The sockets get ready for the calls of a new script. -/
  | sockets (script : List IoOutcome)

/-- A frame of a session, if it is one that is submitted. -/
def submitFrame (t : RouterTable W) (f : Frame) (cs : Session) (g : Gateway W) : Gateway W :=
  if (⟨cs, g.shared⟩ : Link W).submits t f then
    g.put (tcpReact cs.ident.owner t (.frame f) ⟨cs, g.shared⟩)
  else g

/-- One event. -/
def passStep (t : RouterTable W) (g : Gateway W) : PassEvent → Gateway W
  | .connect w fd =>
    match g.sessionGet w fd with
    | some _ => g
    | none => g.addSession (Session.create ⟨g.nextSid, w, fd⟩)
  | .submit sid f =>
    match g.live (some sid) with
    | some cs => g.submitFrame t f cs
    | none => g
  | .work i => { g with shared := g.shared.work i }
  | .flush w => g.flushCompleted w
  | .write sid =>
    match g.live (some sid) with
    | some cs => g.put (handlerWrite cs.ident.owner ⟨cs, g.shared⟩).link
    | none => g
  | .sockets script => { g with shared := { g.shared with script := script } }

/-- No completed task of a live session has the number the session expects. -/
def NothingDue (g : Gateway W) : Prop :=
  ∀ cs ∈ g.sessions, ∀ i, (g.shared.queue i).own cs.ident = true →
    (g.shared.queue i).completed = true → (g.shared.queue i).seq ≠ cs.respSeqExpected

/-- For every session, the completed tasks from the expected one on, as far as there is no gap,
stand in the table in the order of their numbers. -/
def SlotsInOrder (g : Gateway W) : Prop :=
  ∀ cs ∈ g.sessions, OnePass.InOrder cs.respSeqExpected (⟨cs, g.shared⟩ : Link W).held

/-- The sessions are in line, and every task has its session. -/
structure Orderly (g : Gateway W) : Prop where
  routed : g.Routed
  housed : ∀ i, (g.shared.queue i).valid = true →
    ∃ id ∈ g.roll.directory, (g.shared.queue i).targetCs = some id.sid
  inLine : g.AllSessions fun l => l.ledger.InLine

variable {g : Gateway W}

theorem Orderly.heirless (h : g.Orderly) (w : ℕ) (i : Fin asyncQueueDepth) : Heirless w g i := by
  intro hf hgone
  obtain ⟨id, hid, ht⟩ := h.housed i (AsyncTask.valid_of_flushable hf)
  exact absurd ht.symm (live_eq_none.1 hgone id hid)

/-- Nothing happens to the sessions, and no task is added. -/
theorem Orderly.mono (h : g.Orderly) {g' : Gateway W} (hdir : g'.roll.directory = g.roll.directory)
    (hsid : g'.nextSid = g.nextSid) (hq : QueueKeeps g.shared.queue g'.shared.queue)
    (hin : g'.AllSessions fun l => l.ledger.InLine) : g'.Orderly where
  routed := h.routed.mono (by rw [hdir]) hsid hq
  housed i hv := by
    obtain ⟨hv', ht, -⟩ := hq i hv
    rw [hdir, ht]
    exact h.housed i hv'
  inLine := hin

/-- A session is put back after a call that submitted its own tasks only. -/
theorem Orderly.put (h : g.Orderly) {cs : Session} (hcs : cs ∈ g.sessions) {l : Link W}
    (hid : l.cs.ident = cs.ident) (hq : QueueFills cs.ident g.shared.queue l.sh.queue)
    (hl : l.ledger.InLine) : (g.put l).Orderly where
  routed := h.routed.put (List.mem_map_of_mem hcs) hq.grows
  housed i hv := by
    rw [roll_put]
    rcases hq.grows i hv with ⟨hv', ht, -⟩ | ⟨ht, -⟩
    · obtain ⟨id, hid, ht'⟩ := h.housed i hv'
      exact ⟨id, hid, ht.trans ht'⟩
    · exact ⟨cs.ident, List.mem_map_of_mem hcs, ht⟩
  inLine := by
    refine AllSessions.put othersKeep_inLine hl fun cs' hcs' hne => ⟨h.inLine cs' hcs', ?_⟩
    refine hq.sameTasks fun hsid => hne ?_
    rw [hid]
    exact h.routed.eq_of_sid (List.mem_map_of_mem hcs') (List.mem_map_of_mem hcs) hsid.symm

theorem Orderly.addSession (h : g.Orderly) (w : ℕ) (fd : ℤ) :
    (g.addSession (Session.create ⟨g.nextSid, w, fd⟩)).Orderly where
  routed := h.routed.addSession rfl
  housed i hv := by
    obtain ⟨id, hid, ht⟩ := h.housed i hv
    exact ⟨id, by rw [roll_addSession]; exact List.mem_append_left _ hid, ht⟩
  inLine := by
    intro cs hcs
    rcases List.mem_append.1 hcs with hcs | hcs
    · exact h.inLine cs hcs
    · rw [List.mem_singleton.1 hcs]
      have hfresh := h.routed.fresh_create (w := w) fd
      have h0 := outstanding_eq_zero.2 hfresh.queue
      refine ⟨Ledger.consecutive_of_zero h0, ?_⟩
      rw [Ledger.Lost, Gateway.addSession, h0]
      rfl

theorem Orderly.flushSlot (h : g.Orderly) (w : ℕ) (i : Fin asyncQueueDepth) :
    (g.flushSlot w i).Orderly := by
  refine h.mono (by rw [roll_flushSlot]) ?_ (queueKeeps_flushSlot w i g) ?_
  · exact flushSlot_keeps (P := fun g' => g'.nextSid = g.nextSid) rfl (fun _ _ => rfl) rfl
  · exact AllSessions.flushSlot othersKeep_inLine (fun _ hl => inLine_flushOwn w i hl) h.inLine
      h.routed (h.heirless w i)

theorem Orderly.step (h : g.Orderly) (t : RouterTable W) (e : PassEvent) :
    (passStep t g e).Orderly := by
  cases e with
  | connect w fd =>
    rw [passStep]
    cases g.sessionGet w fd with
    | some _ => exact h
    | none => exact h.addSession w fd
  | submit sid f =>
    rw [passStep]
    cases hl : g.live (some sid) with
    | none => exact h
    | some cs =>
      have hcs := (mem_of_live hl).1
      simp only [submitFrame]
      split_ifs with hs
      · refine h.put hcs (ident_tcpReact ..) (queueFills_tcpReact _ _ _ _) ?_
        rw [ledger_react]
        simp only [if_pos hs]
        exact Ledger.inLine_submit (h.inLine cs hcs)
      · exact h
  | work i =>
    refine h.mono rfl rfl (queueKeeps_work g.shared i) fun cs hcs => ?_
    show (⟨cs, g.shared.work i⟩ : Link W).ledger.InLine
    rw [ledger_work i (⟨cs, g.shared⟩ : Link W)]
    exact h.inLine cs hcs
  | flush w => exact flushCompleted_keeps (P := Orderly) (fun _ i h => h.flushSlot w i) h
  | write sid =>
    rw [passStep]
    cases hl : g.live (some sid) with
    | none => exact h
    | some cs =>
      have hcs := (mem_of_live hl).1
      have hq : (handlerWrite cs.ident.owner ⟨cs, g.shared⟩).link.sh.queue = g.shared.queue :=
        (handlerWrite_link _ _).2.trans (queue_writeLoop ..)
      refine h.put hcs (congrArg Received.ident (handlerWrite_received _ _)) (.of_eq hq) ?_
      rw [ledger_handlerWrite]
      exact h.inLine cs hcs
  | sockets script => exact h.mono rfl rfl (queueKeeps_of_eq rfl) h.inLine

theorem Started.orderly (h : g.Started) : g.Orderly where
  routed := h.routed
  housed i hv := by
    rw [h.queue i] at hv
    cases hv
  inLine cs hcs := by
    rw [h.sessions] at hcs
    cases hcs

/-! ## A flush is a pass for each session -/

theorem due_flushSlots (w : ℕ) (id : SessionIdent) (is : List (Fin asyncQueueDepth))
    {d : UInt32 × (Fin asyncQueueDepth → Option UInt32)} (h : g.Orderly)
    (hd : g.AllSessions fun l => l.cs.ident = id → l.due = d) :
    (is.foldl (fun g i => g.flushSlot w i) g).AllSessions fun l =>
      l.cs.ident = id → l.due = OnePass.pass d is := by
  induction is generalizing g d with
  | nil => exact hd
  | cons i is ih =>
    refine ih (h.flushSlot w i) (AllSessions.flushSlot (othersKeep_due id _) (fun l hl hid => ?_)
      hd h.routed (h.heirless w i))
    rw [ident_flushOwn] at hid
    rw [due_flushOwn, hl hid]

/-- A flush acts on the numbers of a session as one pass over the slots. -/
theorem due_flushCompleted (w : ℕ) (h : g.Orderly) {cs cs' : Session} (hcs : cs ∈ g.sessions)
    (hcs' : cs' ∈ (g.flushCompleted w).sessions) (hid : cs'.ident = cs.ident) :
    (⟨cs', (g.flushCompleted w).shared⟩ : Link W).due =
      OnePass.pass (⟨cs, g.shared⟩ : Link W).due (List.finRange asyncQueueDepth) := by
  refine due_flushSlots w cs.ident _ h (fun cs'' hcs'' hid' => ?_) cs' hcs' hid
  have hnodup : (g.sessions.map fun cs => cs.ident.sid).Nodup := by
    have hdistinct := h.routed.distinct
    rwa [roll, List.map_map] at hdistinct
  have hsame : cs'' = cs :=
    List.inj_on_of_nodup_map hnodup hcs'' hcs (congrArg SessionIdent.sid hid')
  rw [hsame]

theorem nothingDue_iff : g.NothingDue ↔
    g.AllSessions fun l => ∀ i, l.due.2 i ≠ some l.due.1 := by
  refine forall₂_congr fun cs _ => forall_congr' fun i => ?_
  show _ ↔ (⟨cs, g.shared⟩ : Link W).held i ≠ some cs.respSeqExpected
  simp only [ne_eq, held_eq_some]
  tauto

/-- After one pass over all slots nothing is due exactly when the slots were in order. -/
theorem Orderly.nothingDue_pass_iff (h : g.Orderly) {g' : Gateway W}
    (hdir : g'.roll.directory = g.roll.directory) {is : List (Fin asyncQueueDepth)}
    (his : is.Pairwise (· < ·)) (hall : ∀ i, i ∈ is) (hlen : is.length < 2 ^ 32)
    (hpass : ∀ cs ∈ g.sessions, ∀ cs' ∈ g'.sessions, cs'.ident = cs.ident →
      (⟨cs', g'.shared⟩ : Link W).due = OnePass.pass (⟨cs, g.shared⟩ : Link W).due is) :
    g'.NothingDue ↔ g.SlotsInOrder := by
  have hsession : ∀ cs ∈ g.sessions, ∀ cs' ∈ g'.sessions, cs'.ident = cs.ident →
      ((∀ i, (⟨cs', g'.shared⟩ : Link W).due.2 i ≠ some (⟨cs', g'.shared⟩ : Link W).due.1) ↔
        OnePass.InOrder cs.respSeqExpected (⟨cs, g.shared⟩ : Link W).held) := by
    intro cs hcs cs' hcs' hid
    rw [hpass cs hcs cs' hcs' hid]
    exact OnePass.complete_iff (held_injective (h.inLine cs hcs).1) his hall hlen
  rw [nothingDue_iff]
  constructor
  · intro hnone cs hcs
    have hmem : cs.ident ∈ g'.roll.directory := hdir ▸ List.mem_map_of_mem hcs
    obtain ⟨cs', hcs', hid⟩ := List.mem_map.1 hmem
    exact (hsession cs hcs cs' hcs' hid).1 (hnone cs' hcs')
  · intro horder cs' hcs'
    have hmem : cs'.ident ∈ g.roll.directory := hdir ▸ List.mem_map_of_mem hcs'
    obtain ⟨cs, hcs, hid⟩ := List.mem_map.1 hmem
    exact (hsession cs hcs cs' hcs' hid.symm).2 (horder cs hcs)

theorem Orderly.nothingDue_flushCompleted_iff (h : g.Orderly) (w : ℕ) :
    (g.flushCompleted w).NothingDue ↔ g.SlotsInOrder :=
  h.nothingDue_pass_iff (by rw [roll_flushCompleted]) (List.pairwise_lt_finRange _)
    List.mem_finRange (List.length_finRange.trans_lt (by decide))
    fun _ hcs _ hcs' hid => due_flushCompleted w h hcs hcs' hid

/-- In every state a gateway reaches by submissions, background work, flushes and writes, a
flush leaves no task due exactly when the tasks from the expected ones on stand in the order of
their numbers. -/
theorem flush_complete_iff (t : RouterTable W) {g : Gateway W} (hg : g.Started)
    (es : List PassEvent) (w : ℕ) :
    ((Runs.run (passStep t) g es).flushCompleted w).NothingDue ↔
      (Runs.run (passStep t) g es).SlotsInOrder :=
  (Runs.run_keeps (fun _ e h => h.step t e) hg.orderly es).nothingDue_flushCompleted_iff w

/-- One blocking command is submitted and run. -/
def oneStartRead : List PassEvent :=
  [.connect 0 7, .submit 0 startRead, .work firstSlot]

theorem flush_complete_startRead :
    ((Runs.run (passStep cmdTable) idleGateway oneStartRead).flushCompleted 0).NothingDue := by
  refine (flush_complete_iff cmdTable idleGateway_started oneStartRead 0).2 ?_
  have hzero : ∀ cs ∈ (Runs.run (passStep cmdTable) idleGateway oneStartRead).sessions, ∀ i,
      (⟨cs, (Runs.run (passStep cmdTable) idleGateway oneStartRead).shared⟩ : Link Unit).held i ∈
        [none, some 0] := by
    decide +kernel
  intro cs hcs k i j _ hi hj
  -- only the number 0 is held, and the next one is another
  have hk := hzero cs hcs i
  have hk' := hzero cs hcs j
  rw [hi] at hk
  rw [hj] at hk'
  simp only [List.mem_cons, reduceCtorEq, Option.some.injEq, List.not_mem_nil, or_false,
    false_or] at hk hk'
  have hnat := congrArg UInt32.toNat (hk.trans hk'.symm)
  have he := cs.respSeqExpected.toNat_lt
  simp only [UInt32.toNat_add, UInt32.toNat_ofNat'] at hnat
  omega

/-- The second slot of the task table. -/
def secondSlot : Fin asyncQueueDepth :=
  ⟨1, Nat.succ_lt_succ (Nat.zero_lt_succ 510)⟩

/-- A command is answered while the next one is in the second slot, and the one after that
takes the first slot again. -/
def slotReused : List PassEvent :=
  [.connect 0 7, .submit 0 startRead, .work firstSlot, .submit 0 startRead, .flush 0,
    .submit 0 startRead, .work firstSlot, .work secondSlot]

/-- A flush delivers the second command, and leaves the third one, which is now expected. -/
theorem due_after_flush : ¬∀ (g : Gateway Unit) (es : List PassEvent) (w : ℕ), g.Started →
    ((Runs.run (passStep cmdTable) g es).flushCompleted w).NothingDue := by
  intro h
  have horderly : (Runs.run (passStep cmdTable) idleGateway slotReused).Orderly :=
    Runs.run_keeps (I := fun g : Gateway Unit => g.Orderly) (fun _ e h => h.step cmdTable e)
      idleGateway_started.orderly slotReused
  have horder := (horderly.nothingDue_flushCompleted_iff 0).1 (h _ slotReused 0 idleGateway_started)
  have hheld : ∃ cs ∈ (Runs.run (passStep cmdTable) idleGateway slotReused).sessions,
      cs.respSeqExpected = 1 ∧
      (⟨cs, (Runs.run (passStep cmdTable) idleGateway slotReused).shared⟩ : Link Unit).held
        secondSlot = some 1 ∧
      (⟨cs, (Runs.run (passStep cmdTable) idleGateway slotReused).shared⟩ : Link Unit).held
        firstSlot = some 2 := by
    decide +kernel
  obtain ⟨cs, hcs, he, hsecond, hfirst⟩ := hheld
  have hlt : secondSlot < firstSlot := by
    refine horder cs hcs 0 secondSlot firstSlot (fun m hm => ⟨secondSlot, ?_⟩) ?_ ?_
    · rw [Nat.le_zero.1 hm, he]
      exact hsecond
    · rw [he]
      exact hsecond
    · rw [he]
      exact hfirst
  exact absurd hlt (by decide)

end Gateway

end Xlab
