import Xlab.Answers
import Xlab.Arming
import Xlab.Projection
import Xlab.Receiving

/-!
# Every request gets its own answer

`client_reads_answers` is about a session whose steps are in turn. Here nothing is asked of the
order of the steps or of what the sends take. `Attributed` says that the responses built for a
session fall into groups, one for each item they settle, and that the frames among these items and
those of the tasks in the table are the frames recognised, each once. So no request is forgotten,
none is settled twice, and no response holds what a handler reported to someone else.

A direct answer that cannot be sent has an error behind it, and a task whose response finds the ring
full is answered BUSY. `Settled` lists these cases.

`Gateway.requests_attributed` : it holds of every session at every moment of a run of the gateway,
whatever the other clients do, as long as no flush meets an heir.
-/

namespace Xlab

variable {W : Type}

/-! ## Groups of responses -/

/-- What a handler is asked : a command and its payload. -/
def Frame.command (f : Frame) : UInt8 × List UInt8 :=
  (f.cmd, f.payload)

/-- What the handler of a task is asked. -/
def AsyncTask.command (task : AsyncTask W) : UInt8 × List UInt8 :=
  (task.cmdCode, task.args)

/-- The responses built for an item. -/
inductive Settled (t : RouterTable W) : Item → List Response → Prop
  | answered {it : Item} {resp : Response} (h : resp.Answers t it) : Settled t it [resp]
  | unsent {f : Frame} {resp : Response} {seq : UInt32} (h : resp.Answers t (.frame f)) :
    Settled t (.frame f) [resp, routerBuildResponse f.cmd errInternal [] seq]
  | busy {f : Frame} {e : RouterEntry W} {seq : UInt32} (he : routerLookup t f.cmd = some e)
    (hb : e.blocking = true) : Settled t (.frame f) [routerBuildResponse f.cmd errBusBusy [] seq]

/-- The responses settle some items, and the frames recognised are those among these items and
those that wait. -/
def Accounted (t : RouterTable W) (built : List Response)
    (waiting : Multiset (UInt8 × List UInt8)) (recognised : List Frame) : Prop :=
  ∃ groups : List (Item × List Response), groups.flatMap Prod.snd = built ∧
    (∀ g ∈ groups, Settled t g.1 g.2) ∧
      ((framesOf (groups.map Prod.fst)).map Frame.command : Multiset _) + waiting =
        (recognised.map Frame.command : Multiset _)

/-- The responses and the tasks of the session account for the frames it recognised. -/
structure Attributed (t : RouterTable W) (l : Link W) : Prop where
  tasks : ∀ i, (l.sh.queue i).own l.cs.ident = true → ∃ f, (l.sh.queue i).For t f
  accounted : Accounted t l.cs.built (l.control.tasks.map AsyncTask.command) l.cs.recognised

variable {w : ℕ} {t : RouterTable W} {f : Frame} {l : Link W}

theorem AsyncTask.For.command {task : AsyncTask W} (h : task.For t f) :
    task.command = f.command := by
  rw [AsyncTask.command, h.cmdCode, h.args]
  rfl

theorem built_sendOrQueue (w : ℕ) (resp : Response) (l : Link W) :
    (sendOrQueue w resp l).2.cs.built = l.cs.built := by
  rcases sendOrQueue_cases w resp l with ⟨-, h⟩ | ⟨-, h | ⟨q, -, h⟩⟩ <;> rw [h] <;> rfl

/-- A direct answer builds the response, and an error behind it when it cannot be sent. -/
theorem settled_directAnswer (w : ℕ) (t : RouterTable W) (f : Frame) (seq : UInt32)
    (l : Link W) : ∃ resps, (directAnswer w t f seq l).cs.built = l.cs.built ++ resps ∧
      Settled t (.frame f) resps := by
  have hanswers := answers_directResponse t f seq l.sh.world
  by_cases ha : routerAccepts t f = true
  · obtain ⟨resp, hr⟩ := routerProcess_accepts ha seq l.sh.world
    have hsome : (routerLookup t f.cmd).isSome = true := by
      unfold routerAccepts at ha
      cases he : routerLookup t f.cmd with
      | none => simp [he] at ha
      | some e => rfl
    rw [directResponse, hr] at hanswers
    simp only [directAnswer, syncAnswer, hr]
    split_ifs with hsent
    · exact ⟨[resp], built_sendOrQueue _ _ _, .answered hanswers⟩
    · refine ⟨[resp, routerBuildResponse f.cmd errInternal [] seq], ?_, .unsent hanswers⟩
      rw [errorAnswer, hsome]
      refine (congrArg (· ++ _) (built_sendOrQueue _ _ _)).trans ?_
      simp [Link.build]
  · obtain ⟨code, hr⟩ := routerProcess_rejects (Bool.not_eq_true _ ▸ ha) seq l.sh.world
    rw [directResponse, hr] at hanswers
    refine ⟨_, ?_, .answered hanswers⟩
    simp only [directAnswer, syncAnswer, hr]
    rfl

namespace Accounted

variable {built resps : List Response} {waiting : Multiset (UInt8 × List UInt8)}
  {recognised : List Frame}

/-- A broken frame is settled. -/
theorem broken (h : Accounted t built waiting recognised) {it : Item} (hs : Settled t it resps)
    (hit : framesOf [it] = []) : Accounted t (built ++ resps) waiting recognised := by
  obtain ⟨groups, hbuilt, hall, hreqs⟩ := h
  refine ⟨groups ++ [(it, resps)], ?_, ?_, ?_⟩
  · simp [hbuilt]
  · exact List.forall_mem_append.2 ⟨hall, List.forall_mem_singleton.2 hs⟩
  · rw [List.map_append, framesOf_append, List.map_singleton, hit, List.append_nil, hreqs]

/-- A frame is recognised and waits. -/
theorem submit (h : Accounted t built waiting recognised) (f : Frame) :
    Accounted t built (f.command ::ₘ waiting) (recognised ++ [f]) := by
  obtain ⟨groups, hbuilt, hall, hreqs⟩ := h
  refine ⟨groups, hbuilt, hall, ?_⟩
  rw [Multiset.add_cons, hreqs, List.map_append, ← Multiset.coe_add, Multiset.add_comm]
  rfl

/-- A frame that waits is settled. -/
theorem deliver (h : Accounted t built (f.command ::ₘ waiting) recognised)
    (hs : Settled t (.frame f) resps) : Accounted t (built ++ resps) waiting recognised := by
  obtain ⟨groups, hbuilt, hall, hreqs⟩ := h
  refine ⟨groups ++ [(.frame f, resps)], ?_, ?_, ?_⟩
  · simp [hbuilt]
  · exact List.forall_mem_append.2 ⟨hall, List.forall_mem_singleton.2 hs⟩
  · rw [List.map_append, framesOf_append, List.map_append, ← Multiset.coe_add,
      Multiset.add_assoc, ← hreqs]
    exact congrArg _ (Multiset.singleton_add f.command waiting)

end Accounted

namespace Attributed

theorem fresh (hl : l.Fresh) : Attributed t l where
  tasks i hi := by
    rw [hl.queue i] at hi
    cases hi
  accounted := by
    have hnone : l.control.tasks = 0 := SlotTable.live_eq_zero.2 hl.queue
    rw [hnone, hl.cs]
    exact ⟨[], rfl, List.forall_mem_nil _, rfl⟩

/-- A step that leaves the tasks of the session as they are. -/
theorem congr (h : Attributed t l) {l' : Link W} (hid : l'.cs.ident = l.cs.ident)
    (hq : SameTasks l.cs.ident l.sh.queue l'.sh.queue)
    (hacc : Accounted t l'.cs.built (l.control.tasks.map AsyncTask.command) l'.cs.recognised) :
    Attributed t l' := by
  have htasks : l'.control.tasks = l.control.tasks := by
    rw [Control.tasks, Control.tasks, Link.control, Link.control, hid]
    exact SlotTable.live_congr hq
  refine ⟨fun i hi => ?_, ?_⟩
  · rw [hid] at hi
    have hsame := hq i (Or.inl hi)
    rw [hsame] at hi ⊢
    exact h.tasks i hi
  · rw [htasks]
    exact hacc

theorem broken (h : Attributed t l) {it : Item} (hit : it = .incomplete ∨ it = .chkErr) :
    Attributed t (badFrame l) := by
  have hc : (badFrame l).control = _ := sockSend_control _ _
  refine h.congr (congrArg Control.ident hc) (sameTasks_of_eq (congrArg Control.queue hc)) ?_
  refine h.accounted.broken (.answered (answers_badFrame l.cs.nextReqSeq hit)) ?_
  rcases hit with rfl | rfl <;> rfl

theorem submit (h : Attributed t l) (hs : l.submits t f = true) (w : ℕ) :
    Attributed t (tcpFrame w t f l) := by
  obtain ⟨e, i, he, hb, hi, h'⟩ := tcpFrame_of_submits hs w
  rw [h']
  have hfor : (l.task f e i).For t f := .submitted he hb i
  have hfree := own_eq_false_of_not_valid (SlotTable.free_of_firstFree hi) l.cs.ident
  have hfill := SlotTable.live_fill (p := AsyncTask.own l.cs.ident) hfree (task_own l f e i)
  refine ⟨fun j hj => ?_, ?_⟩
  · by_cases hji : j = i
    · subst hji
      exact ⟨f, by simpa using hfor⟩
    · simp only [Function.update_of_ne hji] at hj ⊢
      exact h.tasks j hj
  · have hwaiting := congrArg (Multiset.map AsyncTask.command) hfill
    rw [Multiset.map_cons, hfor.command] at hwaiting
    exact hwaiting ▸ h.accounted.submit f

/-- A frame that is not submitted is settled at once. -/
theorem direct (h : Attributed t l) (hs : l.submits t f = false) (w : ℕ) :
    Attributed t (tcpFrame w t f l) := by
  have hrec := congrArg Received.recognised (tcpReact_received w t (.frame f) l)
  have hc := directAnswer_control w t f l.cs.nextReqSeq (l.recognise f)
  obtain ⟨resps, hbuilt, hsettled⟩ := settled_directAnswer w t f l.cs.nextReqSeq (l.recognise f)
  rw [tcpReact] at hrec
  rw [← tcpFrame_of_not_submits hs] at hc hbuilt
  refine h.congr (congrArg Control.ident hc) (sameTasks_of_eq (congrArg Control.queue hc)) ?_
  have hrec' : (tcpFrame w t f l).cs.recognised = l.cs.recognised ++ [f] := hrec
  rw [hbuilt, hrec']
  exact (h.accounted.submit f).deliver hsettled

theorem react (h : Attributed t l) (w : ℕ) (it : Item) : Attributed t (tcpReact w t it l) := by
  cases it with
  | incomplete => exact h.broken (Or.inl rfl)
  | chkErr => exact h.broken (Or.inr rfl)
  | frame f =>
    by_cases hs : l.submits t f = true
    · exact h.submit hs w
    · exact h.direct (Bool.not_eq_true _ ▸ hs) w

/-- The slot of a delivered task is freed. -/
theorem deliver (h : Attributed t l) {i : Fin asyncQueueDepth} (hd : l.deliverable i = true)
    (w : ℕ) : Attributed t (flushOwn w i l) := by
  have hc := control_flushOwn hd w
  have hid : (flushOwn w i l).cs.ident = l.cs.ident := (congrArg Control.ident hc).trans rfl
  have hqueue : (flushOwn w i l).sh.queue = l.sh.queue.free i :=
    (congrArg Control.queue hc).trans rfl
  have hrec : (flushOwn w i l).cs.recognised = l.cs.recognised :=
    congrArg Prod.snd (inbox_flushOwn w i l)
  obtain ⟨hf, howned⟩ := Bool.and_eq_true_iff.1 (Link.deliverable_own hd)
  have hown : (l.sh.queue i).own l.cs.ident = true :=
    Bool.and_eq_true_iff.2 ⟨AsyncTask.valid_of_flushable hf, howned⟩
  have hfreed : (l.sh.queue i).freed.own l.cs.ident = false := own_eq_false_of_not_valid rfl _
  obtain ⟨f, hfor⟩ := h.tasks i hown
  have hsettled : ∃ resps, (flushOwn w i l).cs.built = l.cs.built ++ resps ∧
      Settled t (.frame f) resps := by
    obtain ⟨e, he, hb, -⟩ := hfor.entry
    rcases output_flushOwn hd w with ⟨-, ho⟩ | ⟨q, -, ho⟩
    · refine ⟨[(l.sh.queue i).busy], congrArg Output.built ho, ?_⟩
      rw [AsyncTask.busy, hfor.cmdCode]
      exact .busy he hb
    · exact ⟨[(l.sh.queue i).response], congrArg Output.built ho,
        .answered (hfor.answers (Bool.and_eq_true_iff.1 hf).2)⟩
  obtain ⟨resps, hbuilt, hsettled⟩ := hsettled
  have hwaiting := congrArg (Multiset.map AsyncTask.command) (SlotTable.live_free hown hfreed)
  rw [Multiset.map_cons, hfor.command] at hwaiting
  refine ⟨fun j hj => ?_, ?_⟩
  · rw [hid, hqueue, AsyncQueue.free] at hj
    rw [hqueue, AsyncQueue.free]
    by_cases hji : j = i
    · subst hji
      rw [Function.update_self, hfreed] at hj
      cases hj
    · rw [Function.update_of_ne hji] at hj ⊢
      exact h.tasks j hj
  · have htasks : (flushOwn w i l).control.tasks =
        SlotTable.live (AsyncTask.own l.cs.ident) (l.sh.queue.free i) := by
      rw [hc]
      exact rfl
    rw [hbuilt, hrec, htasks]
    exact Accounted.deliver (hwaiting ▸ h.accounted) hsettled

/-- The background thread runs handlers and asks nothing else of them. -/
theorem work (h : Attributed t l) (i : Fin asyncQueueDepth) :
    Attributed t ⟨l.cs, l.sh.work i⟩ := by
  refine ⟨fun j hj => ?_, ?_⟩
  · by_cases hji : j = i
    · subst hji
      simp only [work_queue_self] at hj ⊢
      split_ifs at hj ⊢
      · obtain ⟨f, hfor⟩ := h.tasks j hj
        exact ⟨f, hfor.finished l.sh.world⟩
      · exact h.tasks j hj
    · simp only [work_queue_of_ne _ hji] at hj ⊢
      exact h.tasks j hj
  · have hwaiting : Multiset.map AsyncTask.command (⟨l.cs, l.sh.work i⟩ : Link W).control.tasks =
        l.control.tasks.map AsyncTask.command := by
      simp only [Control.tasks, Link.control, Shared.work, asyncWorkSlot]
      split_ifs
      · exact SlotTable.map_live_update _ rfl rfl
      · rfl
    rw [hwaiting]
    exact h.accounted

/-- Every step of a session accounts for its frames. -/
theorem step (h : Attributed t l) (w : ℕ) {e : LinkEvent W} (hA : Admissible l e) :
    Attributed t (linkStep w t l e) := by
  cases e with
  | others sh => exact h.congr rfl hA h.accounted
  | body bytes => exact ⟨h.tasks, h.accounted⟩
  | react it => exact h.react w it
  | work i => exact h.work i
  | flush w' i =>
    by_cases hd : l.deliverable i = true
    · exact h.deliver hd w'
    · rw [linkStep, flushOwn_of_not_deliverable (Bool.not_eq_true _ ▸ hd)]
      exact h
  | turn =>
    have hc := writeTurn_control l
    refine h.congr (congrArg Control.ident hc) (sameTasks_of_eq (congrArg Control.queue hc)) ?_
    have hrec := congrArg Received.recognised (writeTurn_received l)
    have hrec' : (writeTurn l).2.cs.recognised = l.cs.recognised := hrec
    rw [linkStep, writeTurn_built, hrec']
    exact h.accounted

end Attributed

namespace Gateway

/-- In a run of the gateway in which no flush meets an heir, at every moment the responses built for
a session and its tasks in the table account for the frames it recognised. -/
theorem requests_attributed (s : Setup W) {g : Gateway W} (hg : g.Started) (es : List Event)
    (hn : Runs.Guarded (step s) (NoHeirs s) g es) {cs : Session}
    (hcs : cs ∈ (Runs.run (step s) g es).sessions) :
    Attributed s.table ⟨cs, (Runs.run (step s) g es).shared⟩ := by
  obtain ⟨l, hfresh, -, fs, hA, hrun⟩ := hg.reached hn cs hcs
  rw [← hrun]
  exact Runs.run_invariant (fun _ _ h hA => h.step _ hA) (.fresh hfresh) hA

/-- A client submits a task, which runs and is flushed. -/
def flushedRead : List Event :=
  submittedRead ++ [.epoll 0 3 .input (.data [])]

theorem requests_attributed_flushedRead :
    (Runs.run (step idleSetup) idleGateway flushedRead).sessions ≠ [] ∧
      ∀ cs ∈ (Runs.run (step idleSetup) idleGateway flushedRead).sessions,
        Attributed idleSetup.table
          ⟨cs, (Runs.run (step idleSetup) idleGateway flushedRead).shared⟩ := by
  refine ⟨by decide +kernel, fun cs hcs => requests_attributed idleSetup idleGateway_started
    flushedRead ⟨nofun, nofun, ?_, nofun, ?_, trivial⟩ hcs⟩
  · rintro w r ⟨⟩
  · rintro w r ⟨⟩
    decide +kernel

end Gateway

end Xlab
