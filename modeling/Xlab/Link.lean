import Xlab.Runs
import Xlab.Flush

/-!
# Runs of one session

A session changes in small steps : bytes arrive, the scan loop reacts to an item, the
background thread runs the handler of a slot, a flush looks at a slot, the write loop makes a
turn, and the rest of the gateway changes what is shared. `linkStep` is such a step. Nothing
says in which order the steps come, so the runs cover every interleaving of the event loop
that owns the session, the background thread, and the event loops of other workers.

The calls of the code are runs of these steps : `connParse_run` a read, `handlerWrite_run` a
write, `flushCompleted_run` a flush, `asyncWorkerBatch_run` a batch. What holds of every run of
steps holds of every run of calls. `Leads` says that some run leads from one state to another,
whichever it is.
-/

open Scanner

namespace Xlab

variable {W : Type}

/-- A step of a session. -/
inductive LinkEvent (W : Type) where
  /-- The rest of the gateway acts, and the socket gets ready for the calls of a new script. -/
  | others (sh : Shared W)
  /-- The body changes, as bytes are read into it or cleaned up. -/
  | body (bytes : List UInt8)
  /-- The scan loop reacts to an item. -/
  | react (it : Item)
  /-- The background thread is at a slot. -/
  | work (i : Fin asyncQueueDepth)
  /-- A flush in the event loop of worker `w` is at a slot. -/
  | flush (w : ℕ) (i : Fin asyncQueueDepth)
  /-- The write loop makes a turn. -/
  | turn

/-- A step of a session of worker `w`. -/
def linkStep (w : ℕ) (t : RouterTable W) (l : Link W) : LinkEvent W → Link W
  | .others sh => { l with sh := sh }
  | .body bytes => l.setBody bytes
  | .react it => tcpReact w t it l
  | .work i => { l with sh := l.sh.work i }
  | .flush w' i => flushOwn w' i l
  | .turn => (writeTurn l).2

/-- The slot holds a task of the session. -/
def AsyncTask.own (id : SessionIdent) (t : AsyncTask W) : Bool :=
  t.valid && t.ownedBy id

/-- What the rest of the gateway may do : it leaves the tasks of the session alone and adds
none. -/
def Admissible (l : Link W) : LinkEvent W → Prop
  | .others sh => ∀ i, (sh.queue i).own l.cs.ident = true ∨ (l.sh.queue i).own l.cs.ident = true →
      sh.queue i = l.sh.queue i
  | _ => True

/-- A session as it is created, next to anything that has no task of it. -/
structure Link.Fresh (l : Link W) : Prop where
  cs : l.cs = Session.create l.cs.ident
  queue : ∀ i, (l.sh.queue i).own l.cs.ident = false

theorem idleLink_fresh : idleLink.Fresh :=
  ⟨rfl, fun _ => rfl⟩

/-! ## The calls are runs -/

theorem foldl_eq_run {ε : Type} (w : ℕ) (t : RouterTable W) (f : Link W → ε → Link W)
    (g : ε → LinkEvent W) (h : ∀ l e, f l e = linkStep w t l (g e)) (es : List ε) (l : Link W) :
    es.foldl f l = Runs.run (linkStep w t) l (es.map g) := by
  rw [Runs.run, List.foldl_map]
  congr 1
  funext l e
  exact h l e

/-- A read is a run : the bytes arrive, the loop reacts to the items, the body is cleaned. -/
theorem connParse_run (w : ℕ) (t : RouterTable W) (chunk : List UInt8) (l : Link W) :
    connParse w t chunk l = Runs.run (linkStep w t) l
      (.body (l.cs.body ++ chunk) :: (itemsOf (l.cs.body ++ chunk)).map .react ++
        [.body (scan classify 0 (l.cs.body ++ chunk)).2]) := by
  rw [connParse_eq, reactAll,
    foldl_eq_run w t (fun l it => tcpReact w t it l) .react fun _ _ => rfl, Runs.run_append]
  rfl

/-- A flush is a run over the slots. -/
theorem flushCompleted_run (w w' : ℕ) (t : RouterTable W) (l : Link W) :
    flushCompleted w' l = Runs.run (linkStep w t) l ((List.finRange asyncQueueDepth).map
      (.flush w')) :=
  foldl_eq_run w t _ (.flush w') (fun _ _ => rfl) _ l

/-- A batch of the background thread is a run over the slots. -/
theorem asyncWorkerBatch_run (w : ℕ) (t : RouterTable W) (l : Link W) :
    (⟨l.cs, asyncWorkerBatch l.sh⟩ : Link W) = Runs.run (linkStep w t) l
      ((List.finRange asyncQueueDepth).map .work) := by
  rw [← foldl_eq_run w t (fun l i => ⟨l.cs, l.sh.work i⟩) .work fun _ _ => rfl, asyncWorkerBatch]
  generalize List.finRange asyncQueueDepth = is
  induction is generalizing l with
  | nil => rfl
  | cons i is ih => exact ih ⟨l.cs, l.sh.work i⟩

/-- A write is a run of turns, and a change of interest. -/
theorem handlerWrite_run (w : ℕ) (t : RouterTable W) (l : Link W) :
    ∃ k sh, (handlerWrite w l).link = Runs.run (linkStep w t) l
        (List.replicate k .turn ++ [.others sh]) ∧
      sh.queue = (Runs.run (linkStep w t) l (List.replicate k .turn)).sh.queue := by
  obtain ⟨k, hk⟩ := writeLoop_iterate 65 false l
  have hturns : ∀ k (l : Link W), (fun l => (writeTurn l).2)^[k] l =
      Runs.run (linkStep w t) l (List.replicate k .turn) := fun k => by
    induction k with
    | zero => exact fun l => rfl
    | succ k ih => exact fun l => ih _
  obtain ⟨hcs, hq⟩ := handlerWrite_link w l
  refine ⟨k, (handlerWrite w l).link.sh, ?_, ?_⟩
  · rw [Runs.run_append, ← hturns, ← hk]
    exact congrArg (Link.mk · _) hcs
  · rw [← hturns, ← hk, hq]

/-- Some run of admissible steps leads from `l` to `l'`. -/
def Leads (w : ℕ) (t : RouterTable W) (l l' : Link W) : Prop :=
  ∃ es, Runs.Guarded (linkStep w t) Admissible l es ∧ Runs.run (linkStep w t) l es = l'

namespace Leads

variable {w : ℕ} {t : RouterTable W} {l l' l'' : Link W}

theorem refl : Leads w t l l :=
  ⟨[], trivial, rfl⟩

theorem trans (h : Leads w t l l') (h' : Leads w t l' l'') : Leads w t l l'' := by
  obtain ⟨es, hes, rfl⟩ := h
  obtain ⟨fs, hfs, rfl⟩ := h'
  exact ⟨es ++ fs, Runs.guarded_append.2 ⟨hes, hfs⟩, Runs.run_append _ _ _ _⟩

theorem of_step (e : LinkEvent W) (h : Admissible l e) : Leads w t l (linkStep w t l e) :=
  ⟨[e], ⟨h, trivial⟩, rfl⟩

/-- What is shared changes, and the task table does not. -/
theorem of_queue_eq {sh : Shared W} (h : sh.queue = l.sh.queue) : Leads w t l ⟨l.cs, sh⟩ :=
  of_step (.others sh) fun i _ => congrFun h i

end Leads

theorem leads_connReadTcp (cfg : ServerConfig) (w : ℕ) (t : RouterTable W) (r : ReadOutcome)
    (l : Link W) : Leads w t l (connReadTcp cfg w t r l).link := by
  have hparse : ∀ chunk, Leads w t l (connParse w t chunk l) := fun chunk => by
    rw [connParse_run]
    refine ⟨_, Runs.guarded_of_forall (fun e he l => ?_) l, rfl⟩
    rcases List.mem_append.1 he with he | he
    · rcases List.mem_cons.1 he with rfl | he
      · trivial
      · obtain ⟨it, -, rfl⟩ := List.mem_map.1 he
        trivial
    · rw [List.mem_singleton.1 he]
      trivial
  unfold connReadTcp connReadMax
  split
  · exact .refl
  · exact .refl
  · simp only []
    split_ifs
    · exact .refl
    · exact hparse _
    · exact hparse _

theorem leads_connWriteTcp (w : ℕ) (t : RouterTable W) (l : Link W) :
    Leads w t l (connWriteTcp w l).link := by
  have hwrite : Leads w t l (handlerWrite w l).link := by
    obtain ⟨k, sh, hrun, hq⟩ := handlerWrite_run w t l
    have hturns : Leads w t l (Runs.run (linkStep w t) l (List.replicate k .turn)) := by
      refine ⟨_, Runs.guarded_of_forall (fun e he l => ?_) l, rfl⟩
      rw [List.eq_of_mem_replicate he]
      trivial
    rw [hrun, Runs.run_append]
    exact hturns.trans (.of_queue_eq hq)
  unfold connWriteTcp
  simp only []
  split_ifs
  · exact hwrite
  · have hbody : Leads w t (handlerWrite w l).link ((handlerWrite w l).link.setBody []) :=
      .of_step (.body []) trivial
    exact (hwrite.trans hbody).trans (.of_queue_eq (epollChangeMode_queue ..))

end Xlab
