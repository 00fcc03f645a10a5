import Xlab.Routing
import Xlab.Runs

/-!
# Confinement

A response belongs to the session that asked for it. `Gateway.Confined` says so of an event :
a task names the session whose read submitted it, and in a flush every turn of the loop
leaves all other sessions alone and discards the task when its session is gone.

The flush looks for a session on the task's socket when the task's own session is gone, and
finds the session of a later client when the descriptor was used again. `confined_iff` : the
events of a run are confined exactly when no flush meets such an heir.
-/

namespace Xlab

namespace Gateway

variable {W : Type}

/-! ## A turn of the flush -/

/-- The task in slot `i` is dropped. -/
def discard (i : Fin asyncQueueDepth) (g : Gateway W) : Gateway W :=
  { g with shared := { g.shared with queue := g.shared.queue.free i } }

/-- The turn for slot `i` leaves the sessions alone that did not submit the task, and discards
the task of a session that is gone. -/
structure RightTurn (w : ℕ) (g : Gateway W) (i : Fin asyncQueueDepth) : Prop where
  others : (g.shared.queue i).flushable = true → ∀ cs ∈ g.sessions,
    some cs.ident.sid ≠ (g.shared.queue i).targetCs → cs ∈ (g.flushSlot w i).sessions
  orphan : (g.shared.queue i).flushable = true → g.live (g.shared.queue i).targetCs = none →
    g.flushSlot w i = g.discard i

/-- The session of a completed task is there, or worker `w` has no session on its socket. -/
def Heirless (w : ℕ) (g : Gateway W) (i : Fin asyncQueueDepth) : Prop :=
  (g.shared.queue i).flushable = true → g.live (g.shared.queue i).targetCs = none →
    g.sessionGet w (g.shared.queue i).socketFd = none

instance (w : ℕ) (g : Gateway W) (i : Fin asyncQueueDepth) : Decidable (Heirless w g i) :=
  inferInstanceAs (Decidable (_ → _ → _))

variable {g : Gateway W} {w : ℕ}

/-- The session of a task, while it is live, is on the task's socket. -/
theorem Routed.socket_of_live (h : g.Routed) {i : Fin asyncQueueDepth}
    (hv : (g.shared.queue i).valid = true) {cs : Session}
    (hl : g.live (g.shared.queue i).targetCs = some cs) :
    cs.ident.socket = (g.shared.queue i).socketFd := by
  obtain ⟨hcs, hsid⟩ := mem_of_live hl
  obtain ⟨sid, ht, -, hsock⟩ := h.task i hv
  rw [ht] at hsid
  exact hsock cs.ident (List.mem_map_of_mem hcs) (Option.some.inj hsid)

/-- The session of a task, while it is live, is the one the flush takes. -/
theorem Routed.flushTarget_eq (h : g.Routed) {i : Fin asyncQueueDepth}
    (hv : (g.shared.queue i).valid = true) {cs : Session}
    (hl : g.live (g.shared.queue i).targetCs = some cs) :
    g.flushTarget w (g.shared.queue i) = some cs := by
  rw [flushTarget, hl]
  exact if_pos (h.socket_of_live hv hl)

theorem flushTarget_of_gone {task : AsyncTask W} (hl : g.live task.targetCs = none) :
    g.flushTarget w task = g.sessionGet w task.socketFd := by
  rw [flushTarget, hl]

theorem flushSlot_of_none {i : Fin asyncQueueDepth} (hf : (g.shared.queue i).flushable = true)
    (ht : g.flushTarget w (g.shared.queue i) = none) : g.flushSlot w i = g.discard i := by
  rw [flushSlot, if_pos hf, ht]
  rfl

theorem flushSlot_of_some {i : Fin asyncQueueDepth} {cs : Session}
    (hf : (g.shared.queue i).flushable = true)
    (ht : g.flushTarget w (g.shared.queue i) = some cs) :
    g.flushSlot w i = g.put (flushDeliver w i ⟨cs, g.shared⟩) := by
  rw [flushSlot, if_pos hf, ht]

/-- A delivery is never a discard : the task stays, or the session that got it goes on to the
next number. -/
theorem put_flushDeliver_ne_discard {i : Fin asyncQueueDepth} {cs : Session}
    (hv : (g.shared.queue i).valid = true) (hcs : cs ∈ g.sessions) :
    g.put (flushDeliver w i ⟨cs, g.shared⟩) ≠ g.discard i := by
  intro heq
  rcases queue_flushDeliver w i ⟨cs, g.shared⟩ with ⟨-, hkept⟩ | ⟨-, -, hnext⟩
  · have hvalid := congrArg (fun g : Gateway W => (g.shared.queue i).valid) heq
    simp only [put, hkept, hv, discard, AsyncQueue.free, Function.update_self] at hvalid
    cases hvalid
  · have hstore : Registry.store Session.ident (flushDeliver w i ⟨cs, g.shared⟩).cs g.sessions =
        g.sessions := congrArg Gateway.sessions heq
    have hsame := Registry.eq_of_store_eq_self hstore hcs
      (ident_flushDeliver w i ⟨cs, g.shared⟩).symm
    rw [← hsame] at hnext
    simp at hnext

/-- A turn is right exactly when the task has no heir. -/
theorem Routed.rightTurn_iff (h : g.Routed) (i : Fin asyncQueueDepth) :
    RightTurn w g i ↔ Heirless w g i := by
  constructor
  · intro hturn hf hgone
    by_contra hheir
    obtain ⟨cs, hcs⟩ := Option.ne_none_iff_exists'.1 hheir
    have hslot := flushSlot_of_some hf ((flushTarget_of_gone hgone).trans hcs)
    exact put_flushDeliver_ne_discard (AsyncTask.valid_of_flushable hf)
      (Registry.mem_of_find hcs) (hslot.symm.trans (hturn.orphan hf hgone))
  · intro hheir
    have hdiscard : (g.shared.queue i).flushable = true →
        g.live (g.shared.queue i).targetCs = none → g.flushSlot w i = g.discard i :=
      fun hf hgone => flushSlot_of_none hf ((flushTarget_of_gone hgone).trans (hheir hf hgone))
    refine ⟨fun hf cs hcs hne => ?_, hdiscard⟩
    cases hl : g.live (g.shared.queue i).targetCs with
    | none =>
      rw [hdiscard hf hl]
      exact hcs
    | some owner =>
      rw [flushSlot_of_some hf (h.flushTarget_eq (AsyncTask.valid_of_flushable hf) hl)]
      refine Registry.mem_store_of_ne hcs fun hid => hne ?_
      rw [hid, ident_flushDeliver]
      exact (mem_of_live hl).2

/-! ## A flush -/

/-- The gateway when the flush in worker `w` comes to slot `i`. -/
def flushUpTo (w : ℕ) (i : Fin asyncQueueDepth) (g : Gateway W) : Gateway W :=
  ((List.finRange asyncQueueDepth).take i).foldl (fun g j => g.flushSlot w j) g

/-- Every turn of a flush in worker `w` is right. -/
def RightFlush (w : ℕ) (g : Gateway W) : Prop :=
  ∀ i, RightTurn w (g.flushUpTo w i) i

theorem live_eq_none {sid : Option ℕ} :
    g.live sid = none ↔ ∀ id ∈ g.roll.directory, some id.sid ≠ sid := by
  cases sid with
  | none => simp [live]
  | some sid => simp [live, Registry.find_eq_none, roll]

theorem queue_flushSlot_of_ne {i j : Fin asyncQueueDepth} (hij : i ≠ j) :
    (g.flushSlot w i).shared.queue j = g.shared.queue j := by
  have hfree : g.shared.queue.free i j = g.shared.queue j := Function.update_of_ne hij.symm _ _
  unfold flushSlot
  split_ifs
  · split
    · exact hfree
    · rename_i cs _
      rcases queue_flushDeliver w i ⟨cs, g.shared⟩ with ⟨-, hq⟩ | ⟨-, hq, -⟩
      · exact congrArg (fun l : Link W => l.sh.queue j) hq
      · exact (congrFun hq j).trans hfree
  · rfl

/-- The turns for the other slots neither make nor remove an heir. -/
theorem heirless_flushSlot {i j : Fin asyncQueueDepth} (hij : i ≠ j) :
    Heirless w (g.flushSlot w i) j ↔ Heirless w g j := by
  simp only [Heirless, live_eq_none, sessionGet_eq_none, queue_flushSlot_of_ne hij,
    roll_flushSlot]

theorem not_mem_take_finRange {n : ℕ} (i : Fin n) : i ∉ (List.finRange n).take i := by
  intro hmem
  obtain ⟨k, hk, hki⟩ := List.mem_take_iff_getElem.1 hmem
  rw [List.getElem_finRange] at hki
  have hval : k = i := congrArg Fin.val hki
  omega

/-- The turns before the one for slot `i` keep the routing and leave the heirs of its task. -/
theorem Routed.flushUpTo (h : g.Routed) (i : Fin asyncQueueDepth) :
    (g.flushUpTo w i).Routed ∧ (Heirless w (g.flushUpTo w i) i ↔ Heirless w g i) := by
  rw [Gateway.flushUpTo]
  have hnot := not_mem_take_finRange i
  generalize (List.finRange asyncQueueDepth).take i = js at hnot
  induction js generalizing g with
  | nil => exact ⟨h, Iff.rfl⟩
  | cons j js ih =>
    rw [List.mem_cons, not_or] at hnot
    obtain ⟨hrouted, hheir⟩ := ih (h.flushSlot w j) hnot.2
    exact ⟨hrouted, hheir.trans (heirless_flushSlot (Ne.symm hnot.1))⟩

theorem Routed.rightFlush_iff (h : g.Routed) (w : ℕ) :
    RightFlush w g ↔ ∀ i, Heirless w g i :=
  forall_congr' fun i => ((h.flushUpTo i).1.rightTurn_iff i).trans (h.flushUpTo i).2

/-! ## Runs -/

/-- A task in the table names the session whose read submitted it, and a flush delivers a
task to that session only. -/
structure Confined (s : Setup W) (g : Gateway W) (e : Event) : Prop where
  submitted : Submits (g.reader s e) g.shared.queue (g.step s e).shared.queue
  flushed : ∀ w r, e = .epoll w s.eventFd .input r → g.RightFlush w

/-- A flush finds no heir of a completed task. -/
def NoHeirs (s : Setup W) (g : Gateway W) (e : Event) : Prop :=
  ∀ w r, e = .epoll w s.eventFd .input r → ∀ i, Heirless w g i

theorem Routed.confined_iff (h : g.Routed) (s : Setup W) (e : Event) :
    Confined s g e ↔ NoHeirs s g e := by
  constructor
  · intro hc w r he
    exact (h.rightFlush_iff w).1 (hc.flushed w r he)
  · intro hn
    exact ⟨submits_step s g e, fun w r he => (h.rightFlush_iff w).2 (hn w r he)⟩

/-- In a run of the gateway from its start every response reaches the session that asked,
and every task of a session that is gone is discarded by the next flush, exactly when no
flush finds a completed task whose session is gone and a session on its socket. -/
theorem responses_confined_iff (s : Setup W) (hg : g.Started) (es : List Event) :
    Runs.Guarded (step s) (Confined s) g es ↔ Runs.Guarded (step s) (NoHeirs s) g es :=
  Runs.guarded_congr (I := fun g : Gateway W => g.Routed) (fun _ e h => h.step s e)
    (fun _ e h => h.confined_iff s e) hg.routed

/-- A client submits a task and leaves, and the task is discarded. -/
theorem responses_confined_startRead :
    Runs.Guarded (step idleSetup) (Confined idleSetup) idleGateway
      [.accept 7 true, .epoll 0 7 .output (.data []),
        .epoll 0 7 .input (.data [0x40, 0x04, 0x06, 0x00, 0x01, 0xB5]),
        .epoll 0 7 .input (.data []), .work 0, .epoll 0 3 .input (.data [])] := by
  refine (responses_confined_iff idleSetup idleGateway_started _).2
    ⟨nofun, nofun, ?_, ?_, nofun, ?_, trivial⟩
  · rintro w r ⟨⟩
  · rintro w r ⟨⟩
  · rintro w r ⟨⟩
    decide +kernel

/-- A client submits a task and leaves. The next client gets its descriptor. -/
def secondClient : List Event :=
  [.accept 7 true, .epoll 0 7 .output (.data []),
    .epoll 0 7 .input (.data [0x40, 0x04, 0x06, 0x00, 0x01, 0xB5]),
    .epoll 0 7 .input (.data []), .work 0,
    .accept 7 true, .epoll 0 7 .output (.data []), .epoll 0 7 .input (.data [0x40])]

/-- The next client gets the answer to the first client's request. -/
theorem response_reaches_second_client :
    ¬∀ es : List Event, Runs.Guarded (step idleSetup) (Confined idleSetup) idleGateway es := by
  intro h
  have hrun := Runs.guarded_append.1 (h (secondClient ++ [.epoll 0 3 .input (.data [])]))
  have hrouted : (Runs.run (step idleSetup) idleGateway secondClient).Routed :=
    Runs.run_keeps (I := fun g : Gateway Unit => g.Routed) (fun _ e h => h.step idleSetup e)
      idleGateway_started.routed secondClient
  have hheirs := (hrouted.rightFlush_iff 0).1 (hrun.2.1.flushed 0 _ rfl) 0
  revert hheirs
  decide +kernel

-- The second client has sent one byte, and its ring holds the data of the first client.
example : ((Runs.run (step idleSetup) idleGateway
    (secondClient ++ [.epoll 0 3 .input (.data [])])).sessions.map fun cs =>
      (cs.ident, cs.recognised, cs.respQueue.pending.map RespSlot.resp)) =
    [(⟨1, 0, 7⟩, [], [routerBuildResponse 0x06 errOk [0xAA, 0xBB, 0xCC] 0])] := by
  decide +kernel

end Gateway

end Xlab
