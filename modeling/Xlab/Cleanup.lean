import Xlab.Confinement
import Xlab.Delivery
import Xlab.StaleSessions

/-!
# When the last client has left

A client leaves a session behind in the request list of its worker, and tasks in the table. The
first is removed with the connection, unless a read of it has failed with `EAGAIN`. The tasks run to
their end, and the next flush discards those whose session is gone, as far as the pointer of a task
to a removed session matches none (`Gateway.flushTarget`).

`started_again` : when no connection is left, however the clients left, a batch of the background
thread and a flush in any worker bring the gateway to a state it could have started in. So what
holds of every run of the gateway holds of what comes after.
-/

namespace Xlab

variable {W : Type}

namespace Gateway

variable {s : Setup W} {g : Gateway W} {w : ℕ}

/-- The gateway starts with no session and no connection. -/
theorem Started.matched (hg : g.Started) : g.roll.Matched := by
  have hdir : g.roll.directory = [] := by simp [roll, hg.sessions]
  have hsock : ∀ w, g.roll.sockets w = [] := fun w => by simp [roll, Worker.sockets, hg.busy w]
  exact ⟨by simp [hdir], by simp [hdir], by simp [hdir], by simp [hsock]⟩

/-- Sessions do not outlive the connections. -/
theorem sessions_eq_nil (h : g.roll.Matched) (hbusy : ∀ w, (g.workers w).busyQueue = []) :
    g.sessions = [] := by
  refine List.eq_nil_iff_forall_not_mem.2 fun cs hcs => ?_
  have hc : cs.ident.socket ∈ (g.workers cs.ident.owner).sockets :=
    h.connected cs.ident (List.mem_map_of_mem hcs)
  rw [Worker.sockets, hbusy] at hc
  cases hc

/-- A batch of the background thread. -/
theorem run_work (s : Setup W) (is : List (Fin asyncQueueDepth)) (g : Gateway W) :
    Runs.run (step s) g (is.map .work) = { g with shared := is.foldl Shared.work g.shared } := by
  induction is generalizing g with
  | nil => rfl
  | cons i is ih => exact ih { g with shared := g.shared.work i }

/-- An event of the eventfd is a flush. -/
theorem run_flush (s : Setup W) (w : ℕ) (r : ReadOutcome) (g : Gateway W) :
    Runs.run (step s) g [.epoll w s.eventFd .input r] = g.flushCompleted w := by
  rw [Runs.run_cons, Runs.run_nil, step, epollDispatch, closeFailed_of_nonneg] <;> simp [connRead]

/-- Nobody is there, and what is in the table has run. -/
structure Deserted (g : Gateway W) : Prop where
  sessions : g.sessions = []
  busy : ∀ w, (g.workers w).busyQueue = []
  done : ∀ i, (g.shared.queue i).Done

namespace Deserted

/-- Without sessions a flush discards what has run. -/
theorem flushSlot_eq (h : g.Deserted) (w : ℕ) (i : Fin asyncQueueDepth) :
    g.flushSlot w i = if (g.shared.queue i).flushable then g.discard i else g := by
  have hget : ∀ fd, g.sessionGet w fd = none := fun fd => by
    rw [sessionGet, h.sessions]
    rfl
  have hlive : ∀ sid, g.live sid = none := fun sid => by
    rw [live, h.sessions]
    exact Option.bind_eq_none_iff.2 fun _ _ => rfl
  split_ifs with hf
  · refine flushSlot_of_none hf ?_
    rw [flushTarget, hlive]
    exact hget _
  · rw [flushSlot, if_neg hf]

theorem discard (h : g.Deserted) (i : Fin asyncQueueDepth) : (g.discard i).Deserted where
  sessions := h.sessions
  busy := h.busy
  done j := by
    rw [Gateway.discard, AsyncQueue.free]
    by_cases hji : j = i
    · subst hji
      simp [AsyncTask.Done, AsyncTask.freed]
    · simpa only [Function.update_of_ne hji] using h.done j

theorem flushSlot (h : g.Deserted) (w : ℕ) (i : Fin asyncQueueDepth) :
    (g.flushSlot w i).Deserted := by
  rw [h.flushSlot_eq]
  split_ifs
  · exact h.discard i
  · exact h

/-- The slot is empty after its turn, and empty slots stay empty. -/
theorem valid_flushSlot (h : g.Deserted) (w : ℕ) {i j : Fin asyncQueueDepth}
    (hi : i = j ∨ (g.shared.queue i).valid = false) :
    ((g.flushSlot w j).shared.queue i).valid = false := by
  rw [h.flushSlot_eq]
  by_cases hij : i = j
  · subst hij
    split_ifs with hf
    · simp [Gateway.discard, AsyncQueue.free, AsyncTask.freed]
    · by_contra hv
      have hv' : (g.shared.queue i).valid = true := Bool.not_eq_false _ ▸ hv
      exact hf (Bool.and_eq_true_iff.2 ⟨hv', h.done i hv'⟩)
  · have hv := hi.resolve_left hij
    split_ifs
    · simpa only [Gateway.discard, AsyncQueue.free, Function.update_of_ne hij] using hv
    · exact hv

/-- A flush empties the table. -/
theorem started_flush (h : g.Deserted) (w : ℕ) : (g.flushCompleted w).Started := by
  have hfold : ∀ (is : List (Fin asyncQueueDepth)) (g : Gateway W), g.Deserted →
      (is.foldl (fun g i => g.flushSlot w i) g).Deserted ∧
        ∀ i, i ∈ is ∨ (g.shared.queue i).valid = false →
          ((is.foldl (fun g i => g.flushSlot w i) g).shared.queue i).valid = false := fun is => by
    induction is with
    | nil => exact fun g h => ⟨h, fun i hi => hi.resolve_left List.not_mem_nil⟩
    | cons j is ih =>
      intro g h
      obtain ⟨hd, hv⟩ := ih _ (h.flushSlot w j)
      refine ⟨hd, fun i hi => hv i ?_⟩
      rcases hi with hi | hi
      · rcases List.mem_cons.1 hi with hij | hi
        · exact Or.inr (h.valid_flushSlot w (Or.inl hij))
        · exact Or.inl hi
      · exact Or.inr (h.valid_flushSlot w (Or.inr hi))
  obtain ⟨hd, hv⟩ := hfold (List.finRange asyncQueueDepth) g h
  rw [flushCompleted]
  exact ⟨hd.sessions, hd.busy, fun i => hv i (Or.inl (List.mem_finRange i))⟩

end Deserted

/-- In a run of the gateway from its start in which no read of a connection fails with `EAGAIN`,
when no connection is left, a batch of the background thread at every slot and a flush, for which a
removed session matches no task, leave a gateway that could have started so. -/
theorem started_again (s : Setup W) (hg : g.Started) (es : List Event)
    (hes : Runs.Guarded (step s) (fun g e => ¬BlockedRead s g e) g es)
    (hbusy : ∀ w, ((Runs.run (step s) g es).workers w).busyQueue = [])
    {is : List (Fin asyncQueueDepth)} (his : ∀ i, i ∈ is) (w : ℕ) (r : ReadOutcome) :
    (Runs.run (step s) g (es ++ (is.map .work ++ [.epoll w s.eventFd .input r]))).Started := by
  have hmatched : (Runs.run (step s) g es).roll.Matched :=
    Runs.run_invariant (I := fun g : Gateway W => g.roll.Matched)
      (fun _ _ h hb => matched_step h hb) hg.matched hes
  rw [Runs.run_append, Runs.run_append, run_work, run_flush]
  generalize Runs.run (step s) g es = g at hbusy hmatched
  have hdeserted : Deserted { g with shared := is.foldl Shared.work g.shared } :=
    ⟨sessions_eq_nil hmatched hbusy, hbusy, fun i => done_foldl_work (Or.inl (his i))⟩
  exact hdeserted.started_flush w

/-- A client submits a task and leaves. -/
def leavingClient : List Event :=
  [.accept 7 true, .epoll 0 7 .output (.data []),
    .epoll 0 7 .input (.data [0x40, 0x04, 0x06, 0x00, 0x01, 0xB5]), .epoll 0 7 .input (.data [])]

set_option maxRecDepth 20000 in
theorem started_again_leavingClient :
    (Runs.run (step idleSetup) idleGateway (leavingClient ++
      ((List.finRange _).map .work ++ [.epoll 0 3 .input (.data [])]))).Started := by
  refine started_again idleSetup idleGateway_started leavingClient ⟨id, id, id, id, trivial⟩ ?_
    List.mem_finRange 0 (.data [])
  intro w
  cases w with
  | zero => decide +kernel
  | succ w => rfl

end Gateway

end Xlab
