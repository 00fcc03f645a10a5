import Xlab.Capacity

/-!
# The worker a connection is placed on

`_next_target` looks for the worker with the fewest connections. It stops early at a worker that
has none, and says that the server is full when the least loaded worker is.
`least_loaded_placement` : it chooses the first of the least loaded workers, and
`xlab_sched_add_client` counts the connection for that worker if the epoll instance took it, and
changes no other counter.
-/

namespace Xlab

variable {W : Type}

/-- The first of the indices below `n` where `f` is least. -/
structure FirstMin (n : ℕ) (f : ℕ → ℕ) (i : ℕ) : Prop where
  lt : i < n
  le : ∀ j < n, f i ≤ f j
  first : ∀ j < i, f i < f j

namespace FirstMin

variable {n i : ℕ} {f : ℕ → ℕ}

/-- The next index does not have less. -/
theorem keep (h : FirstMin n f i) (hle : f i ≤ f n) : FirstMin (n + 1) f i where
  lt := Nat.lt_succ_of_lt h.lt
  le j hj := by
    rcases Nat.lt_succ_iff_lt_or_eq.1 hj with hlt | rfl
    · exact h.le j hlt
    · exact hle
  first := h.first

/-- The next index has less. -/
theorem replace (h : FirstMin n f i) (hlt : f n < f i) : FirstMin (n + 1) f n where
  lt := Nat.lt_succ_self n
  le j hj := by
    rcases Nat.lt_succ_iff_lt_or_eq.1 hj with hj | rfl
    · exact Nat.le_trans (Nat.le_of_lt hlt) (h.le j hj)
    · exact Nat.le_refl _
  first j hj := Nat.lt_of_lt_of_le hlt (h.le j hj)

/-- Nothing is less than 0. -/
theorem of_eq_zero (h : FirstMin n f i) (h0 : f i = 0) {m : ℕ} (hm : n ≤ m) : FirstMin m f i where
  lt := Nat.lt_of_lt_of_le h.lt hm
  le _ _ := h0.symm ▸ Nat.zero_le _
  first := h.first

end FirstMin

/-- The loop goes on from the first of the least loaded workers below `a`. -/
theorem leastLoaded_firstMin (load : ℕ → UInt64) (n : ℕ) {a target : ℕ}
    (h : FirstMin a (fun i => (load i).toNat) target) :
    FirstMin (a + n) (fun i => (load i).toNat)
      (leastLoaded load (List.range' a n) target (load target)).1 := by
  induction n generalizing a target with
  | zero => exact h
  | succ n ih =>
    have hend : a + (n + 1) = a + 1 + n := by omega
    rw [List.range'_succ, leastLoaded, hend]
    split_ifs with hlt h0
    · refine (h.replace (UInt64.lt_iff_toNat_lt.1 hlt)).of_eq_zero ?_ (Nat.le_add_right _ _)
      exact congrArg UInt64.toNat h0
    · exact ih (h.replace (UInt64.lt_iff_toNat_lt.1 hlt))
    · exact ih (h.keep (UInt64.le_iff_toNat_le.1 (UInt64.not_lt.1 hlt)))

/-- The connections of a worker. -/
def Worker.connections (k : Worker) : ℕ :=
  k.acceptedConnections.toNat - k.closedConnections.toNat

theorem Worker.toNat_load {k : Worker} (h : k.closedConnections ≤ k.acceptedConnections) :
    k.load.toNat = k.connections :=
  UInt64.toNat_sub_of_le _ _ h

/-- The choice of `_next_target` in terms of the counters' difference. -/
theorem nextTarget_cases {cfg : SchedConfig} (workers : ℕ → Worker) (hn : 1 ≤ cfg.workers)
    (hcap : 1 ≤ cfg.workerCapacity) :
    ∃ w, FirstMin cfg.workers (fun i => (workers i).load.toNat) w ∧
      nextTarget cfg workers =
        if cfg.workerCapacity ≤ (workers w).load then none else some w := by
  have hstart : FirstMin 1 (fun i => (workers i).load.toNat) 0 :=
    ⟨Nat.one_pos, fun j hj => by rw [Nat.lt_one_iff.1 hj],
      fun j hj => absurd hj (Nat.not_lt_zero j)⟩
  unfold nextTarget
  simp only []
  by_cases h0 : (workers 0).load = 0
  · have hroom : ¬cfg.workerCapacity ≤ (workers 0).load := by
      rw [h0]
      exact fun hle => absurd (UInt64.le_trans hcap hle) (by decide)
    refine ⟨0, hstart.of_eq_zero (congrArg UInt64.toNat h0) hn, ?_⟩
    rw [if_pos h0, if_neg hroom]
  · have hmin := leastLoaded_firstMin (fun i => (workers i).load) (cfg.workers - 1) hstart
    rw [Nat.add_sub_cancel' hn] at hmin
    refine ⟨_, hmin, ?_⟩
    rw [if_neg h0, leastLoaded_snd (fun i => (workers i).load) _ rfl]

namespace Gateway

/-- `xlab_sched_add_client`. `added` tells whether `xlab_epoll_add` succeeds. -/
def schedAddClient (s : Setup W) (fd : ℤ) (added : Bool) (g : Gateway W) : ℤ × Gateway W :=
  match nextTarget s.sched g.workers with
  | none => (-1, g)
  | some w => if added then (0, (g.arm w fd).setWorker w Worker.countAccepted) else (-1, g)

/-- The accept loop closes a descriptor that was not added. -/
theorem acceptClient_eq (s : Setup W) (fd : ℤ) (added : Bool) (g : Gateway W) :
    g.acceptClient s fd added =
      if (g.schedAddClient s fd added).1 = -1 then (g.schedAddClient s fd added).2.closeFd fd
      else (g.schedAddClient s fd added).2 := by
  rw [acceptClient, schedAddClient]
  cases nextTarget s.sched g.workers with
  | none => rfl
  | some w => cases added <;> rfl

/-- The counters after a call. -/
theorem workers_schedAddClient (s : Setup W) (fd : ℤ) (added : Bool) (g : Gateway W) (w : ℕ) :
    (g.schedAddClient s fd added).2.workers w =
      if added = true ∧ nextTarget s.sched g.workers = some w then (g.workers w).countAccepted
      else g.workers w := by
  rw [schedAddClient]
  cases nextTarget s.sched g.workers with
  | none => simp
  | some v =>
    cases added with
    | false => simp
    | true =>
      simp only [if_true, true_and, Option.some.injEq, setWorker, Function.update_apply]
      split_ifs with hw hv hv
      · rw [hw]
        rfl
      · exact absurd hw.symm hv
      · exact absurd hv.symm hw
      · rfl

/-- A call finds every worker full, or chooses the first of those with the fewest connections. It
counts the connection for that worker exactly when the epoll instance took it, and changes no
other counter. -/
theorem least_loaded_placement (s : Setup W) (g : Gateway W) (hn : 1 ≤ s.sched.workers)
    (hcap : 1 ≤ s.sched.workerCapacity)
    (hcount : ∀ i < s.sched.workers,
      (g.workers i).closedConnections ≤ (g.workers i).acceptedConnections) :
    (nextTarget s.sched g.workers = none ↔
        ∀ i < s.sched.workers, s.sched.workerCapacity.toNat ≤ (g.workers i).connections) ∧
      (∀ w, nextTarget s.sched g.workers = some w →
        FirstMin s.sched.workers (fun i => (g.workers i).connections) w) ∧
      ∀ fd added w, (g.schedAddClient s fd added).2.workers w =
        if added = true ∧ nextTarget s.sched g.workers = some w then (g.workers w).countAccepted
        else g.workers w := by
  obtain ⟨w, hmin, htarget⟩ := nextTarget_cases g.workers hn hcap
  have hload : ∀ i < s.sched.workers, (g.workers i).load.toNat = (g.workers i).connections :=
    fun i hi => Worker.toNat_load (hcount i hi)
  have hleast : FirstMin s.sched.workers (fun i => (g.workers i).connections) w := by
    refine ⟨hmin.lt, fun j hj => ?_, fun j hj => ?_⟩
    · have := hmin.le j hj
      rwa [hload w hmin.lt, hload j hj] at this
    · have := hmin.first j hj
      rwa [hload w hmin.lt, hload j (Nat.lt_trans hj hmin.lt)] at this
  have hfull : s.sched.workerCapacity ≤ (g.workers w).load ↔
      s.sched.workerCapacity.toNat ≤ (g.workers w).connections := by
    rw [UInt64.le_iff_toNat_le, hload w hmin.lt]
  refine ⟨?_, fun v hv => ?_, fun fd added v => workers_schedAddClient s fd added g v⟩
  · rw [htarget]
    split_ifs with h
    · exact iff_of_true rfl fun i hi => Nat.le_trans (hfull.1 h) (hleast.le i hi)
    · exact iff_of_false id fun hall => h (hfull.2 (hall w hmin.lt))
  · rw [htarget] at hv
    split_ifs at hv
    obtain rfl := Option.some.inj hv
    exact hleast

/-- Three workers, the first with one connection and the others with none. -/
def threeWorkers : Gateway Unit :=
  { idleGateway with workers := fun i => if i = 0 then (Worker.init 4).countAccepted else .init 4 }

theorem least_loaded_threeWorkers :
    FirstMin 3 (fun i => (threeWorkers.workers i).connections) 1 :=
  (least_loaded_placement { idleSetup with sched := ⟨3, 4⟩ } threeWorkers (by decide) (by decide)
    (by decide)).2.1 1 (by decide)

end Gateway

end Xlab
