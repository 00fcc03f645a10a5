import Xlab.Gateway

/-!
# Who has a session and who has a connection

The roll of the gateway lists the identities of the live sessions and, for each worker, the
descriptors of its connections. The handlers change it in four ways : a session is opened or
dropped, a connection is registered or hung up. The theorems `roll_…` say which of them a
function of the gateway does, whatever it does to the sessions themselves.

`Roll.Matched` says that a worker has at most one session on a descriptor, and only on the
descriptors of its connections.
-/

namespace Xlab

variable {W : Type}

/-- The identities of the live sessions, the descriptors of each worker's connections, and
which descriptors are UDP or UART. -/
@[ext]
structure Roll where
  directory : List SessionIdent
  sockets : ℕ → List ℤ
  datagram : ℤ → Bool

namespace Roll

/-- A session is opened. -/
def opened (id : SessionIdent) (r : Roll) : Roll :=
  { r with directory := r.directory ++ [id] }

/-- The first session of worker `w` on `fd` is dropped. -/
def dropped (w : ℕ) (fd : ℤ) (r : Roll) : Roll :=
  { r with directory := r.directory.eraseP (SessionIdent.isAt w fd) }

/-- A connection is registered. -/
def registered (w : ℕ) (fd : ℤ) (r : Roll) : Roll :=
  { r with sockets := Function.update r.sockets w (r.sockets w ++ [fd]) }

/-- A connection is hung up. -/
def hungUp (w : ℕ) (fd : ℤ) (r : Roll) : Roll :=
  { r with sockets := Function.update r.sockets w ((r.sockets w).erase fd) }

@[simp] theorem sockets_registered_self (w : ℕ) (fd : ℤ) (r : Roll) :
    (r.registered w fd).sockets w = r.sockets w ++ [fd] :=
  Function.update_self ..

theorem sockets_registered_of_ne {w w' : ℕ} (h : w' ≠ w) (fd : ℤ) (r : Roll) :
    (r.registered w fd).sockets w' = r.sockets w' :=
  Function.update_of_ne h _ _

@[simp] theorem sockets_hungUp_self (w : ℕ) (fd : ℤ) (r : Roll) :
    (r.hungUp w fd).sockets w = (r.sockets w).erase fd :=
  Function.update_self ..

theorem sockets_hungUp_of_ne {w w' : ℕ} (h : w' ≠ w) (fd : ℤ) (r : Roll) :
    (r.hungUp w fd).sockets w' = r.sockets w' :=
  Function.update_of_ne h _ _

/-- Worker `w` has no session on `fd`. -/
def Free (w : ℕ) (fd : ℤ) (r : Roll) : Prop :=
  ∀ id ∈ r.directory, id.isAt w fd = false

/-- A worker has at most one session on a descriptor, and only on descriptors of its
connections, none of them UDP or UART. -/
structure Matched (r : Roll) : Prop where
  once : r.directory.Pairwise fun a b => ¬(a.owner = b.owner ∧ a.socket = b.socket)
  connected : ∀ id ∈ r.directory, id.socket ∈ r.sockets id.owner
  stream : ∀ id ∈ r.directory, r.datagram id.socket = false
  distinct : ∀ w, (r.sockets w).Nodup

theorem isAt_iff {w : ℕ} {fd : ℤ} {id : SessionIdent} :
    id.isAt w fd = true ↔ id.owner = w ∧ id.socket = fd := by
  simp [SessionIdent.isAt]

variable {r : Roll} {w : ℕ} {fd : ℤ}

theorem dropped_of_free (h : r.Free w fd) : r.dropped w fd = r := by
  refine Roll.ext (List.eraseP_of_forall_not fun id hid => ?_) rfl rfl
  simp [h id hid]

theorem iterate_dropped_of_free (h : r.Free w fd) (n : ℕ) : (dropped w fd)^[n] r = r :=
  Function.iterate_fixed (dropped_of_free h) n

/-- The one session of the worker on the descriptor is gone. -/
theorem free_dropped_of_once
    (h : r.directory.Pairwise fun a b => ¬(a.owner = b.owner ∧ a.socket = b.socket)) :
    (r.dropped w fd).Free w fd := by
  refine Registry.eq_false_of_mem_eraseP (h.imp fun {a b} hab => ?_)
  rw [isAt_iff, isAt_iff]
  rintro ⟨⟨ha1, ha2⟩, hb1, hb2⟩
  exact hab ⟨ha1.trans hb1.symm, ha2.trans hb2.symm⟩

/-- It is gone however often it is dropped. -/
theorem free_iterate_dropped
    (h : r.directory.Pairwise fun a b => ¬(a.owner = b.owner ∧ a.socket = b.socket)) {n : ℕ}
    (hn : 1 ≤ n) : ((dropped w fd)^[n] r).Free w fd := by
  obtain ⟨n, rfl⟩ : ∃ m, n = m + 1 := ⟨n - 1, by omega⟩
  rw [Function.iterate_succ_apply, iterate_dropped_of_free (free_dropped_of_once h)]
  exact free_dropped_of_once h

namespace Matched

variable (h : r.Matched)
include h

/-- The one session of the worker on the descriptor is gone. -/
theorem free_dropped : (r.dropped w fd).Free w fd :=
  free_dropped_of_once h.once

/-- Dropping more than once drops no more. -/
theorem iterate_dropped {n : ℕ} (hn : 1 ≤ n) : (dropped w fd)^[n] r = r.dropped w fd := by
  obtain ⟨n, rfl⟩ : ∃ m, n = m + 1 := ⟨n - 1, by omega⟩
  rw [Function.iterate_succ_apply, iterate_dropped_of_free h.free_dropped]

theorem drop : (r.dropped w fd).Matched where
  once := h.once.sublist (List.eraseP_sublist ..)
  connected id hid := h.connected id (List.mem_of_mem_eraseP hid)
  stream id hid := h.stream id (List.mem_of_mem_eraseP hid)
  distinct := h.distinct

/-- A connection without a session is hung up. -/
theorem hangUp (hfree : r.Free w fd) : (r.hungUp w fd).Matched where
  once := h.once
  connected id hid := by
    have hc := h.connected id hid
    have hat := hfree id hid
    by_cases ho : id.owner = w
    · have hs : id.socket ≠ fd := fun hs => by
        rw [isAt_iff.2 ⟨ho, hs⟩] at hat
        cases hat
      rw [ho] at hc ⊢
      rwa [sockets_hungUp_self, List.mem_erase_of_ne hs]
    · rwa [sockets_hungUp_of_ne ho]
  stream := h.stream
  distinct w' := by
    by_cases hw : w' = w
    · rw [hw, sockets_hungUp_self]
      exact (h.distinct w).erase fd
    · rw [sockets_hungUp_of_ne hw]
      exact h.distinct w'

theorem register (hfd : fd ∉ r.sockets w) : (r.registered w fd).Matched where
  once := h.once
  connected id hid := by
    have hc := h.connected id hid
    by_cases ho : id.owner = w
    · rw [ho] at hc ⊢
      rw [sockets_registered_self]
      exact List.mem_append_left _ hc
    · rwa [sockets_registered_of_ne ho]
  stream := h.stream
  distinct w' := by
    by_cases hw : w' = w
    · rw [hw, sockets_registered_self]
      refine List.nodup_append.2 ⟨h.distinct w, List.nodup_singleton fd, fun a ha b hb hab => ?_⟩
      rw [List.mem_singleton.1 hb] at hab
      exact hfd (hab ▸ ha)
    · rw [sockets_registered_of_ne hw]
      exact h.distinct w'

/-- A connection without a session gets one. -/
theorem opens {id : SessionIdent} (hfree : r.Free id.owner id.socket)
    (hc : id.socket ∈ r.sockets id.owner) (hs : r.datagram id.socket = false) :
    (r.opened id).Matched where
  once := by
    refine List.pairwise_append.2 ⟨h.once, List.pairwise_singleton _ id, fun a ha b hb => ?_⟩
    rw [List.mem_singleton.1 hb]
    intro hab
    have hat := hfree a ha
    rw [isAt_iff.2 hab] at hat
    cases hat
  connected a ha := by
    rcases List.mem_append.1 ha with ha | ha
    · exact h.connected a ha
    · rwa [List.mem_singleton.1 ha]
  stream a ha := by
    rcases List.mem_append.1 ha with ha | ha
    · exact h.stream a ha
    · rwa [List.mem_singleton.1 ha]
  distinct := h.distinct

/-- A connection that was hung up is gone. -/
theorem not_mem_hungUp : fd ∉ (r.hungUp w fd).sockets w := by
  rw [sockets_hungUp_self]
  exact (h.distinct w).not_mem_erase

end Matched

end Roll

/-! ## The roll of the gateway -/

namespace Gateway

/-- The roll of the gateway. -/
def roll (g : Gateway W) : Roll where
  directory := g.sessions.map Session.ident
  sockets w := (g.workers w).sockets
  datagram := g.trans.isDatagram

@[simp] theorem roll_put (l : Link W) (g : Gateway W) : (g.put l).roll = g.roll := by
  simp [roll, put]

@[simp] theorem roll_shared (sh : Shared W) (g : Gateway W) :
    ({ g with shared := sh } : Gateway W).roll = g.roll :=
  rfl

theorem sessionGet_eq_none {g : Gateway W} {w : ℕ} {fd : ℤ} :
    g.sessionGet w fd = none ↔ g.roll.Free w fd := by
  simp [sessionGet, Registry.find_eq_none, Roll.Free, roll]

theorem roll_sessionRemove (w : ℕ) (fd : ℤ) (g : Gateway W) :
    (g.sessionRemove w fd).roll = g.roll.dropped w fd := by
  unfold sessionRemove
  cases h : g.sessionGet w fd with
  | none => exact (Roll.dropped_of_free (sessionGet_eq_none.1 h)).symm
  | some cs => exact Roll.ext (Registry.map_key_remove ..) rfl rfl

theorem roll_iterate_sessionRemove (w : ℕ) (fd : ℤ) (n : ℕ) (g : Gateway W) :
    ((sessionRemove w fd)^[n] g).roll = (Roll.dropped w fd)^[n] g.roll := by
  have hsemi : Function.Semiconj roll (sessionRemove (W := W) w fd) (Roll.dropped w fd) :=
    roll_sessionRemove w fd
  exact hsemi.iterate_right n g

theorem roll_leave (w : ℕ) (fd : ℤ) (e : Exit W) (g : Gateway W) :
    (g.leave w fd e).2.roll = (Roll.dropped w fd)^[e.removals] g.roll := by
  rw [leave, roll_iterate_sessionRemove, roll_put]

theorem roll_setWorker {w : ℕ} {f : Worker → Worker} {g : Gateway W} :
    (g.setWorker w f).roll = { g.roll with
      sockets := Function.update g.roll.sockets w (f (g.workers w)).sockets } := by
  refine Roll.ext rfl (funext fun w' => ?_) rfl
  by_cases hw : w' = w
  · subst hw
    simp [roll, setWorker]
  · simp [roll, setWorker, hw]

@[simp] theorem roll_updateConnStatus (w : ℕ) (fd : ℤ) (status : ConnStatus) (g : Gateway W) :
    (g.setWorker w (schedUpdateConnStatus fd status)).roll = g.roll := by
  rw [roll_setWorker, sockets_updateConnStatus]
  exact Roll.ext rfl (Function.update_eq_self ..) rfl

theorem sockets_setWorker_status (w w' : ℕ) (fd : ℤ) (status : ConnStatus) (g : Gateway W) :
    ((g.setWorker w (schedUpdateConnStatus fd status)).workers w').sockets =
      (g.workers w').sockets :=
  congrFun (congrArg Roll.sockets (roll_updateConnStatus w fd status g)) w'

theorem roll_removeClient (w : ℕ) (fd : ℤ) (g : Gateway W) :
    (g.removeClient w fd).roll = g.roll.hungUp w fd := by
  rw [removeClient, roll_setWorker, sockets_removeClient]
  rfl

/-- A write event registers a connection, or finds it without a session, or writes. -/
theorem connWrite_cases (w : ℕ) (fd : ℤ) (g : Gateway W) :
    (fd ∉ (g.workers w).sockets ∧
        g.connWrite w fd = (0, { g.setWorker w (schedRegisterClient fd) with
          shared := epollChangeMode w fd .read g.shared })) ∨
      (fd ∈ (g.workers w).sockets ∧ g.sessionGet w fd = none ∧
        g.connWrite w fd = (-1, g.setWorker w (schedUpdateConnStatus fd .process))) ∨
      ∃ cs, fd ∈ (g.workers w).sockets ∧ g.sessionGet w fd = some cs ∧
        g.connWrite w fd = (g.setWorker w (schedUpdateConnStatus fd .process)).leave w fd
          (connWriteTcp w ⟨cs, g.shared⟩) := by
  by_cases hfd : fd ∈ (g.workers w).sockets
  · obtain ⟨c, hc⟩ :=
      Option.ne_none_iff_exists'.1 (mt schedGetConnection_eq_none.1 (not_not.2 hfd))
    have hsame : (g.setWorker w (schedUpdateConnStatus fd .process)).sessionGet w fd =
        g.sessionGet w fd := rfl
    rw [connWrite, hc]
    simp only [hsame]
    cases hget : g.sessionGet w fd with
    | none => exact Or.inr (Or.inl ⟨hfd, rfl, rfl⟩)
    | some cs => exact Or.inr (Or.inr ⟨cs, hfd, rfl, rfl⟩)
  · rw [connWrite, schedGetConnection_eq_none.2 hfd]
    exact Or.inl ⟨hfd, rfl⟩

/-- The first write event of a connection. -/
theorem connWrite_register {g : Gateway W} {w : ℕ} {fd : ℤ} (hfd : fd ∉ (g.workers w).sockets) :
    g.connWrite w fd = (0, { g.setWorker w (schedRegisterClient fd) with
      shared := epollChangeMode w fd .read g.shared }) := by
  rcases connWrite_cases w fd g with ⟨-, h⟩ | ⟨hmem, -⟩ | ⟨cs, hmem, -⟩
  · exact h
  · exact absurd hmem hfd
  · exact absurd hmem hfd

@[simp] theorem roll_flushSlot (w : ℕ) (i : Fin asyncQueueDepth) (g : Gateway W) :
    (g.flushSlot w i).roll = g.roll :=
  flushSlot_keeps (P := fun g' => g'.roll = g.roll) rfl (fun _ _ => roll_put _ _) rfl

@[simp] theorem roll_flushCompleted (w : ℕ) (g : Gateway W) :
    (g.flushCompleted w).roll = g.roll :=
  flushCompleted_keeps (P := fun g' => g'.roll = g.roll)
    (fun g' i h => (roll_flushSlot w i g').trans h) rfl

@[simp] theorem roll_connReadDatagram (s : Setup W) (fd : ℤ) (r : ReadOutcome) (g : Gateway W) :
    (g.connReadDatagram s fd r).2.roll = g.roll := by
  unfold connReadDatagram
  split
  · rfl
  · split <;> rfl

theorem roll_acceptClient (s : Setup W) (fd : ℤ) (added : Bool) (g : Gateway W) :
    (g.acceptClient s fd added).roll = g.roll := by
  unfold acceptClient
  split
  · rfl
  · split_ifs
    · rw [roll_setWorker]
      exact Roll.ext rfl (Function.update_eq_self ..) rfl
    · rfl

theorem roll_addSession (cs : Session) (g : Gateway W) :
    (g.addSession cs).roll = g.roll.opened cs.ident :=
  Roll.ext (by simp [roll, Roll.opened, addSession]) rfl rfl

/-- The session a read works on is the one found, or a new one of a connection. -/
theorem openSession_cases {w : ℕ} {fd : ℤ} {g g' : Gateway W} {cs : Session}
    (h : g.openSession w fd = some (cs, g')) :
    (g.sessionGet w fd = some cs ∧ g' = g) ∨
      (g.roll.Free w fd ∧ fd ∈ g.roll.sockets w ∧ cs = Session.create ⟨g.nextSid, w, fd⟩ ∧
        g' = g.addSession cs) := by
  unfold openSession at h
  cases hget : g.sessionGet w fd with
  | some cs' =>
    rw [hget] at h
    obtain ⟨rfl, rfl⟩ := Prod.mk.inj (Option.some.inj h)
    exact Or.inl ⟨rfl, rfl⟩
  | none =>
    rw [hget] at h
    unfold sessionCreate at h
    cases hc : schedGetConnection (g.workers w) fd with
    | none => simp [hc] at h
    | some c =>
      simp only [hc] at h
      obtain ⟨rfl, rfl⟩ := Prod.mk.inj (Option.some.inj h)
      refine Or.inr ⟨sessionGet_eq_none.1 hget, ?_, rfl, rfl⟩
      by_contra hfd
      rw [schedGetConnection_eq_none.2 hfd] at hc
      cases hc

theorem openSession_eq_none {w : ℕ} {fd : ℤ} {g : Gateway W} :
    g.openSession w fd = none ↔ g.roll.Free w fd ∧ fd ∉ g.roll.sockets w := by
  rw [← sessionGet_eq_none]
  unfold openSession
  cases hget : g.sessionGet w fd with
  | some cs => simp
  | none =>
    simp only [true_and, sessionCreate]
    cases hc : schedGetConnection (g.workers w) fd with
    | none => exact iff_of_true rfl (schedGetConnection_eq_none.1 hc)
    | some c =>
      simp only [reduceCtorEq, false_iff, not_not]
      by_contra hfd
      rw [schedGetConnection_eq_none.2 hfd] at hc
      cases hc

end Gateway

end Xlab
