import Xlab.Capacity

/-!
# The load counters

The acceptor counts a connection once it has added the descriptor to the epoll instance of a
worker, and the worker counts it as closed when it removes it from its busy queue. A descriptor
gets into the busy queue at its first write event. An error event before that closes it, and
`xlab_sched_remove_client`, which finds no connection, counts nothing.

`Tally` is the server with a list of the descriptors assigned to each worker and still open.
`load_exact_iff` : along a run the counters of every worker differ by the number of these, but
for the connection the acceptor is about to count, exactly when no error event comes for a
descriptor that waits for its first write event.
-/

namespace Xlab

variable {W : Type}

/-! ## The counters of one worker -/

namespace Worker

/-- The descriptors `opened` are those assigned to the worker that are open : those watched for
writing and those registered. They are watched, and for writing until they are registered.
The counters, with `extra` more, differ by their number. -/
structure Accounted (interest : ℤ → Option EpollMode) (extra : UInt64) (opened : List ℤ)
    (k : Worker) : Prop where
  distinct : opened.Nodup
  registered : ∀ fd ∈ k.sockets, fd ∈ opened
  writing : ∀ fd, interest fd = some .write → fd ∈ opened
  watched : ∀ fd ∈ opened, interest fd ≠ none
  early : ∀ fd ∈ opened, fd ∉ k.sockets → interest fd = some .write
  counted : opened.length = (k.load + extra).toNat

namespace Accounted

variable {interest interest' : ℤ → Option EpollMode} {extra : UInt64} {opened : List ℤ}
  {k : Worker} {fd : ℤ}

/-- The mode of one descriptor changes, and only to writing if it is not registered. -/
theorem tune (h : Accounted interest extra opened k)
    (hothers : ∀ fd' ≠ fd, interest' fd' = interest fd')
    (hwatched : interest' fd = none ↔ interest fd = none) (hin : interest fd ≠ none → fd ∈ opened)
    (hmode : fd ∈ k.sockets ∨ interest' fd = interest fd ∨ interest' fd = some .write) :
    Accounted interest' extra opened k where
  distinct := h.distinct
  registered := h.registered
  writing fd' hw := by
    by_cases he : fd' = fd
    · subst he
      exact hin fun hn => by simp [hwatched.2 hn] at hw
    · exact h.writing fd' ((hothers fd' he).symm.trans hw)
  watched fd' hmem := by
    by_cases he : fd' = fd
    · subst he
      exact mt hwatched.1 (h.watched fd' hmem)
    · rw [hothers fd' he]
      exact h.watched fd' hmem
  early fd' hmem hnew := by
    by_cases he : fd' = fd
    · subst he
      rcases hmode with hreg | hsame | hwrite
      · exact absurd hreg hnew
      · exact hsame.trans (h.early fd' hmem hnew)
      · exact hwrite
    · exact (hothers fd' he).trans (h.early fd' hmem hnew)
  counted := h.counted

theorem updateConnStatus (h : Accounted interest extra opened k) (fd : ℤ) (status : ConnStatus) :
    Accounted interest extra opened (schedUpdateConnStatus fd status k) where
  distinct := h.distinct
  registered := by
    rw [sockets_updateConnStatus]
    exact h.registered
  writing := h.writing
  watched := h.watched
  early := by
    rw [sockets_updateConnStatus]
    exact h.early
  counted := h.counted

/-- The first write event of a descriptor. -/
theorem register (h : Accounted interest extra opened k) (hav : k.avQueue ≠ [])
    (hfd : interest fd = some .write) :
    Accounted (Function.update interest fd (some .read)) extra opened
      (schedRegisterClient fd k) := by
  obtain ⟨c, av, -, hk⟩ := registerClient_of_ne_nil hav fd
  have hsock := sockets_registerClient_of_ne_nil hav fd
  refine ⟨h.distinct, fun fd' hmem => ?_, fun fd' hw => ?_, fun fd' hmem => ?_,
    fun fd' hmem hnew => ?_, ?_⟩
  · rw [hsock] at hmem
    rcases List.mem_append.1 hmem with hmem | hmem
    · exact h.registered fd' hmem
    · rw [List.mem_singleton.1 hmem]
      exact h.writing fd hfd
  · rw [Function.update_apply] at hw
    split_ifs at hw
    · cases hw
    · exact h.writing fd' hw
  · rw [Function.update_apply]
    split_ifs
    · exact Option.some_ne_none _
    · exact h.watched fd' hmem
  · rw [hsock, List.mem_append, List.mem_singleton, not_or] at hnew
    rw [Function.update_of_ne hnew.2]
    exact h.early fd' hmem hnew.1
  · rw [hk]
    exact h.counted

/-- A descriptor of another worker, or of none, is closed. -/
theorem close (h : Accounted interest extra opened k) (hfd : fd ∉ opened) :
    Accounted (Function.update interest fd none) extra opened k where
  distinct := h.distinct
  registered := h.registered
  writing fd' hw := h.writing fd' (Within.of_update_none hw).2
  watched fd' hmem := by
    rw [Function.update_of_ne (ne_of_mem_of_not_mem hmem hfd)]
    exact h.watched fd' hmem
  early fd' hmem hnew := by
    rw [Function.update_of_ne (ne_of_mem_of_not_mem hmem hfd)]
    exact h.early fd' hmem hnew
  counted := h.counted

/-- A registered descriptor is closed. -/
theorem remove (h : Accounted interest extra opened k) (hdistinct : k.sockets.Nodup)
    (hfd : fd ∈ k.sockets) :
    Accounted (Function.update interest fd none) extra (opened.erase fd)
      (schedRemoveClient fd k) := by
  have hsock := sockets_removeClient fd k
  have hmem : fd ∈ opened := h.registered fd hfd
  have hpos : 0 < opened.length := List.length_pos_of_mem hmem
  have hclosed : (schedRemoveClient fd k).acceptedConnections = k.acceptedConnections ∧
      (schedRemoveClient fd k).closedConnections = k.closedConnections + 1 := by
    obtain ⟨c, hc⟩ :=
      Option.ne_none_iff_exists'.1 (mt schedGetConnection_eq_none.1 (not_not.2 hfd))
    rw [schedRemoveClient, hc]
    exact ⟨rfl, rfl⟩
  have hne : ∀ fd' ∈ opened.erase fd, fd' ≠ fd ∧ fd' ∈ opened := fun fd' hmem' =>
    (h.distinct.mem_erase_iff).1 hmem'
  refine ⟨h.distinct.erase fd, fun fd' hmem' => ?_, fun fd' hw => ?_, fun fd' hmem' => ?_,
    fun fd' hmem' hnew => ?_, ?_⟩
  · rw [hsock] at hmem'
    obtain ⟨hne, hin⟩ := hdistinct.mem_erase_iff.1 hmem'
    exact h.distinct.mem_erase_iff.2 ⟨hne, h.registered fd' hin⟩
  · obtain ⟨hne, hw⟩ := Within.of_update_none hw
    exact h.distinct.mem_erase_iff.2 ⟨hne, h.writing fd' hw⟩
  · rw [Function.update_of_ne (hne fd' hmem').1]
    exact h.watched fd' (hne fd' hmem').2
  · rw [hsock] at hnew
    rw [Function.update_of_ne (hne fd' hmem').1]
    refine h.early fd' (hne fd' hmem').2 fun hin => hnew ?_
    exact hdistinct.mem_erase_iff.2 ⟨(hne fd' hmem').1, hin⟩
  · have hcounted := h.counted
    rw [List.length_erase_of_mem hmem,
      Within.toNat_load_closed (k := k) hclosed.1 hclosed.2 (by omega), hcounted]

/-- The acceptor adds a descriptor. -/
theorem arm (h : Accounted interest 0 opened k) (hfd : interest fd = none)
    (hload : k.load.toNat + 1 < UInt64.size) :
    Accounted (Function.update interest fd (some .write)) 1 (fd :: opened) k := by
  have hnew : fd ∉ opened := fun hmem => h.watched fd hmem hfd
  refine ⟨List.nodup_cons.2 ⟨hnew, h.distinct⟩, fun fd' hmem => ?_, fun fd' hw => ?_,
    fun fd' hmem => ?_, fun fd' hmem hnot => ?_, ?_⟩
  · exact List.mem_cons_of_mem fd (h.registered fd' hmem)
  · rw [Function.update_apply] at hw
    split_ifs at hw with he
    · exact List.mem_cons.2 (Or.inl he)
    · exact List.mem_cons_of_mem fd (h.writing fd' hw)
  · rw [Function.update_apply]
    split_ifs with he
    · exact Option.some_ne_none _
    · exact h.watched fd' ((List.mem_cons.1 hmem).resolve_left he)
  · rw [Function.update_apply]
    split_ifs with he
    · rfl
    · exact h.early fd' ((List.mem_cons.1 hmem).resolve_left he) hnot
  · have hcounted := h.counted
    rw [UInt64.add_zero] at hcounted
    rw [List.length_cons, hcounted, UInt64.toNat_add, UInt64.toNat_one]
    exact (Nat.mod_eq_of_lt hload).symm

/-- The acceptor counts the connection it added. -/
theorem count (h : Accounted interest 1 opened k) :
    Accounted interest 0 opened k.countAccepted := by
  have hload : k.countAccepted.load + 0 = k.load + 1 := by
    simp only [load, countAccepted]
    grind
  exact ⟨h.distinct, h.registered, h.writing, h.watched, h.early, hload ▸ h.counted⟩

end Accounted

end Worker

/-! ## The gateway -/

namespace Gateway

/-- The descriptors of `opened` that are still open. -/
def stillOpen (g : Gateway W) (opened : ℕ → List ℤ) (w : ℕ) : List ℤ :=
  (opened w).filter fun fd => (g.shared.interest w fd).isSome

/-- The workers are within their capacity and their counters are right. No descriptor is assigned
to two workers, and no epoll instance watches those in `fresh`. -/
structure Balanced (s : Setup W) (extra : ℕ → UInt64) (limit : ℕ → ℕ) (opened : ℕ → List ℤ)
    (fresh : Set ℤ) (g : Gateway W) : Prop extends Counted s extra limit g where
  accounted : ∀ w, (g.workers w).Accounted (g.shared.interest w) (extra w) (opened w)
  alone : ∀ w, ∀ fd ∈ opened w, ∀ w' ≠ w, g.shared.interest w' fd = none
  unwatched : ∀ fd ∈ fresh, ∀ w, g.shared.interest w fd = none

namespace Balanced

variable {s : Setup W} {extra : ℕ → UInt64} {limit : ℕ → ℕ} {opened : ℕ → List ℤ} {fresh : Set ℤ}
  {g : Gateway W}

theorem stillOpen_eq (h : Balanced s extra limit opened fresh g) : g.stillOpen opened = opened :=
  funext fun w => List.filter_eq_self.2 fun fd hfd =>
    Option.isSome_iff_ne_none.2 ((h.accounted w).watched fd hfd)

theorem of_interest (h : Balanced s extra limit opened fresh g) {sh : Shared W}
    (hi : sh.interest = g.shared.interest) :
    Balanced s extra limit opened fresh { g with shared := sh } where
  toCounted := h.toCounted.of_interest hi
  accounted w := by
    rw [hi]
    exact h.accounted w
  alone w fd hfd w' hw := by
    rw [hi]
    exact h.alone w fd hfd w' hw
  unwatched fd hfd w := by
    rw [hi]
    exact h.unwatched fd hfd w

theorem put (h : Balanced s extra limit opened fresh g) {w : ℕ} {cs : Session} {l : Link W}
    (hcs : cs ∈ g.sessions) (hid : l.cs.ident = cs.ident)
    (ht : Tunes w cs.ident.socket g.shared l.sh)
    (hmode : cs.ident.socket ∈ (g.workers w).sockets ∨
      l.sh.interest w cs.ident.socket = g.shared.interest w cs.ident.socket ∨
      l.sh.interest w cs.ident.socket = some .write) :
    Balanced s extra limit opened fresh (g.put l) where
  toCounted := h.toCounted.put hcs hid ht hmode
  accounted w' := by
    by_cases hw : w' = w
    · subst hw
      have hacc := h.accounted w'
      refine hacc.tune (fun fd hne => ht.others w' fd fun _ => hne) ht.watched
        (fun hwatch => ?_) hmode
      by_cases hreg : cs.ident.socket ∈ (g.workers w').sockets
      · exact hacc.registered _ hreg
      · exact hacc.writing _ ((h.within w').write_of_watched hwatch hreg (h.session cs hcs))
    · have hsame : l.sh.interest w' = g.shared.interest w' :=
        funext fun fd => ht.others w' fd fun he => absurd he hw
      change (g.workers w').Accounted (l.sh.interest w') _ _
      rw [hsame]
      exact h.accounted w'
  alone w' fd hfd w'' hw := (ht.watched_iff w'' fd).2 (h.alone w' fd hfd w'' hw)
  unwatched fd hfd w' := (ht.watched_iff w' fd).2 (h.unwatched fd hfd w')

theorem sessionRemove (h : Balanced s extra limit opened fresh g) (w : ℕ) (fd : ℤ) :
    Balanced s extra limit opened fresh (g.sessionRemove w fd) := by
  have hcounted := h.toCounted.sessionRemove w fd
  unfold Gateway.sessionRemove at hcounted ⊢
  split at hcounted
  · exact h
  · exact ⟨hcounted, h.accounted, h.alone, h.unwatched⟩

theorem updateConnStatus (h : Balanced s extra limit opened fresh g) (w : ℕ) (fd : ℤ)
    (status : ConnStatus) :
    Balanced s extra limit opened fresh (g.setWorker w (schedUpdateConnStatus fd status)) := by
  refine ⟨h.toCounted.updateConnStatus w fd status, fun w' => ?_, h.alone, h.unwatched⟩
  by_cases hw : w' = w
  · subst hw
    simp only [setWorker, Function.update_self]
    exact (h.accounted w').updateConnStatus fd status
  · simp only [setWorker, Function.update_of_ne hw]
    exact h.accounted w'

theorem leave {w : ℕ} {fd : ℤ} {e : Exit W}
    (hput : Balanced s extra limit opened fresh (g.put e.link)) :
    Balanced s extra limit opened fresh (g.leave w fd e).2 :=
  leave_keeps (fun _ h => h.sessionRemove w fd) hput

theorem flushSlot (h : Balanced s extra limit opened fresh g) (w : ℕ) (i : Fin asyncQueueDepth) :
    Balanced s extra limit opened fresh (g.flushSlot w i) := by
  refine flushSlot_keeps (h.of_interest rfl) (fun cs ht => ?_) h
  have harms := arms_flushDeliver w i ⟨cs, g.shared⟩
  exact h.put (Registry.mem_of_find (session_of_flushTarget ht)) harms.ident harms.tunes
    (Or.inr harms.raises)

theorem flushCompleted (h : Balanced s extra limit opened fresh g) (w : ℕ) :
    Balanced s extra limit opened fresh (g.flushCompleted w) :=
  flushCompleted_keeps (fun _ i h => h.flushSlot w i) h

theorem connRead (h : Balanced s extra limit opened fresh g) (w : ℕ) (fd : ℤ) (r : ReadOutcome) :
    Balanced s extra limit opened fresh (g.connRead s w fd r).2 := by
  refine connRead_keeps (fun _ => h.flushCompleted w) ?_ (fun cs g' hev hdg ho => ?_) h
  · rw [connReadDatagram_eq]
    exact h.of_interest (interest_connReadDatagram s fd r g)
  · obtain ⟨h', hcs⟩ : Balanced s extra limit opened fresh g' ∧ cs ∈ g'.sessions := by
      rcases openSession_cases ho with ⟨hget, rfl⟩ | ⟨-, -, rfl, rfl⟩
      · exact ⟨h, Registry.mem_of_find hget⟩
      · exact ⟨⟨h.toCounted.addSession (not_or.2 ⟨hev, hdg⟩), h.accounted, h.alone, h.unwatched⟩,
          List.mem_append_right _ List.mem_cons_self⟩
    have harms := arms_connReadTcp s.server w s.table r ⟨cs, g'.shared⟩
    exact leave (h'.put hcs harms.ident harms.tunes (Or.inr harms.raises))

theorem connWrite (h : Balanced s extra limit opened fresh g) {w : ℕ} {fd : ℤ}
    (hlim : limit w ≤ s.sched.workerCapacity.toNat)
    (hp : g.shared.interest w fd = some .write) :
    Balanced s extra limit opened fresh (g.connWrite w fd).2 := by
  have hcounted := h.toCounted.connWrite hlim hp
  have hmark := h.updateConnStatus w fd .process
  rcases connWrite_cases w fd g with ⟨hfd, he⟩ | ⟨-, -, he⟩ | ⟨cs, hfd, hget, he⟩ <;> rw [he]
  · rw [he] at hcounted
    have htunes : Tunes w fd g.shared (epollChangeMode w fd .read g.shared) := .of_changeMode rfl
    refine ⟨hcounted, fun w' => ?_, fun w' fd' hfd' w'' hw => ?_, fun fd' hfd' w' => ?_⟩
    · change ((g.setWorker w (schedRegisterClient fd)).workers w').Accounted
        ((epollChangeMode w fd .read g.shared).interest w') _ _
      rw [epollChangeMode_interest_of_some hp]
      by_cases hw : w' = w
      · subst hw
        simp only [setWorker, Function.update_self]
        exact (h.accounted w').register ((h.within w').avQueue_ne_nil hlim hp hfd) hp
      · simp only [setWorker, Function.update_of_ne hw]
        exact h.accounted w'
    · exact (htunes.watched_iff w'' fd').2 (h.alone w' fd' hfd' w'' hw)
    · exact (htunes.watched_iff w' fd').2 (h.unwatched fd' hfd' w')
  · exact hmark
  · refine leave (hmark.put (Registry.mem_of_find hget) (connWriteTcp_ident w ⟨cs, g.shared⟩)
      (connWriteTcp_tunes w ⟨cs, g.shared⟩) (Or.inl ?_))
    rw [sockets_setWorker_status, (Roll.isAt_iff.1 (Registry.find_key hget)).2]
    exact hfd

/-- The descriptors still open once `fd` is closed. -/
theorem stillOpen_close (h : Balanced s extra limit opened fresh g) {g' : Gateway W} {fd : ℤ}
    (hint : ∀ w, g'.shared.interest w = Function.update (g.shared.interest w) fd none) (w : ℕ) :
    g'.stillOpen opened w = (opened w).erase fd := by
  rw [(h.accounted w).distinct.erase_eq_filter, stillOpen]
  refine List.filter_congr fun fd' hfd' => ?_
  rw [hint, Function.update_apply]
  split_ifs with he
  · simp [he]
  · rw [Option.isSome_iff_ne_none.2 ((h.accounted w).watched fd' hfd')]
    simpa using he

theorem interest_closeFd (g : Gateway W) (fd : ℤ) (w : ℕ) :
    (g.closeFd fd).shared.interest w = Function.update (g.shared.interest w) fd none :=
  rfl

/-- The descriptors open in two workers stay apart, and the fresh ones unwatched, when one is
closed. -/
theorem close_apart (h : Balanced s extra limit opened fresh g) (fd : ℤ) :
    (∀ w, ∀ fd' ∈ (opened w).erase fd, ∀ w' ≠ w, (g.closeFd fd).shared.interest w' fd' = none) ∧
      ∀ fd' ∈ fresh, ∀ w, (g.closeFd fd).shared.interest w fd' = none := by
  have hnone : ∀ w fd', g.shared.interest w fd' = none →
      (g.closeFd fd).shared.interest w fd' = none := fun w fd' hn => by
    rw [interest_closeFd, Function.update_apply]
    split_ifs
    · rfl
    · exact hn
  exact ⟨fun w fd' hfd' w' hw => hnone w' fd' (h.alone w fd' (List.mem_of_mem_erase hfd') w' hw),
    fun fd' hfd' w => hnone w fd' (h.unwatched fd' hfd' w)⟩

/-- A descriptor of no worker is closed. -/
theorem closeFd (h : Balanced s extra limit opened fresh g) {fd : ℤ} (hfd : ∀ w, fd ∉ opened w) :
    Balanced s extra limit ((g.closeFd fd).stillOpen opened) fresh (g.closeFd fd) := by
  have hopen : (g.closeFd fd).stillOpen opened = fun w => (opened w).erase fd :=
    funext (h.stillOpen_close (interest_closeFd g fd))
  obtain ⟨halone, hfresh⟩ := h.close_apart fd
  rw [hopen]
  refine ⟨h.toCounted.closeFd fd, fun w => ?_, halone, hfresh⟩
  rw [List.erase_of_not_mem (hfd w)]
  exact (h.accounted w).close (hfd w)

/-- A worker closes a descriptor that it has registered, or that is assigned to no worker. -/
theorem removeClient (h : Balanced s extra limit opened fresh g) {w : ℕ} {fd : ℤ}
    (hreg : fd ∈ opened w → fd ∈ (g.workers w).sockets) (hothers : ∀ w' ≠ w, fd ∉ opened w') :
    Balanced s extra limit ((g.removeClient w fd).stillOpen opened) fresh
      (g.removeClient w fd) := by
  have hopen : (g.removeClient w fd).stillOpen opened = fun w => (opened w).erase fd :=
    funext (h.stillOpen_close (interest_closeFd g fd))
  obtain ⟨halone, hfresh⟩ := h.close_apart fd
  rw [hopen]
  refine ⟨h.toCounted.removeClient w fd, fun w' => ?_, halone, hfresh⟩
  by_cases hw : w' = w
  · subst hw
    have hk : (g.removeClient w' fd).workers w' = schedRemoveClient fd (g.workers w') := by
      simp [Gateway.removeClient, setWorker, Gateway.closeFd]
    rw [hk]
    by_cases hin : fd ∈ (g.workers w').sockets
    · exact (h.accounted w').remove (h.within w').partitioned.distinct hin
    · have hkeep : schedRemoveClient fd (g.workers w') = g.workers w' := by
        rw [schedRemoveClient, schedGetConnection_eq_none.2 hin]
      rw [hkeep, List.erase_of_not_mem (mt hreg hin)]
      exact (h.accounted w').close (mt hreg hin)
  · have hk : (g.removeClient w fd).workers w' = g.workers w' := by
      simp [Gateway.removeClient, setWorker, Gateway.closeFd, hw]
    rw [hk, List.erase_of_not_mem (hothers w' hw)]
    exact (h.accounted w').close (hothers w' hw)

theorem closeFailed {w : ℕ} {fd : ℤ} {res : ℤ × Gateway W}
    (h : Balanced s extra limit opened fresh res.2)
    (hreg : fd ∈ opened w → fd ∈ (res.2.workers w).sockets) (hothers : ∀ w' ≠ w, fd ∉ opened w') :
    Balanced s extra limit ((closeFailed w fd res).stillOpen opened) fresh
      (closeFailed w fd res) := by
  rcases Int.lt_or_le res.1 0 with hneg | hpos
  · rw [closeFailed_of_neg hneg]
    exact h.removeClient hreg hothers
  · rw [closeFailed_of_nonneg hpos, h.stillOpen_eq]
    exact h

/-- The acceptor adds a descriptor that no instance watches. -/
theorem arm {extra : ℕ → UInt64} {limit : ℕ → ℕ} (h : Balanced s extra limit opened fresh g)
    {extra' : ℕ → UInt64} {limit' : ℕ → ℕ} {w : ℕ} {fd : ℤ}
    (hcounted : (g.arm w fd).Counted s extra' limit') (h0 : extra w = 0)
    (hextra : extra' = Function.update extra w 1) (hfd : ∀ w', g.shared.interest w' fd = none)
    (hload : (g.workers w).load.toNat + 1 < UInt64.size) :
    Balanced s extra' limit' (Function.update opened w (fd :: opened w)) ∅ (g.arm w fd) := by
  have hself : (g.arm w fd).shared.interest w =
      Function.update (g.shared.interest w) fd (some .write) := by
    simp [Gateway.arm]
  have hother : ∀ w' ≠ w, (g.arm w fd).shared.interest w' = g.shared.interest w' := fun w' hw => by
    simp [Gateway.arm, hw]
  refine ⟨hcounted, fun w' => ?_, fun w' fd' hfd' w'' hw => ?_, fun _ hfd' => hfd'.elim⟩
  · by_cases hw : w' = w
    · subst hw
      have hacc := h.accounted w'
      rw [h0] at hacc
      rw [hextra, hself, Function.update_self, Function.update_self]
      exact hacc.arm (hfd w') hload
    · rw [hextra, hother w' hw, Function.update_of_ne hw, Function.update_of_ne hw]
      exact h.accounted w'
  · by_cases hw'' : w'' = w
    · subst hw''
      rw [Function.update_of_ne hw.symm] at hfd'
      have hne : fd' ≠ fd := fun he => (h.accounted w').watched fd' hfd' (he ▸ hfd w')
      rw [hself, Function.update_of_ne hne]
      exact h.alone w' fd' hfd' w'' hw
    · rw [hother w'' hw'']
      by_cases hw' : w' = w
      · subst hw'
        rw [Function.update_self] at hfd'
        rcases List.mem_cons.1 hfd' with rfl | hfd'
        · exact hfd w''
        · exact h.alone w' fd' hfd' w'' hw
      · rw [Function.update_of_ne hw'] at hfd'
        exact h.alone w' fd' hfd' w'' hw

theorem count (h : Balanced s extra limit opened fresh g) {extra' : ℕ → UInt64} {w : ℕ}
    (hcounted : (g.setWorker w Worker.countAccepted).Counted s extra' limit) (h1 : extra w = 1)
    (hextra : extra' = Function.update extra w 0) :
    Balanced s extra' limit opened fresh (g.setWorker w Worker.countAccepted) := by
  refine ⟨hcounted, fun w' => ?_, h.alone, h.unwatched⟩
  have hacc := h.accounted w'
  by_cases hw : w' = w
  · subst hw
    rw [h1] at hacc
    rw [hextra, Function.update_self]
    simp only [setWorker, Function.update_self]
    exact hacc.count
  · rw [hextra, Function.update_of_ne hw]
    simp only [setWorker, Function.update_of_ne hw]
    exact hacc

end Balanced

/-! ## Events of an event loop -/

variable {s : Setup W} {extra : ℕ → UInt64} {limit : ℕ → ℕ} {opened : ℕ → List ℤ} {fresh : Set ℤ}
  {g : Gateway W}

theorem workers_sessionRemove (w : ℕ) (fd : ℤ) (g : Gateway W) :
    (g.sessionRemove w fd).workers = g.workers ∧ (g.sessionRemove w fd).shared = g.shared := by
  unfold sessionRemove
  split <;> exact ⟨rfl, rfl⟩

theorem workers_leave (w : ℕ) (fd : ℤ) (e : Exit W) (g : Gateway W) :
    (g.leave w fd e).2.workers = g.workers :=
  leave_keeps (P := fun g' => g'.workers = g.workers)
    (fun g' h => (workers_sessionRemove w fd g').1.trans h) rfl

theorem workers_flushCompleted (w : ℕ) (g : Gateway W) :
    (g.flushCompleted w).workers = g.workers :=
  flushCompleted_keeps (P := fun g' => g'.workers = g.workers)
    (fun _ _ h => flushSlot_keeps (P := fun g' => g'.workers = g.workers) h (fun _ _ => h) h) rfl

/-- A read leaves the workers alone. -/
theorem workers_connRead (s : Setup W) (w : ℕ) (fd : ℤ) (r : ReadOutcome) (g : Gateway W) :
    (g.connRead s w fd r).2.workers = g.workers := by
  refine connRead_keeps (P := fun g' => g'.workers = g.workers)
    (fun _ => workers_flushCompleted w g) ?_ (fun cs g' _ _ ho => ?_) rfl
  · rw [connReadDatagram_eq]
  · have hg' : g'.workers = g.workers := by
      rcases openSession_cases ho with ⟨-, rfl⟩ | ⟨-, -, -, rfl⟩ <;> rfl
    exact (workers_leave w fd _ g').trans hg'

/-- The epoll instance of worker `w` reports what it watches for. -/
def Reported (g : Gateway W) (w : ℕ) (fd : ℤ) : Ready → Prop
  | .input => g.shared.interest w fd = some .read
  | .output => g.shared.interest w fd = some .write
  | .error => g.shared.interest w fd ≠ none

theorem Reported.watched {w : ℕ} {fd : ℤ} {ready : Ready} (h : g.Reported w fd ready) :
    g.shared.interest w fd ≠ none := by
  cases ready with
  | input => exact fun hn => Option.some_ne_none _ (h.symm.trans hn)
  | output => exact fun hn => Option.some_ne_none _ (h.symm.trans hn)
  | error => exact h

/-- An error event for a descriptor that waits for its first write event. -/
def EarlyError (g : Gateway W) (w : ℕ) (fd : ℤ) (ready : Ready) : Prop :=
  ready = .error ∧ g.shared.interest w fd = some .write ∧ fd ∉ (g.workers w).sockets

/-- An event other than an early error keeps the counters right. -/
theorem Balanced.epollDispatch (h : Balanced s extra limit opened fresh g) {w : ℕ} {fd : ℤ}
    {ready : Ready} {r : ReadOutcome} (hlim : limit w ≤ s.sched.workerCapacity.toNat)
    (hp : g.Reported w fd ready) (hearly : ¬g.EarlyError w fd ready) :
    Balanced s extra limit ((g.epollDispatch s w fd ready r).stillOpen opened) fresh
      (g.epollDispatch s w fd ready r) := by
  have hothers : ∀ w' ≠ w, fd ∉ opened w' := fun w' hw hfd =>
    hp.watched (h.alone w' fd hfd w hw.symm)
  unfold Gateway.epollDispatch
  cases ready with
  | input =>
    refine (h.connRead w fd r).closeFailed (fun hfd => ?_) hothers
    rw [workers_connRead]
    by_contra hnew
    have hwrite := (h.accounted w).early fd hfd hnew
    rw [show g.shared.interest w fd = some .read from hp] at hwrite
    cases hwrite
  | output =>
    have hwrite := h.connWrite hlim hp
    rcases connWrite_cases w fd g with ⟨-, he⟩ | ⟨hfd, -, he⟩ | ⟨cs, hfd, -, he⟩
    · have hret : 0 ≤ (g.connWrite w fd).1 := by rw [he]
      simp only [closeFailed_of_nonneg hret, hwrite.stillOpen_eq]
      exact hwrite
    · refine hwrite.closeFailed (fun _ => ?_) hothers
      rw [he, sockets_setWorker_status]
      exact hfd
    · refine hwrite.closeFailed (fun _ => ?_) hothers
      rw [he, workers_leave, sockets_setWorker_status]
      exact hfd
  | error =>
    have hclosed : Balanced s extra limit ((g.removeClient w fd).stillOpen opened) fresh
        (g.removeClient w fd) := by
      refine h.removeClient (fun hfd => ?_) hothers
      by_contra hnew
      exact hearly ⟨rfl, (h.accounted w).early fd hfd hnew, hnew⟩
    have hsame : ((g.removeClient w fd).sessionRemove w fd).stillOpen opened =
        (g.removeClient w fd).stillOpen opened := by
      unfold stillOpen
      rw [(workers_sessionRemove w fd _).2]
    rw [closeFailed_of_nonneg (show 0 ≤ (g.connError w fd).1 from Int.le_refl 0)]
    change Balanced s extra limit (((g.removeClient w fd).sessionRemove w fd).stillOpen opened)
      fresh ((g.removeClient w fd).sessionRemove w fd)
    rw [hsame]
    exact hclosed.sessionRemove w fd

/-- After an early error the counters say what they said, and one descriptor less is open. -/
theorem Balanced.not_counted_of_earlyError (h : Balanced s extra limit opened fresh g) {w : ℕ}
    {fd : ℤ} {ready : Ready} {r : ReadOutcome} (hearly : g.EarlyError w fd ready) :
    ((g.epollDispatch s w fd ready r).stillOpen opened w).length ≠
      (((g.epollDispatch s w fd ready r).workers w).load + extra w).toNat := by
  obtain ⟨rfl, hwrite, hnew⟩ := hearly
  have hmem : fd ∈ opened w := (h.accounted w).writing fd hwrite
  have hpos : 0 < (opened w).length := List.length_pos_of_mem hmem
  have hkeep : schedRemoveClient fd (g.workers w) = g.workers w := by
    rw [schedRemoveClient, schedGetConnection_eq_none.2 hnew]
  have hk : ((g.removeClient w fd).workers w) = g.workers w := by
    simp [Gateway.removeClient, setWorker, Gateway.closeFd, hkeep]
  have hopen : (g.removeClient w fd).stillOpen opened w = (opened w).erase fd :=
    h.stillOpen_close (Balanced.interest_closeFd g fd) w
  unfold Gateway.epollDispatch
  rw [closeFailed_of_nonneg (show 0 ≤ (g.connError w fd).1 from Int.le_refl 0)]
  change (((g.removeClient w fd).sessionRemove w fd).stillOpen opened w).length ≠
    ((((g.removeClient w fd).sessionRemove w fd).workers w).load + extra w).toNat
  unfold stillOpen at hopen ⊢
  rw [(workers_sessionRemove w fd _).1, (workers_sessionRemove w fd _).2, hopen, hk,
    ← (h.accounted w).counted, List.length_erase_of_mem hmem]
  omega

end Gateway

/-! ## Runs -/

/-- The server, and the descriptors assigned to each worker that are still open. -/
structure Tally (W : Type) where
  server : Server W
  opened : ℕ → List ℤ

/-- The descriptors assigned to each worker once `xlab_epoll_add` succeeded. -/
def Tally.assigned (p : Tally W) : ServerEvent → ℕ → List ℤ
  | .epollAdd true =>
    match p.server.acceptor with
    | .chosen w fd => Function.update p.opened w (fd :: p.opened w)
    | _ => p.opened
  | _ => p.opened

/-- One step. -/
def tallyStep (s : Setup W) (p : Tally W) (e : ServerEvent) : Tally W :=
  ⟨serverStep s p.server e, (serverStep s p.server e).gateway.stillOpen (p.assigned e)⟩

/-- What the kernel delivers : a new descriptor that no instance watches, and events that were asked
for. -/
def Delivered (p : Server W) : ServerEvent → Prop
  | .accept fd => ∀ w, p.gateway.shared.interest w fd = none
  | .epoll w fd ready _ => p.gateway.Reported w fd ready
  | _ => True

/-- An error event for a descriptor that waits for its first write event. -/
def EarlyErrorEvent (p : Server W) : ServerEvent → Prop
  | .epoll w fd ready _ => p.gateway.EarlyError w fd ready
  | _ => False

/-- The counters of every worker differ by the number of its open descriptors, the one counted that
the acceptor is about to count. -/
def Tally.Exact (p : Tally W) : Prop :=
  ∀ w, (p.opened w).length =
    ((p.server.gateway.workers w).load + p.server.acceptor.uncounted w).toNat

/-- The descriptor the acceptor is about to add. -/
def Acceptor.fresh : Acceptor → Set ℤ
  | .chosen _ fd => {fd}
  | _ => ∅

/-- What the steps keep. -/
def Tally.Kept (s : Setup W) (p : Tally W) : Prop :=
  p.server.gateway.Balanced s p.server.acceptor.uncounted
    (p.server.acceptor.limit s.sched.workerCapacity.toNat) p.opened p.server.acceptor.fresh

theorem Tally.Kept.exact {s : Setup W} {p : Tally W} (h : p.Kept s) : p.Exact :=
  fun w => (h.accounted w).counted

section Steps

variable {s : Setup W} {g : Gateway W} {opened : ℕ → List ℤ}

theorem kept_accept (hcap : 1 ≤ s.sched.workerCapacity)
    (h : (⟨⟨g, .idle⟩, opened⟩ : Tally W).Kept s) {fd : ℤ}
    (hfd : ∀ w, g.shared.interest w fd = none) :
    (tallyStep s ⟨⟨g, .idle⟩, opened⟩ (.accept fd)).Kept s := by
  have hsound := sound_accept hcap h.toCounted fd
  have hnone : ∀ w, fd ∉ opened w := fun w hmem => (h.accounted w).watched fd hmem (hfd w)
  unfold tallyStep
  simp only [serverStep, Tally.assigned] at hsound ⊢
  cases ht : nextTarget s.sched g.workers with
  | none => exact Gateway.Balanced.closeFd h hnone
  | some w =>
    rw [ht] at hsound
    rw [Tally.Kept]
    simp only []
    rw [h.stillOpen_eq]
    refine ⟨hsound, h.accounted, h.alone, fun fd' hfd' w' => ?_⟩
    rw [Set.mem_singleton_iff.1 hfd']
    exact hfd w'

theorem kept_epollAdd (hcap : 1 ≤ s.sched.workerCapacity) {w : ℕ} {fd : ℤ}
    (h : (⟨⟨g, .chosen w fd⟩, opened⟩ : Tally W).Kept s) (added : Bool) :
    (tallyStep s ⟨⟨g, .chosen w fd⟩, opened⟩ (.epollAdd added)).Kept s := by
  have hsound := sound_epollAdd hcap h.toCounted added
  have hfd : ∀ w', g.shared.interest w' fd = none := h.unwatched fd rfl
  have hnone : ∀ w', fd ∉ opened w' := fun w' hmem => (h.accounted w').watched fd hmem (hfd w')
  unfold tallyStep
  cases added with
  | false =>
    have hclosed := Gateway.Balanced.closeFd h hnone
    exact ⟨hsound, hclosed.accounted, hclosed.alone, fun _ hmem => hmem.elim⟩
  | true =>
    have hlim : ((g.workers w).load + 0).toNat ≤
        if w = w then s.sched.workerCapacity.toNat - 1 else s.sched.workerCapacity.toNat :=
      (h.within w).limited
    have hpos := UInt64.le_iff_toNat_le.1 hcap
    have hsize := UInt64.toNat_lt_size s.sched.workerCapacity
    rw [if_pos rfl, UInt64.add_zero] at hlim
    rw [UInt64.toNat_one] at hpos
    have hextra : Acceptor.uncounted (.added w) =
        Function.update (Acceptor.uncounted (.chosen w fd)) w 1 := funext fun w' => by
      rw [Function.update_apply]
      rfl
    have hroom : (g.workers w).load.toNat + 1 < UInt64.size := by omega
    have harmed := Gateway.Balanced.arm h hsound rfl hextra hfd hroom
    rw [Tally.Kept]
    simp only [serverStep, Tally.assigned, if_true]
    rw [harmed.stillOpen_eq]
    exact harmed

theorem kept_count {w : ℕ} (h : (⟨⟨g, .added w⟩, opened⟩ : Tally W).Kept s) :
    (tallyStep s ⟨⟨g, .added w⟩, opened⟩ .count).Kept s := by
  have hsound := sound_count h.toCounted
  have hextra : Acceptor.uncounted .idle =
      Function.update (Acceptor.uncounted (.added w)) w 0 := funext fun w' => by
    rw [Function.update_apply]
    simp only [Acceptor.uncounted]
    split_ifs <;> rfl
  have hone : Acceptor.uncounted (.added w) w = 1 := if_pos rfl
  have hcounted := Gateway.Balanced.count h hsound hone hextra
  unfold tallyStep
  rw [Tally.Kept]
  simp only [serverStep, Tally.assigned]
  rw [hcounted.stillOpen_eq]
  exact hcounted

/-- Every step but an early error keeps the counters right. -/
theorem kept_step (hcap : 1 ≤ s.sched.workerCapacity) {p : Tally W} {e : ServerEvent}
    (h : p.Kept s) (hp : Delivered p.server e) (hearly : ¬EarlyErrorEvent p.server e) :
    (tallyStep s p e).Kept s := by
  have hstay : tallyStep s p e = ⟨p.server, p.server.gateway.stillOpen p.opened⟩ →
      (tallyStep s p e).Kept s := fun he => by
    rw [he, h.stillOpen_eq]
    exact h
  obtain ⟨⟨g, a⟩, opened⟩ := p
  have hshared : ∀ sh : Shared W, sh.interest = g.shared.interest →
      Gateway.Balanced s a.uncounted (a.limit s.sched.workerCapacity.toNat)
        (Gateway.stillOpen { g with shared := sh } opened) a.fresh { g with shared := sh } :=
    fun sh hi => by
      have hsame := Gateway.Balanced.of_interest h hi
      rw [hsame.stillOpen_eq]
      exact hsame
  cases e with
  | accept fd =>
    cases a with
    | idle => exact kept_accept hcap h hp
    | chosen w fd' => exact hstay rfl
    | added w => exact hstay rfl
  | epollAdd added =>
    cases a with
    | idle => cases added <;> exact hstay rfl
    | chosen w fd => exact kept_epollAdd hcap h added
    | added w => cases added <;> exact hstay rfl
  | count =>
    cases a with
    | idle => exact hstay rfl
    | chosen w fd => exact hstay rfl
    | added w => exact kept_count h
  | epoll w fd ready r =>
    exact Gateway.Balanced.epollDispatch h (a.limit_le _ w) hp hearly
  | work i => exact hshared _ (by unfold Shared.work; rfl)
  | sockets script => exact hshared _ rfl

end Steps

/-- The server before its first event has no connection. -/
def Tally.start (g : Gateway W) : Tally W :=
  ⟨⟨g, .idle⟩, fun _ => []⟩

theorem Gateway.Opened.kept {s : Setup W} {g : Gateway W} (hg : g.Opened s) :
    (Tally.start g).Kept s := by
  refine ⟨hg.sound, fun w => ⟨List.nodup_nil, fun fd hfd => ?_, fun fd hfd => ?_,
    fun fd hfd => absurd hfd List.not_mem_nil, fun fd hfd => absurd hfd List.not_mem_nil, ?_⟩,
    fun w fd hfd => absurd hfd List.not_mem_nil, fun _ hfd => hfd.elim⟩
  · simp [Tally.start, hg.workers, Worker.init, Worker.sockets] at hfd
  · exact absurd (hg.watched w fd _ hfd).1 (by simp)
  · simp [Tally.start, hg.workers, Worker.init, Worker.load, Acceptor.uncounted]

/-- In a run of the server from its start the counters of every worker are right in every state,
those where the acceptor is about to look for a worker among them, exactly when no error event
comes for a descriptor that waits for its first write event. -/
theorem load_exact_iff (s : Setup W) (hcap : 1 ≤ s.sched.workerCapacity) {g : Gateway W}
    (hg : g.Opened s) (es : List ServerEvent)
    (hes : Runs.Guarded (serverStep s) Delivered ⟨g, .idle⟩ es) :
    (∀ pre, pre <+: es → (Runs.run (tallyStep s) (Tally.start g) pre).Exact) ↔
      Runs.Guarded (serverStep s) (fun p e => ¬EarlyErrorEvent p e) ⟨g, .idle⟩ es := by
  have hmap : ∀ {D : Server W → ServerEvent → Prop},
      Runs.Guarded (tallyStep s) (fun p e => D p.server e) (Tally.start g) es ↔
        Runs.Guarded (serverStep s) D ⟨g, .idle⟩ es :=
    Runs.guarded_map (f := Tally.server) fun _ _ => rfl
  rw [← hmap]
  refine Runs.prefixes_iff_guarded (I := fun p : Tally W => p.Kept s) (fun p h => h.exact)
    (fun p e h hp hn => kept_step hcap h hp hn) (fun p e h hp hexact hearly => ?_) hg.kept
    (hmap.2 hes)
  cases e with
  | epoll w fd ready r => exact h.not_counted_of_earlyError hearly (hexact w)
  | _ => exact hearly

/-- A client is accepted, and its first write event comes. -/
def writtenClient : List ServerEvent :=
  [.accept 7, .epollAdd true, .count, .epoll 0 7 .output (.data [])]

theorem delivered_accept : Delivered (⟨launchedGateway, .idle⟩ : Server Unit) (.accept 7) :=
  fun w => by
    rw [launchedGateway_interest, if_neg]
    simp

theorem load_exact_writtenClient :
    (Runs.run (tallyStep idleSetup) (Tally.start launchedGateway) writtenClient).Exact := by
  refine (load_exact_iff idleSetup (by decide) launchedGateway_opened writtenClient
    ⟨delivered_accept, trivial, trivial, ?_, trivial⟩).2 ⟨id, id, id, ?_, trivial⟩ _
    (List.prefix_refl _)
  · unfold Delivered Gateway.Reported
    decide +kernel
  · exact fun h => nomatch h.1

/-- A client is accepted, and an error event comes before its first write event. -/
def failedClient : List ServerEvent :=
  [.accept 7, .epollAdd true, .count, .epoll 0 7 .error (.data [])]

/-- The client is counted for ever. -/
theorem load_wrong_failedClient : ¬∀ es : List ServerEvent,
    Runs.Guarded (serverStep idleSetup) Delivered ⟨launchedGateway, .idle⟩ es →
      ∀ p, p = Runs.run (tallyStep idleSetup) (Tally.start launchedGateway) es →
        p.server.acceptor = .idle →
          ∀ w, (p.server.gateway.workers w).load.toNat = (p.opened w).length := by
  intro h
  have hload := h failedClient ⟨delivered_accept, trivial, trivial, ?_, trivial⟩ _ rfl
    (by decide +kernel) 0
  · revert hload
    decide +kernel
  · unfold Delivered Gateway.Reported
    decide +kernel

end Xlab
