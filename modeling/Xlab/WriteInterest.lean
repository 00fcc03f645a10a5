import Xlab.StaleSessions
import Xlab.Watching

/-!
# Write interest and waiting responses

With one worker, a connection whose session has responses waiting should be watched for
writing, or nothing will send them. Every function that queues a response arms the socket.
Two steps undo it : the first write event of a connection sets it to reading whatever is in
the ring of a session left behind on its descriptor, and `xlab_conn_write` sets it to
reading after every write that sent something, also when `xlab_handler_write` left responses
in the ring.

`Settles` says of the coming socket calls that a write loop does not leave responses behind.
`queued_armed_iff` : in a run every queued response is on an armed socket exactly when no
write event is one of the two.
-/

namespace Xlab

variable {W : Type}

/-! ## Writes that settle the ring -/

/-- What a turn of the write loop offers of some waiting responses. -/
def offered (slots : List RespSlot) : ℕ :=
  ((slots.take 3).map RespSlot.len).sum

/-- The calls of a write loop empty the ring or fail for good : every call before takes some
whole responses. -/
inductive Settles : Shared W → List RespSlot → Prop
  | empty (sh : Shared W) : Settles sh []
  | fatal {sh : Shared W} {slots : List RespSlot} :
      (sh.call (offered slots)).1 = ⟨none, .other⟩ → Settles sh slots
  | takes {sh : Shared W} {slots : List RespSlot} {n : ℕ} :
      (sh.call (offered slots)).1.accepted = some n → 0 < n →
      (∀ s ∈ drain slots n, s.unsent = true) →
      Settles (sh.call (offered slots)).2 (drain slots n) → Settles sh slots

/-- The first call takes nothing, so that the connection is closed, or the calls settle the
ring. -/
def WriteSettles (sh : Shared W) (slots : List RespSlot) : Prop :=
  (∀ n, (sh.call (offered slots)).1.accepted = some n → n = 0) ∨ Settles sh slots

theorem iov_of_unsent {l : Link W} (h : l.cs.Unsent) : l.iov = l.cs.respQueue.pending.take 3 := by
  rw [Link.iov, List.takeWhile_eq_self_iff]
  exact fun s hs => h s (List.mem_of_mem_take hs)

theorem turnCall_of_unsent {l : Link W} (h : l.cs.Unsent) :
    l.turnCall = l.sh.call (offered l.cs.respQueue.pending) := by
  rw [Link.turnCall, iov_of_unsent h, offered]

theorem iov_eq_nil_of_unsent {l : Link W} (h : l.cs.Unsent) :
    l.iov = [] ↔ l.cs.respQueue.pending = [] := by
  rw [iov_of_unsent h, List.take_eq_nil_iff]
  simp

/-- A turn whose call takes nothing. -/
theorem writeTurn_of_nothing {l : Link W} (hiov : l.iov ≠ [])
    (hnone : ∀ n, l.turnCall.1.accepted = some n → n = 0) :
    writeTurn l = (if l.turnCall.1 = ⟨none, .other⟩ then .fatal else .leave,
      ⟨l.cs, l.turnCall.2⟩) := by
  have hgather : gather l.cs.respQueue 3 l.cs.respQueue.head = l.iov := gather_head _ 3
  have hq : l.cs.respQueue.head ≠ l.cs.respQueue.tail := fun h => hiov (by
    rw [Link.iov, l.cs.respQueue.pending_eq_nil.2 h]
    rfl)
  have h0 : takeSegments l.iov 0 = [] := by cases l.iov <;> rfl
  rw [writeTurn]
  simp only [hgather, sockWritev, if_neg hq, if_neg hiov]
  rw [← Link.turnCall]
  generalize l.turnCall = c at hnone
  obtain ⟨⟨acc, errno⟩, sh⟩ := c
  cases acc with
  | none => cases errno <;> simp
  | some n =>
    obtain rfl := hnone n rfl
    simp [h0]

namespace Settles

variable {sh : Shared W} {slots : List RespSlot}

theorem iff_of_takes {n : ℕ} (hacc : (sh.call (offered slots)).1.accepted = some n) (hn : 0 < n) :
    Settles sh slots ↔ (∀ s ∈ drain slots n, s.unsent = true) ∧
      Settles (sh.call (offered slots)).2 (drain slots n) := by
  constructor
  · intro h
    cases h with
    | empty =>
      have hle := call_accepted_le hacc
      exact absurd hle (by simpa [offered] using Nat.ne_of_gt hn)
    | fatal h =>
      rw [h] at hacc
      cases hacc
    | takes h _ hd hs =>
      obtain rfl := Option.some.inj (hacc.symm.trans h)
      exact ⟨hd, hs⟩
  · rintro ⟨hd, hs⟩
    exact .takes hacc hn hd hs

theorem iff_of_nothing (hne : slots ≠ [])
    (hnone : ∀ n, (sh.call (offered slots)).1.accepted = some n → n = 0) :
    Settles sh slots ↔ (sh.call (offered slots)).1 = ⟨none, .other⟩ := by
  constructor
  · intro h
    cases h with
    | empty => exact absurd rfl hne
    | fatal h => exact h
    | takes h hn => exact absurd (hnone _ h) (Nat.ne_of_gt hn)
  · exact .fatal

end Settles

/-- A response sent in part is at the head of what is left, and the next turn offers nothing. -/
theorem iov_of_cut {slots : List RespSlot} {n : ℕ} (hu : ∀ s ∈ slots, s.unsent = true)
    (hcut : ¬∀ s ∈ drain slots n, s.unsent = true) :
    drain slots n ≠ [] ∧ ((drain slots n).take 3).takeWhile RespSlot.unsent = [] := by
  have htail := fun s => mem_tail_drain slots n (s := s)
  generalize drain slots n = rest at hcut htail
  cases rest with
  | nil => exact absurd (by simp) hcut
  | cons s rest =>
    refine ⟨List.cons_ne_nil s rest, ?_⟩
    have hs : ¬s.unsent = true := fun hs => hcut fun t ht => by
      rcases List.mem_cons.1 ht with rfl | ht
      · exact hs
      · exact hu t (List.mem_of_mem_tail (htail t ht))
    rw [List.take_succ_cons, List.takeWhile_cons_of_neg hs]

/-- Nothing is offered, and nothing is waiting. -/
theorem settles_of_iov_nil {l : Link W} (hu : l.cs.Unsent) (hiov : l.iov = []) (fuel : ℕ)
    (sentAny : Bool) : Settles l.sh l.cs.respQueue.pending ↔
      (writeLoop fuel sentAny l).2.1 = true ∨
        (writeLoop fuel sentAny l).2.2.cs.respQueue.pending = [] := by
  have hpend := (iov_eq_nil_of_unsent hu).1 hiov
  rw [writeLoop_of_iov_nil hiov]
  exact iff_of_true (hpend ▸ .empty _) (Or.inr hpend)

/-- The loop ends with a fatal error or an empty ring exactly when its calls settle. -/
theorem writeLoop_settles (fuel : ℕ) (sentAny : Bool) (l : Link W) (hu : l.cs.Unsent)
    (hfuel : l.turnsLeft ≤ fuel) : Settles l.sh l.cs.respQueue.pending ↔
      (writeLoop fuel sentAny l).2.1 = true ∨
        (writeLoop fuel sentAny l).2.2.cs.respQueue.pending = [] := by
  induction fuel generalizing sentAny l with
  | zero => exact settles_of_iov_nil hu (turnsLeft_eq_zero.1 (Nat.le_zero.1 hfuel)) 0 sentAny
  | succ fuel ih =>
    rcases writeTurn_cases l with ⟨hiov, -⟩ | ⟨n, hn, -, hacc, ht⟩ | ⟨hiov, hnone, -⟩
    · exact settles_of_iov_nil hu hiov (fuel + 1) sentAny
    · obtain ⟨l', hring, hsh, ht⟩ : ∃ l', l'.cs.respQueue.pending =
          drain l.cs.respQueue.pending n ∧ l'.sh = l.turnCall.2 ∧ writeTurn l = (.again, l') :=
        ⟨_, pending_account_turn _ n, rfl, ht⟩
      have hlt := turnsLeft_lt ht
      rw [turnCall_of_unsent hu] at hacc hsh
      rw [Settles.iff_of_takes hacc hn, writeLoop, ht, ← hsh, ← hring]
      by_cases hu' : l'.cs.Unsent
      · exact (and_iff_right hu').trans (ih true l' hu' (by omega))
      · obtain ⟨hne, hiov⟩ := iov_of_cut hu fun h => hu' fun s hs => h s (hring ▸ hs)
        rw [← hring] at hne hiov
        simp only []
        rw [writeLoop_of_iov_nil hiov]
        exact iff_of_false (fun h => hu' h.1) (by simpa using hne)
    · rw [writeLoop, writeTurn_of_nothing hiov hnone]
      rw [turnCall_of_unsent hu] at hnone ⊢
      have hne := mt (iov_eq_nil_of_unsent hu).2 hiov
      rw [Settles.iff_of_nothing hne hnone]
      split_ifs with h
      · exact iff_of_true h (Or.inl rfl)
      · exact iff_of_false h (by simpa using hne)

theorem writeLoop_sent (fuel : ℕ) (l : Link W) : (writeLoop fuel true l).1 = true := by
  induction fuel generalizing l with
  | zero => rfl
  | succ fuel ih =>
    rw [writeLoop]
    split
    · exact ih _
    · rfl
    · rfl

/-- The loop has sent something exactly when its first call took something. -/
theorem writeLoop_sent_iff (fuel : ℕ) (l : Link W) : (writeLoop (fuel + 1) false l).1 = true ↔
    ∃ n, 0 < n ∧ l.turnCall.1.accepted = some n := by
  rcases writeTurn_cases l with ⟨hiov, h⟩ | ⟨n, hn, -, hacc, h⟩ | ⟨-, hnone, turn, hne, h⟩ <;>
    rw [writeLoop, h]
  · refine iff_of_false (by simp) ?_
    rintro ⟨n, hn, hacc⟩
    have hle := call_accepted_le hacc
    rw [hiov] at hle
    simp only [List.map_nil, List.sum_nil] at hle
    omega
  · exact iff_of_true (writeLoop_sent fuel _) ⟨n, hn, hacc⟩
  · have hsent : ¬∃ n, 0 < n ∧ l.turnCall.1.accepted = some n := by
      rintro ⟨n, hn, hacc⟩
      exact Nat.ne_of_gt hn (hnone n hacc)
    cases turn with
    | again => exact absurd rfl hne
    | leave => simpa using hsent
    | fatal => simpa using hsent

/-- A write that met a fatal error or sent nothing ends the connection. -/
theorem connWriteTcp_neg (w : ℕ) {l : Link W}
    (h : (writeLoop 65 false l).2.1 = true ∨ (writeLoop 65 false l).1 = false) :
    (connWriteTcp w l).ret < 0 := by
  have hneg : (handlerWrite w l).ret < 0 := by
    unfold handlerWrite
    rcases h with h | h
    · rw [if_pos h]
      exact neg_one_neg
    · simp only [h, Bool.false_eq_true, if_false]
      split_ifs <;> exact neg_one_neg
  unfold connWriteTcp
  rw [if_pos hneg]
  exact neg_one_neg

/-- A write whose calls settle ends the connection or leaves an empty ring. -/
theorem connWriteTcp_of_settles (w : ℕ) {l : Link W} (hu : l.cs.Unsent)
    (h : WriteSettles l.sh l.cs.respQueue.pending) : (connWriteTcp w l).ret < 0 ∨
      (connWriteTcp w l).link.cs.respQueue.pending = [] := by
  have hloop := writeLoop_settles 65 false l hu (Nat.le_trans (turnsLeft_le l) (by decide))
  have hsent := writeLoop_sent_iff 64 l
  rw [turnCall_of_unsent hu] at hsent
  have hring : (connWriteTcp w l).link.cs.respQueue = (writeLoop 65 false l).2.2.cs.respQueue := by
    rw [← (handlerWrite_link w l).1]
    unfold connWriteTcp
    simp only []
    split_ifs <;> rfl
  rw [hring]
  rcases h with hnone | hset
  · refine Or.inl (connWriteTcp_neg w (Or.inr (Bool.eq_false_iff.2 fun hany => ?_)))
    obtain ⟨n, hn, hacc⟩ := hsent.1 hany
    exact Nat.ne_of_gt hn (hnone n hacc)
  · rcases hloop.1 hset with hfatal | hnil
    · exact Or.inl (connWriteTcp_neg w (Or.inl hfatal))
    · exact Or.inr hnil

/-- A write whose calls do not settle keeps the connection, leaves responses in the ring, and
sets the socket to reading. -/
theorem connWriteTcp_of_not_settles (w : ℕ) {l : Link W} (hu : l.cs.Unsent)
    (h : ¬WriteSettles l.sh l.cs.respQueue.pending) : (connWriteTcp w l).ret = 0 ∧
      (connWriteTcp w l).removals = 0 ∧ (connWriteTcp w l).link.cs.respQueue.pending ≠ [] ∧
      (connWriteTcp w l).link.sh.interest w l.cs.ident.socket ≠ some .write := by
  obtain ⟨hsome, hset⟩ := not_or.1 h
  rw [writeLoop_settles 65 false l hu (Nat.le_trans (turnsLeft_le l) (by decide)), not_or] at hset
  have hany : (writeLoop 65 false l).1 = true := by
    rw [writeLoop_sent_iff, turnCall_of_unsent hu]
    push Not at hsome
    obtain ⟨n, hacc, hn⟩ := hsome
    exact ⟨n, Nat.pos_of_ne_zero hn, hacc⟩
  have hid := writeLoop_ident 65 false l
  have hhandler : handlerWrite w l = ⟨0, 0, (writeLoop 65 false l).2.2⟩ := by
    unfold handlerWrite
    simp only []
    rw [if_neg hset.1, if_neg (mt (RespQueue.pending_eq_nil _).2 hset.2), hany]
    rfl
  unfold connWriteTcp
  simp only [hhandler]
  refine ⟨rfl, rfl, hset.2, ?_⟩
  simp only [Link.setBody, if_neg (Int.lt_irrefl 0)]
  rw [hid, epollChangeMode_interest_self]
  split_ifs <;> simp

namespace Gateway

/-! ## What should hold after every event -/

/-- One worker, whose epoll instance is the only one that watches anything. -/
structure OneWorker (s : Setup W) (g : Gateway W) : Prop where
  workers : s.sched.workers = 1
  alone : ∀ w ≠ 0, ∀ fd, g.shared.interest w fd = none

/-- A connection with responses waiting in the ring of its session is watched for writing. -/
def QueuedArmed (g : Gateway W) : Prop :=
  ∀ cs ∈ g.sessions, cs.ident.socket ∈ (g.workers cs.ident.owner).sockets →
    cs.respQueue.pending ≠ [] → g.shared.interest cs.ident.owner cs.ident.socket = some .write

/-- The event is a write that registers a connection over a session with responses waiting, or a
write of a connection whose calls do not settle the ring. -/
def LeavesQueued (g : Gateway W) : Event → Prop
  | .epoll w fd .output _ => ∃ cs, g.sessionGet w fd = some cs ∧
      if fd ∈ (g.workers w).sockets then ¬WriteSettles g.shared cs.respQueue.pending
      else cs.respQueue.pending ≠ [] ∧ (g.workers w).avQueue ≠ []
  | _ => False

/-- One worker with at most one session on a socket and all its connections watched. Sessions on
sockets outside `skip` have no response sent in part, and those of connections are armed
while responses wait. -/
structure Steady (skip : Set ℤ) (g : Gateway W) : Prop where
  alone : ∀ w ≠ 0, ∀ fd, g.shared.interest w fd = none
  once : g.roll.directory.Pairwise fun a b => ¬(a.owner = b.owner ∧ a.socket = b.socket)
  owner : ∀ id ∈ g.roll.directory, id.owner = 0
  distinct : (g.workers 0).sockets.Nodup
  watched : ∀ fd ∈ (g.workers 0).sockets, g.shared.interest 0 fd ≠ none
  unsent : ∀ cs ∈ g.sessions, cs.ident.socket ∉ skip → cs.Unsent
  armed : ∀ cs ∈ g.sessions, cs.ident.socket ∉ skip →
    cs.ident.socket ∈ (g.workers 0).sockets → Link.Armed 0 ⟨cs, g.shared⟩

namespace Steady

variable {skip : Set ℤ} {g : Gateway W}

theorem queuedArmed (h : Steady ∅ g) : g.QueuedArmed := by
  intro cs hcs hc hne
  have ho := h.owner cs.ident (List.mem_map_of_mem hcs)
  rw [ho] at hc ⊢
  exact h.armed cs hcs (Set.notMem_empty _) hc hne

/-- Two sessions have different sockets. -/
theorem socket_ne (h : Steady skip g) {a b : SessionIdent} (ha : a ∈ g.roll.directory)
    (hb : b ∈ g.roll.directory) (hne : a ≠ b) : a.socket ≠ b.socket := by
  have : Std.Symm fun a b : SessionIdent => ¬(a.owner = b.owner ∧ a.socket = b.socket) :=
    ⟨fun a b hab hba => hab ⟨hba.1.symm, hba.2.symm⟩⟩
  intro hs
  exact h.once.forall ha hb hne ⟨(h.owner a ha).trans (h.owner b hb).symm, hs⟩

/-- A session is put back after a call. -/
theorem put (h : Steady ∅ g) {cs : Session} {l : Link W} (hcs : cs ∈ g.sessions)
    (hid : l.cs.ident = cs.ident) (ht : Tunes 0 cs.ident.socket g.shared l.sh)
    (hu : cs.ident.socket ∉ skip → l.cs.Unsent)
    (ha : cs.ident.socket ∉ skip → cs.ident.socket ∈ (g.workers 0).sockets → l.Armed 0) :
    Steady skip (g.put l) := by
  have hmem : ∀ y ∈ (g.put l).sessions, y = l.cs ∨
      y ∈ g.sessions ∧ y.ident.socket ≠ cs.ident.socket := fun y hy => by
    rcases Registry.eq_of_mem_store hy with rfl | ⟨hy, hne⟩
    · exact Or.inl rfl
    · exact Or.inr ⟨hy, h.socket_ne (List.mem_map_of_mem hy) (List.mem_map_of_mem hcs)
        (hid ▸ hne)⟩
  refine ⟨fun w hw fd => ?_, ?_, ?_, h.distinct, fun fd hfd => ?_, fun y hy hs => ?_,
    fun y hy hs hc => ?_⟩
  · exact (ht.watched_iff w fd).2 (h.alone w hw fd)
  · rw [roll_put]
    exact h.once
  · rw [roll_put]
    exact h.owner
  · exact mt (ht.watched_iff 0 fd).1 (h.watched fd hfd)
  · rcases hmem y hy with rfl | ⟨hy, -⟩
    · exact hu (hid ▸ hs)
    · exact h.unsent y hy (Set.notMem_empty _)
  · rcases hmem y hy with rfl | ⟨hy, hne⟩
    · rw [hid] at hs hc
      exact ha hs hc
    · intro hp
      exact (ht.others 0 _ fun _ => hne).trans (h.armed y hy (Set.notMem_empty _) hc hp)

/-- A call that arms what it queues. -/
theorem put_arms (h : Steady ∅ g) {cs : Session} {l : Link W} (hcs : cs ∈ g.sessions)
    (hl : Arms 0 ⟨cs, g.shared⟩ l) : Steady ∅ (g.put l) :=
  h.put hcs hl.ident hl.tunes (fun hs => hl.unsent (h.unsent cs hcs hs)) fun hs hc =>
    hl.armed (h.watched _ hc) (h.armed cs hcs hs hc)

theorem sessionRemove (h : Steady skip g) (w : ℕ) (fd : ℤ) :
    Steady skip (g.sessionRemove w fd) := by
  have hsub : (g.sessionRemove w fd).sessions.Sublist g.sessions := by
    unfold Gateway.sessionRemove
    split
    · exact List.Sublist.refl _
    · exact List.eraseP_sublist ..
  have hdir := sublist_sessionRemove w fd g
  have hw : (g.sessionRemove w fd).workers = g.workers := by
    unfold Gateway.sessionRemove
    split <;> rfl
  refine ⟨?_, h.once.sublist hdir, fun id hid => h.owner id (hdir.subset hid), ?_, ?_,
    fun cs hcs => h.unsent cs (hsub.subset hcs), fun cs hcs => ?_⟩
  · rw [shared_sessionRemove]
    exact h.alone
  · rw [hw]
    exact h.distinct
  · rw [shared_sessionRemove, hw]
    exact h.watched
  · rw [shared_sessionRemove, hw]
    exact h.armed cs (hsub.subset hcs)

theorem removeClient (h : Steady skip g) (fd : ℤ) : Steady skip (g.removeClient 0 fd) := by
  have hsock : ∀ fd', fd' ∈ ((g.removeClient 0 fd).workers 0).sockets →
      fd' ≠ fd ∧ fd' ∈ (g.workers 0).sockets := fun fd' hfd' => by
    rw [sockets_removeClient_self] at hfd'
    exact h.distinct.mem_erase_iff.1 hfd'
  refine ⟨fun w hw fd' => ?_, h.once, h.owner, ?_, fun fd' hfd' => ?_, h.unsent,
    fun cs hcs hs hc hp => ?_⟩
  · rw [interest_removeClient, h.alone w hw, ite_self]
  · rw [sockets_removeClient_self]
    exact h.distinct.erase fd
  · rw [interest_removeClient, if_neg (hsock fd' hfd').1]
    exact h.watched fd' (hsock fd' hfd').2
  · rw [interest_removeClient, if_neg (hsock _ hc).1]
    exact h.armed cs hcs hs (hsock _ hc).2 hp

/-- The descriptor need not be skipped once no session is on it. -/
theorem of_free {fd : ℤ} (h : Steady {fd} g) (hfree : g.roll.Free 0 fd) : Steady ∅ g := by
  have hne : ∀ cs ∈ g.sessions, cs.ident.socket ∉ ({fd} : Set ℤ) := fun cs hcs hs => by
    have hmem : cs.ident ∈ g.roll.directory := List.mem_map_of_mem hcs
    have hat := hfree cs.ident hmem
    rw [Roll.isAt_iff.2 ⟨h.owner _ hmem, Set.mem_singleton_iff.1 hs⟩] at hat
    cases hat
  exact ⟨h.alone, h.once, h.owner, h.distinct, h.watched,
    fun cs hcs _ => h.unsent cs hcs (hne cs hcs), fun cs hcs _ => h.armed cs hcs (hne cs hcs)⟩

/-- A handler that ends the connection removes the session, and the dispatcher closes. -/
theorem leave_closed (h : Steady ∅ g) {cs : Session} {fd : ℤ} {e : Exit W} (hcs : cs ∈ g.sessions)
    (hat : cs.ident.isAt 0 fd = true) (hid : e.link.cs.ident = cs.ident)
    (ht : Tunes 0 cs.ident.socket g.shared e.link.sh) (hret : e.ret < 0) (hn : 1 ≤ e.removals) :
    Steady ∅ (closeFailed 0 fd (g.leave 0 fd e)) := by
  have hfd := (Roll.isAt_iff.1 hat).2
  have hput : Steady {fd} (g.put e.link) := h.put hcs hid ht (fun hs => absurd hfd hs)
    fun hs => absurd hfd hs
  have hleft : Steady {fd} (g.leave 0 fd e).2 :=
    leave_keeps (fun _ h => h.sessionRemove 0 fd) hput
  rw [closeFailed_of_neg hret]
  refine (hleft.of_free ?_).removeClient fd
  rw [roll_leave]
  exact Roll.free_iterate_dropped h.once hn

/-- A handler that keeps the connection. -/
theorem leave_kept {fd : ℤ} {e : Exit W} (h : Steady ∅ (g.put e.link)) (hret : 0 ≤ e.ret)
    (hn : e.removals = 0) : Steady ∅ (closeFailed 0 fd (g.leave 0 fd e)) := by
  rw [closeFailed_of_nonneg hret, Gateway.leave, hn]
  exact h

/-- What is shared changes, and the epoll instances do not. -/
theorem of_interest (h : Steady skip g) {sh : Shared W} (hi : sh.interest = g.shared.interest) :
    Steady skip { g with shared := sh } := by
  refine ⟨?_, h.once, h.owner, h.distinct, ?_, h.unsent, fun cs hcs hs hc hp => ?_⟩
  · rw [hi]
    exact h.alone
  · rw [hi]
    exact h.watched
  · rw [hi]
    exact h.armed cs hcs hs hc hp

/-- A session without responses is created. -/
theorem addSession (h : Steady ∅ g) {fd : ℤ} (hfree : g.roll.Free 0 fd) :
    Steady ∅ (g.addSession (Session.create ⟨g.nextSid, 0, fd⟩)) := by
  have hnil : (Session.create ⟨g.nextSid, 0, fd⟩).respQueue.pending = [] := rfl
  refine ⟨h.alone, ?_, ?_, h.distinct, h.watched, fun cs hcs => ?_, fun cs hcs => ?_⟩
  · rw [roll_addSession]
    refine List.pairwise_append.2 ⟨h.once, List.pairwise_singleton .., fun a ha b hb hab => ?_⟩
    rw [List.mem_singleton.1 hb] at hab
    have hat := hfree a ha
    rw [show a.isAt 0 fd = true from Roll.isAt_iff.2 hab] at hat
    cases hat
  · rw [roll_addSession]
    intro id hid
    rcases List.mem_append.1 hid with hid | hid
    · exact h.owner id hid
    · rw [List.mem_singleton.1 hid]
      rfl
  · rcases List.mem_append.1 hcs with hcs | hcs
    · exact h.unsent cs hcs
    · rw [List.mem_singleton.1 hcs]
      intro _ s hs
      rw [hnil] at hs
      cases hs
  · rcases List.mem_append.1 hcs with hcs | hcs
    · exact h.armed cs hcs
    · rw [List.mem_singleton.1 hcs]
      exact fun _ _ hp => absurd hnil hp

theorem flushSlot (h : Steady ∅ g) (i : Fin asyncQueueDepth) : Steady ∅ (g.flushSlot 0 i) := by
  refine flushSlot_keeps (h.of_interest rfl) (fun cs ht => ?_) h
  exact h.put_arms (Registry.mem_of_find (session_of_flushTarget ht))
    (arms_flushDeliver 0 i ⟨cs, g.shared⟩)

theorem flushCompleted (h : Steady ∅ g) : Steady ∅ (g.flushCompleted 0) :=
  flushCompleted_keeps (fun _ i h => h.flushSlot i) h

/-- The status of a connection changes. -/
theorem updateConnStatus (h : Steady skip g) (w : ℕ) (fd : ℤ) (status : ConnStatus) :
    Steady skip (g.setWorker w (schedUpdateConnStatus fd status)) := by
  have hsock := sockets_setWorker_status w 0 fd status g
  refine ⟨h.alone, h.once, h.owner, ?_, ?_, h.unsent, fun cs hcs hs hc => ?_⟩
  · rw [hsock]
    exact h.distinct
  · rw [hsock]
    exact h.watched
  · rw [hsock] at hc
    exact h.armed cs hcs hs hc

end Steady

/-! ## The events -/

variable {s : Setup W} {g : Gateway W}

theorem nextTarget_one {cfg : SchedConfig} {workers : ℕ → Worker} (h : cfg.workers = 1) {w : ℕ}
    (hw : nextTarget cfg workers = some w) : w = 0 := by
  unfold nextTarget at hw
  simp only [h, Nat.sub_self, List.range'_zero, leastLoaded] at hw
  split_ifs at hw
  · exact (Option.some.inj hw).symm
  · exact (Option.some.inj hw).symm

theorem steady_accept (hs : s.sched.workers = 1) (h : Steady ∅ g) {fd : ℤ} {added : Bool}
    (hp : g.Possible (.accept fd added)) : Steady ∅ (g.acceptClient s fd added) := by
  have hnew : fd ∉ (g.workers 0).sockets := fun hfd => h.watched fd hfd (hp 0)
  have hclose : Steady ∅ (g.closeFd fd) := h.of_interest <| by
    funext w
    exact Function.update_eq_self_iff.2 (hp w).symm
  unfold acceptClient
  cases ht : nextTarget s.sched g.workers with
  | none => exact hclose
  | some w =>
    obtain rfl := nextTarget_one hs ht
    cases added with
    | false => exact hclose
    | true =>
      have hint : ∀ w' fd', (w' = 0 → fd' ≠ fd) →
          (g.arm 0 fd).shared.interest w' fd' = g.shared.interest w' fd' := fun w' fd' hne => by
        by_cases hw : w' = 0
        · subst hw
          simp [arm, hne rfl]
        · simp [arm, hw]
      have hne : ∀ fd' ∈ (g.workers 0).sockets, fd' ≠ fd := fun fd' hfd' he => hnew (he ▸ hfd')
      exact ⟨fun w hw fd' => (hint w fd' fun h => absurd h hw).trans (h.alone w hw fd'), h.once,
        h.owner, h.distinct,
        fun fd' hfd' => (hint 0 fd' fun _ => hne fd' hfd') ▸ h.watched fd' hfd', h.unsent,
        fun cs hcs hs hc hp => (hint 0 _ fun _ => hne _ hc).trans (h.armed cs hcs hs hc hp)⟩

theorem steady_read (h : Steady ∅ g) (s : Setup W) (fd : ℤ) (r : ReadOutcome) :
    Steady ∅ (g.epollDispatch s 0 fd .input r) := by
  have hclose : ∀ {res : ℤ × Gateway W}, Steady ∅ res.2 → Steady ∅ (closeFailed 0 fd res) :=
    fun hres => closeFailed_keeps (hres.removeClient fd) hres
  rw [epollDispatch, connRead]
  split_ifs with hev hdg
  · refine hclose ?_
    dsimp only
    exact h.flushCompleted
  · refine hclose ?_
    rw [connReadDatagram_eq]
    exact h.of_interest (interest_connReadDatagram s fd r g)
  · cases ho : g.openSession 0 fd with
    | none => exact hclose h
    | some p =>
      obtain ⟨cs, g'⟩ := p
      obtain ⟨h', hcs, hat⟩ : Steady ∅ g' ∧ cs ∈ g'.sessions ∧ cs.ident.isAt 0 fd = true := by
        rcases openSession_cases ho with ⟨hget, rfl⟩ | ⟨hfree, -, rfl, rfl⟩
        · exact ⟨h, Registry.mem_of_find hget, Registry.find_key hget⟩
        · exact ⟨h.addSession hfree, List.mem_append_right _ List.mem_cons_self,
            Roll.isAt_iff.2 ⟨rfl, rfl⟩⟩
      have harms := arms_connReadTcp s.server 0 s.table r ⟨cs, g'.shared⟩
      rcases connReadTcp_exit s.server 0 s.table r ⟨cs, g'.shared⟩ with he | he | rfl
      · exact h'.leave_closed hcs hat harms.ident harms.tunes he.1 he.2.ge
      · exact Steady.leave_kept (h'.put_arms hcs harms) he.1 he.2
      · exact hclose (h'.put_arms hcs harms)

theorem steady_error (h : Steady ∅ g) (s : Setup W) (fd : ℤ) (r : ReadOutcome) :
    Steady ∅ (g.epollDispatch s 0 fd .error r) := by
  rw [epollDispatch, connError, closeFailed_of_nonneg (Int.le_refl 0)]
  exact (h.removeClient fd).sessionRemove 0 fd

theorem sessionGet_of_mem (h : Steady ∅ g) {cs : Session} (hcs : cs ∈ g.sessions) :
    g.sessionGet 0 cs.ident.socket = some cs := by
  have hid : cs.ident ∈ g.roll.directory := List.mem_map_of_mem hcs
  have hat : cs.ident.isAt 0 cs.ident.socket = true := Roll.isAt_iff.2 ⟨h.owner _ hid, rfl⟩
  cases hget : g.sessionGet 0 cs.ident.socket with
  | none =>
    rw [sessionGet_eq_none.1 hget cs.ident hid] at hat
    cases hat
  | some cs' =>
    have hsame := Roll.isAt_iff.1 (Registry.find_key hget)
    have : Std.Symm fun a b : Session =>
        ¬(a.ident.owner = b.ident.owner ∧ a.ident.socket = b.ident.socket) :=
      ⟨fun a b hab hba => hab ⟨hba.1.symm, hba.2.symm⟩⟩
    by_contra hne
    exact (List.pairwise_map.1 h.once).forall (Registry.mem_of_find hget) hcs
      (fun he => hne (congrArg some he)) ⟨hsame.1.trans (h.owner _ hid).symm, hsame.2⟩

theorem steady_register (h : Steady ∅ g) (s : Setup W) {fd : ℤ} {r : ReadOutcome}
    (hp : g.Possible (.epoll 0 fd .output r)) (hfd : fd ∉ (g.workers 0).sockets)
    (hn : ¬LeavesQueued g (.epoll 0 fd .output r)) :
    Steady ∅ (g.epollDispatch s 0 fd .output r) := by
  have htunes : Tunes 0 fd g.shared (epollChangeMode 0 fd .read g.shared) := .of_changeMode rfl
  rw [epollDispatch, connWrite_register hfd, closeFailed_of_nonneg (Int.le_refl 0)]
  have hself : ((g.setWorker 0 (schedRegisterClient fd)).workers 0).sockets =
      (schedRegisterClient fd (g.workers 0)).sockets := by
    simp [setWorker]
  refine ⟨fun w hw fd' => (htunes.watched_iff w fd').2 (h.alone w hw fd'), h.once, h.owner, ?_,
    fun fd' hfd' => ?_, h.unsent, fun cs hcs hs hc hne => ?_⟩
  · change ((g.setWorker 0 (schedRegisterClient fd)).workers 0).sockets.Nodup
    rw [hself]
    exact nodup_registerClient h.distinct hfd
  · change fd' ∈ ((g.setWorker 0 (schedRegisterClient fd)).workers 0).sockets at hfd'
    rw [hself] at hfd'
    refine mt (htunes.watched_iff 0 fd').1 ?_
    rcases mem_sockets_registerClient hfd' with hmem | ⟨rfl, -⟩
    · exact h.watched fd' hmem
    · rw [show g.shared.interest 0 fd' = some .write from hp]
      simp
  · change cs.ident.socket ∈ ((g.setWorker 0 (schedRegisterClient fd)).workers 0).sockets at hc
    rw [hself] at hc
    rcases mem_sockets_registerClient hc with hmem | ⟨hfd', hav⟩
    · refine (htunes.others 0 _ fun _ he => hfd (he ▸ hmem)).trans ?_
      exact h.armed cs hcs hs hmem hne
    · refine absurd ⟨cs, ?_, ?_⟩ hn
      · rw [← hfd']
        exact sessionGet_of_mem h hcs
      · rw [if_neg hfd]
        exact ⟨hne, hav⟩

theorem steady_write (h : Steady ∅ g) (s : Setup W) {fd : ℤ} {r : ReadOutcome}
    (hp : g.Possible (.epoll 0 fd .output r)) (hn : ¬LeavesQueued g (.epoll 0 fd .output r)) :
    Steady ∅ (g.epollDispatch s 0 fd .output r) := by
  have hmark := h.updateConnStatus 0 fd .process
  rcases connWrite_cases 0 fd g with ⟨hfd, -⟩ | ⟨-, -, he⟩ | ⟨cs, hfd, hget, he⟩
  · exact steady_register h s hp hfd hn
  · rw [epollDispatch, he]
    exact hmark.removeClient fd
  · have hcs := Registry.mem_of_find hget
    have hid := connWriteTcp_ident 0 ⟨cs, g.shared⟩
    have htunes := connWriteTcp_tunes 0 ⟨cs, g.shared⟩
    have hset : WriteSettles g.shared cs.respQueue.pending := by
      by_contra hset
      refine hn ⟨cs, hget, ?_⟩
      rw [if_pos hfd]
      exact hset
    rw [epollDispatch, he]
    rcases connWriteTcp_exit 0 ⟨cs, g.shared⟩ with he | he
    · exact hmark.leave_closed hcs (Registry.find_key hget) hid htunes he.1 he.2
    · have hnil := (connWriteTcp_of_settles 0 (h.unsent cs hcs (Set.notMem_empty _))
        hset).resolve_left (Int.not_lt.2 he.1)
      refine Steady.leave_kept (hmark.put hcs hid htunes (fun _ s hs => ?_) fun _ _ hne => ?_)
        he.1 he.2
      · rw [hnil] at hs
        cases hs
      · exact absurd hnil hne

/-- Every event that can come and does not leave responses behind keeps the gateway steady. -/
theorem steady_step (hs : s.sched.workers = 1) (h : Steady ∅ g) {e : Event} (hp : g.Possible e)
    (hn : ¬LeavesQueued g e) : Steady ∅ (g.step s e) := by
  cases e with
  | accept fd added => exact steady_accept hs h hp
  | epoll w fd ready r =>
    have hw : w = 0 := by
      by_contra hw
      have hnone := h.alone w hw fd
      cases ready with
      | input => exact hp hnone
      | output =>
        rw [Possible, hnone] at hp
        cases hp
      | error => exact hp hnone
    subst hw
    cases ready with
    | input => exact steady_read h s fd r
    | output => exact steady_write h s hp hn
    | error => exact steady_error h s fd r
  | work i => exact h.of_interest (by unfold Shared.work; rfl)
  | sockets script => exact h.of_interest rfl

/-- A write event that leaves responses behind leaves them on a socket set to reading. -/
theorem not_queuedArmed_of_leavesQueued (h : Steady ∅ g) (s : Setup W) {e : Event}
    (hp : g.Possible e) (hl : LeavesQueued g e) : ¬(g.step s e).QueuedArmed := by
  obtain ⟨w, fd, r, rfl⟩ : ∃ w fd r, e = .epoll w fd .output r := by
    unfold LeavesQueued at hl
    split at hl
    · exact ⟨_, _, _, rfl⟩
    · exact hl.elim
  obtain ⟨cs, hget, hl⟩ := hl
  have hcs := Registry.mem_of_find hget
  obtain ⟨rfl, rfl⟩ := Roll.isAt_iff.1 (Registry.find_key hget)
  have ho : cs.ident.owner = 0 := h.owner _ (List.mem_map_of_mem hcs)
  intro hq
  rw [step, epollDispatch] at hq
  split_ifs at hl with hfd
  · have hid := connWriteTcp_ident cs.ident.owner ⟨cs, g.shared⟩
    obtain ⟨hret, hrem, hne, hint⟩ := connWriteTcp_of_not_settles (l := ⟨cs, g.shared⟩)
      cs.ident.owner (h.unsent cs hcs (Set.notMem_empty _)) hl
    rcases connWrite_cases cs.ident.owner cs.ident.socket g with ⟨hno, -⟩ | ⟨-, hno, -⟩ |
      ⟨cs', -, hget', he⟩
    · exact hno hfd
    · rw [hget] at hno
      cases hno
    · obtain rfl := Option.some.inj (hget.symm.trans hget')
      rw [he, closeFailed_of_nonneg hret.ge, leave, hrem] at hq
      have harmed := hq _ (Registry.mem_store_self hcs hid.symm)
      rw [hid] at harmed
      refine hint (harmed ?_ hne)
      have hsock := sockets_setWorker_status cs.ident.owner cs.ident.owner cs.ident.socket
        .process g
      exact hsock.symm ▸ hfd
  · rw [connWrite_register hfd, closeFailed_of_nonneg (Int.le_refl 0)] at hq
    have harmed := hq cs hcs ?_ hl.1
    · rw [epollChangeMode_interest_self] at harmed
      split_ifs at harmed
      cases harmed
    · obtain ⟨c, av, hav⟩ := List.exists_cons_of_ne_nil hl.2
      simp [setWorker, schedRegisterClient, hav, Worker.sockets]

/-- In a run of a gateway with one worker every state reached has its waiting responses on
sockets watched for writing, exactly when no write event registers a connection over a session
that has responses waiting, or sends something and stops before the ring is empty without a
fatal error. -/
theorem queued_armed_iff (s : Setup W) (hg : g.Started) (hone : g.OneWorker s) (es : List Event)
    (hes : Runs.Guarded (step s) Possible g es) :
    (∀ pre, pre <+: es → (Runs.run (step s) g pre).QueuedArmed) ↔
      Runs.Guarded (step s) (fun g e => ¬LeavesQueued g e) g es := by
  refine Runs.prefixes_iff_guarded (I := fun g : Gateway W => Steady ∅ g) ?_ ?_ ?_ ?_ hes
  · exact fun g h => h.queuedArmed
  · exact fun g e h hp hn => steady_step hone.workers h hp hn
  · exact fun g e h hp hq hl => not_queuedArmed_of_leavesQueued h s hp hl hq
  · have hdir : g.roll.directory = [] := by simp [roll, hg.sessions]
    have hsock : (g.workers 0).sockets = [] := by simp [Worker.sockets, hg.busy 0]
    exact ⟨hone.alone, by simp [hdir], by simp [hdir], by simp [hsock], by simp [hsock],
      by simp [hg.sessions], by simp [hg.sessions]⟩

theorem launchedGateway_oneWorker : launchedGateway.OneWorker idleSetup where
  workers := rfl
  alone w hw fd := by rw [launchedGateway_interest, if_neg fun h => hw h.1]

/-- A version request whose answer the socket does not take. -/
def versionBlocked : List Event :=
  [.accept 7 true, .epoll 0 7 .output (.data []), .sockets [⟨.fail, .eagain⟩],
    .epoll 0 7 .input (.data [0x40, 0x02, 0x02, 0xBC])]

theorem possible_versionBlocked :
    Runs.Guarded (step idleSetup) Possible launchedGateway versionBlocked := by
  refine ⟨fun w => by simp [launchedGateway_interest], ?_, trivial, ?_, trivial⟩
  · unfold Possible
    decide +kernel
  · unfold Possible
    decide +kernel

/-- The answer waits, and the socket is armed. -/
theorem queued_armed_getVer :
    (Runs.run (step idleSetup) launchedGateway versionBlocked).QueuedArmed := by
  refine (queued_armed_iff idleSetup launchedGateway_started launchedGateway_oneWorker
    versionBlocked possible_versionBlocked).2 ⟨id, ?_, id, id, trivial⟩ _ (List.prefix_refl _)
  rintro ⟨cs, hget, -⟩
  have hnone :
      (sessionGet (step idleSetup launchedGateway (.accept 7 true)) 0 7).isSome = false := by
    decide +kernel
  rw [hget] at hnone
  cases hnone

/-- The next write event sends one byte of the answer, and the socket is set to reading. -/
theorem queued_not_armed_after_partial_write :
    ¬∀ es : List Event, Runs.Guarded (step idleSetup) Possible launchedGateway es →
      (Runs.run (step idleSetup) launchedGateway es).QueuedArmed := by
  intro h
  have hposs : Runs.Guarded (step idleSetup) Possible launchedGateway (versionBlocked ++
      [.sockets [⟨.part 0, .other⟩], .epoll 0 7 .output (.data [])]) := by
    refine Runs.guarded_append.2 ⟨possible_versionBlocked, trivial, ?_, trivial⟩
    unfold Possible
    decide +kernel
  have harmed := h _ hposs
  revert harmed
  unfold QueuedArmed
  decide +kernel

end Gateway

end Xlab
