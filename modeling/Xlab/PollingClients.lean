import Xlab.Arming
import Xlab.Cleanup
import Xlab.EverySession
import Xlab.Polling

/-!
# Clients that wait for their answers

`Polled` is what a client keeps of its session when it sends a request only after it has read the
answer to the one before. Here some clients of the gateway do so, any number of them and on any
workers, next to others that do as they like. A read from such a client brings one whole frame of a
command the router accepts, or nothing whole. The sockets take a direct send to it whole, and of a
write a number of whole responses or nothing.

`polling_clients_served` : each of them has read answers to its first requests, in order, and at
most one response of it waits or is outstanding. After the background thread has run the tasks there
are, the last answer of each waits in its ring as soon as any worker has flushed the table.
-/

namespace Xlab

variable {W : Type} {w : ℕ} {t : RouterTable W} {l : Link W}

/-- A read brings at most one item, which the client may send, and a direct answer to it is taken
whole. -/
def PollingRead (t : RouterTable W) : ReadOutcome → Link W → Prop
  | .data bytes, l =>
    (itemsOf (l.cs.body ++ bytes.take (requestChunk - l.cs.body.length))).length ≤ 1 ∧
      ∀ it ∈ itemsOf (l.cs.body ++ bytes.take (requestChunk - l.cs.body.length)),
        DirectSendsWhole t l (.react it) ∧ Polls t l (.react it)
  | .error _, _ => True

/-- The first `fuel` turns of the write loop take whole slots, as far as it comes. -/
def WholeTurns : ℕ → Link W → Prop
  | 0, _ => True
  | fuel + 1, l => WholeTurn l ∧ ((writeTurn l).1 = .again → WholeTurns fuel (writeTurn l).2)

/-- The calls of a write take whole slots. -/
def WholeWrite (l : Link W) : Prop :=
  WholeTurns 65 l

namespace Polled

/-! ## Calls of a client that waits -/

theorem others (h : Polled t l) (sh : Shared W)
    (hq : SameTasks l.cs.ident l.sh.queue sh.queue) : Polled t ⟨l.cs, sh⟩ :=
  h.step 0 (e := .others sh) hq False.elim trivial

theorem setBody (h : Polled t l) (body : List UInt8) : Polled t (l.setBody body) :=
  h.step 0 (e := .body body) trivial False.elim trivial

theorem connParse (h : Polled t l) (w : ℕ) {chunk : List UInt8}
    (hlen : (itemsOf (l.cs.body ++ chunk)).length ≤ 1)
    (hits : ∀ it ∈ itemsOf (l.cs.body ++ chunk),
      DirectSendsWhole t l (.react it) ∧ Polls t l (.react it)) :
    Polled t (connParse w t chunk l) := by
  rw [connParse_run]
  generalize (Scanner.scan classify 0 (l.cs.body ++ chunk)).2 = left
  generalize itemsOf (l.cs.body ++ chunk) = items at hlen hits
  have hbody := h.setBody (l.cs.body ++ chunk)
  match items with
  | [] => exact hbody.setBody left
  | [it] =>
    obtain ⟨hS, hP⟩ := hits it List.mem_cons_self
    exact (hbody.step w (e := .react it) trivial hS hP).setBody left
  | _ :: _ :: its => simp at hlen

theorem connReadTcp (h : Polled t l) (cfg : ServerConfig) (w : ℕ) {r : ReadOutcome}
    (hr : PollingRead t r l) : Polled t (connReadTcp cfg w t r l).link := by
  unfold Xlab.connReadTcp connReadMax
  split
  · exact h
  · exact h
  · simp only []
    split_ifs
    · exact h
    · exact h.connParse w hr.1 hr.2
    · exact h.connParse w hr.1 hr.2

/-- The loop of a write whose calls take whole slots. -/
theorem writeLoop (h : Polled t l) {fuel : ℕ} (hW : WholeTurns fuel l) (sentAny : Bool) :
    Polled t (writeLoop fuel sentAny l).2.2 := by
  induction fuel generalizing sentAny l with
  | zero => exact h
  | succ fuel ih =>
    obtain ⟨hturn, hrest⟩ := hW
    have hstep : Polled t (writeTurn l).2 := h.step 0 (e := .turn) trivial hturn trivial
    rw [Xlab.writeLoop]
    rcases hw : writeTurn l with ⟨turn, l'⟩
    rw [hw] at hstep hrest
    cases turn with
    | again => exact ih hstep (hrest rfl) true
    | leave => exact hstep
    | fatal => exact hstep

theorem connWriteTcp (h : Polled t l) (hW : WholeWrite l) (w : ℕ) :
    Polled t (connWriteTcp w l).link := by
  have hwrite : Polled t (handlerWrite w l).link := by
    obtain ⟨hcs, hq⟩ := handlerWrite_link w l
    have hloop := h.writeLoop hW false
    have hsame : Polled t ⟨(Xlab.writeLoop 65 false l).2.2.cs, (handlerWrite w l).link.sh⟩ :=
      hloop.others _ (sameTasks_of_eq hq)
    rwa [← hcs] at hsame
  unfold Xlab.connWriteTcp
  simp only []
  split_ifs
  · exact hwrite
  · exact (hwrite.setBody []).others _ (sameTasks_of_eq (epollChangeMode_queue ..))

/-- A flush that finds room in the ring makes no call. -/
theorem flushOwn_of_room (hroom : l.cs.respQueue.pending.length ≠ 63) (w : ℕ)
    (i : Fin asyncQueueDepth) (script : List IoOutcome) :
    (flushOwn w i ⟨l.cs, { l.sh with script := script }⟩).cs = (flushOwn w i l).cs ∧
      (flushOwn w i l).sh.queue =
        (flushOwn w i ⟨l.cs, { l.sh with script := script }⟩).sh.queue := by
  unfold flushOwn flushDeliver
  simp only []
  split_ifs
  · exact ⟨rfl, rfl⟩
  · cases hq : l.cs.respQueue.enqueue (l.sh.queue i).response with
    | none => exact absurd ((RespQueue.enqueue_eq_none _ _).1 hq) hroom
    | some q =>
      simp only [apply_ite Shared.queue, epollChangeMode_queue, ite_self]
      exact ⟨rfl, rfl⟩
  · exact ⟨rfl, rfl⟩

/-- So a client that waits needs nothing of the sockets in a flush. -/
theorem flushOwn (h : Polled t l) (w : ℕ) (i : Fin asyncQueueDepth) :
    Polled t (flushOwn w i l) := by
  have hone := h.one
  obtain ⟨hcs, hq⟩ := flushOwn_of_room (l := l) (by omega) w i []
  have hready : Polled t ⟨l.cs, { l.sh with script := [] }⟩ := h.others _ (sameTasks_of_eq rfl)
  have hflush : Polled t (Xlab.flushOwn w i ⟨l.cs, { l.sh with script := [] }⟩) :=
    hready.step w (e := .flush w i) trivial (fun _ => Shared.nextWhole_of_nil rfl) trivial
  have hsame := hflush.others (Xlab.flushOwn w i l).sh (sameTasks_of_eq hq)
  rwa [hcs] at hsame

/-! ## The last answer -/

/-- No task is outstanding, or a flush over `is` comes to the one there is. -/
def Due (t : RouterTable W) (is : List (Fin asyncQueueDepth)) (l : Link W) : Prop :=
  Polled t l ∧ (l.ledger.outstanding = 0 ∨ ∃ i ∈ is, l.deliverable i = true)

theorem othersKeep_due (is : List (Fin asyncQueueDepth)) : OthersKeep (Due t is) := by
  rintro cs sh sh' hq ⟨h, hdue⟩
  refine ⟨h.others _ hq, ?_⟩
  have hA : Admissible ⟨cs, sh⟩ (.others sh') := hq
  rw [ledger_others hA]
  rcases hdue with h0 | ⟨i, hi, hd⟩
  · exact Or.inl h0
  · refine Or.inr ⟨i, hi, ?_⟩
    obtain ⟨hf, hown⟩ := Bool.and_eq_true_iff.1 (Link.deliverable_own hd)
    have hsame := hq i (Or.inr (Bool.and_eq_true_iff.2 ⟨AsyncTask.valid_of_flushable hf, hown⟩))
    simpa only [Link.deliverable, hsame] using hd

/-- The turn of a flush for a slot leaves nothing outstanding, or the slot is not the one. -/
theorem due_flushOwn (w : ℕ) (i : Fin asyncQueueDepth) (is : List (Fin asyncQueueDepth))
    (l : Link W) (h : Due t (i :: is) l) : Due t is (Xlab.flushOwn w i l) := by
  obtain ⟨hpolled, hdue⟩ := h
  refine ⟨hpolled.flushOwn w i, ?_⟩
  have hone := hpolled.one
  by_cases hd : l.deliverable i = true
  · have hout := congrArg Multiset.card (ledger_flush hd w).2
    rw [Multiset.card_cons] at hout
    exact Or.inl (Multiset.card_eq_zero.1 (by omega))
  · rw [flushOwn_of_not_deliverable (Bool.not_eq_true _ ▸ hd)]
    refine hdue.imp_right ?_
    rintro ⟨j, hj, hdj⟩
    rcases List.mem_cons.1 hj with rfl | hj
    · exact absurd hdj hd
    · exact ⟨j, hj, hdj⟩

end Polled

/-! ## The gateway -/

/-- Clients that wait for their answers. -/
theorem polled_invariant (s : Setup W) :
    SessionInvariant s (PollingRead s.table) WholeWrite (Polled s.table) where
  others _ _ _ hq h := h.others _ hq
  fresh _ hl := .fresh hl
  read w _ _ hr h := h.connReadTcp s.server w hr
  write w _ hW h := h.connWriteTcp hW w
  flush w i _ h := h.flushOwn w i
  work i _ h := h.step 0 (e := .work i) trivial False.elim trivial

namespace Gateway

/-- The clients in `C` wait for their answers. -/
def ClientsPoll (s : Setup W) (C : SessionIdent → Prop) : Gateway W → Event → Prop :=
  OnSessions s (fun r l => C l.cs.ident → PollingRead s.table r l)
    fun l => C l.cs.ident → WholeWrite l

/-- A flush after the tasks have run leaves nothing outstanding of a client that waits. -/
theorem outstanding_flushCompleted {s : Setup W} {C : SessionIdent → Prop} {g : Gateway W}
    (hr : g.Routed) (hpolled : g.AllSessions fun l => C l.cs.ident → Polled s.table l)
    (hdone : ∀ i, (g.shared.queue i).Done) {w : ℕ} (hheirs : ∀ i, Heirless w g i) :
    (g.flushCompleted w).AllSessions fun l =>
      C l.cs.ident → Polled s.table l ∧ l.ledger.outstanding = 0 := by
  have hdue : g.AllSessions fun l =>
      C l.cs.ident → Polled.Due s.table (List.finRange asyncQueueDepth) l := by
    intro cs hcs hC
    have h := hpolled cs hcs hC
    refine ⟨h, or_iff_not_imp_left.2 fun hne => ?_⟩
    have hcompleted : (⟨cs, g.shared⟩ : Link W).Completed := fun i hi =>
      hdone i (Bool.and_eq_true_iff.1 hi).1
    obtain ⟨i, hi⟩ := exists_deliverable h.consecutive hcompleted hne
    exact ⟨i, List.mem_finRange i, hi⟩
  have hflush := AllSessions.flushSlots
    (P := fun is l => C l.cs.ident → Polled.Due s.table is l) (w := w)
    (fun is _ _ _ hq h hC => Polled.othersKeep_due is _ _ _ hq (h hC))
    (fun i is l h hC => Polled.due_flushOwn w i is l (h (ident_flushOwn w i l ▸ hC)))
    (List.nodup_finRange _) hdue hr fun i _ => hheirs i
  intro cs hcs hC
  obtain ⟨h, hnone⟩ := hflush cs hcs hC
  exact ⟨h, hnone.resolve_right (by simp)⟩

/-- In a run of the gateway in which no flush meets an heir, each client that waits for its answers
has read an answer to each of its first requests, in order, and at most one response of it waits or
is outstanding, whatever the other clients do. Once the background thread has been at every slot in
use, a flush in any worker leaves the last answer it has not read in its ring. -/
theorem polling_clients_served (s : Setup W) (C : SessionIdent → Prop) {g : Gateway W}
    (hg : g.Started) (es : List Event) (hn : Runs.Guarded (step s) (NoHeirs s) g es)
    (hp : Runs.Guarded (step s) (ClientsPoll s C) g es) :
    (∀ cs ∈ (Runs.run (step s) g es).sessions, C cs.ident →
      List.Forall₂ (Answered s.table)
          ((cs.recognised.map .frame).take
            (⟨cs, (Runs.run (step s) g es).shared⟩ : Link W).repliesRead.length)
          (⟨cs, (Runs.run (step s) g es).shared⟩ : Link W).repliesRead ∧
        cs.respQueue.pending.length +
          (⟨cs, (Runs.run (step s) g es).shared⟩ : Link W).ledger.outstanding.card ≤ 1) ∧
      ∀ (is : List (Fin asyncQueueDepth)) (w : ℕ) (r : ReadOutcome),
        (∀ i, ((Runs.run (step s) g es).shared.queue i).valid = true → i ∈ is) →
        Runs.Guarded (step s) (NoHeirs s) (Runs.run (step s) g es)
          (is.map .work ++ [.epoll w s.eventFd .input r]) →
        ∀ cs ∈ (Runs.run (step s) g
            (es ++ (is.map .work ++ [.epoll w s.eventFd .input r]))).sessions, C cs.ident →
          List.Forall₂ (Answered s.table) (cs.recognised.map .frame)
            (drainRing ⟨cs, (Runs.run (step s) g
              (es ++ (is.map .work ++ [.epoll w s.eventFd .input r]))).shared⟩).repliesRead := by
  obtain ⟨hrouted, hpolled⟩ := ((polled_invariant s).only C).run hg hn hp
  refine ⟨fun cs hcs hC => ⟨(hpolled cs hcs hC).answered, (hpolled cs hcs hC).one⟩,
    fun is w r his hheirs => ?_⟩
  rw [Runs.run_append]
  generalize Runs.run (step s) g es = g at hrouted hpolled his hheirs
  have hrouted' : (Runs.run (step s) g (is.map .work)).Routed :=
    Runs.run_keeps (I := fun g : Gateway W => g.Routed) (fun _ e h => h.step s e) hrouted _
  obtain ⟨-, hheirs⟩ := Runs.guarded_append.1 hheirs
  rw [Runs.run_append]
  rw [run_work] at hrouted' hheirs ⊢
  have hpolled' : AllSessions (fun l => C l.cs.ident → Polled s.table l)
      { g with shared := is.foldl Shared.work g.shared } := fun cs hcs hC =>
    (hpolled cs hcs hC).workSlots is
  have hdone : ∀ i, ((is.foldl Shared.work g.shared).queue i).Done := fun i => by
    by_cases hv : (g.shared.queue i).valid = true
    · exact done_foldl_work (Or.inl (his i hv))
    · exact done_foldl_work (Or.inr fun hv' => absurd hv' hv)
  rw [run_flush]
  intro cs hcs hC
  obtain ⟨h, h0⟩ := outstanding_flushCompleted hrouted' hpolled' hdone (hheirs.1 w r rfl) cs hcs hC
  exact h.answered_drainRing h0

/-- A client waits for the answer of the task it submitted. -/
theorem polling_clients_served_submittedRead :
    (Runs.run (step idleSetup) idleGateway
        (submittedRead ++ [.work firstSlot, .epoll 0 3 .input (.data [])])).sessions ≠ [] ∧
      ∀ cs ∈ (Runs.run (step idleSetup) idleGateway
          (submittedRead ++ [.work firstSlot, .epoll 0 3 .input (.data [])])).sessions,
        cs.ident = firstClient → List.Forall₂ (Answered idleSetup.table)
          (cs.recognised.map .frame) (drainRing ⟨cs, (Runs.run (step idleSetup) idleGateway
            (submittedRead ++ [.work firstSlot, .epoll 0 3 .input (.data [])])).shared⟩).repliesRead
    := by
  refine ⟨by decide +kernel, (polling_clients_served idleSetup (· = firstClient)
    idleGateway_started submittedRead ?_ ?_).2 [firstSlot] 0 (.data []) ?_ ?_⟩
  · refine ⟨nofun, nofun, ?_, nofun, trivial⟩
    rintro w r ⟨⟩
  · refine ⟨trivial, ?_, ?_, trivial, trivial⟩
    · intro cs h
      cases h
    · intro _ _ cs g' ho _
      obtain ⟨rfl, rfl⟩ := Prod.mk.inj (Option.some.inj ho)
      have hitems : itemsOf [0x40, 0x04, 0x06, 0x00, 0x01, 0xB5] = [.frame startRead] := by
        decide +kernel
      refine ⟨by decide +kernel, fun it hit =>
        ⟨fun _ => Shared.nextWhole_of_nil rfl, startRead, ?_, ?_, rfl⟩⟩
      · exact List.mem_singleton.1 (hitems ▸ hit)
      · decide
  · decide +kernel
  · refine ⟨nofun, ?_, trivial⟩
    rintro w r ⟨⟩
    decide +kernel

end Gateway

end Xlab
