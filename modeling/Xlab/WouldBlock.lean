import Xlab.Capacity
import Xlab.Resume

/-!
# Socket calls that would block

`EAGAIN` says that a socket has nothing to read or no room to write, and that the call may be made
again later. `xlab_conn_read` removes the session for other errors only, and
`xlab_handler_write` leaves its loop to wait for the next write event. But both return −1, and
the dispatcher closes the connection on every negative value.

`would_block_closes` : after an event on a registered connection whose socket calls all fail with
`EAGAIN` the descriptor is closed, whatever the state of its session and its ring.
-/

namespace Xlab

variable {W : Type}

namespace Gateway

/-- Every socket call of a read or write event in worker `w` fails with `EAGAIN`. -/
def OnlyBlocks (g : Gateway W) (w : ℕ) (fd : ℤ) : Ready → ReadOutcome → Prop
  | .input, r => r = .error .eagain
  | .output, _ => ∀ cs, g.sessionGet w fd = some cs →
      WriteCalls (fun r => r = ⟨none, .eagain⟩) ⟨cs, g.shared⟩
  | .error, _ => False

/-- The connection is as it was : open and registered, its session there with the bytes, the ring
and the counters it had, and empty if it is new. -/
structure Unharmed (w : ℕ) (fd : ℤ) (g g' : Gateway W) : Prop where
  opened : g'.shared.interest w fd ≠ none
  registered : fd ∈ (g'.workers w).sockets
  session : ∀ cs, g.sessionGet w fd = some cs → ∃ cs', g'.sessionGet w fd = some cs' ∧
    cs'.body = cs.body ∧ cs'.respQueue.pending = cs.respQueue.pending ∧
    cs'.nextReqSeq = cs.nextReqSeq ∧ cs'.respSeqExpected = cs.respSeqExpected
  created : g.sessionGet w fd = none → ∀ cs', g'.sessionGet w fd = some cs' →
    cs' = Session.create cs'.ident

/-- The descriptor is closed. -/
def Closed (fd : ℤ) (g : Gateway W) : Prop :=
  ∀ w, g.shared.interest w fd = none

/-- A write loop whose calls would block sends nothing. -/
theorem connWriteTcp_of_blocks (w : ℕ) {l : Link W}
    (h : WriteCalls (fun r => r = ⟨none, .eagain⟩) l) : (connWriteTcp w l).ret < 0 := by
  refine connWriteTcp_neg w (Or.inr (Bool.eq_false_iff.2 fun hsent => ?_))
  obtain ⟨n, hn, hacc⟩ := (writeLoop_sent_iff 64 l).1 hsent
  by_cases hiov : l.iov = []
  · have hle : n ≤ (l.iov.map RespSlot.len).sum := call_accepted_le hacc
    rw [hiov] at hle
    exact absurd hn (Nat.not_lt.2 hle)
  · have hcall : l.turnCall.1 = ⟨none, .eagain⟩ :=
      h 0 (fun j hj => absurd hj (Nat.not_lt_zero j)) hiov
    rw [hcall] at hacc
    cases hacc

/-- The dispatcher closes the descriptor of a handler that returned a negative value. -/
theorem closed_of_neg {w : ℕ} {fd : ℤ} {res : ℤ × Gateway W} (hneg : res.1 < 0) :
    Closed fd (closeFailed w fd res) := fun w' => by
  rw [closeFailed_of_neg hneg, connClose, interest_removeClient, if_pos rfl]

variable {s : Setup W} {g : Gateway W} {w : ℕ} {fd : ℤ}

theorem connRead_neg (htcp : ¬IsShared s g.trans fd) :
    (g.connRead s w fd (.error .eagain)).1 < 0 := by
  rw [connRead, if_neg (not_or.1 htcp).1, if_neg (not_or.1 htcp).2]
  cases g.openSession w fd with
  | none => exact neg_one_neg
  | some p => exact neg_one_neg

theorem connWrite_neg (hfd : fd ∈ (g.workers w).sockets) {r : ReadOutcome}
    (h : g.OnlyBlocks w fd .output r) : (g.connWrite w fd).1 < 0 := by
  rcases connWrite_cases w fd g with ⟨hno, -⟩ | ⟨-, -, he⟩ | ⟨cs, -, hget, he⟩
  · exact absurd hfd hno
  · rw [he]
    exact neg_one_neg
  · rw [he]
    exact connWriteTcp_of_blocks w (h cs hget)

end Gateway

/-- In every state, and so in every one the server reaches, an event on a registered connection
all of whose socket calls fail with `EAGAIN` ends with the descriptor closed. -/
theorem would_block_closes (s : Setup W) (p : Server W) {w : ℕ} {fd : ℤ} {ready : Gateway.Ready}
    {r : ReadOutcome} (hfd : fd ∈ (p.gateway.workers w).sockets)
    (htcp : ¬Gateway.IsShared s p.gateway.trans fd) (hblocks : p.gateway.OnlyBlocks w fd ready r) :
    (serverStep s p (.epoll w fd ready r)).gateway.Closed fd ∧
      ¬Gateway.Unharmed w fd p.gateway (serverStep s p (.epoll w fd ready r)).gateway := by
  have hclosed : (serverStep s p (.epoll w fd ready r)).gateway.Closed fd := by
    cases ready with
    | input =>
      obtain rfl : r = .error .eagain := hblocks
      exact Gateway.closed_of_neg (Gateway.connRead_neg htcp)
    | output => exact Gateway.closed_of_neg (Gateway.connWrite_neg hfd hblocks)
    | error => exact hblocks.elim
  exact ⟨hclosed, fun h => h.opened (hclosed w)⟩

/-- A client is registered. -/
def registeredClient : List ServerEvent :=
  [.accept 7, .epollAdd true, .count, .epoll 0 7 .output (.data [])]

theorem possible_registeredClient : Runs.Guarded (serverStep idleSetup) ServerPossible
    ⟨launchedGateway, .idle⟩ registeredClient := by
  refine ⟨trivial, trivial, trivial, ?_, trivial⟩
  unfold ServerPossible Gateway.Possible
  decide +kernel

theorem would_block_closes_registeredClient : (serverStep idleSetup
    (Runs.run (serverStep idleSetup) ⟨launchedGateway, .idle⟩ registeredClient)
    (.epoll 0 7 .input (.error .eagain))).gateway.Closed 7 := by
  refine (@would_block_closes _ idleSetup _ 0 7 .input (.error .eagain) ?_ ?_ rfl).1
  · decide +kernel
  · unfold Gateway.IsShared
    decide +kernel

/-- A read that would block. -/
theorem would_block_harms : ¬∀ es : List ServerEvent,
    Runs.Guarded (serverStep idleSetup) ServerPossible ⟨launchedGateway, .idle⟩ es →
      ∀ p, p = Runs.run (serverStep idleSetup) ⟨launchedGateway, .idle⟩ es →
        ∀ w fd ready r, ServerPossible p (.epoll w fd ready r) →
          fd ∈ (p.gateway.workers w).sockets →
            ¬Gateway.IsShared idleSetup p.gateway.trans fd →
              p.gateway.OnlyBlocks w fd ready r → Gateway.Unharmed w fd p.gateway
                (serverStep idleSetup p (.epoll w fd ready r)).gateway := by
  intro h
  have hopened := (h registeredClient possible_registeredClient _ rfl 0 7 .input (.error .eagain)
    ?_ ?_ ?_ rfl).opened
  · revert hopened
    decide +kernel
  · unfold ServerPossible Gateway.Possible
    decide +kernel
  · decide +kernel
  · unfold Gateway.IsShared
    decide +kernel

end Xlab
