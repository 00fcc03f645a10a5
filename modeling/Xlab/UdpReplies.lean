import Xlab.Runs
import Xlab.Transport

/-!
# The answers to datagrams

All event loops watch the one UDP socket. A read takes a datagram and stores its sender in
`last_src`, which the workers share, and the frames of the datagram are answered one by one
afterwards, each to whatever `last_src` is then. `udpStep` has the read, the reaction to one item,
and the write as separate steps of a worker, so that a run is any interleaving. A worker alone
does what `connReadUdp` does (`run_datagram`).

`lastSource` reads off the events who sent the last datagram. `answers_reach_askers_iff` : every
answer of a run goes to the sender of its datagram exactly when, at each write, the last datagram
that any worker read is from the sender of the last datagram that the writing worker read.
-/

open Scanner

namespace Xlab

variable {A W : Type}

/-- An event loop in the UDP branch of `xlab_conn_read` : the sender of its datagram, the items it
has not come to, `udp_seq`, and the response it is about to write. -/
structure UdpWorker (A : Type) where
  asker : A
  items : List Item
  seq : UInt32
  ready : Option Response

/-- A response given to `sendto`, and the sender of the datagram it answers. -/
structure UdpAnswer (A : Type) where
  dest : A
  asker : A
  resp : Response
  deriving DecidableEq

/-- The event loops and `xlab_udp_priv_t`. `sent` is history. -/
structure UdpSide (A W : Type) where
  lastSrc : A
  world : W
  workers : ℕ → UdpWorker A
  sent : List (UdpAnswer A)

/-- Nothing was read yet. -/
def UdpSide.start (a : A) (world : W) : UdpSide A W where
  lastSrc := a
  world := world
  workers _ := ⟨a, [], 0, none⟩
  sent := []

/-- A step of worker `w`. -/
inductive UdpEvent (A : Type) where
  /-- `xlab_udp_read` gives a datagram and its sender, or fails. -/
  | read (w : ℕ) (r : Option (A × List UInt8))
  /-- The scan loop comes to an item. -/
  | react (w : ℕ)
  /-- `xlab_udp_write` of the response. -/
  | write (w : ℕ)

/-- Worker `w` changed. -/
def UdpSide.setWorker (w : ℕ) (k : UdpWorker A) (g : UdpSide A W) : UdpSide A W :=
  { g with workers := Function.update g.workers w k }

/-- The worker has a datagram in its 256 bytes of `tmp_buf`. -/
def UdpWorker.reading (d : A × List UInt8) : UdpWorker A :=
  ⟨d.1, itemsOf (d.2.take 256), 0, none⟩

/-- One step. A worker that has a response to write writes it before it goes on. In the code a
worker does not read before it is done with its datagram. Here it may, and drops the rest. -/
def udpStep (t : RouterTable W) (g : UdpSide A W) : UdpEvent A → UdpSide A W
  | .read _ none => g
  | .read w (some d) => { g.setWorker w (.reading d) with lastSrc := d.1 }
  | .react w =>
    let k := g.workers w
    match k.ready, k.items with
    | none, it :: items =>
      { g.setWorker w { k with
          items := items
          seq := k.seq + 1
          ready := if it.answered t then some (itemResponse t it k.seq g.world) else none } with
        world := itemWorld t it k.seq g.world }
    | _, _ => g
  | .write w =>
    let k := g.workers w
    match k.ready with
    | none => g
    | some resp =>
      { g.setWorker w { k with ready := none } with
        sent := g.sent ++ [⟨g.lastSrc, k.asker, resp⟩] }

/-- The sender of the last datagram that a worker in `p` read, `a` when there is none. -/
def lastSource (p : ℕ → Bool) (a : A) (es : List (UdpEvent A)) : A :=
  es.foldl (fun a e =>
    match e with
    | .read w (some d) => if p w then d.1 else a
    | _ => a) a

/-- At each write of a response, the last datagram read is from the sender of the last datagram
that the writing worker read. -/
def AnswersLast (t : RouterTable W) (a : A) (world : W) (es : List (UdpEvent A)) : Prop :=
  ∀ pre w, pre ++ [.write w] <+: es →
    ((Runs.run (udpStep t) (.start a world) pre).workers w).ready ≠ none →
      lastSource (fun _ => true) a pre = lastSource (fun w' => w' == w) a pre

/-! ## Who sent the last datagram -/

theorem asker_setWorker (g : UdpSide A W) (w : ℕ) (items : List Item) (seq : UInt32)
    (ready : Option Response) (w' : ℕ) :
    ((g.setWorker w ⟨(g.workers w).asker, items, seq, ready⟩).workers w').asker =
      (g.workers w').asker := by
  by_cases hw : w' = w
  · subst hw
    simp [UdpSide.setWorker]
  · simp [UdpSide.setWorker, hw]

/-- Only a read changes the senders. -/
theorem udpStep_source (t : RouterTable W) (g : UdpSide A W) (e : UdpEvent A) :
    (udpStep t g e).lastSrc = lastSource (fun _ => true) g.lastSrc [e] ∧
      ∀ w, ((udpStep t g e).workers w).asker =
        lastSource (fun w' => w' == w) (g.workers w).asker [e] := by
  cases e with
  | read w r =>
    cases r with
    | none => exact ⟨rfl, fun _ => rfl⟩
    | some d =>
      refine ⟨rfl, fun w' => ?_⟩
      by_cases hw : w' = w
      · subst hw
        simp [udpStep, UdpSide.setWorker, UdpWorker.reading, lastSource]
      · simp [udpStep, UdpSide.setWorker, lastSource, hw, Ne.symm hw]
  | react w =>
    simp only [udpStep]
    split
    · exact ⟨rfl, asker_setWorker g w _ _ _⟩
    · exact ⟨rfl, fun _ => rfl⟩
  | write w =>
    simp only [udpStep]
    split
    · exact ⟨rfl, fun _ => rfl⟩
    · exact ⟨rfl, asker_setWorker g w _ _ _⟩

theorem lastSource_concat (p : ℕ → Bool) (a : A) (es : List (UdpEvent A)) (e : UdpEvent A) :
    lastSource p a (es ++ [e]) = lastSource p (lastSource p a es) [e] :=
  List.foldl_append

/-- After a run `last_src` is the sender of the last datagram read, and each worker answers the
sender of the last datagram it read. -/
theorem run_source (t : RouterTable W) (a : A) (world : W) (es : List (UdpEvent A)) :
    (Runs.run (udpStep t) (.start a world) es).lastSrc = lastSource (fun _ => true) a es ∧
      ∀ w, ((Runs.run (udpStep t) (.start a world) es).workers w).asker =
        lastSource (fun w' => w' == w) a es := by
  induction es using List.reverseRecOn with
  | nil => exact ⟨rfl, fun _ => rfl⟩
  | append_singleton es e ih =>
    obtain ⟨hlast, hasker⟩ := udpStep_source t (Runs.run (udpStep t) (.start a world) es) e
    rw [Runs.run_append, Runs.run_cons, Runs.run_nil]
    refine ⟨?_, fun w => ?_⟩
    · rw [hlast, ih.1, lastSource_concat]
    · rw [hasker, ih.2, lastSource_concat]

/-! ## What is sent -/

/-- What a step sends. -/
def udpSends (g : UdpSide A W) : UdpEvent A → List (UdpAnswer A)
  | .write w => (g.workers w).ready.toList.map (UdpAnswer.mk g.lastSrc (g.workers w).asker)
  | _ => []

theorem udpStep_sent (t : RouterTable W) (g : UdpSide A W) (e : UdpEvent A) :
    (udpStep t g e).sent = g.sent ++ udpSends g e := by
  cases e with
  | read w r => cases r <;> exact (List.append_nil _).symm
  | react w =>
    simp only [udpStep, udpSends]
    split <;> exact (List.append_nil _).symm
  | write w =>
    simp only [udpStep, udpSends]
    split <;> rename_i h <;> simp [h]

theorem prefix_write_concat {pre es : List (UdpEvent A)} {w : ℕ} {e : UdpEvent A} :
    pre ++ [.write w] <+: es ++ [e] ↔ (pre = es ∧ e = .write w) ∨ pre ++ [.write w] <+: es := by
  rw [List.prefix_concat_iff]
  refine or_congr ⟨fun h => ?_, fun ⟨h, h'⟩ => by rw [h, h']⟩ Iff.rfl
  obtain ⟨h, h'⟩ := List.append_inj' h rfl
  exact ⟨h, (List.cons.inj h').1.symm⟩

/-- Every answer of a run goes to the sender of its datagram exactly when, at each write, the last
datagram that any worker read is from the sender of the last datagram that the writing worker
read. -/
theorem answers_reach_askers_iff (t : RouterTable W) (a : A) (world : W) (es : List (UdpEvent A)) :
    (∀ d ∈ (Runs.run (udpStep t) (.start a world) es).sent, d.dest = d.asker) ↔
      AnswersLast t a world es := by
  induction es using List.reverseRecOn with
  | nil =>
    refine iff_of_true (fun d hd => by cases hd) fun pre w hpre => ?_
    simp at hpre
  | append_singleton es e ih =>
    obtain ⟨hlast, hasker⟩ := run_source t a world es
    have hstep : (∀ d ∈ udpSends (Runs.run (udpStep t) (.start a world) es) e, d.dest = d.asker) ↔
        ∀ w, e = .write w → ((Runs.run (udpStep t) (.start a world) es).workers w).ready ≠ none →
          lastSource (fun _ => true) a es = lastSource (fun w' => w' == w) a es := by
      cases e with
      | read w r => simp [udpSends]
      | react w => simp [udpSends]
      | write w =>
        rw [udpSends, hlast, hasker]
        cases h : ((Runs.run (udpStep t) (.start a world) es).workers w).ready with
        | none => simp [h]
        | some resp => simp [h]
    rw [Runs.run_append, Runs.run_cons, Runs.run_nil, udpStep_sent, List.forall_mem_append, ih,
      hstep]
    constructor
    · rintro ⟨hbefore, hnow⟩ pre w hpre hready
      rcases prefix_write_concat.1 hpre with ⟨rfl, he⟩ | hpre
      · exact hnow w he hready
      · exact hbefore pre w hpre hready
    · intro h
      exact ⟨fun pre w hpre => h pre w (prefix_write_concat.2 (Or.inr hpre)),
        fun w he => h es w (prefix_write_concat.2 (Or.inl ⟨rfl, he⟩))⟩

/-- When one worker reads, the last datagram is the last one it read. -/
theorem lastSource_one_worker (a : A) {w : ℕ} {es : List (UdpEvent A)}
    (hes : ∀ e ∈ es, (∃ r, e = .read w r) ∨ e = .react w ∨ e = .write w) :
    lastSource (fun _ => true) a es = lastSource (fun w' => w' == w) a es := by
  induction es using List.reverseRecOn with
  | nil => rfl
  | append_singleton es e ih =>
    rw [lastSource_concat, lastSource_concat, ih fun e he => hes e (List.mem_append_left _ he)]
    rcases hes e (List.mem_append_right _ List.mem_cons_self) with ⟨r, rfl⟩ | rfl | rfl
    · cases r <;> simp [lastSource]
    · rfl
    · rfl

/-- With one worker every answer goes to the sender of its datagram. -/
theorem answers_reach_askers_one_worker (t : RouterTable W) (a : A) (world : W) (w : ℕ)
    (es : List (UdpEvent A))
    (hes : ∀ e ∈ es, (∃ r, e = .read w r) ∨ e = .react w ∨ e = .write w) :
    ∀ d ∈ (Runs.run (udpStep t) (.start a world) es).sent, d.dest = d.asker := by
  rw [answers_reach_askers_iff]
  intro pre w' hpre _
  have hmem : ∀ e ∈ pre ++ [.write w'], e ∈ es := fun e he => hpre.subset he
  rcases hes _ (hmem (.write w') (by simp)) with ⟨r, h⟩ | h | h
  · cases h
  · cases h
  · obtain rfl := UdpEvent.write.inj h
    exact lastSource_one_worker a fun e he => hes e (hmem e (List.mem_append_left _ he))

/-! ## A worker alone -/

/-- A worker goes through its items. -/
def udpTurns (w : ℕ) (items : List Item) : List (UdpEvent A) :=
  items.flatMap fun _ => [.react w, .write w]

/-- The reaction to an item and the write after it. -/
theorem udpStep_turn (t : RouterTable W) {w : ℕ} {it : Item} {items : List Item} {g : UdpSide A W}
    (hitems : (g.workers w).items = it :: items) (hready : (g.workers w).ready = none) :
    udpStep t (udpStep t g (.react w)) (.write w) =
      { g.setWorker w ⟨(g.workers w).asker, items, (g.workers w).seq + 1, none⟩ with
        world := itemWorld t it (g.workers w).seq g.world
        sent := g.sent ++ (if it.answered t then [itemResponse t it (g.workers w).seq g.world]
          else []).map (UdpAnswer.mk g.lastSrc (g.workers w).asker) } := by
  have hreact : udpStep t g (.react w) =
      { g.setWorker w ⟨(g.workers w).asker, items, (g.workers w).seq + 1,
          if it.answered t then some (itemResponse t it (g.workers w).seq g.world) else none⟩ with
        world := itemWorld t it (g.workers w).seq g.world } := by
    simp only [udpStep, hready, hitems]
  rw [hreact]
  cases ha : it.answered t <;> simp [udpStep, UdpSide.setWorker]

/-- Alone, a worker sends the answers to its items in order. -/
theorem run_udpTurns (t : RouterTable W) (w : ℕ) (items : List Item) (g : UdpSide A W)
    (hitems : (g.workers w).items = items) (hready : (g.workers w).ready = none) :
    (Runs.run (udpStep t) g (udpTurns w items)).sent = g.sent ++
      (udpAnswers t items (g.workers w).seq g.world).map
        (UdpAnswer.mk g.lastSrc (g.workers w).asker) := by
  induction items generalizing g with
  | nil => simp [udpTurns, udpAnswers]
  | cons it items ih =>
    rw [udpTurns, List.flatMap_cons, Runs.run_append, ← udpTurns, Runs.run_cons, Runs.run_cons,
      Runs.run_nil, udpStep_turn t hitems hready, ih _ (by simp [UdpSide.setWorker])
        (by simp [UdpSide.setWorker]), udpAnswers]
    simp [UdpSide.setWorker]

/-- A worker that reads a datagram and goes through its items alone sends what `connReadUdp`
hands to the driver. -/
theorem run_datagram (t : RouterTable W) (w : ℕ) (d : A × List UInt8) (g : UdpSide A W)
    (sh : Shared W) (hworld : sh.world = g.world) (hsh : sh.datagrams = []) :
    (Runs.run (udpStep t) g (.read w (some d) :: udpTurns w (itemsOf (d.2.take 256)))).sent =
      g.sent ++ (connReadUdp .udp t d.2 sh).datagrams.map fun e => ⟨d.1, d.1, e.2⟩ := by
  rw [Runs.run_cons, run_udpTurns t w _ _ (by simp [udpStep, UdpSide.setWorker, UdpWorker.reading])
    (by simp [udpStep, UdpSide.setWorker, UdpWorker.reading]), connReadUdp_eq, datagrams_udpReact,
    hsh, hworld]
  simp [udpStep, UdpSide.setWorker, UdpWorker.reading, Function.comp_def]

/-- The second worker reads an empty datagram of client 2 before the first one answers client 1,
and the answer goes to client 2. -/
theorem answer_reaches_other_client :
    ¬∀ es : List (UdpEvent ℕ),
      ∀ d ∈ (Runs.run (udpStep cmdTable) (.start 0 ()) es).sent, d.dest = d.asker := by
  intro h
  have hreach := h [.read 0 (some (1, [0x40, 0x02, 0x02, 0xBC])), .read 1 (some (2, [])), .react 0,
    .write 0]
  revert hreach
  decide +kernel

end Xlab
