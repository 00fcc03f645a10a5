import Xlab.WriteInterest

/-!
# Responses sent in part

When `writev` takes part of a response, `xlab_handler_write` counts the bytes in the slot and
leaves the loop, to go on at the next write event. But the next call gathers unsent slots only.
It finds none at the head of the ring, sends nothing, and returns −1, on which
`xlab_conn_write` removes the session.

`afterEvents` is a run of write events, one as long as responses wait. `resumed_iff` : where
every `writev` takes something, the session is kept and all of its waiting bytes are sent in order
exactly when no waiting response is sent in part and every `writev` of the first event ends at
the end of a response.
-/

namespace Xlab

variable {W : Type}

/-- The coming socket calls have the outcomes `script`. -/
def Link.withScript (script : List IoOutcome) (l : Link W) : Link W :=
  ⟨l.cs, { l.sh with script := script }⟩

/-- A write event of a session, `none` when it removes the session. -/
def writeEvent (w : ℕ) (script : List IoOutcome) (l : Link W) : Option (Link W) :=
  let e := connWriteTcp w (l.withScript script)
  if e.removals = 0 then some e.link else none

/-- The session after the first `k` write events, which come as long as responses wait. `σ` gives
the outcomes of the socket calls of each event. -/
def afterEvents (w : ℕ) (σ : ℕ → List IoOutcome) (l : Link W) : ℕ → Option (Link W)
  | 0 => some l
  | k + 1 => (afterEvents w σ l k).bind fun m =>
    if m.cs.respQueue.pending = [] then some m else writeEvent w (σ k) m

/-- The bytes the kernel took for a session. -/
def Link.wireBytes (l : Link W) : List UInt8 :=
  l.cs.wire.flatMap Segment.bytes

/-- Every `writev` of a write loop returns something in `P`. -/
def WriteCalls (P : IoReturn → Prop) (l : Link W) : Prop :=
  ∀ k, (∀ j < k, (writeTurn (l.turns j)).1 = .again) → (l.turns k).iov ≠ [] →
    P (l.turns k).turnCall.1

/-- Every `writev` of a write loop takes at least one byte. -/
def TakesBytes (l : Link W) : Prop :=
  WriteCalls (fun r => ∃ n, 0 < n ∧ r.accepted = some n) l

/-- Every `writev` of a run of write events takes at least one byte. -/
def EventsTake (w : ℕ) (σ : ℕ → List IoOutcome) (l : Link W) : Prop :=
  ∀ k m, afterEvents w σ l k = some m → m.cs.respQueue.pending ≠ [] →
    TakesBytes (m.withScript (σ k))

/-- The session is never removed, every event sends something, what is sent is the start of
what waited, and in the end it is all of it. -/
structure Resumed (w : ℕ) (σ : ℕ → List IoOutcome) (l : Link W) : Prop where
  kept : ∀ k, afterEvents w σ l k ≠ none
  sends : ∀ k m m', afterEvents w σ l k = some m → m.cs.respQueue.pending ≠ [] →
    afterEvents w σ l (k + 1) = some m' → m.wireBytes.length < m'.wireBytes.length
  ordered : ∀ k m, afterEvents w σ l k = some m →
    ∃ sent, m.wireBytes = l.wireBytes ++ sent ∧ sent <+: owed l.cs.respQueue.pending
  complete : ∃ k m, afterEvents w σ l k = some m ∧
    m.wireBytes = l.wireBytes ++ owed l.cs.respQueue.pending

/-! ## A loop whose calls take something -/

theorem TakesBytes.turn {l l' : Link W} (h : TakesBytes l) (ht : writeTurn l = (.again, l')) :
    TakesBytes l' := by
  have hl' : l' = (writeTurn l).2 := by rw [ht]
  intro k hk
  have hturns : ∀ j, l'.turns j = l.turns (j + 1) := fun j => by rw [Link.turns_succ, hl']
  rw [hturns]
  refine h (k + 1) fun j hj => ?_
  cases j with
  | zero => exact congrArg Prod.fst ht
  | succ j =>
    rw [← hturns]
    exact hk j (Nat.lt_of_succ_lt_succ hj)

theorem TakesBytes.of_iov_nil {l : Link W} (h : l.iov = []) : TakesBytes l := by
  intro k hk hiov
  cases k with
  | zero => exact absurd h hiov
  | succ k =>
    have hagain := hk 0 (Nat.succ_pos k)
    rcases writeTurn_cases l with ⟨-, ht⟩ | ⟨n, hn, hle, -⟩ | ⟨hne, -⟩
    · rw [show l.turns 0 = l from rfl, ht] at hagain
      cases hagain
    · rw [h] at hle
      exact absurd hle (Nat.not_le.2 hn)
    · exact absurd h hne

theorem TakesBytes.of_turn {l : Link W} {n : ℕ} (hn : 0 < n)
    (hacc : l.turnCall.1.accepted = some n) (h : TakesBytes (writeTurn l).2) : TakesBytes l := by
  intro k hk hiov
  cases k with
  | zero => exact ⟨n, hn, hacc⟩
  | succ k =>
    rw [Link.turns_succ] at hiov ⊢
    refine h k (fun j hj => ?_) hiov
    rw [← Link.turns_succ]
    exact hk (j + 1) (Nat.succ_lt_succ hj)

/-- The loop goes on until it has nothing to offer. -/
theorem TakesBytes.writeLoop (fuel : ℕ) (sentAny : Bool) {l : Link W} (h : TakesBytes l)
    (hfuel : l.turnsLeft ≤ fuel) : (writeLoop fuel sentAny l).2.1 = false ∧
      (writeLoop fuel sentAny l).2.2.iov = [] := by
  induction fuel generalizing sentAny l with
  | zero => exact ⟨rfl, turnsLeft_eq_zero.1 (Nat.le_zero.1 hfuel)⟩
  | succ fuel ih =>
    rcases writeTurn_cases l with ⟨hiov, -⟩ | ⟨n, -, -, -, ht⟩ | ⟨hiov, hnone, -⟩
    · rw [writeLoop_of_iov_nil hiov]
      exact ⟨rfl, hiov⟩
    · have hlt := turnsLeft_lt ht
      rw [Xlab.writeLoop, ht]
      exact ih true (h.turn ht) (by omega)
    · obtain ⟨n, hn, hacc⟩ := h 0 (fun j hj => absurd hj (Nat.not_lt_zero j)) hiov
      exact absurd (hnone n hacc) (Nat.ne_of_gt hn)

/-- A turn does not touch the slots behind those it offers. -/
theorem mem_drain_of_mem_rest {iov rest : List RespSlot} {n : ℕ}
    (hiov : ∀ s ∈ iov, s.unsent = true) (hn : n ≤ (iov.map RespSlot.len).sum) {s : RespSlot}
    (hs : s ∈ rest) : s ∈ drain (iov ++ rest) n := by
  induction iov generalizing n with
  | nil =>
    obtain rfl : n = 0 := by simpa using hn
    obtain ⟨t, rest, rfl⟩ := List.exists_cons_of_ne_nil (List.ne_nil_of_mem hs)
    rwa [List.nil_append, drain, if_pos rfl]
  | cons t iov ih =>
    have ht : t.remaining = t.len := by
      have : t.sentLen = 0 := by simpa [RespSlot.unsent] using hiov t List.mem_cons_self
      rw [RespSlot.remaining, this, Nat.sub_zero]
    rw [List.map_cons, List.sum_cons] at hn
    rw [List.cons_append, drain]
    split_ifs
    · exact List.mem_cons_of_mem t (List.mem_append_right iov hs)
    · exact ih (fun u hu => hiov u (List.mem_cons_of_mem t hu)) (by omega)
    · exact List.mem_cons_of_mem _ (List.mem_append_right iov hs)

/-- A response sent in part stays in the ring. -/
theorem unsent_of_writeTurn {l : Link W} (h : (writeTurn l).2.cs.Unsent) : l.cs.Unsent := by
  rcases writeTurn_cases l with ⟨-, ht⟩ | ⟨n, -, hle, -, ht⟩ | ⟨-, -, turn, -, ht⟩
  · rwa [ht] at h
  · rw [ht, Session.Unsent] at h
    simp only [pending_account_turn] at h
    obtain ⟨rest, hrest⟩ := prefix_iov l
    intro s hs
    rw [← hrest, List.mem_append] at hs
    rcases hs with hs | hs
    · exact iov_unsent l s hs
    · refine h s ?_
      rw [← hrest]
      exact mem_drain_of_mem_rest (iov_unsent l) hle hs
  · rwa [ht] at h

theorem unsent_of_writeLoop {fuel : ℕ} {sentAny : Bool} {l : Link W}
    (h : (writeLoop fuel sentAny l).2.2.cs.Unsent) : l.cs.Unsent := by
  by_contra hl
  exact writeLoop_keeps (P := fun l => ¬l.cs.Unsent) (fun _ hl h => hl (unsent_of_writeTurn h))
    fuel sentAny hl h

/-! ## One event -/

/-- A loop that sent something and met no fatal error keeps the session. -/
theorem writeEvent_of_sent {w : ℕ} {script : List IoOutcome} {l : Link W}
    (hsent : (writeLoop 65 false (l.withScript script)).1 = true)
    (hok : (writeLoop 65 false (l.withScript script)).2.1 = false) :
    ∃ m, writeEvent w script l = some m ∧
      m.cs.respQueue = (writeLoop 65 false (l.withScript script)).2.2.cs.respQueue ∧
      m.cs.wire = (writeLoop 65 false (l.withScript script)).2.2.cs.wire := by
  have hret : (handlerWrite w (l.withScript script)).ret = 0 ∧
      (handlerWrite w (l.withScript script)).removals = 0 := by
    unfold handlerWrite
    simp only [hsent, hok, Bool.false_eq_true, if_false, if_true, and_self]
  have hlink := (handlerWrite_link w (l.withScript script)).1
  have hkept : ¬(handlerWrite w (l.withScript script)).ret < 0 := by
    rw [hret.1]
    exact Int.lt_irrefl 0
  unfold writeEvent connWriteTcp
  simp only [if_neg hkept, hret.2, if_true]
  refine ⟨_, rfl, ?_, ?_⟩
  · rw [← hlink]
    rfl
  · rw [← hlink]
    rfl

/-- A response sent in part is at the head of the ring, and the event removes the session. -/
theorem writeEvent_of_iov_nil (w : ℕ) (script : List IoOutcome) {l : Link W} (h : l.iov = []) :
    writeEvent w script l = none := by
  have hloop : writeLoop 65 false (l.withScript script) = (false, false, l.withScript script) :=
    writeLoop_of_iov_nil (l := l.withScript script) h 65 false
  have hneg : (connWriteTcp w (l.withScript script)).ret < 0 :=
    connWriteTcp_neg w (Or.inr (congrArg Prod.fst hloop))
  unfold writeEvent
  rcases connWriteTcp_exit w (l.withScript script) with ⟨-, hrem⟩ | ⟨hret, -⟩
  · exact if_neg (Nat.pos_iff_ne_zero.1 hrem)
  · exact absurd hret (Int.not_le.2 hneg)

/-- What is owed of slots that have not been touched is all of them. -/
theorem length_owed {slots : List RespSlot} (h : ∀ s ∈ slots, s.unsent = true) :
    (owed slots).length = (slots.map RespSlot.len).sum := by
  rw [owed, List.length_flatMap]
  congr 1
  refine List.map_congr_left fun s hs => ?_
  have h0 : s.sentLen = 0 := by simpa [RespSlot.unsent] using h s hs
  rw [h0, List.drop_zero, RespSlot.len]

section Event

variable {w : ℕ} {script : List IoOutcome} {l : Link W}

/-- The event conserves bytes. -/
theorem wireBytes_of_conserved {m : Link W}
    (h : Conserved l.cs.wire (owed l.cs.respQueue.pending) m) :
    ∃ taken, m.wireBytes = l.wireBytes ++ taken ∧
      taken ++ owed m.cs.respQueue.pending = owed l.cs.respQueue.pending := by
  obtain ⟨taken, hwire, howed⟩ := h
  exact ⟨_, by rw [Link.wireBytes, hwire, List.flatMap_append]; rfl, howed⟩

/-- Where the first call takes something, something is owed. -/
theorem owed_length_pos (h : TakesBytes l) (hiov : l.iov ≠ []) :
    0 < (owed l.cs.respQueue.pending).length := by
  obtain ⟨n, hn, hacc⟩ := h 0 (fun j hj => absurd hj (Nat.not_lt_zero j)) hiov
  have hle : n ≤ (l.iov.map RespSlot.len).sum := call_accepted_le hacc
  obtain ⟨rest, hrest⟩ := prefix_iov l
  rw [← hrest, owed_append, List.length_append, length_owed (iov_unsent l)]
  omega

/-- An event whose calls take something, with a slot to offer : the session is kept, and is left
with nothing waiting or with a response sent in part at the head of the ring. -/
theorem writeEvent_of_takes (h : TakesBytes (l.withScript script)) (hiov : l.iov ≠ []) :
    ∃ m, writeEvent w script l = some m ∧ m.iov = [] ∧
      (m.cs.respQueue.pending = [] ↔ l.cs.Unsent ∧
        Settles { l.sh with script := script } l.cs.respQueue.pending) ∧
      ∃ taken, m.wireBytes = l.wireBytes ++ taken ∧
        taken ++ owed m.cs.respQueue.pending = owed l.cs.respQueue.pending := by
  have hfuel : (l.withScript script).turnsLeft ≤ 65 := Nat.le_trans (turnsLeft_le _) (by decide)
  obtain ⟨hok, hend⟩ := h.writeLoop 65 false hfuel
  obtain ⟨n, hn, hacc⟩ := h 0 (fun j hj => absurd hj (Nat.not_lt_zero j)) hiov
  have hsent : (writeLoop 65 false (l.withScript script)).1 = true :=
    (writeLoop_sent_iff 64 _).2 ⟨n, hn, hacc⟩
  obtain ⟨m, hm, hring, hwire⟩ := writeEvent_of_sent (w := w) hsent hok
  refine ⟨m, hm, ?_, ?_, ?_⟩
  · rw [Link.iov, hring]
    exact hend
  · rw [hring]
    constructor
    · intro hnil
      have hu : l.cs.Unsent := @unsent_of_writeLoop _ 65 false (l.withScript script)
        (by rw [Session.Unsent, hnil]; simp)
      exact ⟨hu, (writeLoop_settles 65 false (l.withScript script) hu hfuel).2 (Or.inr hnil)⟩
    · rintro ⟨hu, hset⟩
      refine ((writeLoop_settles 65 false (l.withScript script) hu hfuel).1 hset).resolve_left ?_
      rw [hok]
      exact Bool.false_ne_true
  · obtain ⟨taken, hwire', howed⟩ := handlerWrite_conserved w (l.withScript script)
    rw [(handlerWrite_link w _).1] at hwire' howed
    refine wireBytes_of_conserved ⟨taken, hwire.trans hwire', ?_⟩
    rw [hring]
    exact howed

end Event

/-! ## The run -/

section Run

variable {w : ℕ} {σ : ℕ → List IoOutcome} {l : Link W}

theorem afterEvents_succ_of_nil {k : ℕ} {m : Link W} (h : afterEvents w σ l k = some m)
    (hnil : m.cs.respQueue.pending = []) : afterEvents w σ l (k + 1) = some m := by
  rw [afterEvents, h]
  exact if_pos hnil

theorem afterEvents_succ_of_waiting {k : ℕ} {m : Link W} (h : afterEvents w σ l k = some m)
    (hne : m.cs.respQueue.pending ≠ []) :
    afterEvents w σ l (k + 1) = writeEvent w (σ k) m := by
  rw [afterEvents, h]
  exact if_neg hne

/-- Where the first event empties the ring, nothing happens any more. -/
theorem afterEvents_eq {m : Link W} (h : afterEvents w σ l 1 = some m)
    (hnil : m.cs.respQueue.pending = []) (k : ℕ) : afterEvents w σ l (k + 1) = some m := by
  induction k with
  | zero => exact h
  | succ k ih => exact afterEvents_succ_of_nil ih hnil

/-- After the first event the sessions of a run have nothing to offer. -/
theorem iov_of_afterEvents (htake : TakesBytes (l.withScript (σ 0))) (hiov : l.iov ≠ []) {k : ℕ}
    {m : Link W} (h : afterEvents w σ l (k + 1) = some m) : m.iov = [] := by
  induction k generalizing m with
  | zero =>
    have hwait : l.cs.respQueue.pending ≠ [] := fun hnil => hiov (by rw [Link.iov, hnil]; rfl)
    obtain ⟨m', hm, hnil, -⟩ := writeEvent_of_takes (w := w) htake hiov
    rw [afterEvents_succ_of_waiting rfl hwait, hm] at h
    exact Option.some.inj h ▸ hnil
  | succ k ih =>
    obtain ⟨m', hm', h⟩ := Option.bind_eq_some_iff.1 h
    split_ifs at h
    · exact Option.some.inj h ▸ ih hm'
    · rw [writeEvent_of_iov_nil w _ (ih hm')] at h
      cases h

/-- A session whose first event sends all that waits is resumed. -/
theorem resumed_of_emptied {m : Link W} (hpos : 0 < (owed l.cs.respQueue.pending).length)
    (hfirst : afterEvents w σ l 1 = some m) (hnil : m.cs.respQueue.pending = [])
    (hwire : m.wireBytes = l.wireBytes ++ owed l.cs.respQueue.pending) : Resumed w σ l := by
  refine ⟨fun k => ?_, fun k m₁ m₂ h₁ hne h₂ => ?_, fun k m₁ h₁ => ?_, 1, m, hfirst, hwire⟩
  · cases k with
    | zero => exact Option.some_ne_none l
    | succ k =>
      rw [afterEvents_eq hfirst hnil]
      exact Option.some_ne_none m
  · cases k with
    | zero =>
      obtain rfl := Option.some.inj h₁
      obtain rfl := Option.some.inj (hfirst.symm.trans h₂)
      rw [hwire, List.length_append]
      exact Nat.lt_add_of_pos_right hpos
    | succ k =>
      rw [afterEvents_eq hfirst hnil] at h₁
      exact absurd (Option.some.inj h₁ ▸ hnil) hne
  · cases k with
    | zero =>
      obtain rfl := Option.some.inj h₁
      exact ⟨[], (List.append_nil _).symm, List.nil_prefix⟩
    | succ k =>
      rw [afterEvents_eq hfirst hnil] at h₁
      obtain rfl := Option.some.inj h₁
      exact ⟨_, hwire, List.prefix_refl _⟩

end Run

/-- A session whose waiting responses every `writev` takes something of : it is kept and all that
waits is sent in order, exactly when no response is sent in part and every `writev` of the first
event ends at the end of a response. -/
theorem resumed_iff (w : ℕ) (σ : ℕ → List IoOutcome) (l : Link W)
    (hwait : l.cs.respQueue.pending ≠ []) (htake : EventsTake w σ l) :
    Resumed w σ l ↔
      l.cs.Unsent ∧ Settles { l.sh with script := σ 0 } l.cs.respQueue.pending := by
  have hfirst : afterEvents w σ l 1 = writeEvent w (σ 0) l := afterEvents_succ_of_waiting rfl hwait
  by_cases hiov : l.iov = []
  · -- the first event finds a response sent in part at the head of the ring
    refine iff_of_false (fun h => h.kept 1 ?_) fun h => hwait ((iov_eq_nil_of_unsent h.1).1 hiov)
    rw [hfirst]
    exact writeEvent_of_iov_nil w (σ 0) hiov
  obtain ⟨m, hm, hiov', hempty, taken, hwire, howed⟩ :=
    writeEvent_of_takes (w := w) (htake 0 l rfl hwait) hiov
  rw [← hempty]
  rw [hm] at hfirst
  constructor
  · intro h
    by_contra hne
    refine h.kept 2 ?_
    rw [afterEvents_succ_of_waiting hfirst hne]
    exact writeEvent_of_iov_nil w (σ 1) hiov'
  · intro hnil
    have hall : taken = owed l.cs.respQueue.pending := by
      rw [← howed, hnil, owed_nil, List.append_nil]
    rw [hall] at hwire
    have hpos : 0 < (owed l.cs.respQueue.pending).length :=
      owed_length_pos (l := l.withScript (σ 0)) (htake 0 l rfl hwait) hiov
    exact resumed_of_emptied hpos hfirst hnil hwire

/-- A session with the answer to one version request. -/
def oneResponse : Link Unit :=
  { idleLink with cs := { idleLink.cs with
      respQueue := { RespQueue.empty with
        slots := fun _ => .fresh (routerBuildResponse cmdGetVer errOk [0x01, 0x02, 0x00] 0)
        tail := 1
        tail_lt := by decide } } }

/-- A run of it in which the first `writev` takes what it is offered, or one byte. -/
theorem eventsTake_oneResponse {script : List IoOutcome}
    (h : script = [] ∨ script = [⟨.part 0, .other⟩]) :
    EventsTake 0 (fun k => if k = 0 then script else []) oneResponse := by
  intro k m hm hne
  have hfirst : TakesBytes (oneResponse.withScript script) := by
    rcases h with rfl | rfl
    · exact .of_turn (n := 7) (by decide) (by decide) (.of_iov_nil (by decide +kernel))
    · exact .of_turn (n := 1) (by decide) (by decide) (.of_iov_nil (by decide +kernel))
  cases k with
  | zero =>
    obtain rfl := Option.some.inj hm
    exact hfirst
  | succ k =>
    have hiov : m.iov = [] := iov_of_afterEvents hfirst (by decide) hm
    exact .of_iov_nil hiov

theorem resumed_oneResponse : Resumed 0 (fun k => if k = 0 then [] else []) oneResponse :=
  (resumed_iff 0 _ oneResponse (by decide) (eventsTake_oneResponse (Or.inl rfl))).2
    ⟨by unfold Session.Unsent; decide,
      .takes (n := 7) (by decide) (by decide) (by decide) (.empty _)⟩

/-- The first event sends one of the seven bytes, and the second removes the session. -/
theorem not_resumed_oneResponse : ¬∀ (w : ℕ) (σ : ℕ → List IoOutcome) (l : Link Unit),
    l.cs.respQueue.pending ≠ [] → EventsTake w σ l → Resumed w σ l := by
  intro h
  have hkept := (h 0 _ oneResponse (by decide) (eventsTake_oneResponse (Or.inr rfl))).kept 2
  refine hkept (Option.isNone_iff_eq_none.1 ?_)
  decide +kernel

end Xlab
