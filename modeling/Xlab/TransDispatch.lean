import Xlab.Registry
import Xlab.Runs
import Xlab.Trans

/-!
# Which driver a dispatch calls

`g_fd_map` is an array with a count. A removal shifts the entries behind the removed one, so the
entries in use are a list that `trans_fd_map_add` extends and `trans_fd_map_remove` takes one
entry out of (`entries_add`, `entries_remove`), and a descriptor is looked up at its own entry.

The entry keeps the transport type of its descriptor, but no dispatch looks at it : the loop over
the drivers stops at the first that has the function. `dispatch_own_driver_iff` : both dispatches
on a descriptor call the driver of its type exactly when its identity is one the dispatch
serves and no driver before it has a function to read or to write.
-/

namespace Xlab

/-- The position of a type in `g_trans_ops`. -/
def TransType.index : TransType → ℕ
  | .tcp => 0
  | .udp => 1
  | .uart => 2

/-- The type at a position below `XLAB_TRANS_MAX`. -/
def TransType.ofIndex : ℕ → Option TransType
  | 0 => some .tcp
  | 1 => some .udp
  | 2 => some .uart
  | _ => none

/-! ## The map -/

/-- An entry of `g_fd_map`. -/
structure FdEntry where
  fd : ℤ
  sessionId : UInt32
  type : ℕ
  deriving DecidableEq, Repr

/-- `g_fd_map` and `g_fd_map_count`. -/
structure FdMap where
  slot : ℕ → FdEntry
  count : ℕ

namespace FdMap

/-- The entries in use. -/
def entries (m : FdMap) : List FdEntry :=
  (List.range m.count).map m.slot

/-- The loops over the map stop at the first entry of the descriptor. -/
def position (m : FdMap) (fd : ℤ) : Option ℕ :=
  (List.range m.count).find? fun i => (m.slot i).fd == fd

/-- `trans_fd_map_add`. -/
def add (m : FdMap) (fd : ℤ) (sid : UInt32) (type : ℕ) : FdMap :=
  if m.count < transFdMapSize then
    ⟨Function.update m.slot m.count ⟨fd, sid, type⟩, m.count + 1⟩
  else m

/-- The inner loop of `trans_fd_map_remove`, at the positions `js`. -/
def shift (slot : ℕ → FdEntry) (js : List ℕ) : ℕ → FdEntry :=
  js.foldl (fun slot j => Function.update slot j (slot (j + 1))) slot

/-- `trans_fd_map_remove`. -/
def remove (m : FdMap) (fd : ℤ) : FdMap :=
  match m.position fd with
  | none => m
  | some i => ⟨shift m.slot (List.range' i (m.count - 1 - i)), m.count - 1⟩

/-- `xlab_session_map_by_fd`. -/
def sessionMapByFd (m : FdMap) (fd : ℤ) : UInt32 :=
  match m.position fd with
  | none => 0
  | some i => (m.slot i).sessionId

theorem shift_apply (slot : ℕ → FdEntry) (i n k : ℕ) :
    shift slot (List.range' i n) k = if i ≤ k ∧ k < i + n then slot (k + 1) else slot k := by
  induction n generalizing slot i with
  | zero => rw [if_neg (by omega)]; rfl
  | succ n ih =>
    have hfold : shift slot (List.range' i (n + 1)) =
        shift (Function.update slot i (slot (i + 1))) (List.range' (i + 1) n) := rfl
    rw [hfold, ih]
    rcases Nat.lt_trichotomy k i with hk | rfl | hk
    · rw [if_neg (by omega), if_neg (by omega), Function.update_of_ne (by omega)]
    · rw [if_neg (by omega), if_pos (by omega), Function.update_self]
    · rw [Function.update_of_ne (by omega), Function.update_of_ne (by omega)]
      exact if_congr (by omega) rfl rfl

theorem position_eq_some {m : FdMap} {fd : ℤ} {i : ℕ} (h : m.position fd = some i) :
    i < m.count ∧ (m.slot i).fd = fd ∧ ∀ j < i, (m.slot j).fd ≠ fd := by
  obtain ⟨hi, hmem, hfirst⟩ := List.find?_range_eq_some.1 h
  refine ⟨List.mem_range.1 hmem, by simpa using hi, fun j hj => ?_⟩
  simpa using hfirst j hj

theorem entries_split {m : FdMap} {i : ℕ} (hi : i < m.count) :
    m.entries = (List.range i).map m.slot ++
      m.slot i :: (List.range' (i + 1) (m.count - 1 - i)).map m.slot := by
  have hcount : m.count = i + (1 + (m.count - 1 - i)) := by omega
  have hrange : List.range m.count =
      List.range i ++ i :: List.range' (i + 1) (m.count - 1 - i) := by
    rw [List.range_eq_range', hcount, ← List.range'_append_1, List.range_eq_range', Nat.zero_add,
      Nat.add_comm 1, List.range'_succ]
    congr 4
    omega
  rw [entries, hrange, List.map_append, List.map_cons]

theorem entries_add (m : FdMap) (fd : ℤ) (sid : UInt32) (type : ℕ) :
    (m.add fd sid type).entries =
      if m.count < transFdMapSize then m.entries ++ [⟨fd, sid, type⟩] else m.entries := by
  unfold add
  split_ifs
  · have hold : (List.range m.count).map (Function.update m.slot m.count ⟨fd, sid, type⟩) =
        m.entries := by
      refine List.map_congr_left fun i hi => Function.update_of_ne ?_ _ _
      exact Nat.ne_of_lt (List.mem_range.1 hi)
    rw [entries, List.range_succ, List.map_append, hold]
    simp
  · rfl

theorem entries_remove (m : FdMap) (fd : ℤ) :
    (m.remove fd).entries = m.entries.eraseP fun e => e.fd == fd := by
  unfold remove
  cases hp : m.position fd with
  | none =>
    have hother := List.find?_range_eq_none.1 hp
    refine (List.eraseP_of_forall_not fun e he => ?_).symm
    obtain ⟨i, hi, rfl⟩ := List.mem_map.1 he
    simpa using hother i (List.mem_range.1 hi)
  | some i =>
    obtain ⟨hi, hfd, hfirst⟩ := position_eq_some hp
    refine (List.eraseP_eq_iff.2 (Or.inr ⟨m.slot i, _, _, ?_, ?_, entries_split hi, ?_⟩)).symm
    · rintro e he
      obtain ⟨j, hj, rfl⟩ := List.mem_map.1 he
      simpa using hfirst j (List.mem_range.1 hj)
    · simpa using hfd
    · rw [entries]
      simp only []
      have hcount : m.count - 1 = i + (m.count - 1 - i) := by omega
      rw [hcount, List.range_eq_range', ← List.range'_append_1, List.map_append,
        ← List.range_eq_range', Nat.zero_add, Nat.add_sub_cancel_left]
      have hbefore : (List.range i).map (shift m.slot (List.range' i (m.count - 1 - i))) =
          (List.range i).map m.slot :=
        List.map_congr_left fun j hj => by
          rw [shift_apply, if_neg fun h => Nat.not_lt.2 h.1 (List.mem_range.1 hj)]
      have hbehind : (List.range' i (m.count - 1 - i)).map
          (shift m.slot (List.range' i (m.count - 1 - i))) =
          (List.range' (i + 1) (m.count - 1 - i)).map m.slot := by
        rw [Nat.add_comm i 1, ← List.map_add_range', List.map_map]
        refine List.map_congr_left fun j hj => ?_
        rw [shift_apply, if_pos (List.mem_range'_1.1 hj), Function.comp_apply, Nat.add_comm 1]
      rw [hbefore, hbehind]

theorem sessionMapByFd_eq (m : FdMap) (fd : ℤ) :
    m.sessionMapByFd fd =
      ((Registry.find FdEntry.fd (fun x => x == fd) m.entries).map FdEntry.sessionId).getD 0 := by
  have hfind : Registry.find FdEntry.fd (fun x => x == fd) m.entries =
      (m.position fd).map m.slot :=
    List.find?_map
  rw [hfind, sessionMapByFd]
  cases m.position fd with
  | none => rfl
  | some i => rfl

/-- A descriptor that has one entry is looked up at it. -/
theorem sessionMapByFd_of_mem {m : FdMap} (hm : (m.entries.map FdEntry.fd).Nodup) {e : FdEntry}
    (he : e ∈ m.entries) : m.sessionMapByFd e.fd = e.sessionId := by
  rw [sessionMapByFd_eq, Registry.find_of_nodup hm he]
  rfl

end FdMap

/-! ## The calls -/

/-- `g_trans_ops` and `g_fd_map`. -/
structure TransTable where
  ops : TransType → Option TransOps
  map : FdMap

/-- A call that changes the tables. A type is any number, and `none` stands for `NULL`. -/
inductive TransCall where
  | register (type : ℕ) (ops : Option TransOps)
  | add (fd : ℤ) (sid : UInt32) (type : ℕ)
  | remove (fd : ℤ)

namespace TransTable

/-- The tables at the start. -/
def init : TransTable where
  ops _ := none
  map := ⟨fun _ => ⟨0, 0, 0⟩, 0⟩

/-- `xlab_trans_register`. -/
def register (t : TransTable) (type : ℕ) (ops : Option TransOps) : ℤ × TransTable :=
  match TransType.ofIndex type, ops with
  | some type, some ops => (0, { t with ops := Function.update t.ops type (some ops) })
  | _, _ => (-1, t)

/-- One call. -/
def step (t : TransTable) : TransCall → TransTable
  | .register type ops => (t.register type ops).2
  | .add fd sid type => { t with map := t.map.add fd sid type }
  | .remove fd => { t with map := t.map.remove fd }

/-- The loop of a dispatch over the drivers, where `has` tells whether a driver has the
function : the driver that is called. -/
def dispatch (t : TransTable) (has : TransOps → Bool) (fd : ℤ) : Option TransType :=
  let sid := t.map.sessionMapByFd fd
  if sid = 0 then none
  else [TransType.tcp, .udp, .uart].find? fun type =>
    (t.ops type).any has &&
      (sid == sessionIdUdp || sid == sessionIdUart || sid == UInt32.ofInt fd)

/-- `xlab_trans_read_dispatch`. -/
def readDispatch (t : TransTable) (fd : ℤ) : Option TransType :=
  t.dispatch TransOps.read fd

/-- `xlab_trans_write_dispatch`. -/
def writeDispatch (t : TransTable) (fd : ℤ) : Option TransType :=
  t.dispatch TransOps.write fd

/-- The transport table of the gateway. -/
def trans (t : TransTable) (fds : TransType → ℤ) : Trans where
  ops := t.ops
  fds := fds
  fdMap := t.map.entries.map fun e => (e.fd, e.sessionId)

theorem dispatch_eq_driver (t : TransTable) (fds : TransType → ℤ) (has : TransOps → Bool)
    (fd : ℤ) : t.dispatch has fd = (t.trans fds).driver has fd := by
  have hsid : (t.trans fds).sessionMapByFd fd = t.map.sessionMapByFd fd := by
    rw [FdMap.sessionMapByFd_eq, Trans.sessionMapByFd, trans, List.find?_map, Option.map_map]
    rfl
  rw [Trans.driver, hsid]
  rfl

theorem trans_add (t : TransTable) (fds : TransType → ℤ) (fd : ℤ) (sid : UInt32) (type : ℕ) :
    (t.step (.add fd sid type)).trans fds = (t.trans fds).fdMapAdd fd sid := by
  have hlength : (t.trans fds).fdMap.length = t.map.count := by
    simp [trans, FdMap.entries]
  rw [Trans.fdMapAdd, hlength]
  simp only [step, trans, FdMap.entries_add]
  split_ifs
  · rw [List.map_append]
    rfl
  · rfl

theorem trans_remove (t : TransTable) (fds : TransType → ℤ) (fd : ℤ) :
    (t.step (.remove fd)).trans fds = (t.trans fds).fdMapRemove fd := by
  simp only [step, trans, FdMap.entries_remove, Trans.fdMapRemove, List.eraseP_map]
  rfl

/-- A descriptor is added when it has no entry. -/
def Distinct (t : TransTable) : TransCall → Prop
  | .add fd _ _ => ∀ e ∈ t.map.entries, e.fd ≠ fd
  | _ => True

instance (t : TransTable) : DecidablePred (Distinct t)
  | .register _ _ => .isTrue trivial
  | .add fd _ _ => inferInstanceAs (Decidable (∀ e ∈ t.map.entries, e.fd ≠ fd))
  | .remove _ => .isTrue trivial

theorem nodup_step {t : TransTable} {c : TransCall} (h : (t.map.entries.map FdEntry.fd).Nodup)
    (hc : Distinct t c) : ((t.step c).map.entries.map FdEntry.fd).Nodup := by
  cases c with
  | register type ops =>
    unfold step register
    dsimp only
    split
    · exact h
    · exact h
  | add fd sid type =>
    rw [step, FdMap.entries_add]
    split_ifs
    · rw [List.map_append, List.map_singleton, List.nodup_append]
      refine ⟨h, List.nodup_singleton _, ?_⟩
      rintro _ ha _ hb rfl
      obtain ⟨e, he, rfl⟩ := List.mem_map.1 ha
      exact hc e he (List.mem_singleton.1 hb)
    · exact h
  | remove fd =>
    rw [step, FdMap.entries_remove]
    exact h.sublist (List.eraseP_sublist.map _)

/-- The identity of an entry is one the dispatches serve. -/
def Served (e : FdEntry) : Prop :=
  e.sessionId ≠ 0 ∧ (e.sessionId = sessionIdUdp ∨ e.sessionId = sessionIdUart ∨
    e.sessionId = UInt32.ofInt e.fd)

/-- No driver before the one of type `T` has the function. -/
def FirstWith (t : TransTable) (has : TransOps → Bool) (T : TransType) : Prop :=
  ∀ T' : TransType, T'.index < T.index → (t.ops T').any has = false

theorem find_types {p : TransType → Bool} {T : TransType} :
    [TransType.tcp, .udp, .uart].find? p = some T ↔
      p T = true ∧ ∀ T' : TransType, T'.index < T.index → p T' = false := by
  have hall : (∀ T' : TransType, T'.index < T.index → p T' = false) ↔
      (0 < T.index → p .tcp = false) ∧ (1 < T.index → p .udp = false) ∧
        (2 < T.index → p .uart = false) :=
    ⟨fun h => ⟨h .tcp, h .udp, h .uart⟩, fun h T' => by
      cases T' with
      | tcp => exact h.1
      | udp => exact h.2.1
      | uart => exact h.2.2⟩
  rw [hall]
  cases T <;> cases htcp : p .tcp <;> cases hudp : p .udp <;> simp_all [TransType.index]

/-- A dispatch calls the first driver that has the function. -/
theorem dispatch_eq_some_iff {t : TransTable} {has : TransOps → Bool} {e : FdEntry} {T : TransType}
    (hsid : t.map.sessionMapByFd e.fd = e.sessionId) (hhas : (t.ops T).any has = true) :
    t.dispatch has e.fd = some T ↔ Served e ∧ t.FirstWith has T := by
  have hserves : (e.sessionId == sessionIdUdp || e.sessionId == sessionIdUart ||
      e.sessionId == UInt32.ofInt e.fd) = true ↔ (e.sessionId = sessionIdUdp ∨
        e.sessionId = sessionIdUart ∨ e.sessionId = UInt32.ofInt e.fd) := by
    simp [or_assoc]
  rw [dispatch, hsid]
  by_cases h0 : e.sessionId = 0
  · rw [if_pos h0]
    exact iff_of_false (Option.some_ne_none T).symm fun h => h.1.1 h0
  rw [if_neg h0, find_types, hhas, Bool.true_and, hserves, Served, FirstWith]
  constructor
  · rintro ⟨hs, hfirst⟩
    refine ⟨⟨h0, hs⟩, fun T' hT' => ?_⟩
    have := hfirst T' hT'
    rwa [hserves.2 hs, Bool.and_true] at this
  · rintro ⟨⟨-, hs⟩, hfirst⟩
    refine ⟨hs, fun T' hT' => ?_⟩
    rw [hfirst T' hT', Bool.false_and]

/-- Both dispatches on a descriptor of type `T`, whose driver has both functions, call that driver
exactly when the identity of the descriptor is served and no driver before `T` has a function
to read or to write. -/
theorem dispatch_own_driver_iff {calls : List TransCall}
    (hcalls : Runs.Guarded step Distinct init calls) {e : FdEntry}
    (he : e ∈ (Runs.run step init calls).map.entries) {T : TransType}
    (htype : TransType.ofIndex e.type = some T) {ops : TransOps}
    (hops : (Runs.run step init calls).ops T = some ops) (hread : ops.read = true)
    (hwrite : ops.write = true) :
    ((Runs.run step init calls).readDispatch e.fd = TransType.ofIndex e.type ∧
        (Runs.run step init calls).writeDispatch e.fd = TransType.ofIndex e.type) ↔
      Served e ∧ (Runs.run step init calls).FirstWith TransOps.read T ∧
        (Runs.run step init calls).FirstWith TransOps.write T := by
  have hnodup : ((Runs.run step init calls).map.entries.map FdEntry.fd).Nodup :=
    Runs.run_invariant (I := fun t : TransTable => (t.map.entries.map FdEntry.fd).Nodup)
      (fun _ _ => nodup_step) List.nodup_nil hcalls
  have hsid := FdMap.sessionMapByFd_of_mem hnodup he
  rw [htype, readDispatch, writeDispatch, dispatch_eq_some_iff hsid (by rw [hops]; exact hread),
    dispatch_eq_some_iff hsid (by rw [hops]; exact hwrite)]
  exact and_and_left.symm

/-- The calls of `xlab_trans_udp_init` and `xlab_trans_uart_init`, with descriptors 5 and 6. -/
def bothInits : List TransCall :=
  [.register 1 (some ⟨true, true⟩), .add 5 sessionIdUdp 1,
    .register 2 (some ⟨true, true⟩), .add 6 sessionIdUart 2]

theorem bothInits_distinct : Runs.Guarded step Distinct init bothInits :=
  ⟨trivial, by decide, trivial, by decide, trivial⟩

theorem firstWith_bothInits (has : TransOps → Bool) :
    (Runs.run step init bothInits).FirstWith has .udp := fun T' hT' => by
  cases T' with
  | tcp => rfl
  | udp => exact absurd hT' (Nat.lt_irrefl 1)
  | uart => exact absurd hT' (by decide)

theorem dispatch_udp_bothInits : (Runs.run step init bothInits).readDispatch 5 = some .udp ∧
    (Runs.run step init bothInits).writeDispatch 5 = some .udp :=
  (@dispatch_own_driver_iff bothInits bothInits_distinct ⟨5, sessionIdUdp, 1⟩ (by decide) .udp rfl
    ⟨true, true⟩ rfl rfl rfl).2
    ⟨⟨by decide, Or.inl rfl⟩, firstWith_bothInits _, firstWith_bothInits _⟩

/-- With both transports started, what is read from and written to the UART descriptor goes to
the UDP driver. -/
theorem dispatch_uart_bothInits :
    ¬∀ calls, Runs.Guarded step Distinct init calls →
      ∀ e ∈ (Runs.run step init calls).map.entries, ∀ T, TransType.ofIndex e.type = some T →
        ∀ ops, (Runs.run step init calls).ops T = some ops → ops.read = true → ops.write = true →
          (Runs.run step init calls).readDispatch e.fd = some T ∧
            (Runs.run step init calls).writeDispatch e.fd = some T := by
  intro h
  have huart := h bothInits bothInits_distinct ⟨6, sessionIdUart, 2⟩ (by decide) .uart rfl
    ⟨true, true⟩ rfl rfl rfl
  revert huart
  decide

end TransTable

end Xlab
