import Xlab.SchedMemory

/-!
# The sessions in memory

Each worker thread has a list of its sessions. A session is a record allocated at the first read
of a connection, added to the list of the thread, and taken out and freed by
`xlab_session_remove`, which stops at the first record with the socket. The gateway has all
sessions in one sequence and gives them identities. In memory a session is known by its
address, which the allocator may give again once it is freed.

`sessionMemory_refines` : in a run of the server the lists of all workers hold the sessions of the
gateway, the allocated records are those of the live sessions, no call that creates, finds or
removes a session reads a record that is freed, and a lookup finds the session it finds in the
gateway. The address a task keeps of its session is good as long as the session lives. After that
the flush reads freed memory, unless the allocator gave the address again.
-/

open Circle

namespace Xlab

variable {α : Type*}

/-! ## The code -/

/-- The links of all records, and the sockets of the sessions that are allocated. -/
structure SessionMemory (α : Type*) where
  links : Heap α
  socket : α → Option ℤ

namespace SessionMemory

variable [DecidableEq α]

/-- The turns of the loop of `xlab_session_get`. -/
def getTurns (fd : ℤ) (list : α) (m : SessionMemory α) :
    ℕ → α → Option (Except Fault (Option α))
  | 0, _ => none
  | fuel + 1, curr =>
    if curr = list then some (.ok none)
    else
      match m.socket curr with
      | none => some (.error .outOfBounds)
      | some fd' =>
        if fd' = fd then some (.ok (some curr))
        else
          match m.links.next curr with
          | none => some (.error .nullPointer)
          | some c => getTurns fd list m fuel c

/-- `xlab_session_get`. -/
def get (fd : ℤ) (list : α) (fuel : ℕ) (m : SessionMemory α) :
    Option (Except Fault (Option α)) :=
  match m.links.next list with
  | none => some (.error .nullPointer)
  | some c => getTurns fd list m fuel c

/-- The list of `xlab_session_create` gets the record `cs` from the allocator. -/
def create (cs : α) (fd : ℤ) (list : α) (m : SessionMemory α) :
    Except Fault (SessionMemory α) := do
  let m := { m with socket := Function.update m.socket cs (some fd) }
  let links ← listAdd cs list m.links
  return { m with links := links }

/-- A record is taken out of its list and freed, and may hold anything afterwards. -/
def free (junk : α → ListLinks α) (curr : α) (m : SessionMemory α) :
    Except Fault (SessionMemory α) := do
  let links ← listDel curr m.links
  return ⟨Function.update links curr (junk curr), Function.update m.socket curr none⟩

/-- The turns of the loop of `xlab_session_remove`, with the next record saved. -/
def removeTurns (junk : α → ListLinks α) (fd : ℤ) (list : α) (m : SessionMemory α) :
    ℕ → α → Option α → Option (Except Fault (SessionMemory α))
  | 0, _, _ => none
  | fuel + 1, curr, temp =>
    if curr = list then some (.ok m)
    else
      match m.socket curr with
      | none => some (.error .outOfBounds)
      | some fd' =>
        if fd' = fd then some (m.free junk curr)
        else
          match temp with
          | none => some (.error .nullPointer)
          | some c => removeTurns junk fd list m fuel c (m.links.next c)

/-- `xlab_session_remove`. -/
def remove (junk : α → ListLinks α) (fd : ℤ) (list : α) (fuel : ℕ) (m : SessionMemory α) :
    Option (Except Fault (SessionMemory α)) :=
  match m.links.next list with
  | none => some (.error .nullPointer)
  | some c => removeTurns junk fd list m fuel c (m.links.next c)

/-- The lists of the first `n` worker threads, from `xlab_sched_thread_lists_init`. -/
def listsInit (list : ℕ → α) : ℕ → SessionMemory α → Except Fault (SessionMemory α)
  | 0, m => .ok m
  | n + 1, m => do
    let m ← listsInit list n m
    let links ← listInit (list n) m.links
    return { m with links := links }

end SessionMemory

/-- A call that opens a session or removes one. -/
inductive SessionOp where
  | create (id : SessionIdent)
  | remove (w : ℕ) (fd : ℤ)
  deriving DecidableEq, Repr

/-- The call on the identities of the sessions. -/
def sessionStep (ids : List SessionIdent) : SessionOp → List SessionIdent
  | .create id => ids ++ [id]
  | .remove w fd => ids.eraseP (SessionIdent.isAt w fd)

/-- Where the allocator puts the list of every worker and every session, and what is in memory that
is freed. -/
structure SessionLayout (α : Type*) where
  list : ℕ → α
  addr : ℕ → α
  junk : α → ListLinks α
  injective : Function.Injective list

namespace SessionMemory

variable [DecidableEq α] (L : SessionLayout α)

/-- The call on the memory. -/
def step (fuel : ℕ) (m : SessionMemory α) : SessionOp → Option (Except Fault (SessionMemory α))
  | .create id => some (m.create (L.addr id.sid) id.socket (L.list id.owner))
  | .remove w fd => m.remove L.junk fd (L.list w) fuel

/-- The calls in order. -/
def run (fuel : ℕ) : SessionMemory α → List SessionOp → Option (Except Fault (SessionMemory α))
  | m, [] => some (.ok m)
  | m, op :: ops =>
    match m.step L fuel op with
    | none => none
    | some (.error f) => some (.error f)
    | some (.ok m') => run fuel m' ops

end SessionMemory

/-! ## What the memory holds -/

/-- The identities of the sessions of worker `w`. -/
def ownedBy (w : ℕ) (ids : List SessionIdent) : List SessionIdent :=
  ids.filter fun id => id.owner == w

/-- The memory holds the sessions of `workers` workers. -/
structure SessionLayout.Holds (L : SessionLayout α) (workers : ℕ) (ids : List SessionIdent)
    (m : SessionMemory α) : Prop where
  linked : ∃ q, Represents m.links ((List.range workers).map L.list) q ∧
    ∀ w < workers, q (L.list w) = some ((ownedBy w ids).map fun id => L.addr id.sid)
  owner : ∀ id ∈ ids, id.owner < workers
  apart : (ids.map fun id => L.addr id.sid).Nodup
  allocated : ∀ id ∈ ids, m.socket (L.addr id.sid) = some id.socket
  freed : ∀ a, (∀ id ∈ ids, L.addr id.sid ≠ a) → m.socket a = none

/-- The allocator gives memory that is not in use, and only the threads of the workers make
calls. -/
def SessionLayout.Allows (L : SessionLayout α) (workers : ℕ) (ids : List SessionIdent) :
    SessionOp → Prop
  | .create id => id.owner < workers ∧ (∀ w < workers, L.list w ≠ L.addr id.sid) ∧
      ∀ id' ∈ ids, L.addr id'.sid ≠ L.addr id.sid
  | .remove w _ => w < workers

instance [DecidableEq α] (L : SessionLayout α) (workers : ℕ) (ids : List SessionIdent) :
    ∀ op, Decidable (L.Allows workers ids op)
  | .create _ => inferInstanceAs (Decidable (_ ∧ _ ∧ _))
  | .remove _ _ => inferInstanceAs (Decidable (_ < _))

/-! ### The loops -/

section Loops

variable [DecidableEq α] {m : SessionMemory α} {heads : List α} {q : Queues α} {l : α}
  {ys : List α} {fd : ℤ}

omit [DecidableEq α] in
/-- The record of a turn is not the head, it is in use, and the next one is the next of the list. -/
theorem SessionMemory.turn_cons (xs : List α) {y : α} (hr : Represents m.links heads q)
    (hl : q l = some (xs ++ y :: ys)) (hall : ∀ z ∈ y :: ys, m.socket z ≠ none) :
    y ≠ l ∧ (∃ d, m.links.next y = some d ∧ (ys ++ [l]).head? = some d) ∧
      ∃ fd, m.socket y = some fd :=
  ⟨ne_of_mem_of_not_mem (by simp) (hr.circle l _ hl).not_mem, hr.exists_next hl,
    Option.ne_none_iff_exists'.1 (hall y List.mem_cons_self)⟩

/-- From any record on, the loop finds the first with the socket. -/
theorem SessionMemory.getTurns_eq (xs : List α) (hr : Represents m.links heads q)
    (hl : q l = some (xs ++ ys)) (hall : ∀ y ∈ ys, m.socket y ≠ none) {c : α}
    (hc : (ys ++ [l]).head? = some c) {fuel : ℕ} (hfuel : ys.length < fuel) :
    m.getTurns fd l fuel c = some (.ok (ys.find? fun a => m.socket a == some fd)) := by
  induction ys generalizing xs c fuel with
  | nil =>
    obtain rfl : l = c := Option.some.inj hc
    obtain ⟨fuel, rfl⟩ : ∃ k, fuel = k + 1 := ⟨fuel - 1, by omega⟩
    exact if_pos rfl
  | cons y ys ih =>
    obtain rfl : y = c := Option.some.inj hc
    obtain ⟨fuel, rfl⟩ : ∃ k, fuel = k + 1 := ⟨fuel - 1, by omega⟩
    obtain ⟨hyl, ⟨d, hnext, hd⟩, fd', hfd'⟩ := SessionMemory.turn_cons xs hr hl hall
    rw [SessionMemory.getTurns, if_neg hyl, List.find?_cons, hfd']
    by_cases hp : fd' = fd
    · simp [hp]
    · have hrest := ih (xs ++ [y]) (by rw [hl, List.append_assoc, List.singleton_append])
        (fun z hz => hall z (List.mem_cons_of_mem y hz)) hd (Nat.lt_of_succ_lt_succ hfuel)
      simpa [hp, beq_eq_false_iff_ne.2 hp, hnext] using hrest

/-- From any record on, the loop frees the first with the socket. -/
theorem SessionMemory.removeTurns_eq (junk : α → ListLinks α) (xs : List α)
    (hr : Represents m.links heads q) (hl : q l = some (xs ++ ys))
    (hall : ∀ y ∈ ys, m.socket y ≠ none) {c : α} (hc : (ys ++ [l]).head? = some c) {fuel : ℕ}
    (hfuel : ys.length < fuel) : m.removeTurns junk fd l fuel c (m.links.next c) =
      some (((ys.find? fun a => m.socket a == some fd).map (m.free junk)).getD (.ok m)) := by
  induction ys generalizing xs c fuel with
  | nil =>
    obtain rfl : l = c := Option.some.inj hc
    obtain ⟨fuel, rfl⟩ : ∃ k, fuel = k + 1 := ⟨fuel - 1, by omega⟩
    exact if_pos rfl
  | cons y ys ih =>
    obtain rfl : y = c := Option.some.inj hc
    obtain ⟨fuel, rfl⟩ : ∃ k, fuel = k + 1 := ⟨fuel - 1, by omega⟩
    obtain ⟨hyl, ⟨d, hnext, hd⟩, fd', hfd'⟩ := SessionMemory.turn_cons xs hr hl hall
    rw [SessionMemory.removeTurns.eq_def]
    simp only [if_neg hyl, List.find?_cons, hfd']
    by_cases hp : fd' = fd
    · simp [hp]
    · have hrest := ih (xs ++ [y]) (by rw [hl, List.append_assoc, List.singleton_append])
        (fun z hz => hall z (List.mem_cons_of_mem y hz)) hd (Nat.lt_of_succ_lt_succ hfuel)
      simpa [hp, beq_eq_false_iff_ne.2 hp, hnext] using hrest

end Loops

/-! ### The calls -/

namespace SessionLayout.Holds

variable [DecidableEq α] {L : SessionLayout α} {workers w : ℕ} {ids : List SessionIdent}
  {m : SessionMemory α} {fd : ℤ}

omit [DecidableEq α] in
theorem mem_heads {l : α} :
    l ∈ (List.range workers).map L.list ↔ ∃ w < workers, L.list w = l := by
  simp

omit [DecidableEq α] in
theorem find_owned (h : L.Holds workers ids m) (w : ℕ) (fd : ℤ) :
    ((ownedBy w ids).map fun id => L.addr id.sid).find? (fun a => m.socket a == some fd) =
      (ids.find? (SessionIdent.isAt w fd)).map fun id => L.addr id.sid := by
  rw [List.find?_map, ownedBy, List.find?_filter]
  refine congrArg _ (List.find?_congr fun id hid => ?_)
  simp [h.allocated id hid, SessionIdent.isAt, Bool.beq_eq_decide_eq]

omit [DecidableEq α] in
theorem allocated_owned (h : L.Holds workers ids m) (w : ℕ) :
    ∀ a ∈ (ownedBy w ids).map fun id => L.addr id.sid, m.socket a ≠ none := by
  intro a ha
  obtain ⟨id, hid, rfl⟩ := List.mem_map.1 ha
  rw [h.allocated id (List.mem_filter.1 hid).1]
  exact Option.some_ne_none _

omit [DecidableEq α] in
theorem length_owned (w : ℕ) (ids : List SessionIdent) :
    ((ownedBy w ids).map fun id => L.addr id.sid).length ≤ ids.length := by
  rw [List.length_map]
  exact List.length_filter_le _ _

/-- A lookup finds the session of the sequence. -/
theorem get (h : L.Holds workers ids m) (hw : w < workers) {fuel : ℕ}
    (hfuel : ids.length < fuel) (fd : ℤ) : m.get fd (L.list w) fuel =
      some (.ok ((ids.find? (SessionIdent.isAt w fd)).map fun id => L.addr id.sid)) := by
  obtain ⟨q, hr, hq⟩ := h.linked
  have hnext := (hr.circle _ _ (hq w hw)).next_eq
  obtain ⟨c, -, hc⟩ := (hr.circle _ _ (hq w hw)).exists_next List.mem_cons_self
  rw [SessionMemory.get, hc.1, ← h.find_owned]
  exact SessionMemory.getTurns_eq [] hr (hq w hw) (h.allocated_owned w) (hnext.symm.trans hc.1)
    ((length_owned w ids).trans_lt hfuel)

/-- A new session is at the end of the list of its worker. -/
theorem create (h : L.Holds workers ids m) {id : SessionIdent}
    (hid : L.Allows workers ids (.create id)) :
    ∃ m', m.create (L.addr id.sid) id.socket (L.list id.owner) = .ok m' ∧
      L.Holds workers (ids ++ [id]) m' := by
  obtain ⟨q, hr, hq⟩ := h.linked
  obtain ⟨hw, hlists, hfresh⟩ := hid
  have hfree : Unlisted m.links ((List.range workers).map L.list) (L.addr id.sid) := by
    refine hr.unlisted_iff.2 fun l xs hl hmem => ?_
    obtain ⟨w, hw, rfl⟩ := mem_heads.1 (hr.mem_heads hl)
    rcases List.mem_cons.1 hmem with he | hx
    · exact hlists w hw he.symm
    · obtain rfl := Option.some.inj ((hq w hw).symm.trans hl)
      obtain ⟨id', hid', he⟩ := List.mem_map.1 hx
      exact hfresh id' (List.mem_filter.1 hid').1 he
  obtain ⟨links, hrun, hr'⟩ := hr.listAdd (hq _ hw) hfree
  refine ⟨⟨links, Function.update m.socket (L.addr id.sid) (some id.socket)⟩, ?_,
    ⟨_, hr', fun w hw' => ?_⟩, ?_, ?_, ?_, ?_⟩
  · rw [SessionMemory.create]
    simp only [hrun]
    rfl
  · by_cases hwo : w = id.owner
    · subst hwo
      rw [Function.update_self, ownedBy, ownedBy, List.filter_append]
      simp
    · rw [Function.update_of_ne (L.injective.ne hwo), hq w hw', ownedBy, ownedBy,
        List.filter_append]
      simp [Ne.symm hwo]
  · simpa [or_imp, forall_and] using ⟨h.owner, hw⟩
  · rw [List.map_append, List.map_singleton, List.nodup_append_comm, List.singleton_append,
      List.nodup_cons]
    refine ⟨fun hmem => ?_, h.apart⟩
    obtain ⟨id', hid', he⟩ := List.mem_map.1 hmem
    exact hfresh id' hid' he
  · intro id' hid'
    rcases List.mem_append.1 hid' with hid' | hid'
    · exact (Function.update_of_ne (hfresh id' hid') _ _).trans (h.allocated id' hid')
    · obtain rfl := List.mem_singleton.1 hid'
      exact Function.update_self ..
  · intro a ha
    have hne : a ≠ L.addr id.sid := fun he =>
      ha id (List.mem_append_right _ List.mem_cons_self) he.symm
    exact (Function.update_of_ne hne _ _).trans
      (h.freed a fun id' hid' => ha id' (List.mem_append_left _ hid'))

omit [DecidableEq α] in
/-- A session that is taken out was in the list of its worker, and in no other. -/
theorem ownedBy_eraseP {id : SessionIdent} (hid : ids.find? (SessionIdent.isAt w fd) = some id)
    {w' : ℕ} (hw : w' ≠ w) : ownedBy w' (ids.eraseP (SessionIdent.isAt w fd)) = ownedBy w' ids := by
  obtain ⟨hat, pre, post, rfl, hpre⟩ := List.find?_eq_some_iff_append.1 hid
  have hnot : ∀ b ∈ pre, ¬SessionIdent.isAt w fd b = true := fun b hb => by simpa using hpre b hb
  have howner : (id.owner == w') = false := by
    rw [(Roll.isAt_iff.1 hat).1]
    simpa using hw.symm
  rw [List.eraseP_append_right _ hnot, List.eraseP_cons_of_pos hat, ownedBy, ownedBy,
    List.filter_append, List.filter_append, List.filter_cons, howner]
  rfl

/-- The first session of the worker on the socket is freed. -/
theorem remove (h : L.Holds workers ids m) (hw : w < workers) {fuel : ℕ}
    (hfuel : ids.length < fuel) (fd : ℤ) :
    ∃ m', m.remove L.junk fd (L.list w) fuel = some (.ok m') ∧
      L.Holds workers (ids.eraseP (SessionIdent.isAt w fd)) m' := by
  obtain ⟨q, hr, hq⟩ := h.linked
  have hnext := (hr.circle _ _ (hq w hw)).next_eq
  obtain ⟨c, -, hc⟩ := (hr.circle _ _ (hq w hw)).exists_next List.mem_cons_self
  rw [SessionMemory.remove, hc.1]
  simp only []
  rw [SessionMemory.removeTurns_eq L.junk [] hr (hq w hw) (h.allocated_owned w)
    (hnext.symm.trans hc.1) ((length_owned w ids).trans_lt hfuel), h.find_owned]
  cases hfind : ids.find? (SessionIdent.isAt w fd) with
  | none =>
    rw [List.eraseP_of_forall_not (List.find?_eq_none.1 hfind)]
    exact ⟨m, rfl, h⟩
  | some id =>
    have hmem : id ∈ ids := List.mem_of_find?_eq_some hfind
    have howned : id ∈ ownedBy w ids :=
      List.mem_filter.2 ⟨hmem, by simp [(Roll.isAt_iff.1 (List.find?_some hfind)).1]⟩
    obtain ⟨links, hrun, hr'⟩ := hr.listDel (hq w hw) (List.mem_map_of_mem howned)
    have hfree := hr.unlisted_of_erase (hq w hw) (List.mem_map_of_mem howned) hr'
    have herase : ids.Perm (id :: ids.eraseP (SessionIdent.isAt w fd)) := by
      obtain ⟨hat, pre, post, rfl, hpre⟩ := List.find?_eq_some_iff_append.1 hfind
      have hnot : ∀ b ∈ pre, ¬SessionIdent.isAt w fd b = true :=
        fun b hb => by simpa using hpre b hb
      rw [List.eraseP_append_right _ hnot, List.eraseP_cons_of_pos hat]
      exact List.perm_middle
    have hnodup := (herase.map fun id => L.addr id.sid).nodup h.apart
    rw [List.map_cons, List.nodup_cons] at hnodup
    refine ⟨⟨Function.update links (L.addr id.sid) (L.junk (L.addr id.sid)),
      Function.update m.socket (L.addr id.sid) none⟩, ?_,
      ⟨_, hr'.reuse hfree _, fun w' hw' => ?_⟩,
      fun id' hid' => h.owner id' (List.mem_of_mem_eraseP hid'), hnodup.2, fun id' hid' => ?_,
      fun a ha => ?_⟩
    · rw [Option.map_some, Option.map_some, Option.getD_some, SessionMemory.free]
      simp only [hrun]
      rfl
    · by_cases hwo : w' = w
      · subst hwo
        have hfirst := h.find_owned w' fd
        rw [hfind, Option.map_some] at hfirst
        rw [Function.update_self, ← eraseP_of_find? hfirst, List.eraseP_map]
        refine congrArg _ (congrArg _ ((eraseP_filter ids).trans (congrArg _ (eraseP_congr ?_))))
        intro id' hid'
        simp [h.allocated id' hid', SessionIdent.isAt, Bool.beq_eq_decide_eq]
      · rw [Function.update_of_ne (L.injective.ne hwo), hq w' hw', ownedBy_eraseP hfind hwo]
    · have hne : L.addr id'.sid ≠ L.addr id.sid := fun he =>
        hnodup.1 (he ▸ List.mem_map_of_mem hid')
      exact (Function.update_of_ne hne _ _).trans (h.allocated id' (List.mem_of_mem_eraseP hid'))
    · by_cases hne : a = L.addr id.sid
      · subst hne
        exact Function.update_self ..
      · refine (Function.update_of_ne hne _ _).trans (h.freed a fun id' hid' => ?_)
        rcases List.mem_cons.1 (herase.mem_iff.1 hid') with rfl | hid'
        · exact fun he => hne he.symm
        · exact ha id' hid'

omit [DecidableEq α] in
theorem length_sessionStep (ids : List SessionIdent) (op : SessionOp) :
    (sessionStep ids op).length ≤ ids.length + 1 := by
  cases op with
  | create id => exact List.length_append.le
  | remove w fd => exact (List.length_eraseP_le).trans (Nat.le_succ _)

theorem step (h : L.Holds workers ids m) {fuel : ℕ} (hfuel : ids.length < fuel) {op : SessionOp}
    (hop : L.Allows workers ids op) :
    ∃ m', m.step L fuel op = some (.ok m') ∧ L.Holds workers (sessionStep ids op) m' := by
  cases op with
  | create id =>
    obtain ⟨m', hrun, hm'⟩ := h.create hop
    exact ⟨m', congrArg some hrun, hm'⟩
  | remove w fd => exact h.remove hop hfuel fd

theorem run {ops : List SessionOp} {ids : List SessionIdent} {m : SessionMemory α}
    (h : L.Holds workers ids m) {fuel : ℕ} (hfuel : ids.length + ops.length < fuel)
    (hops : Runs.Guarded sessionStep (L.Allows workers) ids ops) :
    ∃ m', m.run L fuel ops = some (.ok m') ∧
      L.Holds workers (Runs.run sessionStep ids ops) m' := by
  induction ops generalizing ids m with
  | nil => exact ⟨m, rfl, h⟩
  | cons op ops ih =>
    rw [List.length_cons] at hfuel
    have hlen := length_sessionStep ids op
    have hlt : ids.length < fuel := by omega
    obtain ⟨m₁, hstep, h₁⟩ := h.step hlt hops.1
    obtain ⟨m', hrun, hm'⟩ := ih h₁ (by omega) hops.2
    refine ⟨m', ?_, hm'⟩
    rw [SessionMemory.run, hstep]
    exact hrun

/-- The lists of the threads before the first session. -/
theorem listsInit {n : ℕ} (m : SessionMemory α) (hm : ∀ a, m.socket a = none) :
    ∃ m', SessionMemory.listsInit L.list n m = .ok m' ∧ L.Holds n [] m' := by
  induction n with
  | zero => exact ⟨m, rfl, ⟨_, represents_empty m.links, by simp⟩, by simp, by simp, by simp,
      fun a _ => hm a⟩
  | succ n ih =>
    obtain ⟨m₁, hrun₁, h₁⟩ := ih
    obtain ⟨q, hr, hq⟩ := h₁.linked
    have hfree : Unlisted m₁.links ((List.range n).map L.list) (L.list n) := by
      refine hr.unlisted_iff.2 fun l xs hl hmem => ?_
      obtain ⟨w, hw, rfl⟩ := mem_heads.1 (hr.mem_heads hl)
      obtain rfl := Option.some.inj ((hq w hw).symm.trans hl)
      exact absurd (L.injective (List.mem_singleton.1 hmem)) (by omega)
    obtain ⟨links, hrun, hr'⟩ := hr.listInit hfree
    have hheads : ∀ l, l ∈ (List.range (n + 1)).map L.list ↔
        l ∈ L.list n :: (List.range n).map L.list := by
      simp [List.range_succ, or_comm, eq_comm]
    refine ⟨{ m₁ with links := links }, ?_, ⟨Function.update q (L.list n) (some []),
      ⟨fun l => (hheads l).trans (hr'.heads l), hr'.circle, hr'.disjoint⟩, fun w hw => ?_⟩,
      by simp, by simp, by simp, h₁.freed⟩
    · rw [SessionMemory.listsInit, hrun₁]
      simp only [bind, Except.bind, hrun]
      rfl
    · by_cases hwn : w = n
      · subst hwn
        exact Function.update_self ..
      · rw [Function.update_of_ne (L.injective.ne hwn)]
        exact hq w (by omega)

end SessionLayout.Holds

/-! ## The calls of the server -/

namespace Gateway

variable {W : Type}

/-- The identities of the live sessions. -/
def idents (g : Gateway W) : List SessionIdent :=
  g.sessions.map Session.ident

/-- The calls of `xlab_conn_read` in worker `w`. -/
def readOps (s : Setup W) (w : ℕ) (fd : ℤ) (r : ReadOutcome) (g : Gateway W) : List SessionOp :=
  if fd = s.eventFd then []
  else if g.trans.isDatagram fd then []
  else
    match g.openSession w fd with
    | none => []
    | some (cs, g') =>
      (match g.sessionGet w fd with
        | some _ => []
        | none => [.create cs.ident]) ++
      List.replicate (connReadTcp s.server w s.table r ⟨cs, g'.shared⟩).removals (.remove w fd)

/-- The calls of `xlab_conn_write` in worker `w`. -/
def writeOps (w : ℕ) (fd : ℤ) (g : Gateway W) : List SessionOp :=
  match schedGetConnection (g.workers w) fd, g.sessionGet w fd with
  | some _, some cs => List.replicate (connWriteTcp w ⟨cs, g.shared⟩).removals (.remove w fd)
  | _, _ => []

/-- The calls in one event of the loop of worker `w`. The close handler makes none. -/
def dispatchOps (s : Setup W) (w : ℕ) (fd : ℤ) (ready : Ready) (r : ReadOutcome)
    (g : Gateway W) : List SessionOp :=
  match ready with
  | .input => g.readOps s w fd r
  | .output => g.writeOps w fd
  | .error => [.remove w fd]

end Gateway

/-- The calls in one step of the server. A flush opens and removes nothing : what it reads is
`SessionMemory.flushTarget`. -/
def serverOps {W : Type} (s : Setup W) (p : Server W) : ServerEvent → List SessionOp
  | .epoll w fd ready r => p.gateway.dispatchOps s w fd ready r
  | _ => []

namespace Gateway

variable {W : Type} {s : Setup W} {g : Gateway W} {w : ℕ} {fd : ℤ} {r : ReadOutcome}

theorem idents_eq (g : Gateway W) : g.idents = g.roll.directory :=
  rfl

theorem run_replicate_remove (n w : ℕ) (fd : ℤ) (r : Roll) :
    Runs.run sessionStep r.directory (List.replicate n (.remove w fd)) =
      ((Roll.dropped w fd)^[n] r).directory := by
  induction n generalizing r with
  | zero => rfl
  | succ n ih => exact ih (r.dropped w fd)

theorem idents_leave (w : ℕ) (fd : ℤ) (e : Exit W) (g : Gateway W) :
    (g.leave w fd e).2.idents =
      Runs.run sessionStep g.idents (List.replicate e.removals (.remove w fd)) := by
  rw [idents_eq, idents_eq, roll_leave, run_replicate_remove]

theorem idents_connRead (s : Setup W) (w : ℕ) (fd : ℤ) (r : ReadOutcome) (g : Gateway W) :
    (g.connRead s w fd r).2.idents = Runs.run sessionStep g.idents (g.readOps s w fd r) := by
  unfold connRead readOps
  split_ifs with hev hdg
  · rw [Runs.run_nil, idents_eq, roll_flushCompleted, ← idents_eq]
  · rw [Runs.run_nil, idents_eq, roll_connReadDatagram, ← idents_eq]
  · cases ho : g.openSession w fd with
    | none => rfl
    | some p =>
      obtain ⟨cs, g'⟩ := p
      simp only [idents_leave, Runs.run_append]
      rcases openSession_cases ho with ⟨hget, rfl⟩ | ⟨hfree, -, -, rfl⟩
      · rw [hget]
        rfl
      · rw [sessionGet_eq_none.2 hfree]
        exact congrArg (fun ids => Runs.run sessionStep ids _)
          (congrArg Roll.directory (roll_addSession cs g))

theorem idents_connWrite (w : ℕ) (fd : ℤ) (g : Gateway W) :
    (g.connWrite w fd).2.idents = Runs.run sessionStep g.idents (g.writeOps w fd) := by
  unfold writeOps
  rcases connWrite_cases w fd g with ⟨hfd, he⟩ | ⟨hfd, hget, he⟩ | ⟨cs, hfd, hget, he⟩
  · rw [he, schedGetConnection_eq_none.2 hfd]
    rfl
  · rw [he, hget]
    cases schedGetConnection (g.workers w) fd <;> rfl
  · obtain ⟨c, hc⟩ := Option.ne_none_iff_exists'.1 (mt schedGetConnection_eq_none.1 (not_not.2 hfd))
    have hmark : (g.setWorker w (schedUpdateConnStatus fd .process)).idents = g.idents := rfl
    rw [he, hget, hc, idents_leave, hmark]

theorem idents_dispatch (s : Setup W) (w : ℕ) (fd : ℤ) (ready : Ready) (r : ReadOutcome)
    (g : Gateway W) : (g.epollDispatch s w fd ready r).idents =
      Runs.run sessionStep g.idents (g.dispatchOps s w fd ready r) := by
  have hclose : ∀ res : ℤ × Gateway W, (closeFailed w fd res).idents = res.2.idents := fun res =>
    closeFailed_keeps (P := fun g' => g'.idents = res.2.idents) rfl rfl
  rw [epollDispatch.eq_def, hclose]
  cases ready with
  | input => exact idents_connRead s w fd r g
  | output => exact idents_connWrite w fd g
  | error => exact congrArg Roll.directory (roll_sessionRemove w fd (g.removeClient w fd))

end Gateway

section Server

variable {W : Type} {s : Setup W}

theorem idents_serverStep (s : Setup W) (p : Server W) (e : ServerEvent) :
    (serverStep s p e).gateway.idents =
      Runs.run sessionStep p.gateway.idents (serverOps s p e) := by
  obtain ⟨g, a⟩ := p
  cases e with
  | accept fd =>
    obtain ⟨sh, h⟩ := gateway_accept s ⟨g, a⟩ fd
    rw [h]
    rfl
  | epollAdd added =>
    obtain ⟨sh, h⟩ := gateway_epollAdd s ⟨g, a⟩ added
    rw [h]
    rfl
  | count => cases a <;> rfl
  | epoll w fd ready r => exact Gateway.idents_dispatch s w fd ready r g
  | work i => rfl
  | sockets script => rfl

/-- Events come from the loops of the workers, and the allocator gives memory that is not in
use. -/
def SessionLayout.Serves (L : SessionLayout α) (s : Setup W) (p : Server W) (e : ServerEvent) :
    Prop :=
  ∀ op ∈ serverOps s p e, L.Allows s.sched.workers p.gateway.idents op

/-- A session is opened before the calls that remove one. -/
theorem allows_dispatch {L : SessionLayout α} {g : Gateway W} {w : ℕ} {fd : ℤ}
    {ready : Gateway.Ready} {r : ReadOutcome} {workers : ℕ}
    (h : ∀ op ∈ g.dispatchOps s w fd ready r, L.Allows workers g.idents op) :
    Runs.Guarded sessionStep (L.Allows workers) g.idents (g.dispatchOps s w fd ready r) := by
  have hremove : ∀ (n : ℕ) (ids : List SessionIdent),
      (∀ op ∈ List.replicate n (SessionOp.remove w fd), L.Allows workers g.idents op) →
        Runs.Guarded sessionStep (L.Allows workers) ids (List.replicate n (.remove w fd)) := by
    refine fun n ids hall => Runs.guarded_of_forall (fun op hop _ => ?_) ids
    obtain rfl := List.eq_of_mem_replicate hop
    exact hall _ hop
  cases ready with
  | input =>
    simp only [Gateway.dispatchOps, Gateway.readOps] at h ⊢
    split_ifs at h ⊢
    · trivial
    · trivial
    · cases ho : g.openSession w fd with
      | none => trivial
      | some p =>
        obtain ⟨cs, g'⟩ := p
        rw [ho] at h
        simp only [List.forall_mem_append] at h
        refine Runs.guarded_append.2 ⟨?_, hremove _ _ h.2⟩
        cases hget : g.sessionGet w fd with
        | some cs' => trivial
        | none =>
          rw [hget] at h
          exact ⟨h.1 _ List.mem_cons_self, trivial⟩
  | output =>
    simp only [Gateway.dispatchOps, Gateway.writeOps] at h ⊢
    split at h
    · exact hremove _ _ h
    · trivial
  | error => exact ⟨h _ List.mem_cons_self, trivial⟩

theorem serverOps_simulate (L : SessionLayout α) (s : Setup W) :
    Simulation.Simulates (serverStep s) sessionStep (serverOps s)
      (fun p ids => p.gateway.idents = ids) (L.Serves s) (L.Allows s.sched.workers) where
  guarded := by
    rintro p ids e rfl hp
    cases e with
    | epoll w fd ready r => exact allows_dispatch hp
    | accept fd => trivial
    | epollAdd added => trivial
    | count => trivial
    | work i => trivial
    | sockets script => trivial
  related := by
    rintro p ids e rfl -
    exact idents_serverStep s p e

/-- The session a flush takes for a task : by the address the task keeps, else by the socket. -/
def SessionMemory.flushTarget [DecidableEq α] (L : SessionLayout α) (w : ℕ) (task : AsyncTask W)
    (fuel : ℕ) (m : SessionMemory α) : Option (Except Fault (Option α)) :=
  match task.targetCs with
  | none => m.get task.socketFd (L.list w) fuel
  | some sid =>
    match m.socket (L.addr sid) with
    | none => some (.error .outOfBounds)
    | some fd =>
      if fd = task.socketFd then some (.ok (some (L.addr sid)))
      else m.get task.socketFd (L.list w) fuel

theorem length_run_sessionStep (ids : List SessionIdent) (ops : List SessionOp) :
    (Runs.run sessionStep ids ops).length ≤ ids.length + ops.length := by
  induction ops generalizing ids with
  | nil => exact Nat.le_refl _
  | cons op ops ih =>
    have hrest := ih (sessionStep ids op)
    have hstep := SessionLayout.Holds.length_sessionStep ids op
    rw [Runs.run_cons, List.length_cons]
    omega

namespace SessionLayout.Holds

variable [DecidableEq α] {L : SessionLayout α} {workers w : ℕ} {g : Gateway W}
  {m : SessionMemory α} {fuel : ℕ}

theorem sessionGet (h : L.Holds workers g.idents m) (hw : w < workers)
    (hfuel : g.idents.length < fuel) (fd : ℤ) : m.get fd (L.list w) fuel =
      some (.ok ((g.sessionGet w fd).map fun cs => L.addr cs.ident.sid)) := by
  rw [h.get hw hfuel, Gateway.idents, List.find?_map, Option.map_map]
  rfl

/-- The address of a session that lives leads the flush to the session of the gateway. -/
theorem flushTarget_of_live (h : L.Holds workers g.idents m) (hw : w < workers)
    (hfuel : g.idents.length < fuel) {task : AsyncTask W}
    (hlive : task.targetCs = none ∨ g.live task.targetCs ≠ none) :
    m.flushTarget L w task fuel =
      some (.ok ((g.flushTarget w task).map fun cs => L.addr cs.ident.sid)) := by
  unfold SessionMemory.flushTarget Gateway.flushTarget
  cases htarget : task.targetCs with
  | none => exact h.sessionGet hw hfuel task.socketFd
  | some sid =>
    rw [htarget] at hlive
    obtain ⟨cs, hcs⟩ := Option.ne_none_iff_exists'.1 (hlive.resolve_left (Option.some_ne_none _))
    have hfind : Registry.find Session.ident (fun id => id.sid == sid) g.sessions = some cs := hcs
    have hmem : cs.ident ∈ g.idents := List.mem_map_of_mem (Registry.mem_of_find hfind)
    have hsid : cs.ident.sid = sid := by simpa using Registry.find_key hfind
    rw [hcs, ← hsid]
    simp only [h.allocated _ hmem]
    split_ifs
    · rfl
    · exact h.sessionGet hw hfuel task.socketFd

/-- The flush reads freed memory when no session has the address. -/
theorem flushTarget_eq_error_iff (h : L.Holds workers g.idents m) (hw : w < workers)
    (hfuel : g.idents.length < fuel) {task : AsyncTask W} {sid : ℕ}
    (htarget : task.targetCs = some sid) :
    m.flushTarget L w task fuel = some (.error .outOfBounds) ↔
      ∀ cs ∈ g.sessions, L.addr cs.ident.sid ≠ L.addr sid := by
  unfold SessionMemory.flushTarget
  simp only [htarget]
  constructor
  · intro herror cs hcs he
    have hsocket := h.allocated cs.ident (List.mem_map_of_mem hcs)
    rw [he] at hsocket
    rw [hsocket] at herror
    simp only [h.sessionGet hw hfuel] at herror
    split_ifs at herror <;> cases herror
  · intro hgone
    have hfreed := h.freed (L.addr sid) (by simpa [Gateway.idents] using hgone)
    rw [hfreed]

end SessionLayout.Holds

/-- The memory holds the sessions of the gateway and no others. Lookups find the session they find
in the gateway, and so does a flush for a task whose session lives. For a task whose session
does not, it reads freed memory unless the allocator gave the address again. -/
structure SessionLayout.Mirrors [DecidableEq α] (L : SessionLayout α) (workers fuel : ℕ)
    (g : Gateway W) (m : SessionMemory α) : Prop where
  holds : L.Holds workers g.idents m
  get : ∀ w < workers, ∀ fd, m.get fd (L.list w) fuel =
    some (.ok ((g.sessionGet w fd).map fun cs => L.addr cs.ident.sid))
  target : ∀ w < workers, ∀ task : AsyncTask W, task.targetCs = none ∨ g.live task.targetCs ≠ none →
    m.flushTarget L w task fuel =
      some (.ok ((g.flushTarget w task).map fun cs => L.addr cs.ident.sid))
  dangling : ∀ w < workers, ∀ (task : AsyncTask W) (sid : ℕ), task.targetCs = some sid →
    (m.flushTarget L w task fuel = some (.error .outOfBounds) ↔
      ∀ cs ∈ g.sessions, L.addr cs.ident.sid ≠ L.addr sid)

/-- The calls of a run from the start. -/
def sessionTrace (s : Setup W) (g : Gateway W) (es : List ServerEvent) : List SessionOp :=
  Simulation.trace (serverStep s) (serverOps s) ⟨g, .idle⟩ es

/-- In a run of the server from its start, the calls of all threads that open and remove sessions
follow links that are there and read only sessions that are allocated, and the memory then mirrors
the gateway. -/
theorem sessionMemory_refines [DecidableEq α] (s : Setup W) {g : Gateway W} (hg : g.Opened s)
    (L : SessionLayout α) (es : List ServerEvent)
    (hes : Runs.Guarded (serverStep s) (L.Serves s) ⟨g, .idle⟩ es) (m : SessionMemory α)
    (hm : ∀ a, m.socket a = none) :
    ∃ m₀ m', SessionMemory.listsInit L.list s.sched.workers m = .ok m₀ ∧
      m₀.run L ((sessionTrace s g es).length + 1) (sessionTrace s g es) = some (.ok m') ∧
      L.Mirrors s.sched.workers ((sessionTrace s g es).length + 1)
        (Runs.run (serverStep s) ⟨g, .idle⟩ es).gateway m' := by
  obtain ⟨m₀, hinit, h₀⟩ := SessionLayout.Holds.listsInit (L := L) (n := s.sched.workers) m hm
  have hstart : (⟨g, .idle⟩ : Server W).gateway.idents = [] := by
    rw [Gateway.idents, hg.sessions, List.map_nil]
  obtain ⟨hallows, hrun⟩ := (serverOps_simulate L s).run hstart hes
  rw [← sessionTrace] at hallows hrun
  have hturns : ([] : List SessionIdent).length + (sessionTrace s g es).length <
      (sessionTrace s g es).length + 1 := by simp
  obtain ⟨m', hmem, hm'⟩ := h₀.run hturns hallows
  have hlen := length_run_sessionStep [] (sessionTrace s g es)
  rw [← hrun] at hm' hlen
  have hfuel := Nat.lt_succ_of_le (hlen.trans_eq (by rw [List.length_nil, Nat.zero_add]))
  exact ⟨m₀, m', hinit, hmem, hm', fun w hw => hm'.sessionGet hw hfuel,
    fun w hw task => hm'.flushTarget_of_live hw hfuel,
    fun w hw task sid => hm'.flushTarget_eq_error_iff hw hfuel⟩

/-- Lists at even addresses, and every session at the same odd one. -/
def reusedLayout : SessionLayout ℕ where
  list w := 2 * w
  addr _ := 1
  junk _ := ⟨some 1, none⟩
  injective _ _ h := by simpa using h

/-- A client sends a byte and leaves, and another gets its descriptor and its memory. -/
def secondClient : List ServerEvent :=
  [.accept 7, .epollAdd true, .count, .epoll 0 7 .output (.data []),
    .epoll 0 7 .input (.data [0x40]), .epoll 0 7 .input (.data []),
    .accept 7, .epollAdd true, .count, .epoll 0 7 .output (.data []),
    .epoll 0 7 .input (.data [0x40])]

theorem sessionMemory_refines_secondClient : ∃ m' : SessionMemory ℕ,
    m'.socket 1 = some 7 ∧ reusedLayout.Mirrors 1
      ((sessionTrace idleSetup launchedGateway secondClient).length + 1)
      (Runs.run (serverStep idleSetup) ⟨launchedGateway, .idle⟩ secondClient).gateway m' := by
  have hes : Runs.Guarded (serverStep idleSetup) (reusedLayout.Serves idleSetup)
      ⟨launchedGateway, .idle⟩ secondClient := by
    unfold SessionLayout.Serves
    refine ⟨?_, ?_, ?_, ?_, ?_, ?_, ?_, ?_, ?_, ?_, ?_, trivial⟩ <;> decide +kernel
  obtain ⟨-, m', -, -, hm'⟩ := sessionMemory_refines idleSetup launchedGateway_opened reusedLayout
    secondClient hes ⟨fun _ => ⟨none, none⟩, fun _ => none⟩ fun _ => rfl
  have hids : (Runs.run (serverStep idleSetup) ⟨launchedGateway, .idle⟩
      secondClient).gateway.idents = [⟨1, 0, 7⟩] := by decide +kernel
  refine ⟨m', ?_, hm'⟩
  have hallocated := hm'.holds.allocated
  rw [hids] at hallocated
  exact hallocated ⟨1, 0, 7⟩ List.mem_cons_self

end Server

end Xlab
