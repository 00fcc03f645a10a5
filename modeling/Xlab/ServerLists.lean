import Mathlib.Data.List.Find
import Xlab.Gateway
import Xlab.Lists

/-!
# The lists of the server

What the server does to its lists : it looks for the first record with some property, removes it
and stops there, or takes a record out of one list and adds it to another. On the sequences this
is `List.find?`, `List.eraseP`, and an erasure with an addition to the end, which is how the
scheduler and the sessions are modelled.
-/

open Circle

namespace Xlab

variable {α : Type*} [DecidableEq α]

/-! ## Loops and moves -/

/-- The turns of `xlab_list_foreach(curr, head)` up to a record with `P`. -/
def findTurns (P : α → Bool) (head : α) (h : Heap α) : ℕ → α → Option (Except Fault (Option α))
  | 0, _ => none
  | fuel + 1, curr =>
    if curr = head then some (.ok none)
    else if P curr then some (.ok (some curr))
    else
      match h.next curr with
      | none => some (.error .nullPointer)
      | some c => findTurns P head h fuel c

/-- The loop of `xlab_sched_get_connection` and of `xlab_session_get`. -/
def listFind (P : α → Bool) (head : α) (fuel : ℕ) (h : Heap α) :
    Option (Except Fault (Option α)) :=
  match h.next head with
  | none => some (.error .nullPointer)
  | some c => findTurns P head h fuel c

/-- The body of the loop of `xlab_session_remove`. -/
def removeFirst (P : α → Bool) (junk : α → ListLinks α) (curr : α) (h : Heap α) :
    Except Fault (Heap α × Flow) :=
  if P curr then do
    let h ← listDel curr h
    return (Function.update h curr (junk curr), .leave)
  else .ok (h, .goOn)

/-- A record is deleted and added to another list. -/
def listMove (entry head : α) (h : Heap α) : Except Fault (Heap α) := do
  let h ← listDel entry h
  listAdd entry head h

/-- What `xlab_sched_register_client` does to the lists. -/
def schedRegisterLinks (av busy : α) (h : Heap α) : Except Fault (Heap α) :=
  match h.next av with
  | none => .error .nullPointer
  | some entry => listMove entry busy h

/-- What `xlab_sched_remove_client` does to the lists. `P` says whether a record has the
descriptor. -/
def schedRemoveLinks (P : α → Bool) (av busy : α) (fuel : ℕ) (h : Heap α) :
    Option (Except Fault (Heap α)) :=
  match listFind P busy fuel h with
  | none => none
  | some (.error f) => some (.error f)
  | some (.ok none) => some (.ok h)
  | some (.ok (some entry)) => some (listMove entry av h)

/-- The first record with `P` is the one that is erased. -/
theorem eraseP_eq_erase {P : α → Bool} {y : α} {xs ys : List α} (hxs : ∀ x ∈ xs, ¬P x = true)
    (hy : P y = true) : (xs ++ y :: ys).eraseP P = (xs ++ y :: ys).erase y := by
  have hnot : y ∉ xs := fun hmem => hxs y hmem hy
  rw [List.eraseP_append_right _ hxs, List.eraseP_cons_of_pos hy, List.erase_append_right _ hnot,
    List.erase_cons_head]

theorem eraseP_of_find? {P : α → Bool} {y : α} {xs : List α} (h : xs.find? P = some y) :
    xs.eraseP P = xs.erase y := by
  obtain ⟨hy, as, bs, rfl, has⟩ := List.find?_eq_some_iff_append.1 h
  exact eraseP_eq_erase (fun a ha => by simpa using has a ha) hy

theorem eraseP_congr {β : Type*} {p r : β → Bool} {xs : List β} (h : ∀ x ∈ xs, p x = r x) :
    xs.eraseP p = xs.eraseP r := by
  induction xs with
  | nil => rfl
  | cons x xs ih =>
    rw [List.forall_mem_cons] at h
    rw [List.eraseP_cons, List.eraseP_cons, h.1, ih h.2]

/-- A record that is erased from the records with `p` is erased from all. -/
theorem eraseP_filter {β : Type*} {p r : β → Bool} (xs : List β) :
    (xs.filter p).eraseP r = (xs.eraseP fun x => p x && r x).filter p := by
  induction xs with
  | nil => rfl
  | cons x xs ih =>
    cases hp : p x with
    | false => simp [hp, ih]
    | true => cases hr : r x <;> simp [hp, hr, ih]

namespace Represents

variable {h : Heap α} {heads : List α} {q : Queues α} {l m n : α} {xs ys : List α}

omit [DecidableEq α] in
/-- The link from a record of the list leads to the one behind it. -/
theorem exists_next (hr : Represents h heads q) (hl : q l = some (xs ++ n :: ys)) :
    ∃ d, h.next n = some d ∧ (ys ++ [l]).head? = some d := by
  have hnext := (hr.circle l _ hl).next_middle xs
  have hne : ys ++ [l] ≠ [] := List.append_ne_nil_of_right_ne_nil ys (List.cons_ne_nil l [])
  exact ⟨_, hnext.trans (List.head?_eq_some_head hne), List.head?_eq_some_head hne⟩

/-- From any record on, the loop finds the first with `P`. -/
theorem findTurns (P : α → Bool) (xs : List α) (hr : Represents h heads q)
    (hl : q l = some (xs ++ ys)) {c : α} (hc : (ys ++ [l]).head? = some c) :
    Xlab.findTurns P l h (ys.length + 1) c = some (.ok (ys.find? P)) := by
  induction ys generalizing xs c with
  | nil =>
    obtain rfl : l = c := Option.some.inj hc
    exact if_pos rfl
  | cons y ys ih =>
    obtain rfl : y = c := Option.some.inj hc
    have hyl : y ≠ l := ne_of_mem_of_not_mem (by simp) (hr.circle l _ hl).not_mem
    obtain ⟨d, hnext, hd⟩ := hr.exists_next hl
    rw [List.length_cons, Xlab.findTurns, if_neg hyl, List.find?_cons]
    cases hp : P y with
    | true => rfl
    | false =>
      simp only [hnext]
      exact ih (xs ++ [y]) (by rw [hl, List.append_assoc, List.singleton_append]) hd

theorem listFind (P : α → Bool) (hr : Represents h heads q) (hl : q l = some xs) :
    ∃ fuel, Xlab.listFind P l fuel h = some (.ok (xs.find? P)) := by
  have hnext := (hr.circle l xs hl).next_eq
  obtain ⟨c, -, hc⟩ := (hr.circle l xs hl).exists_next List.mem_cons_self
  refine ⟨xs.length + 1, ?_⟩
  rw [Xlab.listFind]
  simp only [hc.1]
  exact findTurns P [] hr hl (hnext.symm.trans hc.1)

/-- From any record on, the loop removes the first with `P`. -/
theorem removeTurns (P : α → Bool) (xs : List α) (junk : α → ListLinks α)
    (hr : Represents h heads q) (hl : q l = some (xs ++ ys)) (hxs : ∀ x ∈ xs, ¬P x = true)
    (visited : List α) {c : α} (hc : (ys ++ [l]).head? = some c) : ∃ visited' h',
      Xlab.foreachTurns (removeFirst P junk) l (ys.length + 1) c (h.next c) visited h =
        some (.ok (visited', h')) ∧
      Represents h' heads (Function.update q l (some ((xs ++ ys).eraseP P))) := by
  induction ys generalizing xs c visited with
  | nil =>
    obtain rfl : l = c := Option.some.inj hc
    refine ⟨visited, h, if_pos rfl, ?_⟩
    rwa [List.append_nil, List.eraseP_of_forall_not hxs, ← List.append_nil xs, ← hl,
      Function.update_eq_self]
  | cons y ys ih =>
    obtain rfl : y = c := Option.some.inj hc
    have hcircle := hr.circle l _ hl
    have hyl : y ≠ l := ne_of_mem_of_not_mem (by simp) hcircle.not_mem
    obtain ⟨d, hnext, hd⟩ := hr.exists_next hl
    rw [List.length_cons, Xlab.foreachTurns, if_neg hyl]
    by_cases hp : P y = true
    · have hmem : y ∈ xs ++ y :: ys := List.mem_append_right xs List.mem_cons_self
      obtain ⟨h', hrun, hr'⟩ := hr.listDel hl hmem
      have hfree := hr.unlisted_of_erase hl hmem hr'
      refine ⟨visited ++ [y], _, ?_, eraseP_eq_erase hxs hp ▸ hr'.reuse hfree (junk y)⟩
      rw [removeFirst, if_pos hp, hrun]
      rfl
    · have hsplit : xs ++ y :: ys = xs ++ [y] ++ ys := by
        rw [List.append_assoc, List.singleton_append]
      have hxs' : ∀ x ∈ xs ++ [y], ¬P x = true := fun x hx =>
        (List.mem_append.1 hx).elim (hxs x) fun he => List.mem_singleton.1 he ▸ hp
      rw [removeFirst, if_neg hp, hsplit]
      simp only [hnext]
      exact ih _ (hsplit ▸ hl) hxs' (visited ++ [y]) hd

theorem removeFirst (P : α → Bool) (junk : α → ListLinks α) (hr : Represents h heads q)
    (hl : q l = some xs) : ∃ fuel visited h',
      Xlab.foreachSafe (Xlab.removeFirst P junk) l fuel h = some (.ok (visited, h')) ∧
      Represents h' heads (Function.update q l (some (xs.eraseP P))) := by
  have hnext := (hr.circle l xs hl).next_eq
  obtain ⟨c, -, hc⟩ := (hr.circle l xs hl).exists_next List.mem_cons_self
  obtain ⟨visited, h', hrun, hr'⟩ := removeTurns P [] junk hr hl (List.forall_mem_nil _) []
    (hnext.symm.trans hc.1)
  refine ⟨xs.length + 1, visited, h', ?_, hr'⟩
  rw [Xlab.foreachSafe]
  simp only [hc.1]
  exact hrun

/-- A record that is moved goes from one sequence to the end of the other. -/
theorem listMove (hr : Represents h heads q) (hl : q l = some xs) (hn : n ∈ xs)
    (hm : q m = some ys) (hlm : l ≠ m) : ∃ h', Xlab.listMove n m h = .ok h' ∧ Represents h' heads
      (Function.update (Function.update q l (some (xs.erase n))) m (some (ys ++ [n]))) := by
  obtain ⟨h₁, hdel, hr₁⟩ := hr.listDel hl hn
  have hm₁ : Function.update q l (some (xs.erase n)) m = some ys := by
    rw [Function.update_of_ne hlm.symm, hm]
  obtain ⟨h', hadd, hr'⟩ := hr₁.listAdd hm₁ (hr.unlisted_of_erase hl hn hr₁)
  refine ⟨h', ?_, hr'⟩
  rw [Xlab.listMove, hdel]
  exact hadd

end Represents

/-! ## The scheduler -/

section Scheduler

variable {h : Heap α} {heads : List α} {q : Queues α} {w : Worker} {addr : ℕ → α} {av busy : α}
  {fd : ℤ}

/-- The lists of the worker are those of the model, with their records at `addr`. -/
structure Worker.Linked (w : Worker) (addr : ℕ → α) (av busy : α) (q : Queues α) : Prop where
  ne : av ≠ busy
  available : q av = some (w.avQueue.map fun c => addr c.node)
  busy : q busy = some (w.busyQueue.map fun c => addr c.node)

/-- A registration does on the links what it does in the model. -/
theorem schedRegisterLinks_eq_ok (hr : Represents h heads q) (hw : w.Linked addr av busy q)
    (hfree : w.avQueue ≠ []) : ∃ h' q', schedRegisterLinks av busy h = .ok h' ∧
      Represents h' heads q' ∧ (schedRegisterClient fd w).Linked addr av busy q' := by
  obtain ⟨c, cs, hav⟩ := List.exists_cons_of_ne_nil hfree
  have havq : q av = some (addr c.node :: cs.map fun c => addr c.node) := by
    rw [hw.available, hav, List.map_cons]
  have hnext : h.next av = some (addr c.node) := (hr.circle av _ havq).next_eq
  obtain ⟨h', hrun, hr'⟩ := hr.listMove havq List.mem_cons_self hw.busy hw.ne
  refine ⟨h', _, ?_, hr', hw.ne, ?_, ?_⟩
  · rw [schedRegisterLinks]
    simp only [hnext]
    exact hrun
  · rw [Function.update_of_ne hw.ne, Function.update_self, List.erase_cons_head,
      schedRegisterClient, hav]
  · rw [Function.update_self, schedRegisterClient, hav]
    simp

/-- A removal does on the links what it does in the model. -/
theorem schedRemoveLinks_eq_ok {P : α → Bool} (hr : Represents h heads q)
    (hw : w.Linked addr av busy q)
    (hP : ∀ c ∈ w.busyQueue, P (addr c.node) = (c.socket == fd)) :
    ∃ fuel h' q', schedRemoveLinks P av busy fuel h = some (.ok h') ∧
      Represents h' heads q' ∧ (schedRemoveClient fd w).Linked addr av busy q' := by
  obtain ⟨fuel, hfind⟩ := hr.listFind P hw.busy
  have hget : (w.busyQueue.map fun c => addr c.node).find? P =
      (schedGetConnection w fd).map fun c => addr c.node := by
    rw [List.find?_map, schedGetConnection]
    exact congrArg _ (List.find?_congr hP)
  cases hc : schedGetConnection w fd with
  | none =>
    rw [hc, Option.map_none] at hget
    refine ⟨fuel, h, q, ?_, hr, ?_⟩
    · rw [schedRemoveLinks, hfind, hget]
    · rwa [schedRemoveClient, hc]
  | some c =>
    rw [hc, Option.map_some] at hget
    have hmem := List.mem_of_find?_eq_some hget
    have herase := eraseP_of_find? hget
    rw [List.eraseP_map] at herase
    obtain ⟨h', hrun, hr'⟩ := hr.listMove hw.busy hmem hw.available hw.ne.symm
    refine ⟨fuel, h', _, ?_, hr', hw.ne, ?_, ?_⟩
    · rw [schedRemoveLinks, hfind, hget]
      exact congrArg some hrun
    · rw [Function.update_self, schedRemoveClient, hc]
      simp
    · rw [Function.update_of_ne hw.ne.symm, Function.update_self, ← herase, schedRemoveClient, hc]
      have hkept : w.busyQueue.eraseP (P ∘ fun c => addr c.node) =
          w.busyQueue.eraseP fun c => c.socket == fd := eraseP_congr hP
      rw [hkept]

end Scheduler

/-! ## The sessions -/

/-- The sessions in the list of worker `w`. -/
def Gateway.sessionsOf {W : Type} (g : Gateway W) (w : ℕ) : List Session :=
  g.sessions.filter fun cs => cs.ident.owner == w

theorem sessions_sessionRemove {W : Type} (g : Gateway W) (w : ℕ) (fd : ℤ) :
    (g.sessionRemove w fd).sessions =
      g.sessions.eraseP fun cs => SessionIdent.isAt w fd cs.ident := by
  rw [Gateway.sessionRemove]
  cases hget : g.sessionGet w fd with
  | none => exact (List.eraseP_of_forall_not (List.find?_eq_none.1 hget)).symm
  | some cs => rfl

/-- `xlab_session_remove` does on the links what it does in the model. -/
theorem sessionRemove_links {W : Type} {g : Gateway W} {w : ℕ} {fd : ℤ} {h : Heap α}
    {heads : List α} {q : Queues α} {l : α} {addr : Session → α} {P : α → Bool}
    (junk : α → ListLinks α) (hr : Represents h heads q)
    (hl : q l = some ((g.sessionsOf w).map addr))
    (hP : ∀ cs ∈ g.sessionsOf w, P (addr cs) = (cs.ident.socket == fd)) :
    ∃ fuel visited h', foreachSafe (removeFirst P junk) l fuel h = some (.ok (visited, h')) ∧
      Represents h' heads
        (Function.update q l (some (((g.sessionRemove w fd).sessionsOf w).map addr))) := by
  obtain ⟨fuel, visited, h', hrun, hr'⟩ := hr.removeFirst P junk hl
  refine ⟨fuel, visited, h', hrun, ?_⟩
  have hkept : ((g.sessionsOf w).map addr).eraseP P =
      ((g.sessionRemove w fd).sessionsOf w).map addr := by
    rw [List.eraseP_map, Gateway.sessionsOf, Gateway.sessionsOf, sessions_sessionRemove]
    exact congrArg _ ((eraseP_congr hP).trans (eraseP_filter g.sessions))
  exact hkept ▸ hr'

end Xlab
