import Xlab.Circle
import Xlab.ConfigFile

/-!
# Linked lists

The lists of the server are circles of links inside the records they hold. A head is a record of
links alone, and a list is empty when its head links to itself. `xlab_list_add` puts a record
before the head, which is the end of the list, and `xlab_list_del` takes a record out of
whatever list it is in, without being told which.

`Queues` is what the lists are for : a sequence for every head. `lists_represented` : after any
run of the operations the links form one circle for each head, no two circles have a record in
common, every operation does on the links what it does on the sequences, and a loop over a list
that removes each record visits them all in order.
-/

open Circle

namespace Xlab

variable {α : Type*}

/-! ## The operations on the links -/

/-- `struct xlab_list`. -/
structure ListLinks (α : Type*) where
  prev : Option α
  next : Option α
  deriving DecidableEq, Repr

/-- The links at every address. -/
abbrev Heap (α : Type*) := α → ListLinks α

/-- `a->next`. -/
def Heap.next (h : Heap α) (a : α) : Option α :=
  (h a).next

/-- `a->prev`. -/
def Heap.prev (h : Heap α) (a : α) : Option α :=
  (h a).prev

section Operations

variable [DecidableEq α]

/-- `p->next = q`. -/
def Heap.setNext (p q : Option α) (h : Heap α) : Except Fault (Heap α) :=
  match p with
  | none => .error .nullPointer
  | some a => .ok (Function.update h a { h a with next := q })

/-- `p->prev = q`. -/
def Heap.setPrev (p q : Option α) (h : Heap α) : Except Fault (Heap α) :=
  match p with
  | none => .error .nullPointer
  | some a => .ok (Function.update h a { h a with prev := q })

/-- `xlab_list_init`. -/
def listInit (list : α) (h : Heap α) : Except Fault (Heap α) := do
  let h ← h.setNext (some list) (some list)
  h.setPrev (some list) (some list)

/-- `__xlab_list_add`. -/
def listAddBetween (new prev next : Option α) (h : Heap α) : Except Fault (Heap α) := do
  let h ← h.setPrev next new
  let h ← h.setNext new next
  let h ← h.setPrev new prev
  h.setNext prev new

/-- `xlab_list_add`. -/
def listAdd (new head : α) (h : Heap α) : Except Fault (Heap α) :=
  listAddBetween (some new) (h.prev head) (some head) h

/-- `__xlab_list_del`. -/
def listDelBetween (prev next : Option α) (h : Heap α) : Except Fault (Heap α) := do
  let h ← h.setNext prev next
  h.setPrev next prev

/-- `xlab_list_del`. -/
def listDel (entry : α) (h : Heap α) : Except Fault (Heap α) := do
  let h ← listDelBetween (h.prev entry) (h.next entry) h
  let h ← h.setPrev (some entry) none
  h.setNext (some entry) none

end Operations

/-- How the body of a loop ends. -/
inductive Flow where
  | goOn
  | leave

/-- The turns of `xlab_list_foreach_safe(curr, n, head)`, and the records they visit. A body that
ends in a `break` ends in `leave`. -/
def foreachTurns (body : α → Heap α → Except Fault (Heap α × Flow)) [DecidableEq α] (head : α) :
    ℕ → α → Option α → List α → Heap α → Option (Except Fault (List α × Heap α))
  | 0, _, _, _, _ => none
  | fuel + 1, curr, n, visited, h =>
    if curr = head then some (.ok (visited, h))
    else
      match body curr h with
      | .error f => some (.error f)
      | .ok (h, .leave) => some (.ok (visited ++ [curr], h))
      | .ok (h, .goOn) =>
        match n with
        | none => some (.error .nullPointer)
        | some c => foreachTurns body head fuel c (h.next c) (visited ++ [curr]) h

/-- `xlab_list_foreach_safe`, `none` where the turns do not suffice. -/
def foreachSafe [DecidableEq α] (body : α → Heap α → Except Fault (Heap α × Flow)) (head : α)
    (fuel : ℕ) (h : Heap α) : Option (Except Fault (List α × Heap α)) :=
  match h.next head with
  | none => some (.error .nullPointer)
  | some c => foreachTurns body head fuel c (h.next c) [] h

/-- A body that removes the record and frees its memory, which may hold anything afterwards. -/
def removeBody [DecidableEq α] (junk : α → ListLinks α) (curr : α) (h : Heap α) :
    Except Fault (Heap α × Flow) := do
  let h ← listDel curr h
  return (Function.update h curr (junk curr), .goOn)

/-! ## What the lists are for -/

/-- The sequence of every head. -/
abbrev Queues (α : Type*) := α → Option (List α)

/-- An operation on the lists. -/
inductive ListOp (α : Type*) where
  | init (list : α)
  | add (new head : α)
  | del (entry : α)

section Runs

variable [DecidableEq α]

/-- The operation on the links. -/
def ListOp.run : ListOp α → Heap α → Except Fault (Heap α)
  | .init list => listInit list
  | .add new head => listAdd new head
  | .del entry => listDel entry

/-- The operation on the sequences. -/
def Queues.step (q : Queues α) : ListOp α → Queues α
  | .init list => Function.update q list (some [])
  | .add new head => Function.update q head ((q head).map (· ++ [new]))
  | .del entry => fun l => (q l).map (·.erase entry)

end Runs

/-- The heads after the operation. -/
def ListOp.heads : ListOp α → List α → List α
  | .init list, heads => list :: heads
  | _, heads => heads

/-- The record is not a head, and in none of the lists. -/
def Unlisted (h : Heap α) (heads : List α) (a : α) : Prop :=
  a ∉ heads ∧ ∀ l ∈ heads, ¬On h.next l a

/-- A head is new, a record that is added is in no list, and one that is removed is in some
list. -/
def ListOp.Allowed (h : Heap α) (heads : List α) : ListOp α → Prop
  | .init list => Unlisted h heads list
  | .add new head => head ∈ heads ∧ Unlisted h heads new
  | .del entry => entry ∉ heads ∧ ∃ l ∈ heads, On h.next l entry

/-- The links and heads after some operations. The memory of a record outside the lists may be
used for anything in between. -/
inductive Reachable [DecidableEq α] : Heap α → List α → Prop
  | start (h : Heap α) : Reachable h []
  | step {h h' : Heap α} {heads : List α} {op : ListOp α} (hr : Reachable h heads)
    (hop : op.Allowed h heads) (hrun : op.run h = .ok h') : Reachable h' (op.heads heads)
  | reuse {h : Heap α} {heads : List α} {a : α} (hr : Reachable h heads)
    (ha : Unlisted h heads a) (links : ListLinks α) : Reachable (Function.update h a links) heads

/-- The links of each head form the circle of its sequence, and no record is in two of them. -/
structure Represents (h : Heap α) (heads : List α) (q : Queues α) : Prop where
  heads : ∀ l, l ∈ heads ↔ q l ≠ none
  circle : ∀ l xs, q l = some xs → IsCircle h.next h.prev l xs
  disjoint : ∀ l xs, q l = some xs → ∀ m ys, q m = some ys → l ≠ m → (l :: xs).Disjoint (m :: ys)

/-! ### What the operations write -/

section Writes

variable [DecidableEq α] {h : Heap α} {l n p q : α}

theorem listInit_eq (l : α) (h : Heap α) :
    listInit l h = .ok (Function.update h l ⟨some l, some l⟩) := by
  simp only [listInit, Heap.setNext, Heap.setPrev, bind, Except.bind, Function.update_self,
    Function.update_idem]

/-- The four links of an addition. -/
theorem listAdd_eq_ok (hp : h.prev l = some p) : ∃ h', listAdd n l h = .ok h' ∧
    (∀ a, h'.next a = if a = p then some n else if a = n then some l else h.next a) ∧
      ∀ a, h'.prev a = if a = n then some p else if a = l then some n else h.prev a := by
  refine ⟨_, by rw [listAdd, hp]; rfl, fun a => ?_, fun a => ?_⟩
  · simp only [Heap.next, Function.update_apply]
    split_ifs <;> simp_all
  · simp only [Heap.prev, Function.update_apply]
    split_ifs <;> simp_all

/-- The two links of a removal, and the two links of the record. -/
theorem listDel_eq_ok (hp : h.prev n = some p) (hq : h.next n = some q) :
    ∃ h', listDel n h = .ok h' ∧
      (∀ a, h'.next a = if a = n then none else if a = p then some q else h.next a) ∧
        ∀ a, h'.prev a = if a = n then none else if a = q then some p else h.prev a := by
  refine ⟨_, by rw [listDel, listDelBetween, hp, hq]; rfl, fun a => ?_, fun a => ?_⟩
  · simp only [Heap.next, Function.update_apply]
    split_ifs <;> simp_all
  · simp only [Heap.prev, Function.update_apply]
    split_ifs <;> simp_all

end Writes

/-! ### What they do to the sequences -/

namespace Represents

variable {h h' : Heap α} {heads : List α} {q : Queues α} {l a n : α} {xs ys : List α}

theorem exists_seq (hr : Represents h heads q) (hl : l ∈ heads) : ∃ xs, q l = some xs :=
  Option.ne_none_iff_exists'.1 ((hr.heads l).1 hl)

theorem mem_heads (hr : Represents h heads q) (hl : q l = some xs) : l ∈ heads :=
  (hr.heads l).2 (Option.ne_none_iff_exists'.2 ⟨xs, hl⟩)

/-- The sequences are those of the links. -/
theorem unique {q' : Queues α} (hr : Represents h heads q) (hr' : Represents h heads q') :
    q = q' := by
  funext l
  by_cases hl : l ∈ heads
  · obtain ⟨xs, hx⟩ := hr.exists_seq hl
    obtain ⟨ys, hy⟩ := hr'.exists_seq hl
    rw [hx, hy, (hr.circle l xs hx).unique (hr'.circle l ys hy)]
  · rw [not_not.1 (mt (hr.heads l).2 hl), not_not.1 (mt (hr'.heads l).2 hl)]

theorem unlisted_iff (hr : Represents h heads q) :
    Unlisted h heads a ↔ ∀ l xs, q l = some xs → a ∉ l :: xs := by
  constructor
  · rintro ⟨hhead, hon⟩ l xs hl hmem
    rcases List.mem_cons.1 hmem with rfl | hx
    · exact hhead (hr.mem_heads hl)
    · exact hon l (hr.mem_heads hl) ((hr.circle l xs hl).mem_iff.1 hx)
  · intro hno
    refine ⟨fun ha => ?_, fun l hl hon => ?_⟩
    · obtain ⟨xs, hx⟩ := hr.exists_seq ha
      exact hno a xs hx List.mem_cons_self
    · obtain ⟨xs, hx⟩ := hr.exists_seq hl
      exact hno l xs hx (List.mem_cons_of_mem l ((hr.circle l xs hx).mem_iff.2 hon))

/-- What is in none of the sequences is in none of the lists. -/
theorem unlisted (hr : Represents h heads q) (ha : ∀ l ∈ heads, a ∉ l :: (q l).getD []) :
    Unlisted h heads a := by
  refine hr.unlisted_iff.2 fun l xs hl => ?_
  have hno := ha l (hr.mem_heads hl)
  rwa [hl, Option.getD_some] at hno

theorem listed (hr : Represents h heads q) (ha : ∃ l ∈ heads, a ∈ (q l).getD []) :
    ∃ l ∈ heads, On h.next l a := by
  obtain ⟨l, hl, hmem⟩ := ha
  obtain ⟨xs, hxs⟩ := hr.exists_seq hl
  rw [hxs, Option.getD_some] at hmem
  exact ⟨l, hl, (hr.circle l xs hxs).mem_iff.1 hmem⟩

/-- What holds of a new sequence and of the others. -/
theorem forall_update [DecidableEq α] {P : α → List α → Prop} (hl : P l ys)
    (h : ∀ m zs, m ≠ l → q m = some zs → P m zs) :
    ∀ m zs, Function.update q l (some ys) m = some zs → P m zs := by
  intro m zs hm
  by_cases hml : m = l
  · subst hml
    rw [Function.update_self] at hm
    exact Option.some.inj hm ▸ hl
  · rw [Function.update_of_ne hml] at hm
    exact h m zs hml hm

/-- A new sequence that has no record in common with the others. -/
theorem disjoint_update [DecidableEq α] (hr : Represents h heads q)
    (hl : ∀ m zs, m ≠ l → q m = some zs → (l :: ys).Disjoint (m :: zs)) :
    ∀ m zs, Function.update q l (some ys) m = some zs →
      ∀ m' zs', Function.update q l (some ys) m' = some zs' → m ≠ m' →
        (m :: zs).Disjoint (m' :: zs') := by
  refine forall_update (forall_update (fun hne => absurd rfl hne) fun m' zs' hml' hm' _ =>
    hl m' zs' hml' hm') fun m zs hml hm => ?_
  exact forall_update (fun _ => List.disjoint_symm (hl m zs hml hm))
    fun m' zs' _ hm' => hr.disjoint m zs hm m' zs' hm'

/-- One circle is changed, and the others are left as they are. -/
theorem replace [DecidableEq α] (hr : Represents h heads q) (hl : q l = some xs)
    (hcircle : IsCircle h'.next h'.prev l ys)
    (hframe : ∀ m zs, q m = some zs → m ≠ l → ∀ a ∈ m :: zs,
      h'.next a = h.next a ∧ h'.prev a = h.prev a)
    (hnew : ∀ a ∈ ys, a ∉ xs → ∀ m zs, q m = some zs → a ∉ m :: zs) :
    Represents h' heads (Function.update q l (some ys)) := by
  refine ⟨fun m => ?_, forall_update hcircle fun m zs hml hm =>
    (hr.circle m zs hm).congr (hframe m zs hm hml), hr.disjoint_update fun m zs hml hm => ?_⟩
  · by_cases hml : m = l
    · subst hml
      rw [Function.update_self]
      exact iff_of_true (hr.mem_heads hl) (Option.some_ne_none _)
    · rw [Function.update_of_ne hml]
      exact hr.heads m
  · intro a ha hmem
    by_cases hax : a ∈ l :: xs
    · exact hr.disjoint l xs hl m zs hm hml.symm hax hmem
    · rw [List.mem_cons, not_or] at hax
      exact hnew a ((List.mem_cons.1 ha).resolve_left hax.1) hax.2 m zs hm hmem

/-- The order of the heads does not matter. -/
theorem congr_heads {heads' : List α} (hr : Represents h heads q)
    (hheads : ∀ l, l ∈ heads' ↔ l ∈ heads) : Represents h heads' q :=
  ⟨fun l => (hheads l).trans (hr.heads l), hr.circle, hr.disjoint⟩

/-- A list that is given up. -/
theorem forget [DecidableEq α] {heads' : List α} (hr : Represents h heads q)
    (hheads : ∀ m, m ∈ heads' ↔ m ∈ heads ∧ m ≠ l) :
    Represents h heads' (Function.update q l none) := by
  have hsub : ∀ m xs, Function.update q l none m = some xs → q m = some xs := by
    intro m xs hm
    by_cases hml : m = l
    · subst hml
      rw [Function.update_self] at hm
      cases hm
    · rwa [Function.update_of_ne hml] at hm
  refine ⟨fun m => ?_, fun m xs hm => hr.circle m xs (hsub m xs hm), fun m xs hm m' ys hm' =>
    hr.disjoint m xs (hsub m xs hm) m' ys (hsub m' ys hm')⟩
  rw [hheads, hr.heads]
  by_cases hml : m = l
  · subst hml
    simp
  · simp [hml]

/-- Memory outside the lists does not matter. -/
theorem reuse [DecidableEq α] (hr : Represents h heads q) (ha : Unlisted h heads a)
    (links : ListLinks α) : Represents (Function.update h a links) heads q := by
  have hno := hr.unlisted_iff.1 ha
  refine ⟨hr.heads, fun l xs hl => (hr.circle l xs hl).congr fun b hb => ?_, hr.disjoint⟩
  have hne : b ≠ a := ne_of_mem_of_not_mem hb (hno l xs hl)
  simp only [Heap.next, Heap.prev, Function.update_of_ne hne, and_self]

/-- A new head has an empty list. -/
theorem listInit [DecidableEq α] (hr : Represents h heads q) (ha : Unlisted h heads l) :
    ∃ h', Xlab.listInit l h = .ok h' ∧
      Represents h' (l :: heads) (Function.update q l (some [])) := by
  have hno := hr.unlisted_iff.1 ha
  refine ⟨_, listInit_eq l h, fun m => ?_, forall_update ?_ fun m ys hml hm => ?_,
    hr.disjoint_update fun m ys _ hm => List.singleton_disjoint.2 (hno m ys hm)⟩
  · by_cases hml : m = l
    · subst hml
      simp
    · rw [Function.update_of_ne hml, List.mem_cons, or_iff_right hml]
      exact hr.heads m
  · exact isCircle_nil (by simp [Heap.next]) (by simp [Heap.prev])
  · refine (hr.circle m ys hm).congr fun b hb => ?_
    have hbl : b ≠ l := ne_of_mem_of_not_mem hb (hno m ys hm)
    simp only [Heap.next, Heap.prev, Function.update_of_ne hbl, and_self]

/-- A record is added to the end of the list. -/
theorem listAdd [DecidableEq α] (hr : Represents h heads q) (hl : q l = some xs)
    (hn : Unlisted h heads n) : ∃ h', Xlab.listAdd n l h = .ok h' ∧
      Represents h' heads (Function.update q l (some (xs ++ [n]))) := by
  have hno := hr.unlisted_iff.1 hn
  have hcircle := hr.circle l xs hl
  have hnl : n ≠ l := fun he => hno l xs hl (he ▸ List.mem_cons_self)
  obtain ⟨p, hpmem, -, hp⟩ := hcircle.exists_prev List.mem_cons_self
  have hnp : n ≠ p := fun he => hno l xs hl (he ▸ hpmem)
  obtain ⟨h', hrun, hnext, hprev⟩ := listAdd_eq_ok (n := n) hp
  refine ⟨h', hrun, hr.replace hl ?_ (fun m zs hm hml a ha => ?_) fun a ha hax => ?_⟩
  · refine hcircle.snoc (hno l xs hl) hp ?_ ?_ ?_ ?_ (fun a hap han => ?_) fun a hal han => ?_
    · rw [hnext, if_pos rfl]
    · rw [hnext, if_neg hnp, if_pos rfl]
    · rw [hprev, if_pos rfl]
    · rw [hprev, if_neg hnl.symm, if_pos rfl]
    · rw [hnext, if_neg hap, if_neg han]
    · rw [hprev, if_neg han, if_neg hal]
  · have hdisj := hr.disjoint m zs hm l xs hl hml ha
    have hap : a ≠ p := fun he => hdisj (he ▸ hpmem)
    have hal : a ≠ l := fun he => hdisj (he ▸ List.mem_cons_self)
    have han : a ≠ n := ne_of_mem_of_not_mem ha (hno m zs hm)
    rw [hnext, hprev, if_neg hap, if_neg han, if_neg han, if_neg hal]
    exact ⟨rfl, rfl⟩
  · rw [List.mem_append, or_iff_right hax, List.mem_singleton] at ha
    exact ha ▸ hno

/-- A record is removed from the list it is in. -/
theorem listDel [DecidableEq α] (hr : Represents h heads q) (hl : q l = some xs) (hn : n ∈ xs) :
    ∃ h', Xlab.listDel n h = .ok h' ∧
      Represents h' heads (Function.update q l (some (xs.erase n))) := by
  have hcircle := hr.circle l xs hl
  obtain ⟨p, r, hpn, hnr, ⟨hp, hpne⟩, hrmem, hrne⟩ := hcircle.neighbours hn
  obtain ⟨h', hrun, hnext, hprev⟩ := listDel_eq_ok hpn.2 hnr.1
  refine ⟨h', hrun, hr.replace hl ?_ (fun m zs hm hml a ha => ?_) fun a ha hax => ?_⟩
  · refine hcircle.erase hn hpn.2 hnr.1 ?_ ?_ (fun a hap han => ?_) fun a har han => ?_
    · rw [hnext, if_neg hpne, if_pos rfl]
    · rw [hprev, if_neg hrne, if_pos rfl]
    · rw [hnext, if_neg han, if_neg hap]
    · rw [hprev, if_neg han, if_neg har]
  · have hdisj := hr.disjoint m zs hm l xs hl hml ha
    have hap : a ≠ p := fun he => hdisj (he ▸ hp)
    have har : a ≠ r := fun he => hdisj (he ▸ hrmem)
    have han : a ≠ n := fun he => hdisj (he ▸ List.mem_cons_of_mem l hn)
    rw [hnext, hprev, if_neg han, if_neg hap, if_neg han, if_neg har]
    exact ⟨rfl, rfl⟩
  · exact absurd (List.mem_of_mem_erase ha) hax

/-- The first record is removed. -/
theorem listDel_head [DecidableEq α] (hr : Represents h heads q) (hl : q l = some (n :: xs)) :
    ∃ h', Xlab.listDel n h = .ok h' ∧ Represents h' heads (Function.update q l (some xs)) := by
  obtain ⟨h', hrun, hr'⟩ := hr.listDel hl List.mem_cons_self
  rw [List.erase_cons_head] at hr'
  exact ⟨h', hrun, hr'⟩

/-- A record that is removed is in no list any more. -/
theorem unlisted_of_erase [DecidableEq α] (hr : Represents h heads q) (hl : q l = some xs)
    (hn : n ∈ xs) (hr' : Represents h' heads (Function.update q l (some (xs.erase n)))) :
    Unlisted h' heads n := by
  have hcircle := hr.circle l xs hl
  refine hr'.unlisted_iff.2 (forall_update ?_ fun m zs hml hm => ?_)
  · rw [List.mem_cons, not_or]
    exact ⟨ne_of_mem_of_not_mem hn hcircle.not_mem,
      (List.nodup_cons.1 hcircle.nodup).2.not_mem_erase⟩
  · exact hr.disjoint l xs hl m zs hm hml.symm (List.mem_cons_of_mem l hn)

/-- A removal changes the sequence the record is in, and no other. -/
theorem step_del [DecidableEq α] (hr : Represents h heads q) (hl : q l = some xs) (hn : n ∈ xs) :
    q.step (.del n) = Function.update q l (some (xs.erase n)) := by
  funext m
  show (q m).map (·.erase n) = _
  by_cases hml : m = l
  · subst hml
    rw [Function.update_self, hl, Option.map_some]
  · rw [Function.update_of_ne hml]
    cases hm : q m with
    | none => rfl
    | some zs =>
      have hnz : n ∉ m :: zs := hr.disjoint l xs hl m zs hm (Ne.symm hml)
        (List.mem_cons_of_mem l hn)
      rw [Option.map_some, List.erase_of_not_mem fun hz => hnz (List.mem_cons_of_mem m hz)]

/-- Every operation does on the links what it does on the sequences. -/
theorem step [DecidableEq α] (hr : Represents h heads q) {op : ListOp α}
    (hop : op.Allowed h heads) :
    ∃ h', op.run h = .ok h' ∧ Represents h' (op.heads heads) (q.step op) := by
  cases op with
  | init l => exact hr.listInit hop
  | add n l =>
    obtain ⟨xs, hl⟩ := hr.exists_seq hop.1
    obtain ⟨h', hrun, hr'⟩ := hr.listAdd hl hop.2
    refine ⟨h', hrun, ?_⟩
    rw [Queues.step, hl]
    exact hr'
  | del n =>
    obtain ⟨-, l, hlmem, hon⟩ := hop
    obtain ⟨xs, hl⟩ := hr.exists_seq hlmem
    have hn : n ∈ xs := (hr.circle l xs hl).mem_iff.2 hon
    obtain ⟨h', hrun, hr'⟩ := hr.listDel hl hn
    exact ⟨h', hrun, hr.step_del hl hn ▸ hr'⟩

/-- A body that removes its record leaves the rest of the list for the turns to come. -/
theorem removeBody [DecidableEq α] (hr : Represents h heads q) (hl : q l = some (a :: xs))
    (junk : α → ListLinks α) : ∃ h', Xlab.removeBody junk a h = .ok (h', .goOn) ∧
      Represents h' heads (Function.update q l (some xs)) := by
  obtain ⟨h', hrun, hr'⟩ := hr.listDel hl List.mem_cons_self
  have hfree := hr.unlisted_of_erase hl List.mem_cons_self hr'
  rw [List.erase_cons_head] at hr'
  refine ⟨_, ?_, hr'.reuse hfree (junk a)⟩
  rw [Xlab.removeBody, hrun]
  rfl

/-- A loop that removes each record visits them all. -/
theorem foreachTurns [DecidableEq α] (junk : α → ListLinks α) (hr : Represents h heads q)
    (hl : q l = some xs) (visited : List α) {c : α} (hc : h.next l = some c) :
    ∃ h', Xlab.foreachTurns (Xlab.removeBody junk) l (xs.length + 1) c (h.next c) visited h =
        some (.ok (visited ++ xs, h')) ∧
      Represents h' heads (Function.update q l (some [])) := by
  induction xs generalizing h q visited c with
  | nil =>
    rw [(hr.circle l [] hl).next_eq] at hc
    obtain rfl : l = c := Option.some.inj hc
    rw [← hl, Function.update_eq_self, Xlab.foreachTurns, if_pos rfl, List.append_nil]
    exact ⟨h, rfl, hr⟩
  | cons x xs ih =>
    have hcircle := hr.circle l (x :: xs) hl
    rw [hcircle.next_eq] at hc
    obtain rfl : x = c := Option.some.inj hc
    have hxl : x ≠ l := ne_of_mem_of_not_mem List.mem_cons_self hcircle.not_mem
    obtain ⟨h₁, hbody, hr₁⟩ := hr.removeBody hl junk
    -- the saved link is the one the head has after the removal
    have hl₁ : Function.update q l (some xs) l = some xs := Function.update_self l _ q
    have hsaved : h.next x = h₁.next l := by
      rw [hcircle.next_middle [], (hr₁.circle l xs hl₁).next_eq]
    obtain ⟨d, hd⟩ : ∃ d, h₁.next l = some d := by
      obtain ⟨d, -, hd⟩ := (hr₁.circle l xs hl₁).exists_next List.mem_cons_self
      exact ⟨d, hd.1⟩
    obtain ⟨h', hrun, hr'⟩ := ih hr₁ hl₁ (visited ++ [x]) hd
    rw [Function.update_idem] at hr'
    refine ⟨h', ?_, hr'⟩
    rw [List.length_cons, Xlab.foreachTurns, if_neg hxl, hbody]
    simp only [hsaved, hd]
    rw [hrun, List.append_assoc, List.singleton_append]

theorem foreachSafe [DecidableEq α] (junk : α → ListLinks α) (hr : Represents h heads q)
    (hl : q l = some xs) :
    ∃ fuel h', Xlab.foreachSafe (Xlab.removeBody junk) l fuel h = some (.ok (xs, h')) ∧
      Represents h' heads (Function.update q l (some [])) := by
  obtain ⟨c, -, hc⟩ := (hr.circle l xs hl).exists_next List.mem_cons_self
  obtain ⟨h', hrun, hr'⟩ := foreachTurns junk hr hl [] hc.1
  refine ⟨xs.length + 1, h', ?_, hr'⟩
  rw [Xlab.foreachSafe]
  simp only [hc.1]
  rw [hrun, List.nil_append]

end Represents

/-! ## Runs -/

theorem represents_empty (h : Heap α) : Represents h [] fun _ => none :=
  ⟨fun _ => iff_of_false List.not_mem_nil fun hne => hne rfl, nofun, nofun⟩

variable [DecidableEq α] {h : Heap α} {heads : List α}

theorem Reachable.represents (hr : Reachable h heads) : ∃ q, Represents h heads q := by
  induction hr with
  | start h => exact ⟨_, represents_empty h⟩
  | step hr hop hrun ih =>
    obtain ⟨q, hq⟩ := ih
    obtain ⟨h', hrun', hq'⟩ := hq.step hop
    obtain rfl := Except.ok.inj (hrun.symm.trans hrun')
    exact ⟨_, hq'⟩
  | reuse hr ha links ih =>
    obtain ⟨q, hq⟩ := ih
    exact ⟨q, hq.reuse ha links⟩

theorem Represents.reach {q : Queues α} (hr : Represents h heads q) (hreach : Reachable h heads)
    (op : ListOp α) (hop : op.Allowed h heads) :
    ∃ h', Represents h' (op.heads heads) (q.step op) ∧ Reachable h' (op.heads heads) := by
  obtain ⟨h', hrun, hr'⟩ := hr.step hop
  exact ⟨h', hr', .step hreach hop hrun⟩

/-- After any operations the links form the circles of one sequence for each head, every further
operation does on them what it does on the sequences, and a loop that removes each record of a
list visits them in order. -/
theorem lists_represented (hr : Reachable h heads) : ∃ q : Queues α, Represents h heads q ∧
    (∀ op : ListOp α, op.Allowed h heads →
      ∃ h', op.run h = .ok h' ∧ Represents h' (op.heads heads) (q.step op)) ∧
    ∀ l xs, q l = some xs → ∀ junk : α → ListLinks α, ∃ fuel h',
      foreachSafe (removeBody junk) l fuel h = some (.ok (xs, h')) ∧
        Represents h' heads (Function.update q l (some [])) := by
  obtain ⟨q, hq⟩ := hr.represents
  exact ⟨q, hq, fun op hop => hq.step hop, fun l xs hl junk => hq.foreachSafe junk hl⟩

/-- Two heads. Of three records of the first list one is deleted, the second list has one, which is
deleted next, and a loop over the first visits the other two. -/
theorem lists_represented_twoHeads : ∃ (h : Heap ℕ) (q : Queues ℕ), Represents h [1, 0] q ∧
    q 0 = some [4, 5] ∧ q 1 = some [3] ∧
      (∃ h', listDel 3 h = .ok h' ∧ Represents h' [1, 0] (q.step (.del 3))) ∧
      ∃ fuel h',
        foreachSafe (removeBody fun _ => ⟨none, none⟩) 0 fuel h = some (.ok ([4, 5], h')) := by
  obtain ⟨h₁, hr, hreach⟩ := (represents_empty fun _ : ℕ => ⟨none, none⟩).reach (.start _)
    (.init 0) ((represents_empty _).unlisted (by decide))
  obtain ⟨h₂, hr, hreach⟩ := hr.reach hreach (.init 1) (hr.unlisted (by decide))
  obtain ⟨h₃, hr, hreach⟩ := hr.reach hreach (.add 2 0)
    ⟨by decide, hr.unlisted (by decide)⟩
  obtain ⟨h₄, hr, hreach⟩ := hr.reach hreach (.add 3 1)
    ⟨by decide, hr.unlisted (by decide)⟩
  obtain ⟨h₅, hr, hreach⟩ := hr.reach hreach (.add 4 0)
    ⟨by decide, hr.unlisted (by decide)⟩
  obtain ⟨h₆, hr, hreach⟩ := hr.reach hreach (.del 2) ⟨by decide, hr.listed (by decide)⟩
  obtain ⟨h₇, hr, hreach⟩ := hr.reach hreach (.add 5 0)
    ⟨by decide, hr.unlisted (by decide)⟩
  obtain ⟨q, hq, hstep, hloop⟩ := lists_represented hreach
  obtain rfl := hq.unique hr
  obtain ⟨fuel, h', hrun, -⟩ := hloop 0 [4, 5] (by decide) fun _ => ⟨none, none⟩
  exact ⟨h₇, _, hq, by decide, by decide,
    hstep (.del 3) ⟨by decide, hq.listed (by decide)⟩, fuel, h', hrun⟩

end Xlab
