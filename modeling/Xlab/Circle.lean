import Mathlib.Data.List.Chain
import Mathlib.Data.List.Nodup
import Mathlib.Logic.Relation
import Mathlib.Tactic.Common

/-!
# Circles of links

Cells have a link to the next and a link to the previous one, and either may be null. The cells
`xs` form a circle with the cell `l` if from `l` on each links to the next, the last to `l`, and
all these links are answered.

A cell has at most one circle (`IsCircle.unique`), and what the links reach from `l` is in it
(`IsCircle.mem_iff`). A circle only depends on its own links (`IsCircle.congr`), a cell is put
before `l` by four links (`IsCircle.snoc`), and one is taken out by two (`IsCircle.erase`).
-/

namespace Circle

variable {α : Type*} (next prev : α → Option α)

/-- The link from `a` to `b` is answered. -/
def Joined (a b : α) : Prop :=
  next a = some b ∧ prev b = some a

/-- The cells `xs`, in this order, form a circle with `l`. -/
structure IsCircle (l : α) (xs : List α) : Prop where
  nodup : (l :: xs).Nodup
  chain : (l :: xs ++ [l]).IsChain (Joined next prev)

/-- The cell `x` is not `l`, and is reached from it. -/
def On (l x : α) : Prop :=
  x ≠ l ∧ Relation.TransGen (fun a b => next a = some b) l x

variable {next prev} {next' prev' : α → Option α} {l a b n p q x : α} {xs ys : List α}

theorem isCircle_nil (hnext : next l = some l) (hprev : prev l = some l) :
    IsCircle next prev l [] :=
  ⟨List.nodup_singleton l, List.isChain_pair.2 ⟨hnext, hprev⟩⟩

namespace IsCircle

theorem not_mem (h : IsCircle next prev l xs) : l ∉ xs :=
  (List.nodup_cons.1 h.nodup).1

/-- Every cell is linked to a cell of the circle. -/
theorem exists_next (h : IsCircle next prev l xs) (ha : a ∈ l :: xs) :
    ∃ b ∈ l :: xs, Joined next prev a b := by
  obtain ⟨s, t, hs⟩ := List.append_of_mem ha
  have hchain := h.chain
  rw [hs, List.append_assoc, List.cons_append] at hchain
  cases t with
  | nil =>
    refine ⟨l, List.mem_cons_self, ?_⟩
    exact (List.isChain_append_cons_cons.1 hchain).2.1
  | cons b t =>
    refine ⟨b, ?_, (List.isChain_append_cons_cons.1 hchain).2.1⟩
    rw [hs]
    simp

/-- The circle the other way round. -/
theorem reverse (h : IsCircle next prev l xs) : IsCircle prev next l xs.reverse := by
  refine ⟨?_, ?_⟩
  · rw [List.nodup_cons, List.mem_reverse, List.nodup_reverse]
    exact List.nodup_cons.1 h.nodup
  · have hrev : l :: xs.reverse ++ [l] = (l :: xs ++ [l]).reverse := by simp
    rw [hrev, List.isChain_reverse]
    exact h.chain.imp fun a b hab => ⟨hab.2, hab.1⟩

/-- Every cell is linked from a cell of the circle. -/
theorem exists_prev (h : IsCircle next prev l xs) (hb : b ∈ l :: xs) :
    ∃ a ∈ l :: xs, Joined next prev a b := by
  obtain ⟨a, ha, hab⟩ := h.reverse.exists_next (a := b) (by simpa using hb)
  exact ⟨a, by simpa using ha, hab.2, hab.1⟩

/-- The two neighbours of a cell, and the links before and behind them. -/
theorem around (h : IsCircle next prev l (xs ++ n :: ys)) : ∃ s p q t,
    l :: xs = s ++ [p] ∧ ys ++ [l] = q :: t ∧ Joined next prev p n ∧ Joined next prev n q ∧
      (s ++ [p]).IsChain (Joined next prev) ∧ (q :: t).IsChain (Joined next prev) := by
  obtain ⟨s, p, hs⟩ : ∃ s p, l :: xs = s ++ [p] :=
    ⟨_, _, (List.dropLast_append_getLast (List.cons_ne_nil l xs)).symm⟩
  obtain ⟨q, t, ht⟩ : ∃ q t, ys ++ [l] = q :: t :=
    List.exists_cons_of_ne_nil (List.append_ne_nil_of_right_ne_nil _ (List.cons_ne_nil _ _))
  have hsplit : l :: (xs ++ n :: ys) ++ [l] = s ++ p :: n :: q :: t :=
    calc l :: (xs ++ n :: ys) ++ [l] = (l :: xs) ++ n :: (ys ++ [l]) := by simp
      _ = s ++ p :: n :: q :: t := by rw [hs, ht, List.append_assoc, List.singleton_append]
  have hchain := h.chain
  rw [hsplit, List.isChain_append_cons_cons, List.isChain_cons_cons] at hchain
  exact ⟨s, p, q, t, hs, ht, hchain.2.1, hchain.2.2.1, hchain.1, hchain.2.2.2⟩

/-- The neighbours of a cell other than `l` are two other cells of the circle. -/
theorem neighbours (h : IsCircle next prev l xs) (hn : n ∈ xs) : ∃ p q,
    Joined next prev p n ∧ Joined next prev n q ∧ (p ∈ l :: xs ∧ p ≠ n) ∧ q ∈ l :: xs ∧ q ≠ n := by
  obtain ⟨u, v, rfl⟩ := List.append_of_mem hn
  obtain ⟨s, p, q, t, hs, ht, hpn, hnq, -, -⟩ := h.around
  have hnodup : (l :: u ++ n :: v).Nodup := h.nodup
  have hnot : n ∉ l :: u ++ v := (List.nodup_cons.1 (List.nodup_middle.1 hnodup)).1
  have hp : p ∈ l :: u := by rw [hs]; simp
  have hq : q ∈ v ++ [l] := by rw [ht]; simp
  have hsub : ∀ c ∈ l :: u ++ v, c ∈ l :: (u ++ n :: v) ∧ c ≠ n := fun c hc =>
    ⟨List.mem_append.2 ((List.mem_append.1 hc).imp id (List.mem_cons_of_mem n)),
      ne_of_mem_of_not_mem hc hnot⟩
  refine ⟨p, q, hpn, hnq, hsub p (List.mem_append_left _ hp), hsub q ?_⟩
  rcases List.mem_append.1 hq with hqv | hql
  · exact List.mem_append_right _ hqv
  · exact List.mem_append_left _ (List.mem_singleton.1 hql ▸ List.mem_cons_self)

/-- A cell has one circle. -/
theorem unique (hx : IsCircle next prev l xs) (hy : IsCircle next prev l ys) : xs = ys := by
  -- from any cell on, the links lead the same way until they come to `l`
  have hsame : ∀ (xs ys : List α) (a : α), l ∉ xs → l ∉ ys →
      (a :: xs ++ [l]).IsChain (Joined next prev) →
        (a :: ys ++ [l]).IsChain (Joined next prev) → xs = ys := by
    intro xs
    induction xs with
    | nil =>
      intro ys a _ hly hcx hcy
      cases ys with
      | nil => rfl
      | cons y ys =>
        have hl : next a = some l := (List.isChain_cons_cons.1 hcx).1.1
        have hy : next a = some y := (List.isChain_cons_cons.1 hcy).1.1
        exact absurd (Option.some.inj (hl.symm.trans hy) ▸ List.mem_cons_self) hly
    | cons x xs ih =>
      intro ys a hlx hly hcx hcy
      obtain ⟨hax, hcx⟩ := List.isChain_cons_cons.1 hcx
      cases ys with
      | nil =>
        have hl : next a = some l := (List.isChain_cons_cons.1 hcy).1.1
        exact absurd (Option.some.inj (hl.symm.trans hax.1) ▸ List.mem_cons_self) hlx
      | cons y ys =>
        obtain ⟨hay, hcy⟩ := List.isChain_cons_cons.1 hcy
        obtain rfl := Option.some.inj (hax.1.symm.trans hay.1)
        rw [ih ys x (fun hl => hlx (List.mem_cons_of_mem _ hl))
          (fun hl => hly (List.mem_cons_of_mem _ hl)) hcx hcy]
  exact hsame xs ys l hx.not_mem hy.not_mem hx.chain hy.chain

/-- The link from `l` leads to the first cell, or back. -/
theorem next_eq (h : IsCircle next prev l xs) : next l = (xs ++ [l]).head? := by
  have hchain := h.chain
  cases xs with
  | nil => exact (List.isChain_pair.1 hchain).1
  | cons x xs => exact (List.isChain_cons_cons.1 hchain).1.1

/-- The link from a cell leads to the one behind it, or back. -/
theorem next_middle (xs : List α) (h : IsCircle next prev l (xs ++ n :: ys)) :
    next n = (ys ++ [l]).head? := by
  obtain ⟨-, -, q, t, -, ht, -, hnq, -, -⟩ := h.around
  rw [ht]
  exact hnq.1

/-- The links from `l` lead through the circle. -/
theorem transGen (h : IsCircle next prev l xs) (hx : x ∈ xs) :
    Relation.TransGen (fun a b => next a = some b) l x := by
  have hchain : (l :: (xs ++ [l])).IsChain
      (Relation.TransGen fun a b => next a = some b) :=
    h.chain.imp fun a b hab => Relation.TransGen.single hab.1
  exact List.rel_of_pairwise_cons hchain.pairwise (List.mem_append_left _ hx)

/-- What the links lead to from a cell of the circle is on it. -/
theorem mem_of_next (h : IsCircle next prev l xs) (ha : a ∈ l :: xs) (hab : next a = some b) :
    b ∈ l :: xs := by
  obtain ⟨c, hc, hac⟩ := h.exists_next ha
  exact Option.some.inj (hab.symm.trans hac.1) ▸ hc

/-- What is on the circle is what the links reach. -/
theorem mem_iff (h : IsCircle next prev l xs) : x ∈ xs ↔ On next l x := by
  constructor
  · exact fun hx => ⟨fun hl => h.not_mem (hl ▸ hx), h.transGen hx⟩
  · rintro ⟨hne, hreach⟩
    have hmem : x ∈ l :: xs := by
      clear hne
      induction hreach with
      | single hl => exact h.mem_of_next List.mem_cons_self hl
      | tail _ hc ih => exact h.mem_of_next ih hc
    exact (List.mem_cons.1 hmem).resolve_left hne

/-- A circle depends on its own links only. -/
theorem congr (h : IsCircle next prev l xs)
    (hsame : ∀ a ∈ l :: xs, next' a = next a ∧ prev' a = prev a) :
    IsCircle next' prev' l xs := by
  refine ⟨h.nodup, h.chain.imp_of_mem_imp fun a b ha hb hab => ?_⟩
  have hmem : ∀ c ∈ l :: xs ++ [l], c ∈ l :: xs := by simp [or_comm]
  exact ⟨(hsame a (hmem a ha)).1.trans hab.1, (hsame b (hmem b hb)).2.trans hab.2⟩

/-- A cell is put between `l` and the cell before it. -/
theorem snoc (h : IsCircle next prev l xs) (hn : n ∉ l :: xs) (hp : prev l = some p)
    (hpn : next' p = some n) (hnl : next' n = some l) (hnp : prev' n = some p)
    (hln : prev' l = some n) (hnext : ∀ a, a ≠ p → a ≠ n → next' a = next a)
    (hprev : ∀ a, a ≠ l → a ≠ n → prev' a = prev a) : IsCircle next' prev' l (xs ++ [n]) := by
  obtain ⟨s, q, hs⟩ : ∃ s q, l :: xs = s ++ [q] :=
    ⟨_, _, (List.dropLast_append_getLast (List.cons_ne_nil l xs)).symm⟩
  have hchain := h.chain
  rw [hs, List.append_assoc, List.singleton_append, List.isChain_append_cons_cons] at hchain
  obtain ⟨hfront, hql, -⟩ := hchain
  obtain rfl : q = p := Option.some.inj (hql.2.symm.trans hp)
  refine ⟨?_, ?_⟩
  · rw [← List.cons_append, List.nodup_append_comm]
    exact List.nodup_cons.2 ⟨hn, h.nodup⟩
  · rw [← List.cons_append, hs, List.append_assoc, List.append_assoc, List.singleton_append,
      List.singleton_append, List.isChain_append_cons_cons]
    refine ⟨?_, ⟨hpn, hnp⟩, List.isChain_pair.2 ⟨hnl, hln⟩⟩
    rw [← hs] at hfront ⊢
    refine hfront.imp_of_mem_tail_imp fun a b ha hb hab => ?_
    have hbl : b ≠ l := fun hl => h.not_mem (hl ▸ hb)
    have haq : a ≠ q := fun hq => hbl (Option.some.inj (hab.1.symm.trans (hq ▸ hql.1)))
    exact ⟨(hnext a haq (ne_of_mem_of_not_mem ha hn)).trans hab.1,
      (hprev b hbl (ne_of_mem_of_not_mem (List.mem_of_mem_tail hb) hn)).trans hab.2⟩

/-- A cell is taken out, and its neighbours are joined. -/
theorem erase [DecidableEq α] (h : IsCircle next prev l xs) (hn : n ∈ xs)
    (hp : prev n = some p) (hq : next n = some q) (hpq : next' p = some q)
    (hqp : prev' q = some p) (hnext : ∀ a, a ≠ p → a ≠ n → next' a = next a)
    (hprev : ∀ a, a ≠ q → a ≠ n → prev' a = prev a) : IsCircle next' prev' l (xs.erase n) := by
  obtain ⟨u, v, rfl⟩ := List.append_of_mem hn
  obtain ⟨s, p', q', t, hs, ht, hpn, hnq, hfront, hback⟩ := h.around
  obtain rfl : p' = p := Option.some.inj (hpn.2.symm.trans hp)
  obtain rfl : q' = q := Option.some.inj (hnq.1.symm.trans hq)
  obtain ⟨hnot, hnodup⟩ : n ∉ l :: u ++ v ∧ (l :: u ++ v).Nodup := by
    have hnodup : (l :: u ++ n :: v).Nodup := h.nodup
    exact List.nodup_cons.1 (List.nodup_middle.1 hnodup)
  have hne : ∀ c ∈ l :: u ++ v, c ≠ n := fun c hc => ne_of_mem_of_not_mem hc hnot
  have herase : (u ++ n :: v).erase n = u ++ v := by
    have hnu : n ∉ u := fun hu => hnot (List.mem_append_left _ (List.mem_cons_of_mem l hu))
    rw [List.erase_append_right _ hnu, List.erase_cons_head]
  -- the links that stay neither start at the cell before nor end at the one behind
  have hkept : ∀ a b, a ≠ n → b ≠ n → Joined next prev a b → Joined next' prev' a b := by
    intro a b ha hb hab
    have hap : a ≠ p' := fun he => hb (Option.some.inj (hab.1.symm.trans (he ▸ hpn.1)))
    have hbq : b ≠ q' := fun he => ha (Option.some.inj (hab.2.symm.trans (he ▸ hnq.2)))
    exact ⟨(hnext a hap ha).trans hab.1, (hprev b hbq hb).trans hab.2⟩
  have hsplit : l :: (u ++ v) ++ [l] = s ++ p' :: q' :: t :=
    calc l :: (u ++ v) ++ [l] = (l :: u) ++ (v ++ [l]) := by simp
      _ = s ++ p' :: q' :: t := by rw [hs, ht, List.append_assoc, List.singleton_append]
  rw [herase]
  refine ⟨hnodup, ?_⟩
  rw [hsplit, List.isChain_append_cons_cons, ← hs, ← ht]
  rw [← hs] at hfront
  rw [← ht] at hback
  refine ⟨hfront.imp_of_mem_imp fun a b ha hb => hkept a b (hne a (List.mem_append_left _ ha))
    (hne b (List.mem_append_left _ hb)), ⟨hpq, hqp⟩, ?_⟩
  have hmem : ∀ c ∈ v ++ [l], c ∈ l :: u ++ v := by
    intro c hc
    simp only [List.mem_append, List.mem_singleton] at hc
    rcases hc with hc | rfl
    · exact List.mem_append_right _ hc
    · exact List.mem_append_left _ List.mem_cons_self
  exact hback.imp_of_mem_imp fun a b ha hb => hkept a b (hne a (hmem a ha)) (hne b (hmem b hb))

end IsCircle

end Circle
