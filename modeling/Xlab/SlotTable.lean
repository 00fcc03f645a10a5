import Mathlib.Data.Fintype.Card
import Mathlib.Data.Multiset.Basic
import Mathlib.Tactic.Common

/-!
# Tables of slots

A fixed table `q : Fin N → α` whose slots are occupied or free, by a test `p`.
`live p q` is the multiset of occupied entries. Writing one slot changes it by that
slot's entry only : filling a free slot adds one entry, freeing a slot takes one away,
and rewriting an occupied slot exchanges one.
-/

open Finset

namespace SlotTable

variable {N : ℕ} {α : Type*} (p : α → Bool)

/-- The occupied entries. -/
def live (q : Fin N → α) : Multiset α :=
  (univ.filter fun i => p (q i) = true).val.map q

/-- The first free slot. -/
def firstFree (q : Fin N → α) : Option (Fin N) :=
  (List.finRange N).find? fun i => !p (q i)

variable {p}

theorem mem_live {q : Fin N → α} {a : α} : a ∈ live p q ↔ ∃ i, p (q i) = true ∧ q i = a := by
  simp [live]

theorem card_live_le (q : Fin N → α) : (live p q).card ≤ N := by
  calc (live p q).card = (univ.filter fun i => p (q i) = true).card := Multiset.card_map _ _
    _ ≤ N := (card_le_univ _).trans_eq (Fintype.card_fin N)

theorem live_eq_zero {q : Fin N → α} : live p q = 0 ↔ ∀ i, p (q i) = false := by
  simp [Multiset.eq_zero_iff_forall_notMem, mem_live]

/-- Occupied slots whose entries have different marks are told apart by them. -/
theorem eq_of_nodup_map_live {β : Type*} {f : α → β} {q : Fin N → α}
    (h : ((live p q).map f).Nodup) {i j : Fin N} (hi : p (q i) = true) (hj : p (q j) = true)
    (hij : f (q i) = f (q j)) : i = j := by
  rw [live, Multiset.map_map] at h
  exact Multiset.inj_on_of_nodup_map h i (by simpa using hi) j (by simpa using hj) hij

/-- The entries off slot `i` do not change when slot `i` is written. -/
theorem map_erase_update (q : Fin N → α) (i : Fin N) (a : α) (s : Finset (Fin N)) (hi : i ∉ s) :
    s.val.map (Function.update q i a) = s.val.map q :=
  Multiset.map_congr rfl fun _ hj =>
    Function.update_of_ne (ne_of_mem_of_not_mem (show _ ∈ s from hj) hi) _ _

/-- The occupied slots other than `i`. -/
def others (p : α → Bool) (q : Fin N → α) (i : Fin N) : Finset (Fin N) :=
  (univ.erase i).filter fun j => p (q j) = true

theorem notMem_others (q : Fin N → α) (i : Fin N) : i ∉ others p q i := by
  simp [others]

theorem others_update (q : Fin N → α) (i : Fin N) (a : α) :
    others p (Function.update q i a) i = others p q i := by
  refine filter_congr fun j hj => ?_
  rw [Function.update_of_ne (ne_of_mem_erase hj)]

theorem live_eq_of_live {q : Fin N → α} {i : Fin N} (hi : p (q i) = true) :
    live p q = q i ::ₘ (others p q i).val.map q := by
  have h : univ.filter (fun j => p (q j) = true) =
      (others p q i).cons i (notMem_others q i) := by
    ext j
    by_cases hj : j = i
    · simp [hj, hi]
    · simp [hj, others]
  rw [live, h, cons_val, Multiset.map_cons]

theorem live_eq_of_free {q : Fin N → α} {i : Fin N} (hi : p (q i) = false) :
    live p q = (others p q i).val.map q := by
  have h : univ.filter (fun j => p (q j) = true) = others p q i := by
    ext j
    by_cases hj : j = i
    · simp [hj, hi, others]
    · simp [hj, others]
  rw [live, h]

/-- Filling a free slot adds its entry. -/
theorem live_fill {q : Fin N → α} {i : Fin N} {a : α} (hi : p (q i) = false)
    (ha : p a = true) : live p (Function.update q i a) = a ::ₘ live p q := by
  rw [live_eq_of_live (i := i) (by simpa using ha), live_eq_of_free hi, others_update,
    map_erase_update _ _ _ _ (notMem_others q i), Function.update_self]

/-- Freeing a slot takes its entry away. -/
theorem live_free {q : Fin N → α} {i : Fin N} {a : α} (hi : p (q i) = true)
    (ha : p a = false) : live p q = q i ::ₘ live p (Function.update q i a) := by
  rw [live_eq_of_free (q := Function.update q i a) (i := i) (by simpa using ha),
    live_eq_of_live hi, others_update, map_erase_update _ _ _ _ (notMem_others q i)]

/-- Rewriting an occupied slot exchanges its entry. -/
theorem live_rewrite {q : Fin N → α} {i : Fin N} {a : α} (hi : p (q i) = true)
    (ha : p a = true) : q i ::ₘ live p (Function.update q i a) = a ::ₘ live p q := by
  rw [live_eq_of_live (q := Function.update q i a) (i := i) (by simpa using ha),
    live_eq_of_live hi, others_update, map_erase_update _ _ _ _ (notMem_others q i),
    Function.update_self, Multiset.cons_swap]

/-- Rewriting a slot without changing whether it is occupied or the reading `f` of its
entry changes no reading of the table. -/
theorem map_live_update {β : Type*} (f : α → β) {q : Fin N → α} {i : Fin N} {a : α}
    (hp : p a = p (q i)) (hf : f a = f (q i)) :
    (live p (Function.update q i a)).map f = (live p q).map f := by
  cases hi : p (q i) with
  | false =>
    have hi' : p (Function.update q i a i) = false := by rw [Function.update_self, hp, hi]
    rw [live_eq_of_free hi, live_eq_of_free hi', others_update,
      map_erase_update _ _ _ _ (notMem_others q i)]
  | true =>
    have h := congrArg (Multiset.map f) (live_rewrite hi (hp.trans hi))
    rw [Multiset.map_cons, Multiset.map_cons, hf] at h
    exact (Multiset.cons_inj_right _).1 h

/-- Two tables that agree on the slots occupied in either have the same entries. -/
theorem live_congr {q r : Fin N → α} (h : ∀ i, p (r i) = true ∨ p (q i) = true → r i = q i) :
    live p r = live p q := by
  have hfilter : (univ.filter fun i => p (r i) = true) = univ.filter fun i => p (q i) = true := by
    refine filter_congr fun i _ => ⟨fun hi => ?_, fun hi => ?_⟩
    · rwa [← h i (Or.inl hi)]
    · rwa [h i (Or.inr hi)]
  rw [live, live, hfilter]
  refine Multiset.map_congr rfl fun i hi => h i (Or.inr ?_)
  rw [mem_val] at hi
  exact (mem_filter.1 hi).2

theorem free_of_firstFree {q : Fin N → α} {i : Fin N} (h : firstFree p q = some i) :
    p (q i) = false := by
  simpa using List.find?_some h

end SlotTable
