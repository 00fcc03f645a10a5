import Xlab.SeqRange
import Mathlib.Data.Option.Basic
import Mathlib.Order.Basic
import Mathlib.Data.List.Sort

/-!
# Taking numbers in one pass

Slots hold numbers, `held i` if slot `i` holds one. A pass visits the slots in order with an
expected number : a slot that holds it is emptied, and the number after it is expected
(`turn`). The numbers taken are the expected one, the next one and so on, but only as far as
they stand in this order in the slots. So a pass leaves the number it ends with in some slot,
unless the numbers without a gap from the first expected one on are `InOrder`
(`complete_iff`).
-/

open SeqRange

namespace OnePass

variable {ι : Type*}

/-- A visit of slot `i`. -/
def turn [DecidableEq ι] (s : UInt32 × (ι → Option UInt32)) (i : ι) :
    UInt32 × (ι → Option UInt32) :=
  if s.2 i = some s.1 then (s.1 + 1, Function.update s.2 i none) else s

/-- A pass over the slots `is`. -/
def pass [DecidableEq ι] (s : UInt32 × (ι → Option UInt32)) (is : List ι) :
    UInt32 × (ι → Option UInt32) :=
  is.foldl turn s

/-- The slots a pass over `is` empties. -/
def taken (held : ι → Option UInt32) : UInt32 → List ι → List ι
  | _, [] => []
  | e, i :: is => if held i = some e then i :: taken held (e + 1) is else taken held e is

/-- As long as the numbers from `e` on are held without a gap, each is held in a later slot
than the one before. -/
def InOrder [LT ι] (e : UInt32) (held : ι → Option UInt32) : Prop :=
  ∀ k i j, (∀ m ≤ k, ∃ s, held s = some (e + UInt32.ofNat m)) →
    held i = some (e + UInt32.ofNat k) → held j = some (e + UInt32.ofNat (k + 1)) → i < j

variable {held : ι → Option UInt32} {e : UInt32} {is : List ι}

/-! ## The slots taken -/

theorem taken_sublist (held : ι → Option UInt32) (e : UInt32) (is : List ι) :
    (taken held e is).Sublist is := by
  induction is generalizing e with
  | nil => exact List.Sublist.refl _
  | cons i is ih =>
    rw [taken]
    split_ifs
    · exact (ih _).cons_cons i
    · exact (ih _).cons i

theorem taken_congr {held' : ι → Option UInt32} (h : ∀ i ∈ is, held' i = held i) :
    taken held' e is = taken held e is := by
  induction is generalizing e with
  | nil => rfl
  | cons i is ih =>
    have ih' := fun e => ih (e := e) fun j hj => h j (List.mem_cons_of_mem _ hj)
    rw [taken, taken, h i List.mem_cons_self, ih', ih']

/-- The numbers taken are the expected one, the next one and so on. -/
theorem map_taken (held : ι → Option UInt32) (e : UInt32) (is : List ι) :
    (taken held e is).map held = (from32 e (taken held e is).length).map some := by
  induction is generalizing e with
  | nil => rfl
  | cons i is ih =>
    rw [taken]
    split_ifs with h
    · rw [List.map_cons, List.length_cons, from32_succ, List.map_cons, h, ih]
    · exact ih e

theorem held_taken {k : ℕ} (hk : k < (taken held e is).length) :
    held (taken held e is)[k] = some (e + UInt32.ofNat k) := by
  have h := congrArg (fun xs : List (Option UInt32) => xs[k]?) (map_taken held e is)
  simpa [hk, from32] using h

/-- A pass takes the expected number off each slot it empties. -/
theorem pass_eq [DecidableEq ι] (his : is.Nodup) : pass (e, held) is =
    (e + UInt32.ofNat (taken held e is).length,
      fun i => if i ∈ taken held e is then none else held i) := by
  induction is generalizing e held with
  | nil => simp [pass, taken]
  | cons i is ih =>
    obtain ⟨hi, hnodup⟩ := List.nodup_cons.1 his
    rw [pass, List.foldl_cons, ← pass, turn, taken]
    by_cases h : held i = some e
    · have hsame : taken (Function.update held i none) (e + 1) is = taken held (e + 1) is :=
        taken_congr fun j hj => Function.update_of_ne (ne_of_mem_of_not_mem hj hi) _ _
      rw [if_pos h, if_pos h, ih hnodup, hsame, List.length_cons, Nat.add_comm, UInt32.ofNat_add,
        ← UInt32.add_assoc]
      refine Prod.ext rfl (funext fun j => ?_)
      by_cases hj : j = i
      · simp [hj]
      · simp [hj]
    · rw [if_neg h, if_neg h]
      exact ih hnodup

/-! ## What a pass leaves -/

/-- A pass leaves the number it ends with only if it was held at the start. -/
theorem left_iff [DecidableEq ι] (his : is.Nodup) (hlen : is.length < 2 ^ 32) :
    (∀ i, (pass (e, held) is).2 i ≠ some (pass (e, held) is).1) ↔
      ∀ i, held i ≠ some (e + UInt32.ofNat (taken held e is).length) := by
  rw [pass_eq his]
  refine forall_congr' fun i => ?_
  dsimp only
  split_ifs with hi
  · refine iff_of_true (by simp) fun h => ?_
    -- a number taken is less than the length away from `e`
    obtain ⟨k, hk, rfl⟩ := List.getElem_of_mem hi
    rw [held_taken hk] at h
    have hle := (taken_sublist held e is).length_le
    have hnat := congrArg UInt32.toNat (Option.some.inj h)
    have he := e.toNat_lt
    simp only [UInt32.toNat_add, UInt32.toNat_ofNat'] at hnat
    omega
  · exact Iff.rfl

variable [LinearOrder ι]

/-- The slot of the number a pass ends with comes before the last slot it emptied. -/
theorem lt_getLast_taken {j : ι} (his : is.Pairwise (· < ·)) (hlen : is.length < 2 ^ 32)
    (hj : j ∈ is) (h : held j = some (e + UInt32.ofNat (taken held e is).length)) :
    ∃ d, (taken held e is).getLast? = some d ∧ j < d := by
  induction is generalizing e with
  | nil => exact absurd hj List.not_mem_nil
  | cons i is ih =>
    obtain ⟨hi, hsorted⟩ := List.pairwise_cons.1 his
    rw [List.length_cons] at hlen
    rw [taken] at h ⊢
    by_cases htake : held i = some e
    · rw [if_pos htake] at h ⊢
      have hle := (taken_sublist held (e + 1) is).length_le
      have hsplit : e + UInt32.ofNat ((taken held (e + 1) is).length + 1) =
          e + 1 + UInt32.ofNat (taken held (e + 1) is).length := by
        rw [Nat.add_comm, UInt32.ofNat_add, ← UInt32.add_assoc]
        rfl
      rw [List.length_cons] at h
      rcases List.mem_cons.1 hj with rfl | hj
      · rw [htake] at h
        have hnat := congrArg UInt32.toNat (Option.some.inj h)
        have he := e.toNat_lt
        simp only [UInt32.toNat_add, UInt32.toNat_ofNat'] at hnat
        omega
      · rw [hsplit] at h
        obtain ⟨d, hd, hlt⟩ := ih hsorted (by omega) hj h
        exact ⟨d, by simp [List.getLast?_cons, hd], hlt⟩
    · rw [if_neg htake] at h ⊢
      rcases List.mem_cons.1 hj with rfl | hj
      · have hne : taken held e is ≠ [] := by
          intro hnil
          rw [hnil] at h
          exact htake (h.trans (congrArg some (UInt32.add_zero e)))
        refine ⟨_, List.getLast?_eq_some_getLast hne, ?_⟩
        exact hi _ ((taken_sublist held e is).subset (List.getLast_mem hne))
      · exact ih hsorted (by omega) hj h

/-- A pass over all slots leaves no slot with the number it ends with exactly when the numbers
from the expected one on are in order. -/
theorem complete_iff (hinj : ∀ i j n, held i = some n → held j = some n → i = j)
    (his : is.Pairwise (· < ·)) (hall : ∀ i, i ∈ is) (hlen : is.length < 2 ^ 32) :
    (∀ i, (pass (e, held) is).2 i ≠ some (pass (e, held) is).1) ↔ InOrder e held := by
  have hnodup : is.Nodup := his.imp fun h => ne_of_lt h
  rw [left_iff hnodup hlen]
  constructor
  · intro hleft k i j hgap hi hj
    have hk : k + 1 < (taken held e is).length := by
      by_contra hle
      rcases Nat.lt_or_ge k (taken held e is).length with hk | hk
      · have heq : (taken held e is).length = k + 1 := by omega
        exact hleft j (heq ▸ hj)
      · obtain ⟨s, hs⟩ := hgap _ hk
        exact hleft s hs
    have hsorted := his.sublist (taken_sublist held e is)
    rw [hinj i _ _ hi (held_taken (Nat.lt_of_succ_lt hk)), hinj j _ _ hj (held_taken hk)]
    exact List.pairwise_iff_getElem.1 hsorted k (k + 1) _ _ (Nat.lt_succ_self k)
  · intro horder j hj
    obtain ⟨d, hd, hlt⟩ := lt_getLast_taken his hlen (hall j) hj
    rw [List.getLast?_eq_getElem?] at hd
    obtain ⟨hk, hd⟩ := List.getElem?_eq_some_iff.1 hd
    obtain ⟨n, hn⟩ : ∃ n, (taken held e is).length = n + 1 :=
      ⟨_, (Nat.succ_pred_eq_of_pos (Nat.zero_lt_of_lt hk)).symm⟩
    have hgap : ∀ m ≤ n, ∃ s, held s = some (e + UInt32.ofNat m) := fun m hm =>
      ⟨_, held_taken (show m < (taken held e is).length by omega)⟩
    refine absurd hlt (not_lt_of_gt (horder n d j hgap ?_ (hn ▸ hj)))
    rw [← hd, held_taken hk, hn]
    rfl

end OnePass
