import Mathlib.Data.List.Nodup
import Mathlib.Tactic.Common

/-!
# Lists of records with keys

Records kept in a list and found by their keys. `store` puts a record back in the place of
the one with its key. Removing and storing records act on the list of keys in an obvious way
(`map_key_store`, `map_key_remove`).
-/

namespace Registry

variable {α κ : Type*} (key : α → κ)

/-- The records, with `x` in the place of the one with its key. -/
def store [DecidableEq κ] (x : α) (xs : List α) : List α :=
  xs.map fun y => if key y = key x then x else y

/-- The first record whose key passes `p`. -/
def find (p : κ → Bool) (xs : List α) : Option α :=
  xs.find? fun x => p (key x)

/-- The records without the first whose key passes `p`. -/
def remove (p : κ → Bool) (xs : List α) : List α :=
  xs.eraseP fun x => p (key x)

@[simp] theorem map_key_store [DecidableEq κ] (x : α) (xs : List α) :
    (store key x xs).map key = xs.map key := by
  rw [store, List.map_map]
  refine List.map_congr_left fun y _ => ?_
  rw [Function.comp_apply]
  split_ifs with h
  · exact h.symm
  · rfl

theorem map_key_remove (p : κ → Bool) (xs : List α) :
    (remove key p xs).map key = (xs.map key).eraseP p := by
  rw [List.eraseP_map]
  rfl

variable {key}

theorem mem_of_find {p : κ → Bool} {xs : List α} {x : α} (h : find key p xs = some x) : x ∈ xs :=
  List.mem_of_find?_eq_some h

theorem find_key {p : κ → Bool} {xs : List α} {x : α} (h : find key p xs = some x) :
    p (key x) = true :=
  List.find?_some (p := fun x => p (key x)) h

theorem find_eq_none {p : κ → Bool} {xs : List α} :
    find key p xs = none ↔ ∀ x ∈ xs, p (key x) = false := by
  simp [find]

/-- A record that is found is found by its key. -/
theorem find_by_key [DecidableEq κ] {p : κ → Bool} {xs : List α} {x : α}
    (h : find key p xs = some x) : find key (fun k => k == key x) xs = some x := by
  obtain ⟨hp, pre, post, rfl, hpre⟩ := List.find?_eq_some_iff_append.1 h
  refine List.find?_eq_some_iff_append.2 ⟨by simp, pre, post, rfl, fun y hy => ?_⟩
  have hpy := hpre y hy
  simp only [Bool.not_eq_true', beq_eq_false_iff_ne] at hpy ⊢
  rintro hkey
  rw [hkey, hp] at hpy
  cases hpy

/-- A record whose key no other has is found by its key. -/
theorem find_of_nodup [DecidableEq κ] {xs : List α} {x : α} (h : (xs.map key).Nodup)
    (hx : x ∈ xs) : find key (fun k => k == key x) xs = some x := by
  obtain ⟨pre, post, rfl⟩ := List.append_of_mem hx
  refine List.find?_eq_some_iff_append.2 ⟨by simp, pre, post, rfl, fun y hy => ?_⟩
  rw [List.map_append, List.map_cons] at h
  have hne : key y ≠ key x :=
    (List.nodup_append.1 h).2.2 _ (List.mem_map_of_mem hy) _ List.mem_cons_self
  simpa using hne

/-- What is found after a record is stored. -/
theorem find_store [DecidableEq κ] (p : κ → Bool) (x : α) (xs : List α) :
    find key p (store key x xs) =
      (find key p xs).map fun y => if key y = key x then x else y := by
  rw [find, store, List.find?_map]
  have hp : ((fun x => p (key x)) ∘ fun y => if key y = key x then x else y) =
      fun y => p (key y) := by
    funext y
    rw [Function.comp_apply]
    split_ifs with h
    · rw [h]
    · rfl
  rw [hp, find]

/-- Storing a record leaves those with other keys alone. -/
theorem mem_store_of_ne [DecidableEq κ] {x y : α} {xs : List α} (hy : y ∈ xs)
    (h : key y ≠ key x) : y ∈ store key x xs :=
  List.mem_map.2 ⟨y, hy, if_neg h⟩

theorem mem_store_self [DecidableEq κ] {x y : α} {xs : List α} (hy : y ∈ xs)
    (h : key y = key x) : x ∈ store key x xs :=
  List.mem_map.2 ⟨y, hy, if_pos h⟩

theorem eq_of_mem_store [DecidableEq κ] {x y : α} {xs : List α} (hy : y ∈ store key x xs) :
    y = x ∨ y ∈ xs ∧ key y ≠ key x := by
  obtain ⟨z, hz, rfl⟩ := List.mem_map.1 hy
  split_ifs with h
  · exact Or.inl rfl
  · exact Or.inr ⟨hz, h⟩

/-- If storing a record changes nothing, it was there already. -/
theorem eq_of_store_eq_self [DecidableEq κ] {x y : α} {xs : List α} (h : store key x xs = xs)
    (hy : y ∈ xs) (hxy : key y = key x) : y = x := by
  have hmap : xs.map (fun y => if key y = key x then x else y) = xs.map id := by
    rwa [List.map_id]
  have hyx := List.map_inj_left.1 hmap y hy
  rw [if_pos hxy] at hyx
  exact hyx.symm

/-- If at most one key passes `p`, none does once it is removed. -/
theorem eq_false_of_mem_eraseP {p : κ → Bool} {ks : List κ}
    (h : ks.Pairwise fun a b => ¬(p a = true ∧ p b = true)) :
    ∀ k ∈ ks.eraseP p, p k = false := by
  induction ks with
  | nil => simp
  | cons a ks ih =>
    obtain ⟨ha, htail⟩ := List.pairwise_cons.1 h
    by_cases hp : p a = true
    · rw [List.eraseP_cons_of_pos hp]
      intro k hk
      simpa [hp] using ha k hk
    · rw [List.eraseP_cons_of_neg hp]
      intro k hk
      rcases List.mem_cons.1 hk with rfl | hk
      · simpa using hp
      · exact ih htail k hk

end Registry
