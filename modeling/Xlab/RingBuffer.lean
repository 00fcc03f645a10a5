import Mathlib.Data.List.Range
import Mathlib.Logic.Function.Basic
import Mathlib.Tactic.Common

/-!
# Ring buffers

`N` slots, an index `head` of the oldest entry and an index `tail` one past the newest,
both below `N`. The buffer is empty when they meet, so it holds at most `N − 1` entries.
`contents` lists the entries from oldest to newest. Writing the tail slot and advancing
the tail appends (`contents_push`), advancing the head drops the oldest
(`contents_pop`), rewriting the head slot replaces the oldest (`contents_set_head`).
-/

namespace RingBuffer

variable {α : Type*} {N head tail : ℕ}

/-- The index after `i`. -/
def next (N i : ℕ) : ℕ :=
  (i + 1) % N

/-- The number of entries. -/
def count (N head tail : ℕ) : ℕ :=
  if head ≤ tail then tail - head else tail + N - head

/-- The index `k` places after `head`. -/
def offset (N head k : ℕ) : ℕ :=
  if head + k < N then head + k else head + k - N

/-- The entries, oldest first. -/
def contents (slots : ℕ → α) (N head tail : ℕ) : List α :=
  (List.range (count N head tail)).map fun k => slots (offset N head k)

theorem next_eq {i : ℕ} (hi : i < N) : next N i = if i + 1 < N then i + 1 else 0 := by
  unfold next
  split_ifs with h
  · exact Nat.mod_eq_of_lt h
  · rw [show i + 1 = N by omega, Nat.mod_self]

theorem next_lt (hN : 0 < N) (i : ℕ) : next N i < N :=
  Nat.mod_lt _ hN

@[simp] theorem length_contents (slots : ℕ → α) :
    (contents slots N head tail).length = count N head tail := by
  simp [contents]

theorem contents_eq_nil (slots : ℕ → α) (hh : head < N) :
    contents slots N head tail = [] ↔ head = tail := by
  rw [← List.length_eq_zero_iff, length_contents, count]
  split_ifs <;> omega

theorem count_lt (hh : head < N) (ht : tail < N) : count N head tail < N := by
  unfold count
  split_ifs <;> omega

theorem count_eq_of_full (hh : head < N) (ht : tail < N) :
    next N tail = head ↔ count N head tail = N - 1 := by
  rw [next_eq ht, count]
  split_ifs <;> omega

theorem count_next_tail (hh : head < N) (ht : tail < N) (h : next N tail ≠ head) :
    count N head (next N tail) = count N head tail + 1 := by
  rw [next_eq ht] at h ⊢
  unfold count
  split_ifs at h ⊢ <;> omega

theorem count_next_head (hh : head < N) (ht : tail < N) (h : head ≠ tail) :
    count N head tail = count N (next N head) tail + 1 := by
  rw [next_eq hh]
  unfold count
  split_ifs <;> omega

theorem offset_next_head {k : ℕ} (hh : head < N) (hk : k + 1 < N) :
    offset N (next N head) k = offset N head (k + 1) := by
  rw [next_eq hh]
  unfold offset
  split_ifs <;> omega

theorem offset_count (hh : head < N) (ht : tail < N) :
    offset N head (count N head tail) = tail := by
  unfold offset count
  split_ifs <;> omega

theorem offset_ne_tail {k : ℕ} (hh : head < N) (hk : k < count N head tail) :
    offset N head k ≠ tail := by
  unfold count at hk
  unfold offset
  split_ifs at hk ⊢ <;> omega

/-- Writing a slot outside the buffer leaves the entries as they are. -/
theorem contents_update_tail (slots : ℕ → α) (x : α) (hh : head < N) :
    contents (Function.update slots tail x) N head tail = contents slots N head tail := by
  refine List.map_congr_left fun k hk => ?_
  exact Function.update_of_ne (offset_ne_tail hh (List.mem_range.1 hk)) _ _

/-- Writing the tail slot and advancing the tail appends. -/
theorem contents_push (slots : ℕ → α) (x : α) (hh : head < N) (ht : tail < N)
    (h : next N tail ≠ head) :
    contents (Function.update slots tail x) N head (next N tail) =
      contents slots N head tail ++ [x] := by
  rw [← contents_update_tail slots x hh, contents, contents, count_next_tail hh ht h,
    List.range_succ, List.map_append, List.map_singleton, offset_count hh ht,
    Function.update_self]

/-- The oldest entry is in the head slot, and the rest start one after it. -/
theorem contents_pop (slots : ℕ → α) (hh : head < N) (ht : tail < N) (h : head ≠ tail) :
    contents slots N head tail = slots head :: contents slots N (next N head) tail := by
  have hc := count_next_head hh ht h
  have hlt := count_lt hh ht
  rw [contents, hc, List.range_succ_eq_map, List.map_cons, List.map_map, contents]
  congr 1
  · simp [offset, hh]
  · refine List.map_congr_left fun k hk => ?_
    have := List.mem_range.1 hk
    simp only [Function.comp_apply, Nat.succ_eq_add_one]
    rw [offset_next_head hh (by omega)]

/-- Rewriting the head slot replaces the oldest entry. -/
theorem contents_set_head (slots : ℕ → α) (x : α) (hh : head < N) (ht : tail < N)
    (h : head ≠ tail) :
    contents (Function.update slots head x) N head tail =
      x :: contents slots N (next N head) tail := by
  rw [contents_pop _ hh ht h, Function.update_self]
  congr 1
  refine List.map_congr_left fun k hk => Function.update_of_ne ?_ _ _
  have hk' := List.mem_range.1 hk
  have hc := count_next_head hh ht h
  have hlt := count_lt hh ht
  rw [offset_next_head hh (by omega)]
  unfold offset
  split_ifs <;> omega

end RingBuffer
