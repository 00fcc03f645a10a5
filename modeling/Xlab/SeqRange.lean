import Mathlib.Algebra.GroupWithZero.Nat
import Mathlib.Data.Multiset.Basic
import Mathlib.Data.List.Nodup
import Mathlib.Data.List.Range
import Mathlib.Tactic.Common

/-!
# Ranges of sequence numbers

`from32 s n` lists the `n` sequence numbers from `s` on, counted in 32 bits. It grows at
either end (`from32_succ`, `from32_concat`), and a range that does not wrap around
determines its start (`start_eq_of_perm`).
-/

namespace SeqRange

/-- `s, s + 1, …, s + n − 1`. -/
def from32 (s : UInt32) (n : ℕ) : List UInt32 :=
  (List.range n).map fun k => s + UInt32.ofNat k

@[simp] theorem from32_zero (s : UInt32) : from32 s 0 = [] :=
  rfl

@[simp] theorem length_from32 (s : UInt32) (n : ℕ) : (from32 s n).length = n := by
  simp [from32]

theorem from32_concat (s : UInt32) (n : ℕ) :
    from32 s (n + 1) = from32 s n ++ [s + UInt32.ofNat n] := by
  simp [from32, List.range_succ]

theorem from32_succ (s : UInt32) (n : ℕ) : from32 s (n + 1) = s :: from32 (s + 1) n := by
  have hs : s + UInt32.ofNat 0 = s := UInt32.add_zero s
  rw [from32, List.range_succ_eq_map, List.map_cons, List.map_map, hs, from32]
  refine congrArg _ (List.map_congr_left fun k _ => ?_)
  rw [Function.comp_apply, Nat.succ_eq_add_one, UInt32.ofNat_add, UInt32.add_comm (UInt32.ofNat k),
    ← UInt32.add_assoc]
  rfl

theorem from32_append (s : UInt32) (m n : ℕ) :
    from32 s m ++ from32 (s + UInt32.ofNat m) n = from32 s (m + n) := by
  induction n with
  | zero => simp
  | succ n ih =>
    rw [from32_concat, ← List.append_assoc, ih, ← Nat.add_assoc, from32_concat, UInt32.ofNat_add,
      UInt32.add_assoc]

theorem mem_from32 {s x : UInt32} {n : ℕ} :
    x ∈ from32 s n ↔ ∃ k, k < n ∧ x = s + UInt32.ofNat k := by
  simp only [from32, List.mem_map, List.mem_range, eq_comm]

/-- A range that does not wrap around has no number twice. -/
theorem nodup_from32 (s : UInt32) {n : ℕ} (hn : n ≤ 2 ^ 32) : (from32 s n).Nodup := by
  refine List.Nodup.map_on (fun a ha b hb hab => ?_) List.nodup_range
  have hnat := congrArg UInt32.toNat hab
  have ha' := List.mem_range.1 ha
  have hb' := List.mem_range.1 hb
  have hs := s.toNat_lt
  simp only [UInt32.toNat_add, UInt32.toNat_ofNat'] at hnat
  omega

/-- A non-empty range of fewer than 2³¹ numbers determines its start. -/
theorem start_eq_of_perm {a b : UInt32} {n : ℕ} (hpos : 0 < n) (hn : n < 2 ^ 31)
    (h : (from32 a n).Perm (from32 b n)) : a = b := by
  obtain ⟨m, rfl⟩ : ∃ m, n = m + 1 := ⟨n - 1, by omega⟩
  obtain ⟨i, hi, hai⟩ := mem_from32.1 (h.mem_iff.1 (show a ∈ from32 a (m + 1) by
    rw [from32_succ]; exact List.mem_cons_self))
  obtain ⟨j, hj, hbj⟩ := mem_from32.1 (h.mem_iff.2 (show b ∈ from32 b (m + 1) by
    rw [from32_succ]; exact List.mem_cons_self))
  have ha := congrArg UInt32.toNat hai
  have hb := congrArg UInt32.toNat hbj
  have ha' := a.toNat_lt
  have hb' := b.toNat_lt
  simp only [UInt32.toNat_add, UInt32.toNat_ofNat'] at ha hb
  rw [← UInt32.toNat_inj]
  omega

end SeqRange
