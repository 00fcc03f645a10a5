import Mathlib.Data.List.Forall2
import Mathlib.Order.Bounds.Basic
import Mathlib.Tactic.Common

/-!
# Occurrences of a word

A word occurs in a text at a position if it is the same as the text there, letter by letter, for
some notion `R` of sameness. `First P r` says what a search returns that looks for the least
number with `P`.
-/

namespace Occurrence

variable {α β : Type*} {R : α → β → Prop} {word : List α} {text : List β} {P Q : ℕ → Prop}
  {p : ℕ} {r s : ℤ}

/-- The word occurs at the position `p`. -/
def OccursAt (R : α → β → Prop) (word : List α) (text : List β) (p : ℕ) : Prop :=
  List.Forall₂ R word ((text.drop p).take word.length)

/-- The least number with `P`, or −1 if there is none. -/
def First (P : ℕ → Prop) (r : ℤ) : Prop :=
  (∃ p : ℕ, IsLeast {n | P n} p ∧ r = p) ∨ (∀ p, ¬P p) ∧ r = -1

theorem occursAt_nil (text : List β) (p : ℕ) : OccursAt R [] text p :=
  List.Forall₂.nil

/-- A word that is not empty ends in the text. -/
theorem OccursAt.le (h : OccursAt R word text p) (hne : word ≠ []) :
    p + word.length ≤ text.length := by
  have hlen := List.Forall₂.length_eq h
  have hpos := List.length_pos_iff.2 hne
  rw [List.length_take, List.length_drop] at hlen
  omega

theorem occursAt_eq_iff {word text : List α} :
    OccursAt (· = ·) word text p ↔ word <+: text.drop p := by
  rw [OccursAt, List.forall₂_eq_eq_eq, List.prefix_iff_eq_take]

theorem occursAt_map {γ δ : Type*} {R : γ → δ → Prop} {f : α → γ} {g : β → δ} :
    OccursAt R (word.map f) (text.map g) p ↔
      OccursAt (fun a b => R (f a) (g b)) word text p := by
  rw [OccursAt, OccursAt, List.length_map, ← List.map_drop, ← List.map_take,
    List.forall₂_map_left_iff, List.forall₂_map_right_iff]

namespace First

theorem of_isLeast (h : IsLeast {n | P n} p) : First P p :=
  Or.inl ⟨p, h, rfl⟩

theorem of_none (h : ∀ p, ¬P p) : First P (-1) :=
  Or.inr ⟨h, rfl⟩

theorem isLeast (h : First P p) : IsLeast {n | P n} p := by
  rcases h with ⟨q, hq, hpq⟩ | ⟨-, hp⟩
  · exact Int.ofNat.inj hpq ▸ hq
  · omega

theorem none_of_neg (h : First P (-1)) (p : ℕ) : ¬P p := by
  rcases h with ⟨q, -, hq⟩ | ⟨hno, -⟩
  · omega
  · exact hno p

theorem unique (hr : First P r) (hs : First P s) : r = s := by
  rcases hr with ⟨p, hp, rfl⟩ | ⟨hp, rfl⟩
  · rcases hs with ⟨q, hq, rfl⟩ | ⟨hq, rfl⟩
    · rw [hp.unique hq]
    · exact absurd hp.1 (hq p)
  · rcases hs with ⟨q, hq, rfl⟩ | ⟨hq, rfl⟩
    · exact absurd hq.1 (hp q)
    · rfl

/-- The search is the same if the least numbers are. -/
theorem mono (h : First P r) (hQP : ∀ p, Q p → P p) (hPQ : ∀ p, IsLeast {n | P n} p → Q p) :
    First Q r := by
  rcases h with ⟨p, hp, rfl⟩ | ⟨hp, rfl⟩
  · exact of_isLeast ⟨hPQ p hp, fun q hq => hp.2 (hQP q hq)⟩
  · exact of_none fun p hq => hp p (hQP p hq)

theorem congr (h : First P r) (hPQ : ∀ p, P p ↔ Q p) : First Q r :=
  h.mono (fun p hp => (hPQ p).2 hp) fun p hp => (hPQ p).1 hp.1

/-- A search through the numbers below `n` that is not too short. -/
theorem find?_range {P : ℕ → Bool} {n : ℕ} (hn : ∀ p, P p = true → ∃ q < n, P q = true) :
    First (fun p => P p = true) (((List.range n).find? P).elim (-1) Nat.cast) := by
  cases hfind : (List.range n).find? P with
  | none =>
    refine of_none fun p hp => ?_
    obtain ⟨q, hlt, hq⟩ := hn p hp
    have hnot := List.find?_range_eq_none.1 hfind q hlt
    rw [hq] at hnot
    exact absurd hnot (by decide)
  | some p =>
    obtain ⟨hp, -, hbefore⟩ := List.find?_range_eq_some.1 hfind
    refine of_isLeast ⟨hp, fun q hq => ?_⟩
    by_contra hlt
    have hnot := hbefore q (Nat.lt_of_not_le hlt)
    rw [show P q = true from hq] at hnot
    exact absurd hnot (by decide)

end First

end Occurrence
