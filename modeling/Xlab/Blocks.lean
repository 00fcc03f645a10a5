import Mathlib.Data.List.Nodup
import Mathlib.Logic.Function.Basic
import Mathlib.Tactic.Common

/-!
# Allocated blocks

A store says what block is allocated at each address, or that none is. `Owned outside cs block` :
the store `block` is the store `outside` with the blocks `cs` allocated in it. Allocating a block at
an address without one adds it to those that are owned, freeing one takes it away, and the rest of
the store is never touched. Whoever owns nothing left has freed all it allocated.
-/

namespace Blocks

variable {α β : Type*}

/-- The blocks `cs` are allocated in addition to those of `outside`. -/
structure Owned (outside : α → Option β) (cs : List (α × β)) (block : α → Option β) : Prop where
  nodup : (cs.map Prod.fst).Nodup
  holds : ∀ c ∈ cs, block c.1 = some c.2
  fresh : ∀ c ∈ cs, outside c.1 = none
  frame : ∀ a, a ∉ cs.map Prod.fst → block a = outside a

namespace Owned

variable {outside block : α → Option β} {cs ds : List (α × β)} {a : α} {b : β}

theorem nil (block : α → Option β) : Owned block [] block :=
  ⟨List.nodup_nil, nofun, nofun, fun _ _ => rfl⟩

theorem eq_of_nil (h : Owned outside [] block) : block = outside :=
  funext fun a => h.frame a List.not_mem_nil

theorem perm (h : Owned outside cs block) (hp : cs.Perm ds) : Owned outside ds block where
  nodup := (hp.map Prod.fst).nodup h.nodup
  holds c hc := h.holds c (hp.mem_iff.2 hc)
  fresh c hc := h.fresh c (hp.mem_iff.2 hc)
  frame a ha := h.frame a fun hmem => ha ((hp.map Prod.fst).mem_iff.1 hmem)

/-- An address without a block is not among the owned ones. -/
theorem not_mem (h : Owned outside cs block) (ha : block a = none) : a ∉ cs.map Prod.fst := by
  intro hmem
  obtain ⟨c, hc, rfl⟩ := List.mem_map.1 hmem
  rw [h.holds c hc] at ha
  cases ha

theorem alloc [DecidableEq α] (h : Owned outside cs block) (ha : block a = none) (b : β) :
    Owned outside ((a, b) :: cs) (Function.update block a (some b)) where
  nodup := List.nodup_cons.2 ⟨h.not_mem ha, h.nodup⟩
  holds c hc := by
    rcases List.mem_cons.1 hc with rfl | hc
    · exact Function.update_self ..
    · have hne : c.1 ≠ a := fun he => h.not_mem ha (he ▸ List.mem_map_of_mem hc)
      rw [Function.update_of_ne hne, h.holds c hc]
  fresh c hc := by
    rcases List.mem_cons.1 hc with rfl | hc
    · exact (h.frame a (h.not_mem ha)).symm.trans ha
    · exact h.fresh c hc
  frame d hd := by
    rw [List.map_cons, List.mem_cons, not_or] at hd
    rw [Function.update_of_ne hd.1, h.frame d hd.2]

theorem free [DecidableEq α] (h : Owned outside ((a, b) :: cs) block) :
    Owned outside cs (Function.update block a none) where
  nodup := (List.nodup_cons.1 h.nodup).2
  holds c hc := by
    have hmem : c.1 ∈ cs.map Prod.fst := List.mem_map_of_mem hc
    have hne : c.1 ≠ a := fun he => (List.nodup_cons.1 h.nodup).1 (he ▸ hmem)
    rw [Function.update_of_ne hne, h.holds c (List.mem_cons_of_mem _ hc)]
  fresh c hc := h.fresh c (List.mem_cons_of_mem _ hc)
  frame d hd := by
    by_cases hda : d = a
    · subst hda
      rw [Function.update_self, h.fresh (d, b) List.mem_cons_self]
    · rw [Function.update_of_ne hda]
      refine h.frame d fun hmem => ?_
      rcases List.mem_cons.1 hmem with he | hmem
      · exact hda he
      · exact hd hmem

end Owned

end Blocks
