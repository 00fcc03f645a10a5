import Mathlib.Data.List.Basic
import Mathlib.Tactic.Common

/-!
# The words of a text

A text is cut into words by separators : letters with `p`. The words are the longest runs of
other letters, in their order. Each ends at a separator or at the end of the text.
-/

namespace Words

variable {α : Type*} {p : α → Prop} {a : α} {s t : List α} {ws : List (List α)}

/-- The words of the text. -/
inductive WordsOf (p : α → Prop) : List α → List (List α) → Prop
  | gap {g : List α} (hg : ∀ a ∈ g, p a) : WordsOf p g []
  | word {g w rest : List α} {ws : List (List α)} (hg : ∀ a ∈ g, p a) (hne : w ≠ [])
    (hw : ∀ a ∈ w, ¬p a) (hend : ∀ a ∈ rest.head?, p a) (h : WordsOf p rest ws) :
    WordsOf p (g ++ (w ++ rest)) (w :: ws)

namespace WordsOf

theorem nil : WordsOf p [] [] :=
  .gap (List.forall_mem_nil _)

/-- A separator in front of the text. -/
theorem cons (ha : p a) (h : WordsOf p s ws) : WordsOf p (a :: s) ws := by
  cases h with
  | gap hg => exact .gap (List.forall_mem_cons.2 ⟨ha, hg⟩)
  | @word g w rest ws hg hne hw hend h =>
    exact .word (g := a :: g) (List.forall_mem_cons.2 ⟨ha, hg⟩) hne hw hend h

/-- A word in front of a separator. -/
theorem append_cons (hne : s ≠ []) (hs : ∀ b ∈ s, ¬p b) (ha : p a) (h : WordsOf p t ws) :
    WordsOf p (s ++ a :: t) (s :: ws) :=
  .word (g := []) (List.forall_mem_nil _) hne hs (fun _ hb => Option.some.inj hb ▸ ha) (h.cons ha)

/-- A text without separators is a word. -/
theorem singleton (hne : s ≠ []) (hs : ∀ b ∈ s, ¬p b) : WordsOf p s [s] := by
  have h : WordsOf p ([] ++ (s ++ [])) [s] :=
    .word (List.forall_mem_nil _) hne hs (fun _ hb => nomatch hb) nil
  rwa [List.nil_append, List.append_nil] at h

/-- Separators behind the text. -/
theorem append (h : WordsOf p s ws) (ht : ∀ b ∈ t, p b) : WordsOf p (s ++ t) ws := by
  induction h with
  | gap hg => exact .gap fun b hb => (List.mem_append.1 hb).elim (hg b) (ht b)
  | @word g w rest ws hg hne hw hend _ ih =>
    rw [List.append_assoc, List.append_assoc]
    refine .word hg hne hw (fun b hb => ?_) ih
    cases rest with
    | nil => exact ht b (List.mem_of_head? hb)
    | cons c rest => exact hend b hb

/-- No other letter is lost or doubled. -/
theorem flatten_eq [DecidablePred p] (h : WordsOf p s ws) : ws.flatten = s.filter (¬p ·) := by
  have hgap {g : List α} (hg : ∀ a ∈ g, p a) : g.filter (¬p ·) = [] :=
    List.filter_eq_nil_iff.2 fun a ha => by simpa using hg a ha
  induction h with
  | gap hg => rw [hgap hg, List.flatten_nil]
  | word hg _ hw _ _ ih =>
    have hword := List.filter_eq_self.2 fun a ha => decide_eq_true (hw a ha)
    rw [List.flatten_cons, ih, List.filter_append, List.filter_append, hgap hg, List.nil_append,
      hword]

/-- The words of a part are those of the text exactly if the rest is separators. -/
theorem append_iff (h : WordsOf p s ws) : WordsOf p (s ++ t) ws ↔ ∀ b ∈ t, p b := by
  classical
  refine ⟨fun h' b hb => ?_, h.append⟩
  have hfilter := h.flatten_eq.symm.trans h'.flatten_eq
  rw [List.filter_append, List.self_eq_append_right] at hfilter
  simpa using List.filter_eq_nil_iff.1 hfilter b hb

end WordsOf

end Words
