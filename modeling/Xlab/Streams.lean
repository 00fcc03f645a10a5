import Mathlib.Data.List.Basic
import Mathlib.Tactic.Common

/-!
# Streams of encoded messages

A stream is the concatenation of the encodings of some messages. Two kinds of readers give
the messages back. A decoder takes one message off the front of what is left of the stream,
and `unpack` repeats it. If it reads each encoding whatever follows, the stream unpacks to
its messages with nothing left over (`unpack_flatMap`). A machine reads one element at a
time and has an output for each. If from a state of rest it says the right thing for each
encoding and is at rest again after it, it says the right things for the stream
(`run_flatMap`).
-/

namespace Streams

variable {α β : Type*}

/-! ## Decoding at the front -/

/-- Take at most `fuel` messages off the front. -/
def unpackFuel (decode : List α → Option (β × List α)) : ℕ → List α → List β × List α
  | 0, xs => ([], xs)
  | fuel + 1, xs =>
    match decode xs with
    | none => ([], xs)
    | some (b, rest) =>
      let r := unpackFuel decode fuel rest
      (b :: r.1, r.2)

/-- The messages at the front of the stream and what is left after them. -/
def unpack (decode : List α → Option (β × List α)) (xs : List α) : List β × List α :=
  unpackFuel decode xs.length xs

/-- The decoder reads `b` off the front of its encoding `bytes`, whatever follows. -/
def Reads (decode : List α → Option (β × List α)) (bytes : List α) (b : β) : Prop :=
  bytes ≠ [] ∧ ∀ rest, decode (bytes ++ rest) = some (b, rest)

theorem unpackFuel_flatMap {γ : Type*} {decode : List α → Option (β × List α)}
    (hnil : decode [] = none) {enc : γ → List α} {msg : γ → β} {cs : List γ}
    (h : ∀ c ∈ cs, Reads decode (enc c) (msg c)) (fuel : ℕ) (hfuel : cs.length ≤ fuel) :
    unpackFuel decode fuel (cs.flatMap enc) = (cs.map msg, []) := by
  induction cs generalizing fuel with
  | nil => cases fuel <;> simp [unpackFuel, hnil]
  | cons c cs ih =>
    obtain ⟨fuel, rfl⟩ : ∃ n, fuel = n + 1 := Nat.exists_eq_succ_of_ne_zero (by
      rw [List.length_cons] at hfuel
      omega)
    have hc := (h c List.mem_cons_self).2 (cs.flatMap enc)
    have htail := ih (fun c hc => h c (List.mem_cons_of_mem _ hc)) fuel
      (Nat.le_of_succ_le_succ hfuel)
    simp only [unpackFuel, List.flatMap_cons, hc, htail, List.map_cons]

theorem length_le_flatMap {γ : Type*} {enc : γ → List α} {cs : List γ}
    (h : ∀ c ∈ cs, enc c ≠ []) : cs.length ≤ (cs.flatMap enc).length := by
  induction cs with
  | nil => exact Nat.le_refl 0
  | cons c cs ih =>
    have hc := List.length_pos_iff.2 (h c List.mem_cons_self)
    have htail := ih fun c hc => h c (List.mem_cons_of_mem _ hc)
    rw [List.flatMap_cons, List.length_append, List.length_cons]
    omega

/-- A stream of messages that are read whatever follows unpacks to the messages. -/
theorem unpack_flatMap {γ : Type*} {decode : List α → Option (β × List α)}
    (hnil : decode [] = none) {enc : γ → List α} {msg : γ → β} {cs : List γ}
    (h : ∀ c ∈ cs, Reads decode (enc c) (msg c)) :
    unpack decode (cs.flatMap enc) = (cs.map msg, []) :=
  unpackFuel_flatMap hnil h _ (length_le_flatMap fun c hc => (h c hc).1)

/-- The decoder takes something off the front. -/
def Consumes (decode : List α → Option (β × List α)) : Prop :=
  ∀ xs b rest, decode xs = some (b, rest) → rest.length < xs.length

section

variable {decode : List α → Option (β × List α)}

theorem unpackFuel_of_none {xs : List α} (h : decode xs = none) (fuel : ℕ) :
    unpackFuel decode fuel xs = ([], xs) := by
  cases fuel with
  | zero => rfl
  | succ fuel => simp only [unpackFuel, h]

/-- Fuel past the length changes nothing. -/
theorem unpackFuel_eq (hc : Consumes decode) (m n : ℕ) (xs : List α) (hm : xs.length ≤ m)
    (hn : xs.length ≤ n) : unpackFuel decode m xs = unpackFuel decode n xs := by
  induction m generalizing n xs with
  | zero =>
    obtain rfl := List.eq_nil_of_length_eq_zero (Nat.le_zero.1 hm)
    cases hd : decode ([] : List α) with
    | none => rw [unpackFuel_of_none hd, unpackFuel_of_none hd]
    | some p => exact absurd (hc [] p.1 p.2 hd) (Nat.not_lt_zero _)
  | succ m ih =>
    cases hd : decode xs with
    | none => rw [unpackFuel_of_none hd, unpackFuel_of_none hd]
    | some p =>
      obtain ⟨b, rest⟩ := p
      have hlt := hc xs b rest hd
      obtain ⟨n, rfl⟩ : ∃ k, n = k + 1 := Nat.exists_eq_succ_of_ne_zero (by omega)
      simp only [unpackFuel, hd, ih n rest (by omega) (by omega)]

theorem unpack_of_none {xs : List α} (h : decode xs = none) : unpack decode xs = ([], xs) :=
  unpackFuel_of_none h _

theorem unpack_of_some (hc : Consumes decode) {xs : List α} {b : β} {rest : List α}
    (h : decode xs = some (b, rest)) :
    unpack decode xs = (b :: (unpack decode rest).1, (unpack decode rest).2) := by
  have hlt := hc xs b rest h
  obtain ⟨n, hn⟩ : ∃ k, xs.length = k + 1 := Nat.exists_eq_succ_of_ne_zero (by omega)
  rw [unpack, hn]
  simp only [unpackFuel, h, unpack, unpackFuel_eq hc n rest.length rest (by omega) (Nat.le_refl _)]

/-- What the decoder takes off the front does not depend on what follows. -/
def Local (decode : List α → Option (β × List α)) : Prop :=
  ∀ xs b rest ys, decode xs = some (b, rest) → decode (xs ++ ys) = some (b, rest ++ ys)

/-- The decoder waits at a message that is cut short. -/
theorem Reads.eq_none (hl : Local decode) {bytes xs : List α} {b : β} (h : Reads decode bytes b)
    (hxs : xs <+: bytes) (hne : xs ≠ bytes) : decode xs = none := by
  obtain ⟨ys, rfl⟩ := hxs
  cases hd : decode xs with
  | none => rfl
  | some p =>
    have hlong := hl xs p.1 p.2 ys hd
    have hall := h.2 []
    rw [List.append_nil, hlong] at hall
    have hnil := congrArg Prod.snd (Option.some.inj hall)
    exact absurd (by rw [(List.append_eq_nil_iff.1 hnil).2, List.append_nil]) hne

/-- A part of a stream of messages unpacks to the messages that are in it whole, and is left
with the beginning of the next one. -/
theorem unpack_prefix_flatMap {γ : Type*} (hc : Consumes decode) (hl : Local decode)
    {enc : γ → List α} {msg : γ → β} {cs : List γ} {xs : List α}
    (h : ∀ c ∈ cs, Reads decode (enc c) (msg c)) (hxs : xs <+: cs.flatMap enc) :
    ∃ n rest, unpack decode xs = ((cs.take n).map msg, rest) ∧
      xs = (cs.take n).flatMap enc ++ rest := by
  induction cs generalizing xs with
  | nil => exact ⟨0, xs, by rw [List.prefix_nil.1 hxs]; rfl, rfl⟩
  | cons c cs ih =>
    have hread := h c List.mem_cons_self
    by_cases hlong : enc c <+: xs
    · obtain ⟨ys, rfl⟩ := hlong
      rw [List.flatMap_cons, List.prefix_append_right_inj] at hxs
      obtain ⟨n, rest, hn, hys⟩ := ih (fun c hc => h c (List.mem_cons_of_mem _ hc)) hxs
      refine ⟨n + 1, rest, ?_, ?_⟩
      · rw [unpack_of_some hc (hread.2 ys), hn]
        rfl
      · rw [List.take_succ_cons, List.flatMap_cons, List.append_assoc, ← hys]
    · have hshort : xs <+: enc c := (List.prefix_or_prefix_of_prefix hxs
        (List.prefix_append _ _)).resolve_right hlong
      exact ⟨0, xs, unpack_of_none (hread.eq_none hl hshort fun he =>
        hlong ⟨[], by rw [List.append_nil, he]⟩), rfl⟩

/-- Induction over what the decoder takes off the front. -/
theorem unpack_induction (hc : Consumes decode) {P : List α → Prop}
    (stop : ∀ xs, decode xs = none → P xs)
    (more : ∀ xs b rest, decode xs = some (b, rest) → P rest → P xs) (xs : List α) : P xs := by
  induction hn : xs.length using Nat.strongRecOn generalizing xs with
  | ind n ih =>
    cases hd : decode xs with
    | none => exact stop xs hd
    | some p =>
      have hlt := hc xs p.1 p.2 hd
      exact more xs p.1 p.2 hd (ih p.2.length (by omega) p.2 rfl)

end

/-! ## Machines with an output for each element -/

variable {σ ω : Type*} (step : σ → α → σ × ω)

/-- The state after some elements. -/
def final (s : σ) (xs : List α) : σ :=
  xs.foldl (fun s x => (step s x).1) s

/-- The outputs for some elements. -/
def outputs : σ → List α → List ω
  | _, [] => []
  | s, x :: xs => (step s x).2 :: outputs (step s x).1 xs

@[simp] theorem final_nil (s : σ) : final step s [] = s :=
  rfl

@[simp] theorem final_cons (s : σ) (x : α) (xs : List α) :
    final step s (x :: xs) = final step (step s x).1 xs :=
  rfl

@[simp] theorem outputs_nil (s : σ) : outputs step s [] = [] :=
  rfl

@[simp] theorem outputs_cons (s : σ) (x : α) (xs : List α) :
    outputs step s (x :: xs) = (step s x).2 :: outputs step (step s x).1 xs :=
  rfl

@[simp] theorem length_outputs (s : σ) (xs : List α) :
    (outputs step s xs).length = xs.length := by
  induction xs generalizing s with
  | nil => rfl
  | cons x xs ih => rw [outputs_cons, List.length_cons, List.length_cons, ih]

theorem final_append (s : σ) (xs ys : List α) :
    final step s (xs ++ ys) = final step (final step s xs) ys :=
  List.foldl_append

theorem outputs_append (s : σ) (xs ys : List α) :
    outputs step s (xs ++ ys) = outputs step s xs ++ outputs step (final step s xs) ys := by
  induction xs generalizing s with
  | nil => rfl
  | cons x xs ih => simp only [List.cons_append, outputs_cons, final_cons, ih]

/-- The machine reads `xs` from `s` with the outputs `os`, and ends in a state of `Q`. -/
structure Run (s : σ) (xs : List α) (os : List ω) (Q : σ → Prop) : Prop where
  outputs_eq : outputs step s xs = os
  post : Q (final step s xs)

variable {step}

theorem Run.cons {s s' : σ} {x : α} {o : ω} {xs : List α} {os : List ω} {Q : σ → Prop}
    (hstep : step s x = (s', o)) (h : Run step s' xs os Q) :
    Run step s (x :: xs) (o :: os) Q := by
  constructor
  · rw [outputs_cons, hstep, h.outputs_eq]
  · rw [final_cons, hstep]
    exact h.post

theorem Run.append {s : σ} {xs ys : List α} {os os' : List ω} {Q R : σ → Prop}
    (h : Run step s xs os Q) (h' : ∀ s', Q s' → Run step s' ys os' R) :
    Run step s (xs ++ ys) (os ++ os') R := by
  have hy := h' _ h.post
  exact ⟨by rw [outputs_append, h.outputs_eq, hy.outputs_eq],
    by rw [final_append]; exact hy.post⟩

/-- A machine that reads each message from a state of rest, and is at rest again after it,
reads a stream of them. `Rest n` are the states of rest after `n` messages. -/
theorem run_flatMap {enc : β → List α} {say : β → ℕ → List ω} (Rest : ℕ → σ → Prop) {bs : List β}
    (h : ∀ b ∈ bs, ∀ n s, Rest n s → Run step s (enc b) (say b n) (Rest (n + 1))) {n : ℕ} {s : σ}
    (hs : Rest n s) : Run step s (bs.flatMap enc) ((bs.zipIdx n).flatMap fun p => say p.1 p.2)
      (Rest (n + bs.length)) := by
  induction bs generalizing n s with
  | nil => exact ⟨rfl, hs⟩
  | cons b bs ih =>
    have hlen : n + (b :: bs).length = n + 1 + bs.length := by
      rw [List.length_cons]
      omega
    rw [List.zipIdx_cons, List.flatMap_cons, List.flatMap_cons, hlen]
    exact (h b List.mem_cons_self n s hs).append fun s' hs' =>
      ih (fun b hb => h b (List.mem_cons_of_mem _ hb)) hs'

end Streams
