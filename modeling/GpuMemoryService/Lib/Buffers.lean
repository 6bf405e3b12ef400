/-
GpuMemoryService.Lib.Buffers — private buffers placed in one memory.

Each owner has at most one span of a common memory, and no two spans have a
position in common. A buffer says what its owner last wrote where, counted
from the start of its span; `Holds` says that the memory has these values.
It is kept by writing inside one's own span, by moving a span to where no
other one is together with its contents, and by giving and taking spans.
-/
import Mathlib.Logic.Function.Basic

namespace GpuMemoryService.Lib

structure Span where
  start : Nat
  len : Nat
deriving DecidableEq, Repr

namespace Span

/-- The position is in the span. -/
def Has (s : Span) (b : Nat) : Prop := s.start ≤ b ∧ b < s.start + s.len

instance (s : Span) (b : Nat) : Decidable (s.Has b) :=
  inferInstanceAs (Decidable (s.start ≤ b ∧ b < s.start + s.len))

/-- No position is in both. -/
def Apart (s t : Span) : Prop := ∀ b, s.Has b → ¬ t.Has b

theorem Apart.symm {s t : Span} (h : Apart s t) : Apart t s := fun b hb hb' => h b hb' hb

theorem has_add {s : Span} {k : Nat} (hk : k < s.len) : s.Has (s.start + k) :=
  ⟨Nat.le_add_right _ _, Nat.add_lt_add_left hk _⟩

end Span

section

variable {ι β : Type*}

/-- The spans of different owners are apart. -/
def Placed (place : ι → Option Span) : Prop :=
  ∀ i j s t, place i = some s → place j = some t → i ≠ j → s.Apart t

/-- What was written is still there, and inside the span. -/
def Holds (memory : Nat → β) (place : ι → Option Span) (buf : ι → Nat → Option β) : Prop :=
  ∀ i s, place i = some s → ∀ k v, buf i k = some v → k < s.len ∧ memory (s.start + k) = v

/-- The memory after the contents of `s` were copied to the start of `t`. -/
def copySpan (memory : Nat → β) (s t : Span) (b : Nat) : β :=
  if t.Has b then memory (s.start + (b - t.start)) else memory b

variable {memory : Nat → β} {place place' : ι → Option Span} {buf buf' : ι → Nat → Option β}

theorem copySpan_inside {s t : Span} {k : Nat} (hk : k < t.len) :
    copySpan memory s t (t.start + k) = memory (s.start + k) := by
  rw [copySpan, if_pos (Span.has_add hk), Nat.add_sub_cancel_left]

theorem copySpan_outside {s t : Span} {b : Nat} (hb : ¬ t.Has b) :
    copySpan memory s t b = memory b := if_neg hb

/-- One owner's span and buffer change, the others keep theirs. -/
theorem Holds.change [DecidableEq ι] (h : Holds memory place buf) (i : ι)
    (hplace : ∀ j, j ≠ i → place' j = place j) (hbuf : ∀ j, j ≠ i → buf' j = buf j)
    (hi : ∀ s, place' i = some s → ∀ k v, buf' i k = some v →
      k < s.len ∧ memory (s.start + k) = v) : Holds memory place' buf' := by
  intro j s hs k v hv
  by_cases hj : j = i
  · subst hj
    exact hi s hs k v hv
  · rw [hplace j hj] at hs
    rw [hbuf j hj] at hv
    exact h j s hs k v hv

/-- An owner writes inside its span. -/
theorem Holds.write [DecidableEq ι] (h : Holds memory place buf) (hplaced : Placed place) {i : ι}
    {s : Span} (hs : place i = some s) {k : Nat} (hk : k < s.len) (v : β) :
    Holds (Function.update memory (s.start + k) v) place
      (Function.update buf i (Function.update (buf i) k (some v))) := by
  intro j t ht n x hx
  by_cases hj : j = i
  · subst hj
    obtain rfl : s = t := Option.some.inj (hs.symm.trans ht)
    rw [Function.update_self] at hx
    by_cases hn : n = k
    · subst hn
      rw [Function.update_self] at hx ⊢
      exact ⟨hk, Option.some.inj hx⟩
    · rw [Function.update_of_ne hn] at hx
      rw [Function.update_of_ne (by omega)]
      exact h j s hs n x hx
  · rw [Function.update_of_ne hj] at hx
    obtain ⟨hn, hmem⟩ := h j t ht n x hx
    -- the written position is in the span of `i`, so not in that of `j`
    have hne : t.start + n ≠ s.start + k := fun heq =>
      hplaced i j s t hs ht (Ne.symm hj) (s.start + k) (Span.has_add hk) (heq ▸ Span.has_add hn)
    rw [Function.update_of_ne hne]
    exact ⟨hn, hmem⟩

/-- A span is moved, with its contents, to where no other one is. -/
theorem Holds.move [DecidableEq ι] (h : Holds memory place buf) {i : ι} {s t : Span}
    (hs : place i = some s) (hlen : t.len = s.len)
    (hclear : ∀ j u, j ≠ i → place j = some u → t.Apart u)
    (hplace : ∀ j, j ≠ i → place' j = place j) (hi : place' i = some t) :
    Holds (copySpan memory s t) place' buf := by
  intro j u hu k v hv
  by_cases hj : j = i
  · subst hj
    obtain rfl : t = u := Option.some.inj (hi.symm.trans hu)
    obtain ⟨hk, hmem⟩ := h j s hs k v hv
    exact ⟨hlen ▸ hk, by rw [copySpan_inside (hlen ▸ hk), hmem]⟩
  · rw [hplace j hj] at hu
    obtain ⟨hk, hmem⟩ := h j u hu k v hv
    refine ⟨hk, ?_⟩
    rw [copySpan_outside (fun hb => hclear j u hj hu _ hb (Span.has_add hk)), hmem]

end

end GpuMemoryService.Lib
