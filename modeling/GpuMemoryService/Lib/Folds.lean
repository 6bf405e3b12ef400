/-
GpuMemoryService.Lib.Folds — loops that keep one element of a list.

A loop that overwrites its result at every hit ends with the last hit
(`foldl_replace`), and one that keeps the best element so far ends with the
first best (`foldl_argmax`). The state of the second loop may hold more than
the element: `F` says what it holds once it has found it.
-/
import Mathlib.Data.List.MinMax

namespace GpuMemoryService.Lib

universe u v w

variable {α : Type u} {β : Type v}

/-- A fold that replaces its result at each hit ends with the last hit. -/
theorem foldl_replace (p : α → Bool) (f : α → β) (z : β) (l : List α) :
    (l.foldl (fun acc a => if p a then f a else acc) z = z ∧ ∀ a ∈ l, p a = false) ∨
      ∃ a ∈ l, p a = true ∧ l.foldl (fun acc a => if p a then f a else acc) z = f a := by
  induction l using List.reverseRecOn with
  | nil => exact Or.inl ⟨rfl, fun a ha => by cases ha⟩
  | append_singleton l a ih =>
      rw [List.foldl_append, List.foldl_cons, List.foldl_nil]
      cases hp : p a with
      | true => exact Or.inr ⟨a, by simp, hp, rfl⟩
      | false =>
          rcases ih with ⟨hz, hnone⟩ | ⟨b, hb, hpb, hv⟩
          · refine Or.inl ⟨hz, fun b hb => ?_⟩
            rcases List.mem_append.mp hb with hin | hin
            · exact hnone b hin
            · rw [List.mem_singleton.mp hin]
              exact hp
          · exact Or.inr ⟨b, List.mem_append_left _ hb, hpb, hv⟩

section Argmax

variable [LinearOrder β] {l : List α}

/-- **Running best.** A fold that takes the first element, and a later one
exactly if it is better than the best so far, finds the first best. -/
theorem foldl_argmax {σ : Type w} {F : Option α → σ} {step : σ → α → σ} {f : α → β}
    (hfirst : ∀ a ∈ l, step (F none) a = F (some a))
    (hnext : ∀ b ∈ l, ∀ a ∈ l, step (F (some b)) a = F (if f b < f a then some a else some b)) :
    l.foldl step (F none) = F (l.argmax f) := by
  induction l using List.reverseRecOn with
  | nil => rfl
  | append_singleton l a ih =>
      have ha : a ∈ l ++ [a] := by simp
      have hsub : ∀ {b}, b ∈ l → b ∈ l ++ [a] := fun hb => List.mem_append_left _ hb
      have hprev := ih (fun b hb => hfirst b (hsub hb))
        (fun b hb c hc => hnext b (hsub hb) c (hsub hc))
      rw [List.foldl_append, hprev, List.foldl_cons, List.foldl_nil, List.argmax_concat]
      cases hbest : l.argmax f with
      | none => exact hfirst a ha
      | some b => exact hnext b (hsub (List.argmax_mem hbest)) a ha

/-- The argmax depends on the values in the list alone. -/
theorem argmax_congr {f f' : α → β} (h : ∀ a ∈ l, f a = f' a) : l.argmax f = l.argmax f' := by
  induction l using List.reverseRecOn with
  | nil => rfl
  | append_singleton l a ih =>
      rw [List.argmax_concat, List.argmax_concat, ih (fun b hb => h b (by simp [hb]))]
      cases hbest : l.argmax f' with
      | none => rfl
      | some b =>
          have hb := h b (by simp [List.argmax_mem hbest])
          have ha := h a (by simp)
          simp [ha, hb]

/-- Among equals the first is taken. -/
theorem argmax_of_const {f : α → β} {c : β} (h : ∀ a ∈ l, f a = c) : l.argmax f = l.head? := by
  cases l with
  | nil => rfl
  | cons a l =>
      rw [List.argmax_cons, List.head?_cons]
      cases hbest : l.argmax f with
      | none => rfl
      | some b =>
          have hb := h b (List.mem_cons_of_mem _ (List.argmax_mem hbest))
          have ha := h a List.mem_cons_self
          simp [ha, hb]

end Argmax

end GpuMemoryService.Lib
