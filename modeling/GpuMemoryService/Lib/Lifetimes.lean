/-
GpuMemoryService.Lib.Lifetimes — things that are acquired, used and
released.

A log of uses is read from a set of things that are live. Acquiring
something that is live, using something that is not and releasing something
that is not are mistakes, and `live` is `none` from there on; without a
mistake it is the set of things that are live at the end. So `live ∅ us =
some s` says that nothing was used after its release or before it was
acquired, nothing was released twice, and exactly `s` is left
(`live_count`).
-/
import Mathlib.Data.Finset.Basic

namespace GpuMemoryService.Lib

inductive Use (κ : Type*) where
  | acquire (k : κ)
  | touch (k : κ)
  | release (k : κ)
deriving DecidableEq

section

variable {κ : Type*} [DecidableEq κ]

/-- What is live after the uses, unless one of them is a mistake. -/
def live (s : Finset κ) : List (Use κ) → Option (Finset κ)
  | [] => some s
  | .acquire k :: us => if k ∈ s then none else live (insert k s) us
  | .touch k :: us => if k ∈ s then live s us else none
  | .release k :: us => if k ∈ s then live (s.erase k) us else none

@[simp] theorem live_nil (s : Finset κ) : live s [] = some s := rfl

theorem live_acquire {s : Finset κ} {k : κ} (h : k ∉ s) (us : List (Use κ)) :
    live s (.acquire k :: us) = live (insert k s) us := if_neg h

theorem live_touch {s : Finset κ} {k : κ} (h : k ∈ s) (us : List (Use κ)) :
    live s (.touch k :: us) = live s us := if_pos h

theorem live_release {s : Finset κ} {k : κ} (h : k ∈ s) (us : List (Use κ)) :
    live s (.release k :: us) = live (s.erase k) us := if_pos h

theorem live_append (s : Finset κ) (us vs : List (Use κ)) :
    live s (us ++ vs) = (live s us).bind (fun s' => live s' vs) := by
  induction us generalizing s with
  | nil => rfl
  | cons u us ih =>
      cases u with
      | acquire k =>
          simp only [List.cons_append, live]
          split
          · rfl
          · exact ih _
      | touch k =>
          simp only [List.cons_append, live]
          split
          · exact ih _
          · rfl
      | release k =>
          simp only [List.cons_append, live]
          split
          · exact ih _
          · rfl

/-- Two logs without a mistake, one after the other. -/
theorem live_trans {s s' s'' : Finset κ} {us vs : List (Use κ)} (h : live s us = some s')
    (h' : live s' vs = some s'') : live s (us ++ vs) = some s'' := by
  rw [live_append, h]
  exact h'

/-- Releasing a list of different live things. -/
theorem live_releases {s : Finset κ} {ks : List κ} (hnodup : ks.Nodup) (hsub : ∀ k ∈ ks, k ∈ s) :
    live s (ks.map .release) = some (s \ ks.toFinset) := by
  induction ks generalizing s with
  | nil => simp
  | cons k ks ih =>
      obtain ⟨hk, hnodup⟩ := List.nodup_cons.mp hnodup
      rw [List.map_cons, live_release (hsub k (by simp)), ih hnodup]
      · congr 1
        ext j
        simp only [Finset.mem_sdiff, Finset.mem_erase, List.mem_toFinset, List.mem_cons]
        tauto
      · intro j hj
        refine Finset.mem_erase.mpr ⟨?_, hsub j (by simp [hj])⟩
        rintro rfl
        exact hk hj

/-- **Each acquisition is released once or still live.** -/
theorem live_count {s s' : Finset κ} {us : List (Use κ)} (h : live s us = some s') (k : κ) :
    us.count (.acquire k) + (if k ∈ s then 1 else 0)
      = us.count (.release k) + (if k ∈ s' then 1 else 0) := by
  induction us generalizing s with
  | nil =>
      cases h
      simp
  | cons u us ih =>
      cases u with
      | acquire j =>
          simp only [live] at h
          split at h
          · cases h
          · rename_i hj
            have hrest := ih h
            by_cases hjk : j = k
            · subst hjk
              simp only [List.count_cons, Finset.mem_insert, true_or, if_true, hj, if_false] at hrest ⊢
              simp only [beq_self_eq_true, if_true, reduceCtorEq, beq_iff_eq, if_false] at hrest ⊢
              omega
            · have hmem : (k ∈ insert j s) ↔ k ∈ s := by simp [Ne.symm hjk]
              simp only [List.count_cons, hmem, beq_iff_eq, Use.acquire.injEq, hjk, if_false,
                reduceCtorEq, Nat.add_zero] at hrest ⊢
              exact hrest
      | touch j =>
          simp only [live] at h
          split at h
          · simpa [List.count_cons] using ih h
          · cases h
      | release j =>
          simp only [live] at h
          split at h
          · rename_i hj
            have hrest := ih h
            by_cases hjk : j = k
            · subst hjk
              simp only [List.count_cons, Finset.mem_erase, ne_eq, not_true_eq_false, false_and,
                if_false, hj, if_true, beq_self_eq_true, reduceCtorEq, beq_iff_eq] at hrest ⊢
              omega
            · have hmem : (k ∈ s.erase j) ↔ k ∈ s := by simp [Ne.symm hjk]
              simp only [List.count_cons, hmem, beq_iff_eq, Use.release.injEq, hjk, if_false,
                reduceCtorEq, Nat.add_zero] at hrest ⊢
              exact hrest
          · cases h

end

end GpuMemoryService.Lib
