/-
GpuMemoryService.Lib.Intervals — half-open intervals, sorted and compared
with their neighbour only.

`overlapsNext` compares each interval with the one before it. On the sorted
list this finds every overlap: nonempty intervals that do not overlap their
neighbours do not overlap at all (`overlapsNext_sort_iff`). Intervals that
are pairwise apart have a total length of at most the range they lie in
(`sum_length_le`).
-/
import Mathlib.Algebra.Order.Ring.Nat
import Mathlib.Data.List.Sort
import Mathlib.Data.Prod.Lex
import Mathlib.Order.Basic

namespace GpuMemoryService.Lib

section Order

variable {κ : Type} [LinearOrder κ]

/-- The intervals share no point. -/
def Apart (p q : κ × κ) : Prop := p.2 ≤ q.1 ∨ q.2 ≤ p.1

theorem Apart.symm {p q : κ × κ} (h : Apart p q) : Apart q p := Or.symm h

/-- Some interval starts before the one in front of it ends. -/
def overlapsNext (l : List (κ × κ)) : Bool := (l.zip l.tail).any (fun e => decide (e.2.1 < e.1.2))

/-- The order of pairs: by start, then by end. -/
def sortIntervals (l : List (κ × κ)) : List (κ × κ) :=
  l.insertionSort (fun p q => toLex p ≤ toLex q)

theorem overlapsNext_eq_false_iff (l : List (κ × κ)) :
    overlapsNext l = false ↔ l.IsChain (fun p q => p.2 ≤ q.1) := by
  induction l with
  | nil => simp [overlapsNext]
  | cons p l ih =>
      cases l with
      | nil => simp [overlapsNext]
      | cons q l =>
          rw [List.isChain_cons_cons, ← ih]
          simp [overlapsNext]

/-- In a chain of nonempty intervals each ends before every later starts. -/
theorem pairwise_of_chain {l : List (κ × κ)} (hne : ∀ p ∈ l, p.1 < p.2)
    (h : l.IsChain (fun p q => p.2 ≤ q.1)) : l.Pairwise (fun p q => p.2 ≤ q.1) := by
  induction l with
  | nil => exact .nil
  | cons p l ih =>
      have htail := ih (fun q hq => hne q (by simp [hq])) h.of_cons
      refine .cons (fun q hq => ?_) htail
      cases l with
      | nil => simp at hq
      | cons r l =>
          have hpr := (List.isChain_cons_cons.mp h).1
          rcases List.mem_cons.mp hq with rfl | hlater
          · exact hpr
          · have hrq := List.rel_of_pairwise_cons htail hlater
            exact hpr.trans ((hne r (by simp)).le.trans hrq)

/-- Sorted intervals are apart exactly if none reaches into the next. -/
theorem overlapsNext_sort_iff {l : List (κ × κ)} (hne : ∀ p ∈ l, p.1 < p.2) :
    overlapsNext (sortIntervals l) = false ↔ l.Pairwise Apart := by
  have hperm : (sortIntervals l).Perm l := List.perm_insertionSort _ l
  have hne' : ∀ p ∈ sortIntervals l, p.1 < p.2 := fun p hp => hne p (hperm.mem_iff.mp hp)
  rw [overlapsNext_eq_false_iff, ← hperm.pairwise_iff Apart.symm]
  constructor
  · intro h
    exact (pairwise_of_chain hne' h).imp (fun hpq => Or.inl hpq)
  · intro h
    have hsorted : (sortIntervals l).Pairwise (fun p q => toLex p ≤ toLex q) :=
      List.pairwise_insertionSort _ l
    refine ((hsorted.and h).imp_of_mem (fun {p q} _ hq hpq => ?_)).isChain
    rcases hpq.2 with hle | hge
    · exact hle
    · -- `q` starts no earlier than `p` and is not empty
      have hstart : p.1 ≤ q.1 := by
        rcases Prod.Lex.le_iff.mp hpq.1 with hlt | heq
        · exact hlt.le
        · exact heq.1.le
      exact absurd (hge.trans hstart) (not_le.mpr (hne' q hq))

end Order

/-- Intervals in order have a total length of at most the range from `lo`
to `hi` they lie in. -/
theorem sum_length_le_of_ordered {l : List (Nat × Nat)} {lo hi : Nat} (hlo : lo ≤ hi)
    (hin : ∀ p ∈ l, lo ≤ p.1 ∧ p.1 < p.2 ∧ p.2 ≤ hi) (h : l.Pairwise (fun p q => p.2 ≤ q.1)) :
    (l.map (fun p => p.2 - p.1)).sum ≤ hi - lo := by
  induction l generalizing lo with
  | nil => simp
  | cons p l ih =>
      obtain ⟨hp1, hp2, hp3⟩ := hin p (by simp)
      have htail := ih hp3
        (fun q hq => ⟨List.rel_of_pairwise_cons h hq, (hin q (by simp [hq])).2⟩) h.of_cons
      rw [List.map_cons, List.sum_cons]
      omega

/-- Intervals apart from each other fit side by side. -/
theorem sum_length_le {l : List (Nat × Nat)} {hi : Nat} (hin : ∀ p ∈ l, p.1 < p.2 ∧ p.2 ≤ hi)
    (h : l.Pairwise Apart) : (l.map (fun p => p.2 - p.1)).sum ≤ hi := by
  have hperm : (sortIntervals l).Perm l := List.perm_insertionSort _ l
  have hne : ∀ p ∈ sortIntervals l, p.1 < p.2 := fun p hp => (hin p (hperm.mem_iff.mp hp)).1
  have hchain := (overlapsNext_eq_false_iff _).mp
    ((overlapsNext_sort_iff (fun p hp => (hin p hp).1)).mpr h)
  rw [← (hperm.map (fun p => p.2 - p.1)).sum_nat]
  exact sum_length_le_of_ordered (Nat.zero_le _)
    (fun p hp => ⟨Nat.zero_le _, hin p (hperm.mem_iff.mp hp)⟩) (pairwise_of_chain hne hchain)

end GpuMemoryService.Lib
