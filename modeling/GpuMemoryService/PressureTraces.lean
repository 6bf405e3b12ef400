/-
GpuMemoryService.PressureTraces — the hysteresis of the pressure
classification over whole sequences of observations (`pressure.cpp`).

The classification compares the utilization with three watermarks and with
half of the low one. `classifyBy` is it over any type with these
operations: `classifyPressure` is its instance at doubles
(`classifyPressure_eq`), and `classifyExact` its instance at rationals,
where the order is total and halving is exact. The two agree on numbers
(`classifyPressure_exact`).

One observation keeps or raises the verdict by `held_classifyExact`; a
sequence is then judged by the newest stretch that stays above the low
watermark (`classifyAll_spec`).
-/
import Mathlib.Data.List.Induction
import Mathlib.Data.Rat.Defs
import Mathlib.Tactic.Linarith
import GpuMemoryService.MemoryDomain

namespace GpuMemoryService

open Lib

/-! ## Held pressure -/

namespace MemoryGovernor

/-- The prior pressure keeps the classification up until the low watermark. -/
def held (p : PressureState) : Bool := p == .high || p == .critical || p == .reclaiming

/-- The classification sees the prior pressure only through `held`. -/
theorem evaluatePressure_held (ev : PressureEvidence) {p q : PressureState}
    (h : held p = held q) : evaluatePressure ev p = evaluatePressure ev q := by
  unfold held at h
  unfold evaluatePressure classifyPressure
  rw [h]

end MemoryGovernor

open MemoryGovernor (held)

/-! ## The classification over any numbers -/

/-- The watermarks as numbers of a type. -/
structure Marks (α : Type*) where
  low : α
  high : α
  critical : α

/-- `classifyPressure`, with the comparisons and the halving as parameters. -/
def classifyBy {α : Type*} (lt le : α → α → Bool) (halve : α → α) (w : Marks α)
    (last : PressureState) (u : α) : PressureState :=
  if last == .high || last == .critical || last == .reclaiming then
    if lt u w.low then
      if lt u (halve w.low) then .low else .normal
    else if le w.critical u then .critical
    else if le w.high u then .high
    else .high
  else if le w.critical u then .critical
  else if le w.high u then .high
  else if le w.low u then .normal
  else if lt u (halve w.low) then .low
  else .normal

theorem classifyPressure_eq (u : Binary64) (wm : WatermarkConfig) (last : PressureState) :
    classifyPressure u wm last =
      classifyBy Binary64.lt Binary64.le (·.mul half) ⟨wm.low, wm.high, wm.critical⟩ last u :=
  rfl

/-- The classification of an exact utilization. -/
def classifyExact (w : Marks ℚ) (last : PressureState) (u : ℚ) : PressureState :=
  classifyBy (fun a b => decide (a < b)) (fun a b => decide (a ≤ b)) (· / 2) w last u

/-- On numbers the doubles are classified by their values. -/
theorem classifyPressure_exact {u : Binary64} {wm : WatermarkConfig} {q : ℚ} {w : Marks ℚ}
    (hu : u.value = .finite q) (hlow : wm.low.value = .finite w.low)
    (hhigh : wm.high.value = .finite w.high) (hcritical : wm.critical.value = .finite w.critical)
    (hhalf : (wm.low.mul half).value = .finite (w.low / 2)) (last : PressureState) :
    classifyPressure u wm last = classifyExact w last q := by
  simp only [classifyPressure, classifyExact, classifyBy, Binary64.lt, Binary64.le, hu, hlow,
    hhigh, hcritical, hhalf]

/-! ## Traces -/

/-- The verdict after a sequence of observations. -/
def classifyAll (w : Marks ℚ) (start : PressureState) (us : List ℚ) : PressureState :=
  us.foldl (classifyExact w) start

/-- Some newest stretch of the observations stays at or above the low
watermark, and begins with one at or above the high watermark or, being all
of them, with a held state. -/
def HeldUp (w : Marks ℚ) (start : PressureState) (us : List ℚ) : Prop :=
  ∃ older u newer, us = older ++ u :: newer ∧ (∀ v ∈ u :: newer, w.low ≤ v) ∧
    (w.high ≤ u ∨ (older = [] ∧ held start = true))

section Traces

variable {w : Marks ℚ} {last start : PressureState} {u : ℚ}

/-- **One observation.** -/
theorem held_classifyExact (hlow : w.low ≤ w.high) (hhigh : w.high ≤ w.critical) :
    held (classifyExact w last u) = true ↔ (held last = true ∧ w.low ≤ u) ∨ w.high ≤ u := by
  unfold classifyExact classifyBy
  cases hl : held last with
  | true =>
      unfold held at hl
      rw [if_pos hl]
      by_cases h1 : u < w.low
      · have h2 : ¬ w.low ≤ u := not_le.mpr h1
        have h3 : ¬ w.high ≤ u := fun h => h2 (hlow.trans h)
        simp only [h1, decide_true, if_true, h2, h3, and_false, or_self, iff_false]
        split <;> decide
      · have h2 : w.low ≤ u := not_lt.mp h1
        simp only [h1, decide_false, Bool.false_eq_true, if_false, h2, and_self, true_or, iff_true]
        split
        · rfl
        · split <;> rfl
  | false =>
      unfold held at hl
      simp only [hl, Bool.false_eq_true, if_false, false_and, false_or, decide_eq_true_eq]
      by_cases h1 : w.critical ≤ u
      · simp only [h1, if_true, hhigh.trans h1, iff_true]
        rfl
      by_cases h2 : w.high ≤ u
      · simp only [h1, h2, if_true, if_false, iff_true]
        rfl
      simp only [h1, h2, if_false, iff_false]
      split
      · decide
      · split <;> decide

/-- Critical pressure is held pressure with the utilization that high. -/
theorem classifyExact_eq_critical (hlow : w.low ≤ w.high) (hhigh : w.high ≤ w.critical) :
    classifyExact w last u = .critical ↔
      held (classifyExact w last u) = true ∧ w.critical ≤ u := by
  rw [held_classifyExact hlow hhigh]
  unfold classifyExact classifyBy
  by_cases h1 : w.critical ≤ u
  · have h2 : w.high ≤ u := hhigh.trans h1
    have h3 : ¬ u < w.low := not_lt.mpr (hlow.trans h2)
    simp [h1, h2, h3]
  · simp only [h1, decide_false, Bool.false_eq_true, if_false, and_false, iff_false]
    repeat' split
    all_goals decide

/-- The classification answers with one of four states. -/
theorem classifyExact_mem (w : Marks ℚ) (last : PressureState) (u : ℚ) :
    classifyExact w last u ∈ [PressureState.low, .normal, .high, .critical] := by
  unfold classifyExact classifyBy
  repeat' split
  all_goals decide

/-- A stretch that holds the pressure up is continued by an observation
above the low watermark, or begun by one above the high watermark. -/
theorem heldUp_concat {us : List ℚ} (hne : us ≠ []) (hlow : w.low ≤ w.high) :
    HeldUp w start (us ++ [u]) ↔ (HeldUp w start us ∧ w.low ≤ u) ∨ w.high ≤ u := by
  constructor
  · rintro ⟨older, v, newer, heq, hstay, hbegin⟩
    rcases List.eq_nil_or_concat newer with rfl | ⟨newer', u', rfl⟩
    · obtain ⟨rfl, rfl⟩ := List.append_singleton_inj.mp heq
      rcases hbegin with h | ⟨h, _⟩
      · exact Or.inr h
      · exact absurd h hne
    · have heq' : us ++ [u] = (older ++ v :: newer') ++ [u'] := by simpa using heq
      obtain ⟨rfl, rfl⟩ := List.append_singleton_inj.mp heq'
      refine Or.inl ⟨⟨older, v, newer', rfl, fun x hx => hstay x ?_, hbegin⟩, hstay u (by simp)⟩
      rw [List.concat_eq_append]
      exact List.mem_append_left [u] hx
  · rintro (⟨⟨older, v, newer, rfl, hstay, hbegin⟩, hu⟩ | hu)
    · refine ⟨older, v, newer ++ [u], by simp, fun x hx => ?_, hbegin⟩
      have hx' : x ∈ (v :: newer) ++ [u] := hx
      rcases List.mem_append.mp hx' with h | h
      · exact hstay x h
      · rw [List.mem_singleton.mp h]
        exact hu
    · refine ⟨us, u, [], rfl, fun x hx => ?_, Or.inl hu⟩
      rw [List.mem_singleton.mp hx]
      exact hlow.trans hu

theorem heldUp_singleton (hlow : w.low ≤ w.high) :
    HeldUp w start [u] ↔ (held start = true ∧ w.low ≤ u) ∨ w.high ≤ u := by
  constructor
  · rintro ⟨older, v, newer, heq, hstay, hbegin⟩
    obtain ⟨rfl, rfl, rfl⟩ : older = [] ∧ v = u ∧ newer = [] := by
      cases older with
      | nil => simpa [eq_comm] using heq
      | cons x xs => simp at heq
    rcases hbegin with h | ⟨_, h⟩
    · exact Or.inr h
    · exact Or.inl ⟨h, hstay v (by simp)⟩
  · rintro (⟨h, hu⟩ | hu)
    · exact ⟨[], u, [], rfl, by simpa using hu, Or.inr ⟨rfl, h⟩⟩
    · exact ⟨[], u, [], rfl, by simpa using hlow.trans hu, Or.inl hu⟩

/-- The pressure after a sequence is held exactly by such a stretch. -/
theorem held_classifyAll (hlow : w.low ≤ w.high) (hhigh : w.high ≤ w.critical) {us : List ℚ}
    (hne : us ≠ []) : held (classifyAll w start us) = true ↔ HeldUp w start us := by
  induction us using List.reverseRecOn with
  | nil => exact absurd rfl hne
  | append_singleton us u ih =>
      have hlast : classifyAll w start (us ++ [u]) = classifyExact w (classifyAll w start us) u := by
        simp [classifyAll]
      rw [hlast, held_classifyExact hlow hhigh]
      by_cases hus : us = []
      · subst hus
        rw [List.nil_append, heldUp_singleton hlow]
        rfl
      · rw [heldUp_concat hus hlow, ih hus]

/-- **Hysteresis over whole traces.** For watermarks in order, every start
and every nonempty sequence of observations: the pressure ends at HIGH or
CRITICAL exactly if a newest stretch holds it up, at CRITICAL exactly if
also the last observation reaches the critical watermark, and otherwise at
LOW or NORMAL. -/
theorem classifyAll_spec (w : Marks ℚ) (start : PressureState) (us : List ℚ) (hne : us ≠ [])
    (hfractions : 0 ≤ w.low ∧ w.low ≤ w.high ∧ w.high ≤ w.critical ∧ w.critical ≤ 1) :
    let final := classifyAll w start us
    ((final = .high ∨ final = .critical) ↔ HeldUp w start us) ∧
      (final = .critical ↔ HeldUp w start us ∧ w.critical ≤ us.getLast hne) ∧
      (¬ HeldUp w start us → final = .low ∨ final = .normal) := by
  intro final
  obtain ⟨_, hlow, hhigh, _⟩ := hfractions
  have hheld : held final = true ↔ HeldUp w start us := held_classifyAll hlow hhigh hne
  have hfinal : final = classifyExact w (classifyAll w start us.dropLast) (us.getLast hne) := by
    conv_lhs => unfold final; rw [← List.dropLast_concat_getLast hne]
    simp [classifyAll]
  have hmem : final ∈ [PressureState.low, .normal, .high, .critical] := by
    rw [hfinal]
    exact classifyExact_mem w _ _
  have hup : held final = true ↔ final = .high ∨ final = .critical := by
    simp only [List.mem_cons, List.not_mem_nil, or_false] at hmem
    rcases hmem with h | h | h | h <;> simp [h, held]
  refine ⟨hup.symm.trans hheld, ?_, fun hnot => ?_⟩
  · rw [← hheld, hfinal]
    exact classifyExact_eq_critical hlow hhigh
  · have hdown : ¬ (final = .high ∨ final = .critical) := fun h => hnot (hheld.mp (hup.mpr h))
    simp only [List.mem_cons, List.not_mem_nil, or_false] at hmem
    tauto

/-- Low and high watermark coincide, and RECLAIMING holds the start. -/
theorem classifyAll_spec_equalMarks :
    (0 : ℚ) ≤ 1 / 2 ∧ HeldUp ⟨1 / 2, 1 / 2, 1⟩ .reclaiming [3 / 4, 1 / 2] ∧
      (classifyAll ⟨1 / 2, 1 / 2, 1⟩ .reclaiming [3 / 4, 1 / 2] = .high ∨
        classifyAll ⟨1 / 2, 1 / 2, 1⟩ .reclaiming [3 / 4, 1 / 2] = .critical) := by
  have hheld : HeldUp ⟨1 / 2, 1 / 2, 1⟩ .reclaiming [3 / 4, 1 / 2] :=
    ⟨[], 3 / 4, [1 / 2], rfl, by norm_num, Or.inr ⟨rfl, rfl⟩⟩
  exact ⟨by norm_num, hheld,
    (classifyAll_spec ⟨1 / 2, 1 / 2, 1⟩ .reclaiming [3 / 4, 1 / 2] (by simp) (by norm_num)).1.mpr
      hheld⟩

end Traces

end GpuMemoryService
