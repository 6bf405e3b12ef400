/-
GpuMemoryService.Lib.Hysteresis — a flag between two marks.

A level moves freely and is looked at now and then. A look raises the flag
when the level has reached the high mark and lowers it when the level is
below the low mark; in between the flag stays as it is. A gauge counts how
often the flag was raised and how far the level has grown, all in all.

Every rise is paid for: before it the level was below the low mark, or had
been there when the flag fell, so it has grown by the distance of the marks
since (`Gauge.Step.paid`). The flag of a level that grows by little is
raised seldom, wherever the level is.
-/
import Mathlib.Tactic.Ring

namespace GpuMemoryService.Lib

structure Band where
  low : ℕ
  high : ℕ

/-- The flag after a look at the level. -/
def Band.look (b : Band) (up : Bool) (level : ℕ) : Bool :=
  if up then decide (b.low ≤ level) else decide (b.high ≤ level)

/-- `grown` is at least the sum of all growth of the level. -/
structure Gauge where
  level : ℕ
  up : Bool
  rises : ℕ
  grown : ℕ

namespace Gauge

inductive Step (b : Band) (g : Gauge) : Gauge → Prop
  | moved {level growth : ℕ} (h : level ≤ g.level + growth) :
      Step b g { g with level, grown := g.grown + growth }
  | looked :
      Step b g { g with
        up := b.look g.up g.level
        rises := g.rises + if b.look g.up g.level && !g.up then 1 else 0 }

/-- The growth pays for the rises and, while the flag is down, for what the
level is above the low mark. -/
structure Paid (b : Band) (g : Gauge) : Prop where
  up : g.up = true → g.rises * (b.high - b.low) ≤ g.grown
  down : g.up = false → g.rises * (b.high - b.low) + (g.level - b.low) ≤ g.grown

variable {b : Band} {g g' : Gauge}

theorem Step.paid (h : Paid b g) (hs : Step b g g') : Paid b g' := by
  cases hs with
  | @moved level growth hgrow =>
      constructor
      · intro hup
        exact (h.up hup).trans (Nat.le_add_right _ _)
      · intro hdown
        have hpaid := h.down hdown
        simp only
        omega
  | looked =>
      cases hup : g.up with
      | true =>
          have hpaid := h.up hup
          constructor
          · intro _
            simpa using hpaid
          · intro hlook
            have hlow : g.level < b.low := by simpa [Band.look] using hlook
            simpa [Nat.sub_eq_zero_of_le hlow.le] using hpaid
      | false =>
          have hpaid := h.down hup
          constructor
          · -- what was paid for the level now pays for the rise
            intro hlook
            have hhigh : b.high ≤ g.level := by simpa [Band.look] using hlook
            simp only at hlook
            simp only [hlook, Bool.not_false, Bool.and_self, if_true, Nat.add_mul, Nat.one_mul]
            omega
          · intro hlook
            simp only at hlook
            simpa [hlook] using hpaid

theorem Paid.rises_le (h : Paid b g) : g.rises * (b.high - b.low) ≤ g.grown := by
  cases hup : g.up with
  | true => exact h.up hup
  | false => exact (Nat.le_add_right _ _).trans (h.down hup)

end Gauge

end GpuMemoryService.Lib
