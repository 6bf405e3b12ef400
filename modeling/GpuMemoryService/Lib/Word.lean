/-
GpuMemoryService.Lib.Word — 64-bit words read as natural numbers.

Machine code compares, adds and masks words; its invariants are stated in
exact arithmetic. This module gives words their linear order, the rules
that read an addition or a subtraction that does not wrap as the exact
operation, and the meaning of the two bit tricks used with alignments:
`v & (v - 1) = 0` says that `v` is a power of two, and masking with
`~(a - 1)` rounds down to a multiple of such an `a`.
-/
import Mathlib.Order.Defs.LinearOrder
import Mathlib.Tactic.Common
import Mathlib.Tactic.Ring

namespace GpuMemoryService.Lib

instance instLinearOrderUInt64 : LinearOrder UInt64 where
  le_refl := UInt64.le_refl
  le_trans _ _ _ := UInt64.le_trans
  lt_iff_le_not_ge a b := by
    simp only [UInt64.lt_iff_toNat_lt, UInt64.le_iff_toNat_le]; omega
  le_antisymm a b hab hba := UInt64.toNat_inj.mp (Nat.le_antisymm
    (UInt64.le_iff_toNat_le.mp hab) (UInt64.le_iff_toNat_le.mp hba))
  le_total a b := by simp only [UInt64.le_iff_toNat_le]; omega
  toDecidableLE := inferInstance
  toDecidableEq := inferInstance
  toDecidableLT := inferInstance

/-! ## Additions and subtractions that do not wrap -/

theorem toNat_add_of_lt {a b : UInt64} (h : a.toNat + b.toNat < 2 ^ 64) :
    (a + b).toNat = a.toNat + b.toNat := by
  rw [UInt64.toNat_add]; omega

theorem toNat_sub_of_ge {a b : UInt64} (h : b.toNat ≤ a.toNat) :
    (a - b).toNat = a.toNat - b.toNat :=
  UInt64.toNat_sub_of_le a b (UInt64.le_iff_toNat_le.mpr h)

theorem toNat_pos_iff {a : UInt64} : 0 < a.toNat ↔ a ≠ 0 := by
  rw [Nat.pos_iff_ne_zero, ne_eq, ne_eq, ← UInt64.toNat_inj]
  rfl

/-- Moving a counter by the difference of two amounts, in whichever
direction it goes, exchanges one for the other. -/
theorem add_sub_exchange (c new old : UInt64) :
    (if new ≥ old then c + (new - old) else c - (old - new)) + old = c + new := by
  split <;> grind

theorem toNat_max (a b : UInt64) : (max a b).toNat = max a.toNat b.toNat := by
  show (if a ≤ b then b else a).toNat = _
  split
  · rename_i h; rw [Nat.max_eq_right (UInt64.le_iff_toNat_le.mp h)]
  · rename_i h; rw [Nat.max_eq_left (by rw [UInt64.le_iff_toNat_le] at h; omega)]

theorem toNat_min (a b : UInt64) : (min a b).toNat = min a.toNat b.toNat := by
  show (if a ≤ b then a else b).toNat = _
  split
  · rename_i h; rw [Nat.min_eq_left (UInt64.le_iff_toNat_le.mp h)]
  · rename_i h; rw [Nat.min_eq_right (by rw [UInt64.le_iff_toNat_le] at h; omega)]

/-! ## Powers of two -/

/-- `v & (v - 1) = 0` with `v ≠ 0` is the bit test for a power of two. -/
theorem exists_pow_of_and_pred {v : UInt64} (h0 : v ≠ 0) (h : v &&& (v - 1) = 0) :
    ∃ k < 64, v.toNat = 2 ^ k := by
  have hpos : 1 ≤ v.toNat := toNat_pos_iff.mpr h0
  have hsub : (v - 1).toNat = v.toNat - 1 := toNat_sub_of_ge (a := v) (b := 1) hpos
  have hand : v.toNat &&& (v.toNat - 1) = 0 := by
    rw [← hsub, ← UInt64.toNat_and, h]; rfl
  have hpow : v.toNat.isPowerOfTwo := by
    by_contra hn
    have := Nat.and_sub_one_testBit_log2 (by omega) hn
    rw [hand] at this
    simp at this
  obtain ⟨k, hk⟩ := hpow
  refine ⟨k, ?_, hk⟩
  have hlt := v.toNat_lt
  rw [hk] at hlt
  exact (Nat.pow_lt_pow_iff_right (by decide)).mp hlt

/-- Clearing the low `k` bits rounds down to a multiple of `2 ^ k`. -/
theorem and_compl_mask {x k : Nat} (hx : x < 2 ^ 64) (hk : k < 64) :
    x &&& (2 ^ 64 - 1 - (2 ^ k - 1)) = x / 2 ^ k * 2 ^ k := by
  have hpow : 2 ^ k ≤ 2 ^ 64 := Nat.pow_le_pow_right (by decide) (by omega)
  have hone : 1 ≤ 2 ^ k := Nat.one_le_two_pow
  have hmask : 2 ^ 64 - 1 - (2 ^ k - 1) = 2 ^ 64 - ((2 ^ k - 1) + 1) := by omega
  rw [hmask, ← Nat.shiftRight_eq_div_pow, ← Nat.shiftLeft_eq]
  refine Nat.eq_of_testBit_eq (fun i => ?_)
  rw [Nat.testBit_and, Nat.testBit_two_pow_sub_succ (by omega), Nat.testBit_two_pow_sub_one,
    Nat.testBit_shiftLeft, Nat.testBit_shiftRight]
  by_cases hik : k ≤ i
  · have hadd : k + (i - k) = i := by omega
    by_cases hi : i < 64
    · simp [hik, hi, hadd, Nat.not_lt.mpr hik]
    · have : x.testBit i = false :=
        Nat.testBit_lt_two_pow (Nat.lt_of_lt_of_le hx
          (Nat.pow_le_pow_right (by decide) (Nat.not_lt.mp hi)))
      simp [hadd, this]
  · simp [hik, Nat.not_le.mp hik]

theorem toNat_and_not_pred {r a : UInt64} {k : Nat} (hk : k < 64) (ha : a.toNat = 2 ^ k) :
    (r &&& ~~~(a - 1)).toNat = r.toNat / a.toNat * a.toNat := by
  have hpos : 1 ≤ a.toNat := by rw [ha]; exact Nat.one_le_two_pow
  have hsub : (a - 1).toNat = a.toNat - 1 := toNat_sub_of_ge (a := a) (b := 1) hpos
  rw [UInt64.toNat_and, UInt64.toNat_not, hsub, ha]
  exact and_compl_mask r.toNat_lt hk

/-! ## Rounding up -/

/-- `n` rounded up to a multiple of `a`, in exact arithmetic. -/
def roundUp (n a : Nat) : Nat := (n + (a - 1)) / a * a

theorem roundUp_dvd (n a : Nat) : a ∣ roundUp n a := Dvd.intro_left _ rfl

theorem le_roundUp (n : Nat) {a : Nat} (ha : 0 < a) : n ≤ roundUp n a := by
  have hdiv := Nat.div_add_mod (n + (a - 1)) a
  have hmod := Nat.mod_lt (n + (a - 1)) ha
  rw [Nat.mul_comm] at hdiv
  unfold roundUp
  omega

theorem roundUp_pos {n a : Nat} (ha : 0 < a) (hn : 0 < n) : 0 < roundUp n a :=
  Nat.lt_of_lt_of_le hn (le_roundUp n ha)

/-- Rounding up to a divisor of `m` reaches `m` exactly when adding the
largest remainder does. -/
theorem le_roundUp_iff {n a m : Nat} (ha : 0 < a) (hm : a ∣ m) :
    m ≤ roundUp n a ↔ m ≤ n + (a - 1) := by
  obtain ⟨q, rfl⟩ := hm
  unfold roundUp
  rw [Nat.mul_comm a q, Nat.mul_le_mul_right_iff ha, Nat.le_div_iff_mul_le ha]

end GpuMemoryService.Lib
