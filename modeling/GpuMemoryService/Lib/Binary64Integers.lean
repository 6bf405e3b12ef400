/-
GpuMemoryService.Lib.Binary64Integers — the doubles of natural numbers.

The double of a natural number up to 2^64 is finite, and its value is a
natural number again: `nearest n`, the multiple of `2 ^ (log2 n - 52)`
nearest to `n` (`value_round_natCast`). `nearest` keeps order
(`nearest_mono`) and keeps 0 apart from the others, so that comparisons of
doubles that come from integers are comparisons of naturals.
-/
import Mathlib.Data.Nat.Log
import Mathlib.Tactic.Linarith
import Mathlib.Tactic.Ring
import Mathlib.Tactic.Positivity
import GpuMemoryService.Lib.Binary64

namespace GpuMemoryService.Lib.Binary64

/-! ## Division to nearest -/

section DivNearest

variable {n d c : ℕ}

theorem divNearest_one (n : ℕ) : divNearest n 1 = n := by
  simp [divNearest, Nat.mod_one]

/-- Rounding stays between the two integers around the quotient. -/
theorem divNearest_bounds (n d : ℕ) : n / d ≤ divNearest n d ∧ divNearest n d ≤ n / d + 1 := by
  unfold divNearest
  dsimp only
  split
  · omega
  split
  · omega
  split <;> omega

theorem le_divNearest (hd : 0 < d) (h : c * d ≤ n) : c ≤ divNearest n d :=
  ((Nat.le_div_iff_mul_le hd).mpr h).trans (divNearest_bounds n d).1

theorem divNearest_le (hd : 0 < d) (h : n ≤ c * d) : divNearest n d ≤ c := by
  rcases Nat.lt_or_ge (n / d) c with hlt | hge
  · exact (divNearest_bounds n d).2.trans hlt
  -- the quotient is exact, so nothing is rounded up
  have hn : n = c * d := Nat.le_antisymm h ((Nat.le_div_iff_mul_le hd).mp hge)
  subst hn
  simp [divNearest, Nat.mul_mod_left, Nat.mul_div_cancel c hd, hd]

theorem divNearest_mono (d : ℕ) : Monotone (divNearest · d) := by
  intro a b hab
  show divNearest a d ≤ divNearest b d
  have hq : a / d ≤ b / d := Nat.div_le_div_right hab
  rcases Nat.lt_or_ge (a / d) (b / d) with hlt | hge
  · have ha := (divNearest_bounds a d).2
    have hb := (divNearest_bounds b d).1
    omega
  -- in one interval between integers the remainders are compared
  have heq : a / d = b / d := Nat.le_antisymm hq hge
  have hr : a % d ≤ b % d := by
    have h1 := Nat.div_add_mod a d
    have h2 := Nat.div_add_mod b d
    rw [heq] at h1
    omega
  unfold divNearest
  simp only [heq]
  split <;> split <;> try omega
  all_goals split <;> try omega
  all_goals split <;> try omega
  all_goals split <;> omega

end DivNearest

/-! ## The nearest double of a natural number -/

/-- How far the last significand bit of the double of `n` is above 1. -/
def shiftOf (n : ℕ) : ℕ := Nat.log2 n - 52

/-- The value of the double of `n`. -/
def nearest (n : ℕ) : ℕ := divNearest n (2 ^ shiftOf n) * 2 ^ shiftOf n

section Nearest

variable {n : ℕ}

theorem nearest_of_lt (h : n < 2 ^ 53) : nearest n = n := by
  have hlog : Nat.log2 n ≤ 52 := by
    rcases Nat.eq_zero_or_pos n with rfl | hpos
    · simp
    · have := (Nat.log2_lt (Nat.pos_iff_ne_zero.mp hpos)).mpr h
      omega
  have hshift : shiftOf n = 0 := by
    unfold shiftOf
    omega
  simp [nearest, hshift, divNearest_one]

@[simp] theorem nearest_zero : nearest 0 = 0 := nearest_of_lt (by decide)

/-- The significand of a number with at least 53 bits has 53 bits, or is the
power of two above. -/
theorem significand_bounds (hn : n ≠ 0) (hbig : 52 ≤ Nat.log2 n) :
    2 ^ 52 ≤ divNearest n (2 ^ shiftOf n) ∧ divNearest n (2 ^ shiftOf n) ≤ 2 ^ 53 := by
  have hlo := Nat.log2_self_le hn
  have hhi : n < 2 ^ (Nat.log2 n + 1) := Nat.lt_log2_self
  have hd : 0 < 2 ^ shiftOf n := by positivity
  constructor
  · refine le_divNearest hd ?_
    rwa [← Nat.pow_add, show 52 + shiftOf n = Nat.log2 n by unfold shiftOf; omega]
  · refine divNearest_le hd ?_
    rw [← Nat.pow_add, show 53 + shiftOf n = Nat.log2 n + 1 by unfold shiftOf; omega]
    exact hhi.le

/-- A positive number and its double are in one closed binade. -/
theorem nearest_bounds (hn : n ≠ 0) :
    2 ^ Nat.log2 n ≤ nearest n ∧ nearest n ≤ 2 ^ (Nat.log2 n + 1) := by
  have hhi : n < 2 ^ (Nat.log2 n + 1) := Nat.lt_log2_self
  rcases Nat.lt_or_ge (Nat.log2 n) 52 with hsmall | hbig
  · have hlt : n < 2 ^ 53 :=
      hhi.trans_le (Nat.pow_le_pow_right (by decide) (by omega))
    rw [nearest_of_lt hlt]
    exact ⟨Nat.log2_self_le hn, hhi.le⟩
  obtain ⟨hlo, hup⟩ := significand_bounds hn hbig
  constructor
  · calc 2 ^ Nat.log2 n = 2 ^ 52 * 2 ^ shiftOf n := by
          rw [← Nat.pow_add]; congr 1; unfold shiftOf; omega
      _ ≤ nearest n := Nat.mul_le_mul_right _ hlo
  · calc nearest n ≤ 2 ^ 53 * 2 ^ shiftOf n := Nat.mul_le_mul_right _ hup
      _ = 2 ^ (Nat.log2 n + 1) := by
          rw [← Nat.pow_add]; congr 1; unfold shiftOf; omega

theorem nearest_pos (hn : n ≠ 0) : 0 < nearest n :=
  lt_of_lt_of_le (by positivity) (nearest_bounds hn).1

@[simp] theorem nearest_pos_iff : 0 < nearest n ↔ 0 < n := by
  constructor
  · intro h
    refine Nat.pos_of_ne_zero (fun hz => ?_)
    rw [hz, nearest_zero] at h
    omega
  · intro h
    exact nearest_pos (by omega)

theorem nearest_mono : Monotone nearest := by
  intro a b hab
  rcases Nat.eq_zero_or_pos a with rfl | ha
  · simp
  have ha' : a ≠ 0 := by omega
  have hb' : b ≠ 0 := by omega
  rcases Nat.lt_or_ge (Nat.log2 a) (Nat.log2 b) with hlt | hge
  · calc nearest a ≤ 2 ^ (Nat.log2 a + 1) := (nearest_bounds ha').2
      _ ≤ 2 ^ Nat.log2 b := Nat.pow_le_pow_right (by decide) hlt
      _ ≤ nearest b := (nearest_bounds hb').1
  · have hle : Nat.log2 a ≤ Nat.log2 b := by
      rw [Nat.le_log2 hb']
      exact (Nat.log2_self_le ha').trans hab
    have hshift : shiftOf a = shiftOf b := by
      unfold shiftOf
      omega
    unfold nearest
    rw [hshift]
    exact Nat.mul_le_mul_right _ (divNearest_mono _ hab)

end Nearest

/-! ## Values -/

section Values

variable {n : ℕ}

theorem scale_eq (m : ℕ) (k : ℤ) : scale m k = (m : ℚ) * 2 ^ k := by
  unfold scale
  split
  · rename_i hk
    obtain ⟨j, rfl⟩ := Int.eq_ofNat_of_zero_le hk
    push_cast
    simp
  · rename_i hk
    obtain ⟨j, hj⟩ := Int.eq_ofNat_of_zero_le (show 0 ≤ -k by omega)
    obtain rfl : k = -(j : ℤ) := by omega
    rw [Rat.mkRat_eq_div, neg_neg, Int.toNat_natCast, zpow_neg, zpow_natCast, div_eq_mul_inv]
    push_cast
    rfl

theorem value_of_fields {x : Binary64} (hneg : x.negative = false) (h0 : x.exponentField ≠ 0)
    (h1 : x.exponentField ≠ 2047) :
    x.value = .finite (((2 ^ 52 + x.fractionField : ℕ) : ℚ) * 2 ^ ((x.exponentField : ℤ) - 1075)) := by
  simp only [value, if_neg h1, if_neg h0, hneg, scale_eq]
  rfl

/-- The word of a positive double, from its binade and significand. -/
theorem value_withSign {e m : ℕ} (he : e ≤ 2044) (hm : 2 ^ 52 ≤ m) (hm' : m ≤ 2 ^ 53) :
    (withSign false (e * 2 ^ 52 + m)).negative = false ∧
      (withSign false (e * 2 ^ 52 + m)).value = .finite ((m : ℚ) * 2 ^ ((e : ℤ) - 1074)) := by
  generalize hx : withSign false (e * 2 ^ 52 + m) = x
  have hbits : x.bits.toNat = e * 2 ^ 52 + m := by
    rw [← hx]
    simp only [withSign, Bool.false_eq_true, if_false, UInt64.toNat_ofNat']
    omega
  have hneg : x.negative = false := by
    simp only [negative, hbits, decide_eq_false_iff_not]
    omega
  refine ⟨hneg, ?_⟩
  rcases Nat.lt_or_ge m (2 ^ 53) with hlt | hge
  · have hexp : x.exponentField = e + 1 := by
      simp only [exponentField, hbits]
      omega
    have hfrac : 2 ^ 52 + x.fractionField = m := by
      simp only [fractionField, hbits]
      omega
    rw [value_of_fields hneg (by omega) (by omega), hexp, hfrac]
    congr 3
    push_cast
    ring
  · -- the significand has carried into the exponent
    obtain rfl : m = 2 ^ 53 := by omega
    have hexp : x.exponentField = e + 2 := by
      simp only [exponentField, hbits]
      omega
    have hfrac : x.fractionField = 0 := by
      simp only [fractionField, hbits]
      omega
    rw [value_of_fields hneg (by omega) (by omega), hexp, hfrac]
    have hk : ((e + 2 : ℕ) : ℤ) - 1075 = ((e : ℤ) - 1074) + 1 := by
      push_cast
      ring
    rw [hk, zpow_add₀ (by norm_num)]
    congr 1
    push_cast
    ring

theorem binade_one (n : ℕ) (hn : n ≠ 0) : binade n 1 = Nat.log2 n := by
  have hlo := Nat.log2_self_le hn
  have hone : Nat.log2 1 = 0 := rfl
  simp only [binade, hone]
  simp [hlo]

/-- The word of a natural number, from its binade and significand. -/
theorem magnitudeBits_one (hn : n ≠ 0) (hlog : Nat.log2 n ≤ 1022) :
    ∃ m, magnitudeBits n 1 = (Nat.log2 n + 1022) * 2 ^ 52 + m ∧ 2 ^ 52 ≤ m ∧ m ≤ 2 ^ 53 ∧
      (m : ℚ) * 2 ^ ((Nat.log2 n : ℤ) - 52) = nearest n := by
  have hmax : max (Nat.log2 n : ℤ) (-1022) = Nat.log2 n := by omega
  have hnormal : ¬ (Nat.log2 n : ℤ) < -1022 := by omega
  have hexp : ((Nat.log2 n : ℤ) + 1022).toNat = Nat.log2 n + 1022 := by omega
  simp only [magnitudeBits, if_neg hn, binade_one n hn, hmax, hnormal, decide_false,
    Bool.false_eq_true, if_false, hexp, Nat.one_mul]
  rcases Nat.lt_or_ge (Nat.log2 n) 52 with hsmall | hbig
  · -- all bits of the number fit
    have hk : ¬ (0 : ℤ) ≤ (Nat.log2 n : ℤ) - 52 := by omega
    have hpad : (-((Nat.log2 n : ℤ) - 52)).toNat = 52 - Nat.log2 n := by omega
    rw [if_neg hk, hpad, divNearest_one]
    have hlo : 2 ^ 52 ≤ n * 2 ^ (52 - Nat.log2 n) := by
      calc 2 ^ 52 = 2 ^ Nat.log2 n * 2 ^ (52 - Nat.log2 n) := by
            rw [← Nat.pow_add]; congr 1; omega
        _ ≤ n * 2 ^ (52 - Nat.log2 n) := Nat.mul_le_mul_right _ (Nat.log2_self_le hn)
    have hhi : n * 2 ^ (52 - Nat.log2 n) ≤ 2 ^ 53 := by
      calc n * 2 ^ (52 - Nat.log2 n) ≤ 2 ^ (Nat.log2 n + 1) * 2 ^ (52 - Nat.log2 n) :=
            Nat.mul_le_mul_right _ Nat.lt_log2_self.le
        _ = 2 ^ 53 := by rw [← Nat.pow_add]; congr 1; omega
    refine ⟨n * 2 ^ (52 - Nat.log2 n), ?_, hlo, hhi, ?_⟩
    · exact min_eq_left (by omega)
    · have hlt : n < 2 ^ 53 :=
        Nat.lt_log2_self.trans_le (Nat.pow_le_pow_right (by decide) (by omega))
      rw [nearest_of_lt hlt, show (Nat.log2 n : ℤ) - 52 = -((52 - Nat.log2 n : ℕ) : ℤ) by omega,
        zpow_neg, zpow_natCast]
      push_cast
      exact mul_inv_cancel_right₀ (by positivity) _
  · have hk : (0 : ℤ) ≤ (Nat.log2 n : ℤ) - 52 := by omega
    have hshift : ((Nat.log2 n : ℤ) - 52).toNat = shiftOf n := by unfold shiftOf; omega
    rw [if_pos hk, hshift]
    obtain ⟨hlo, hhi⟩ := significand_bounds hn hbig
    refine ⟨divNearest n (2 ^ shiftOf n), min_eq_left (by omega), hlo, hhi, ?_⟩
    rw [show (Nat.log2 n : ℤ) - 52 = (shiftOf n : ℤ) by omega, zpow_natCast]
    simp [nearest]

/-- **The double of a natural number** is its nearest representable one. -/
theorem value_round_natCast (h : n ≤ 2 ^ 64) :
    (round false (n : ℚ)).negative = false ∧ (round false (n : ℚ)).value = .finite (nearest n) := by
  have hround : round false (n : ℚ) = withSign false (magnitudeBits n 1) := by
    simp [round]
  rw [hround]
  by_cases hn : n = 0
  · subst hn
    decide +kernel
  have hlog : Nat.log2 n ≤ 1022 := by
    have := (Nat.log2_lt hn).mpr (h.trans_lt (show 2 ^ 64 < 2 ^ 65 by decide))
    omega
  obtain ⟨m, hbits, hlo, hhi, hval⟩ := magnitudeBits_one hn hlog
  rw [hbits, ← hval]
  obtain ⟨hneg, hvalue⟩ := value_withSign (e := Nat.log2 n + 1022) (by omega) hlo hhi
  refine ⟨hneg, ?_⟩
  rw [hvalue, show ((Nat.log2 n + 1022 : ℕ) : ℤ) - 1074 = (Nat.log2 n : ℤ) - 52 by
    push_cast; ring]

@[simp] theorem value_ofUInt64 (n : UInt64) : (ofUInt64 n).value = .finite (nearest n.toNat) :=
  (value_round_natCast n.toNat_lt.le).2

@[simp] theorem negative_ofUInt64 (n : UInt64) : (ofUInt64 n).negative = false :=
  (value_round_natCast n.toNat_lt.le).1

/-- The double of a difference of two doubles of integers, the larger first. -/
theorem value_sub_ofUInt64 {a b : UInt64} (h : b.toNat ≤ a.toNat) :
    ((ofUInt64 a).sub (ofUInt64 b)).value =
      .finite (nearest (nearest a.toNat - nearest b.toNat)) := by
  have hle : nearest b.toNat ≤ nearest a.toNat := nearest_mono h
  simp only [sub, value_ofUInt64, negative_ofUInt64]
  split
  · rename_i heq
    rw [Nat.cast_inj.mp heq, Nat.sub_self, nearest_zero]
    decide +kernel
  · have hlt : ¬ (nearest a.toNat : ℚ) < nearest b.toNat := by
      rw [not_lt]
      exact_mod_cast hle
    rw [decide_eq_false hlt, ← Nat.cast_sub hle]
    refine (value_round_natCast ?_).2
    have hbound : nearest a.toNat ≤ 2 ^ 64 := by
      calc nearest a.toNat ≤ nearest (2 ^ 64) := nearest_mono a.toNat_lt.le
        _ = 2 ^ 64 := by decide +kernel
    exact (Nat.sub_le _ _).trans hbound

/-- Nothing divided by something is 0.0. -/
theorem zero_div_ofUInt64 {n : UInt64} (hn : n ≠ 0) :
    (ofUInt64 0).div (ofUInt64 n) = zero false := by
  have hpos : 0 < nearest n.toNat := by
    rw [nearest_pos_iff]
    exact Nat.pos_of_ne_zero (fun h => hn (UInt64.toNat_inj.mp h))
  have hne : (nearest n.toNat : ℚ) ≠ 0 := by exact_mod_cast hpos.ne'
  simp only [div, value_ofUInt64, negative_ofUInt64, if_neg hne]
  have hzero : nearest (0 : UInt64).toNat = 0 := nearest_zero
  rw [hzero, Nat.cast_zero, zero_div]
  decide +kernel

end Values

end GpuMemoryService.Lib.Binary64
