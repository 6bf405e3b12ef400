/-
GpuMemoryService.Lib.Binary64Order — rounding keeps order.

A larger rational never rounds to a smaller double (`round_mono`). The
exponent of a quotient grows with it (`binade_spec`), in one binade the
significand does (`significand_mono`), and a significand that is rounded up
to the next binade is not above the first one there. So the words are in
order, and the words of positive doubles are ordered as their values
(`le_withSign`).

A quotient of two integers, computed in doubles, is therefore monotone in
its numerator (`div_ofUInt64_mono`).
-/
import Mathlib.Algebra.Order.Field.Power
import GpuMemoryService.Lib.Binary64Integers

namespace GpuMemoryService.Lib.Binary64

/-! ## The order of doubles -/

section Order

variable {x y z : Binary64}

theorem le_trans' (hxy : x.le y = true) (hyz : y.le z = true) : x.le z = true := by
  unfold le at *
  cases hx : x.value <;> cases hy : y.value <;> cases hz : z.value <;> simp_all
  case finite.finite.finite => exact hxy.trans hyz
  all_goals grind

/-- Numbers are in order one way or the other. -/
theorem lt_eq_not_le (hx : x.value ≠ .nan) (hy : y.value ≠ .nan) : x.lt y = !y.le x := by
  unfold lt le
  cases hvx : x.value <;> cases hvy : y.value <;> simp_all [Bool.and_comm]
  case finite.finite p q =>
    rcases lt_or_ge p q with h | h
    · simp [h, not_le.mpr h]
    · simp [h, not_lt.mpr h]

end Order

/-! ## Exponent and significand of a quotient -/

section Quotient

variable {n d n' d' c : ℕ} {k : ℤ}

theorem divNearest_scale (hc : 0 < c) : divNearest (n * c) (d * c) = divNearest n d := by
  have hlt : 2 * (n % d * c) < d * c ↔ 2 * (n % d) < d := by
    rw [← mul_assoc]
    exact Nat.mul_lt_mul_right hc
  have hgt : d * c < 2 * (n % d * c) ↔ d < 2 * (n % d) := by
    rw [← mul_assoc]
    exact Nat.mul_lt_mul_right hc
  simp only [divNearest, Nat.mul_div_mul_right _ _ hc, Nat.mul_mod_mul_right, hlt, gt_iff_lt, hgt]

/-- Rounding to integers keeps the order of quotients. -/
theorem divNearest_le_divNearest (hd : 0 < d) (hd' : 0 < d') (h : n * d' ≤ n' * d) :
    divNearest n d ≤ divNearest n' d' := by
  calc divNearest n d = divNearest (n * d') (d * d') := (divNearest_scale hd').symm
    _ ≤ divNearest (n' * d) (d * d') := divNearest_mono _ h
    _ = divNearest (n' * d) (d' * d) := by rw [mul_comm d d']
    _ = divNearest n' d' := divNearest_scale hd

/-- The comparison `binade` makes in integers. -/
theorem below_iff (hd : d ≠ 0) (e : ℤ) :
    (if 0 ≤ e then decide (n < d * 2 ^ e.toNat) else decide (n * 2 ^ (-e).toNat < d)) = true ↔
      (n : ℚ) / d < 2 ^ e := by
  have hpos : (0 : ℚ) < d := by exact_mod_cast Nat.pos_of_ne_zero hd
  rw [div_lt_iff₀ hpos]
  split <;> rw [decide_eq_true_eq]
  · rename_i he
    obtain ⟨j, rfl⟩ := Int.eq_ofNat_of_zero_le he
    rw [Int.toNat_natCast, zpow_natCast, mul_comm]
    norm_cast
  · rename_i he
    obtain ⟨j, hj⟩ := Int.eq_ofNat_of_zero_le (show 0 ≤ -e by omega)
    obtain rfl : e = -(j : ℤ) := by omega
    rw [neg_neg, Int.toNat_natCast, zpow_neg, zpow_natCast, inv_mul_eq_div,
      lt_div_iff₀ (by positivity)]
    norm_cast

/-- A positive integer lies in the binade of its logarithm. -/
theorem log2_spec (hn : n ≠ 0) :
    (2 : ℚ) ^ (Nat.log2 n : ℤ) ≤ n ∧ (n : ℚ) < 2 ^ ((Nat.log2 n : ℤ) + 1) := by
  have hlo : 2 ^ Nat.log2 n ≤ n := Nat.log2_self_le hn
  have hhi : n < 2 ^ (Nat.log2 n + 1) := Nat.lt_log2_self
  constructor
  · rw [zpow_natCast]
    exact_mod_cast hlo
  · rw [← Nat.cast_succ, zpow_natCast]
    exact_mod_cast hhi

/-- The exponent of a positive quotient. -/
theorem binade_spec (hn : n ≠ 0) (hd : d ≠ 0) :
    (2 : ℚ) ^ binade n d ≤ (n : ℚ) / d ∧ (n : ℚ) / d < 2 ^ (binade n d + 1) := by
  obtain ⟨hn1, hn2⟩ := log2_spec hn
  obtain ⟨hd1, hd2⟩ := log2_spec hd
  have hpos : (0 : ℚ) < d := by exact_mod_cast Nat.pos_of_ne_zero hd
  have htwo : (2 : ℚ) ≠ 0 := by norm_num
  -- the two logarithms leave two binades
  have hlo : (2 : ℚ) ^ ((Nat.log2 n : ℤ) - Nat.log2 d - 1) ≤ (n : ℚ) / d := by
    rw [le_div_iff₀ hpos]
    calc (2 : ℚ) ^ ((Nat.log2 n : ℤ) - Nat.log2 d - 1) * d
        ≤ 2 ^ ((Nat.log2 n : ℤ) - Nat.log2 d - 1) * 2 ^ ((Nat.log2 d : ℤ) + 1) := by gcongr
      _ = 2 ^ (Nat.log2 n : ℤ) := by rw [← zpow_add₀ htwo]; congr 1; ring
      _ ≤ n := hn1
  have hhi : (n : ℚ) / d < 2 ^ ((Nat.log2 n : ℤ) - Nat.log2 d + 1) := by
    rw [div_lt_iff₀ hpos]
    calc (n : ℚ) < 2 ^ ((Nat.log2 n : ℤ) + 1) := hn2
      _ = 2 ^ ((Nat.log2 n : ℤ) - Nat.log2 d + 1) * 2 ^ (Nat.log2 d : ℤ) := by
          rw [← zpow_add₀ htwo]; congr 1; ring
      _ ≤ 2 ^ ((Nat.log2 n : ℤ) - Nat.log2 d + 1) * d := by gcongr
  have hbelow := below_iff (n := n) hd ((Nat.log2 n : ℤ) - Nat.log2 d)
  unfold binade
  by_cases h : (n : ℚ) / d < 2 ^ ((Nat.log2 n : ℤ) - Nat.log2 d)
  · simp only [hbelow.mpr h, if_true]
    exact ⟨hlo, by rwa [sub_add_cancel]⟩
  · simp only [mt hbelow.mp h]
    exact ⟨not_lt.mp h, hhi⟩

/-- The multiple of `2 ^ k` nearest to `n / d`, divided by `2 ^ k`. -/
def significand (n d : ℕ) (k : ℤ) : ℕ :=
  if 0 ≤ k then divNearest n (d * 2 ^ k.toNat) else divNearest (n * 2 ^ (-k).toNat) d

/-- It is the integer nearest to a quotient. -/
theorem significand_eq (hd : d ≠ 0) (k : ℤ) : ∃ N D, 0 < D ∧ significand n d k = divNearest N D ∧
    (N : ℚ) / D = (n : ℚ) / d / 2 ^ k := by
  have hpos := Nat.pos_of_ne_zero hd
  unfold significand
  split
  · rename_i hk
    obtain ⟨j, rfl⟩ := Int.eq_ofNat_of_zero_le hk
    refine ⟨_, _, by positivity, rfl, ?_⟩
    rw [Int.toNat_natCast, zpow_natCast, div_div]
    push_cast
    rfl
  · rename_i hk
    obtain ⟨j, hj⟩ := Int.eq_ofNat_of_zero_le (show 0 ≤ -k by omega)
    obtain rfl : k = -(j : ℤ) := by omega
    refine ⟨_, _, hpos, rfl, ?_⟩
    rw [neg_neg, Int.toNat_natCast, zpow_neg, zpow_natCast, div_inv_eq_mul]
    push_cast
    ring

theorem significand_mono (hd : d ≠ 0) (hd' : d' ≠ 0) (k : ℤ)
    (h : (n : ℚ) / d ≤ (n' : ℚ) / d') : significand n d k ≤ significand n' d' k := by
  obtain ⟨N, D, hD, heq, hval⟩ := significand_eq (n := n) hd k
  obtain ⟨N', D', hD', heq', hval'⟩ := significand_eq (n := n') hd' k
  have hle : (N : ℚ) / D ≤ N' / D' := by
    rw [hval, hval']
    gcongr
  rw [div_le_div_iff₀ (by exact_mod_cast hD) (by exact_mod_cast hD')] at hle
  rw [heq, heq']
  exact divNearest_le_divNearest hD hD' (by exact_mod_cast hle)

theorem le_significand (hd : d ≠ 0) (h : (c : ℚ) * 2 ^ k ≤ (n : ℚ) / d) :
    c ≤ significand n d k := by
  obtain ⟨N, D, hD, heq, hval⟩ := significand_eq (n := n) hd k
  have hle : (c : ℚ) ≤ N / D := by
    rw [hval, le_div_iff₀ (by positivity)]
    exact h
  rw [le_div_iff₀ (by exact_mod_cast hD)] at hle
  rw [heq]
  exact le_divNearest hD (by exact_mod_cast hle)

theorem significand_le (hd : d ≠ 0) (h : (n : ℚ) / d ≤ (c : ℚ) * 2 ^ k) :
    significand n d k ≤ c := by
  obtain ⟨N, D, hD, heq, hval⟩ := significand_eq (n := n) hd k
  have hle : (N : ℚ) / D ≤ c := by
    rw [hval, div_le_iff₀ (by positivity)]
    exact h
  rw [div_le_iff₀ (by exact_mod_cast hD)] at hle
  rw [heq]
  exact divNearest_le hD (by exact_mod_cast hle)

end Quotient

/-! ## Words -/

section Words

variable {n d n' d' : ℕ}

/-- The exponent of the word, subnormal ones raised to the least. -/
def exponentOf (n d : ℕ) : ℤ := max (binade n d) (-1022)

/-- The word from exponent and significand, normal or not. -/
theorem magnitudeBits_eq (hn : n ≠ 0) : magnitudeBits n d
    = min ((exponentOf n d + 1022).toNat * 2 ^ 52 + significand n d (exponentOf n d - 52))
        (2047 * 2 ^ 52) := by
  unfold magnitudeBits
  rw [if_neg hn]
  by_cases hsub : binade n d < -1022
  · have he : exponentOf n d = -1022 := max_eq_right hsub.le
    have hmax : max (binade n d) (-1022) = -1022 := max_eq_right hsub.le
    have hzero : ((-1022 : ℤ) + 1022).toNat = 0 := rfl
    simp only [hsub, he, hmax, decide_true, if_true, hzero, Nat.zero_mul, Nat.zero_add]
    rfl
  · simp only [hsub, decide_false, Bool.false_eq_true, if_false]
    rfl

/-- **A larger quotient never has a smaller word.** -/
theorem magnitudeBits_mono (hd : d ≠ 0) (hd' : d' ≠ 0) (h : (n : ℚ) / d ≤ (n' : ℚ) / d') :
    magnitudeBits n d ≤ magnitudeBits n' d' := by
  by_cases hn : n = 0
  · simp [magnitudeBits, hn]
  have hpos : (0 : ℚ) < (n : ℚ) / d := by
    have := Nat.pos_of_ne_zero hn
    have := Nat.pos_of_ne_zero hd
    positivity
  have hn' : n' ≠ 0 := by
    rintro rfl
    simp at h
    linarith
  obtain ⟨hlo, hhi⟩ := binade_spec hn hd
  obtain ⟨hlo', hhi'⟩ := binade_spec hn' hd'
  have hbinade : binade n d ≤ binade n' d' := by
    have hlt : (2 : ℚ) ^ binade n d < 2 ^ (binade n' d' + 1) := (hlo.trans h).trans_lt hhi'
    have := (zpow_lt_zpow_iff_right₀ (by norm_num : (1 : ℚ) < 2)).mp hlt
    omega
  rw [magnitudeBits_eq hn, magnitudeBits_eq hn']
  refine min_le_min_right _ ?_
  rcases eq_or_lt_of_le (show exponentOf n d ≤ exponentOf n' d' from max_le_max_right _ hbinade)
    with heq | hlt
  · rw [heq]
    exact Nat.add_le_add_left (significand_mono hd hd' _ h) _
  · -- a significand is at most the first one of the next binade
    have htwo : (2 : ℚ) ≠ 0 := by norm_num
    have hupper : significand n d (exponentOf n d - 52) ≤ 2 ^ 53 := by
      refine significand_le hd (hhi.le.trans ?_)
      have hle : (2 : ℚ) ^ (binade n d + 1) ≤ 2 ^ (exponentOf n d + 1) :=
        zpow_le_zpow_right₀ (by norm_num) (by unfold exponentOf; omega)
      refine hle.trans (le_of_eq ?_)
      rw [show exponentOf n d + 1 = 53 + (exponentOf n d - 52) by ring, zpow_add₀ htwo]
      norm_num
    have hlower : 2 ^ 52 ≤ significand n' d' (exponentOf n' d' - 52) := by
      refine le_significand hd' (le_trans (le_of_eq ?_) hlo')
      have hnormal : exponentOf n' d' = binade n' d' := by
        unfold exponentOf at hlt ⊢
        omega
      rw [hnormal, show binade n' d' = 52 + (binade n' d' - 52) by ring, zpow_add₀ htwo]
      norm_num
    have hstep : (exponentOf n d + 1022).toNat + 1 ≤ (exponentOf n' d' + 1022).toNat := by
      unfold exponentOf at *
      omega
    omega

/-- What the word of a positive double stands for. -/
def magnitude (b : ℕ) : ℚ :=
  if b / 2 ^ 52 = 0 then ((b % 2 ^ 52 : ℕ) : ℚ) * 2 ^ (-1074 : ℤ)
  else ((2 ^ 52 + b % 2 ^ 52 : ℕ) : ℚ) * 2 ^ (((b / 2 ^ 52 : ℕ) : ℤ) - 1075)

/-- Words in order have magnitudes in order. -/
theorem magnitude_mono : Monotone magnitude := by
  refine monotone_nat_of_le_succ (fun b => ?_)
  have htwo : (2 : ℚ) ≠ 0 := by norm_num
  by_cases hcarry : b % 2 ^ 52 = 2 ^ 52 - 1
  · -- the next word begins a binade
    have hdiv : (b + 1) / 2 ^ 52 = b / 2 ^ 52 + 1 := by omega
    have hmod : (b + 1) % 2 ^ 52 = 0 := by omega
    unfold magnitude
    rw [hdiv, hmod, hcarry, if_neg (Nat.succ_ne_zero _)]
    split
    · rename_i hzero
      rw [hzero]
      norm_num
    · rw [show ((b / 2 ^ 52 + 1 : ℕ) : ℤ) - 1075 = ((b / 2 ^ 52 : ℕ) : ℤ) - 1075 + 1 by
        push_cast; ring, zpow_add₀ htwo, ← mul_assoc, mul_right_comm]
      gcongr
      norm_num
  · have hdiv : (b + 1) / 2 ^ 52 = b / 2 ^ 52 := by omega
    have hmod : (b + 1) % 2 ^ 52 = b % 2 ^ 52 + 1 := by omega
    unfold magnitude
    rw [hdiv, hmod]
    split <;> gcongr <;> omega

theorem value_word {b : ℕ} (hb : b ≤ 2047 * 2 ^ 52) : (withSign false b).value
    = if b = 2047 * 2 ^ 52 then .infinite false else .finite (magnitude b) := by
  generalize hx : withSign false b = x
  have hbits : x.bits.toNat = b := by
    rw [← hx]
    simp only [withSign, Bool.false_eq_true, if_false, UInt64.toNat_ofNat']
    omega
  have hneg : x.negative = false := by
    simp only [negative, hbits, decide_eq_false_iff_not]
    omega
  have hexp : x.exponentField = b / 2 ^ 52 := by
    simp only [exponentField, hbits]
    omega
  have hfrac : x.fractionField = b % 2 ^ 52 := by rw [fractionField, hbits]
  unfold value magnitude
  simp only [hexp, hfrac, hneg, scale_eq, Bool.false_eq_true, if_false]
  by_cases htop : b = 2047 * 2 ^ 52
  · rw [if_pos htop, if_pos (by omega), if_pos (by omega)]
  · rw [if_neg htop, if_neg (by omega)]

/-- Positive doubles are in the order of their words. -/
theorem le_withSign {a b : ℕ} (hab : a ≤ b) (hb : b ≤ 2047 * 2 ^ 52) :
    (withSign false a).le (withSign false b) = true := by
  unfold le
  rw [value_word hb, value_word (hab.trans hb)]
  by_cases htop : b = 2047 * 2 ^ 52
  · by_cases hlow : a = 2047 * 2 ^ 52
    · rw [if_pos htop, if_pos hlow]
      rfl
    · rw [if_pos htop, if_neg hlow]
      rfl
  · have hlow : a ≠ 2047 * 2 ^ 52 := by omega
    simp only [if_neg htop, if_neg hlow]
    exact decide_eq_true (magnitude_mono hab)

/-- Rounding gives a number or an infinity. -/
theorem magnitudeBits_le (n d : ℕ) : magnitudeBits n d ≤ 2047 * 2 ^ 52 := by
  by_cases hn : n = 0
  · simp [magnitudeBits, hn]
  · rw [magnitudeBits_eq hn]
    exact min_le_right _ _

theorem value_round_ne_nan (s : Bool) (q : ℚ) : (round s q).value ≠ .nan := by
  have hword := magnitudeBits_le q.num.natAbs q.den
  unfold round
  generalize magnitudeBits q.num.natAbs q.den = b at hword
  generalize hx : withSign s b = x
  have hbits : x.bits.toNat % 2 ^ 63 = b := by
    rw [← hx]
    cases s <;> simp only [withSign, Bool.false_eq_true, if_false, if_true, UInt64.toNat_ofNat'] <;>
      omega
  unfold value
  split
  · rename_i htop
    have hfrac : x.fractionField = 0 := by
      unfold exponentField at htop
      unfold fractionField
      omega
    rw [if_pos hfrac]
    exact Value.noConfusion
  · exact Value.noConfusion

/-- **Rounding keeps order.** -/
theorem round_mono {q r : ℚ} (hq : 0 ≤ q) (h : q ≤ r) :
    (round false q).le (round false r) = true := by
  have hfraction : ∀ {x : ℚ}, 0 ≤ x → ((x.num.natAbs : ℕ) : ℚ) / x.den = x := by
    intro x hx
    have hnum : ((x.num.natAbs : ℕ) : ℤ) = x.num := Int.natAbs_of_nonneg (Rat.num_nonneg.mpr hx)
    rw [← Int.cast_natCast, hnum]
    exact Rat.num_div_den x
  refine le_withSign (magnitudeBits_mono q.den_nz r.den_nz ?_) (magnitudeBits_le _ _)
  rw [hfraction hq, hfraction (hq.trans h)]
  exact h

/-- The quotient of two integers is rounded three times. -/
theorem div_ofUInt64 (a : UInt64) {m : UInt64} (hm : m ≠ 0) :
    (nearest m.toNat : ℚ) ≠ 0 ∧ (ofUInt64 a).div (ofUInt64 m)
      = round false ((nearest a.toNat : ℚ) / nearest m.toNat) := by
  have hpos : 0 < nearest m.toNat := by
    rw [nearest_pos_iff]
    exact Nat.pos_of_ne_zero (fun hz => hm (UInt64.toNat_inj.mp hz))
  have hne : (nearest m.toNat : ℚ) ≠ 0 := by exact_mod_cast hpos.ne'
  refine ⟨hne, ?_⟩
  simp only [div, value_ofUInt64, negative_ofUInt64, if_neg hne]
  rfl

/-- It is monotone in its numerator. -/
theorem div_ofUInt64_mono {a b m : UInt64} (hm : m ≠ 0) (h : a.toNat ≤ b.toNat) :
    ((ofUInt64 a).div (ofUInt64 m)).le ((ofUInt64 b).div (ofUInt64 m)) = true := by
  have hnum : (nearest a.toNat : ℚ) ≤ nearest b.toNat := by exact_mod_cast nearest_mono h
  rw [(div_ofUInt64 a hm).2, (div_ofUInt64 b hm).2]
  refine round_mono (by positivity) ?_
  gcongr

/-- An integer is the whole of itself. -/
theorem div_ofUInt64_self {m : UInt64} (hm : m ≠ 0) :
    (ofUInt64 m).div (ofUInt64 m) = round false 1 := by
  obtain ⟨hne, heq⟩ := div_ofUInt64 m hm
  rw [heq, div_self hne]

end Words

end GpuMemoryService.Lib.Binary64
