/-
GpuMemoryService.Lib.Crc — the reflected 32-bit cyclic redundancy check,
bit by bit, and which corruptions it detects.

The register takes one step per bit, `crcBit`. The step is linear over
exclusive or, and it is injective when the polynomial has its top bit: that
bit of the result tells which bit was shifted out. A byte is added to the
low end of the register before its eight steps; since eight steps undo a
shift by eight places, up to four bytes act as one word that is added
before all their steps (`crcRegister_eq_word`). Two facts follow for inputs
of every length: different registers stay different under the same bytes,
and one register is taken apart by different bytes of one length up to
four. Together they say that a burst of up to four bytes always changes the
register (`crcRegister_burst`).

A message followed by its own checksum, low byte first, leaves a register
that does not depend on the message (`crcRegister_residue`). So two such
messages of one length never differ only inside a window of four bytes,
wherever it lies (`crc_burst`).
-/
import GpuMemoryService.Lib.Bytes

namespace GpuMemoryService.Lib

/-- One step of the register. -/
def crcBit (poly crc : UInt32) : UInt32 := (crc >>> 1) ^^^ (poly &&& (0 - (crc &&& 1)))

/-- A byte: added at the low end, then eight steps. -/
def crcByte (poly crc : UInt32) (b : UInt8) : UInt32 := (crcBit poly)^[8] (crc ^^^ b.toUInt32)

/-- The register after the data. -/
def crcRegister (poly crc : UInt32) (data : List UInt8) : UInt32 := data.foldl (crcByte poly) crc

/-- The checksum: start and end with the complement. -/
def crc (poly : UInt32) (data : List UInt8) : UInt32 :=
  crcRegister poly 0xFFFFFFFF data ^^^ 0xFFFFFFFF

section Step

variable {poly : UInt32}

/-- The bit that is shifted out decides whether the polynomial is added. -/
theorem toBitVec_crcBit (poly x : UInt32) :
    (crcBit poly x).toBitVec
      = (x.toBitVec >>> 1) ^^^ (if x.toBitVec.getLsbD 0 then poly.toBitVec else 0) := by
  have hmask : 0 - (x.toBitVec &&& 1#32) = if x.toBitVec.getLsbD 0 then 0xFFFFFFFF#32 else 0#32 := by
    rw [BitVec.and_one_eq_setWidth_ofBool_getLsbD]
    cases x.toBitVec.getLsbD 0 <;> rfl
  have hstep : (crcBit poly x).toBitVec
      = (x.toBitVec >>> 1) ^^^ (poly.toBitVec &&& (0 - (x.toBitVec &&& 1#32))) := by
    simp [crcBit]
  rw [hstep, hmask]
  split
  · congr 1
    exact BitVec.and_allOnes
  · simp

@[simp] theorem crcBit_zero : crcBit poly 0 = 0 := by
  apply UInt32.toBitVec_inj.mp
  rw [toBitVec_crcBit]
  simp

/-- **The step is linear.** -/
theorem crcBit_xor (x y : UInt32) : crcBit poly (x ^^^ y) = crcBit poly x ^^^ crcBit poly y := by
  apply UInt32.toBitVec_inj.mp
  rw [UInt32.toBitVec_xor, toBitVec_crcBit, toBitVec_crcBit, toBitVec_crcBit, UInt32.toBitVec_xor,
    BitVec.getLsbD_xor, BitVec.ushiftRight_xor_distrib]
  generalize x.toBitVec >>> 1 = x', y.toBitVec >>> 1 = y', poly.toBitVec = p
  cases x.toBitVec.getLsbD 0 <;> cases y.toBitVec.getLsbD 0
  · simp
  · show x' ^^^ y' ^^^ p = x' ^^^ 0 ^^^ (y' ^^^ p)
    simp [BitVec.xor_assoc]
  · show x' ^^^ y' ^^^ p = x' ^^^ p ^^^ (y' ^^^ 0)
    simp only [BitVec.ofNat_eq_ofNat, BitVec.xor_zero]
    ac_rfl
  · have hcancel : x' ^^^ p ^^^ (y' ^^^ p) = x' ^^^ y' ^^^ (p ^^^ p) := by ac_rfl
    show x' ^^^ y' ^^^ 0 = x' ^^^ p ^^^ (y' ^^^ p)
    rw [hcancel, BitVec.xor_self]
    rfl

/-- A step that shifts out a 0 only shifts. -/
theorem crcBit_of_even {x : UInt32} (h : x.toNat % 2 = 0) : crcBit poly x = x >>> 1 := by
  apply UInt32.toBitVec_inj.mp
  have hbit : x.toBitVec.getLsbD 0 = false := by
    rw [BitVec.getLsbD, Nat.testBit_zero]
    simpa using h
  rw [toBitVec_crcBit, hbit]
  simp

theorem crcBit_iterate_xor (n : Nat) (x y : UInt32) :
    (crcBit poly)^[n] (x ^^^ y) = (crcBit poly)^[n] x ^^^ (crcBit poly)^[n] y := by
  induction n generalizing x y with
  | zero => rfl
  | succ n ih => simp only [Function.iterate_succ_apply, crcBit_xor, ih]

/-- **The step is injective** when the polynomial has its top bit. -/
theorem crcBit_injective (htop : poly.toBitVec.getLsbD 31 = true) :
    Function.Injective (crcBit poly) := by
  intro x y h
  have hbits := congrArg UInt32.toBitVec h
  rw [toBitVec_crcBit, toBitVec_crcBit] at hbits
  -- the top bit of the result is the bit shifted out
  have hout : x.toBitVec.getLsbD 0 = y.toBitVec.getLsbD 0 := by
    have htopBit := congrArg (fun v => BitVec.getLsbD v 31) hbits
    simp only [BitVec.getLsbD_xor, BitVec.getLsbD_ushiftRight] at htopBit
    revert htopBit
    cases x.toBitVec.getLsbD 0 <;> cases y.toBitVec.getLsbD 0 <;> simp [htop]
  rw [hout] at hbits
  have hshift : x.toBitVec >>> 1 = y.toBitVec >>> 1 := by simpa using hbits
  apply UInt32.toBitVec_inj.mp
  apply BitVec.eq_of_getLsbD_eq
  intro i hi
  cases i with
  | zero => exact hout
  | succ i =>
      have hbit := congrArg (fun v => BitVec.getLsbD v i) hshift
      simpa [BitVec.getLsbD_ushiftRight, Nat.add_comm 1] using hbit

/-- Eight steps undo a shift by eight places. -/
theorem crcBit_iterate_shift {w : UInt32} (n : Nat) (hn : n ≤ 8) (h : w.toNat < 2 ^ 24) :
    (crcBit poly)^[n] (UInt32.ofNat (w.toNat * 2 ^ n)) = w := by
  induction n with
  | zero => simp
  | succ n ih =>
      have hpow : 2 ^ (n + 1) ≤ 2 ^ 8 := Nat.pow_le_pow_right (by omega) hn
      have hlt : w.toNat * 2 ^ (n + 1) < 2 ^ 32 :=
        calc w.toNat * 2 ^ (n + 1) < 2 ^ 24 * 2 ^ (n + 1) :=
              Nat.mul_lt_mul_of_pos_right h (Nat.two_pow_pos _)
          _ ≤ 2 ^ 24 * 2 ^ 8 := Nat.mul_le_mul_left _ hpow
          _ = 2 ^ 32 := rfl
      have hnat : (UInt32.ofNat (w.toNat * 2 ^ (n + 1))).toNat = w.toNat * 2 ^ (n + 1) := by
        rw [UInt32.toNat_ofNat']
        exact Nat.mod_eq_of_lt hlt
      have hhalf : w.toNat * 2 ^ (n + 1) = w.toNat * 2 ^ n * 2 := by ring
      have hstep : crcBit poly (UInt32.ofNat (w.toNat * 2 ^ (n + 1)))
          = UInt32.ofNat (w.toNat * 2 ^ n) := by
        rw [crcBit_of_even (by rw [hnat, hhalf]; omega)]
        apply UInt32.toNat_inj.mp
        have hone : (1 : UInt32).toNat % 32 = 1 := rfl
        rw [UInt32.toNat_shiftRight, hnat, hone, Nat.shiftRight_one, hhalf, UInt32.toNat_ofNat',
          Nat.mod_eq_of_lt (by omega)]
        omega
      rw [Function.iterate_succ_apply, hstep, ih (by omega)]

end Step

/-! ## Bytes -/

/-- A byte below a word that is shifted up by eight places. -/
theorem xor_shifted (b : UInt8) {w : Nat} :
    b.toNat ^^^ (w * 256) = b.toNat + 256 * w := by
  apply Nat.eq_of_testBit_eq
  intro i
  have hb := b.toNat_lt
  rw [Nat.testBit_xor, Nat.add_comm b.toNat, show w * 256 = 2 ^ 8 * w by ring,
    show 256 * w = 2 ^ 8 * w by ring, Nat.testBit_two_pow_mul_add _ hb, Nat.testBit_two_pow_mul]
  by_cases hi : i < 8
  · simp [hi, show ¬ 8 ≤ i by omega]
  · have hhigh : b.toNat.testBit i = false :=
      Nat.testBit_lt_two_pow (Nat.lt_of_lt_of_le hb (Nat.pow_le_pow_right (by omega) (by omega)))
    simp [hi, hhigh, show 8 ≤ i by omega]

section Register

variable {poly : UInt32}

theorem crcRegister_append (c : UInt32) (xs ys : List UInt8) :
    crcRegister poly c (xs ++ ys) = crcRegister poly (crcRegister poly c xs) ys :=
  List.foldl_append

/-- **Up to four bytes act as one word**, added before all their steps. -/
theorem crcRegister_eq_word (c : UInt32) (bs : List UInt8) (h : bs.length ≤ 4) :
    crcRegister poly c bs = (crcBit poly)^[8 * bs.length] (c ^^^ UInt32.ofNat (gather bs)) := by
  induction bs generalizing c with
  | nil => simp [crcRegister]
  | cons b bs ih =>
      rw [List.length_cons] at h
      have hlt : gather bs < 2 ^ 24 := by
        have hpow : (256 : Nat) ^ bs.length ≤ 256 ^ 3 := Nat.pow_le_pow_right (by omega) (by omega)
        exact lt_of_lt_of_le (gather_lt bs) hpow
      have hnat : (UInt32.ofNat (gather bs)).toNat = gather bs := by
        rw [UInt32.toNat_ofNat']
        exact Nat.mod_eq_of_lt (by omega)
      -- the later bytes, brought in front of the first eight steps
      have hback : (crcBit poly)^[8] (UInt32.ofNat ((UInt32.ofNat (gather bs)).toNat * 2 ^ 8))
          = UInt32.ofNat (gather bs) :=
        crcBit_iterate_shift 8 le_rfl (by rw [hnat]; exact hlt)
      have hword : UInt32.ofNat (gather (b :: bs))
          = b.toUInt32 ^^^ UInt32.ofNat (gather bs * 2 ^ 8) := by
        have hb := b.toNat_lt
        apply UInt32.toNat_inj.mp
        rw [UInt32.toNat_xor, UInt8.toNat_toUInt32, UInt32.toNat_ofNat', UInt32.toNat_ofNat',
          gather_cons, Nat.mod_eq_of_lt (by omega), Nat.mod_eq_of_lt (by omega)]
        exact (xor_shifted b).symm
      rw [hnat] at hback
      calc crcRegister poly c (b :: bs)
          = crcRegister poly ((crcBit poly)^[8] (c ^^^ b.toUInt32)) bs := rfl
        _ = (crcBit poly)^[8 * bs.length]
              ((crcBit poly)^[8] (c ^^^ b.toUInt32) ^^^ UInt32.ofNat (gather bs)) :=
            ih _ (by omega)
        _ = (crcBit poly)^[8 * bs.length] ((crcBit poly)^[8]
              (c ^^^ b.toUInt32 ^^^ UInt32.ofNat (gather bs * 2 ^ 8))) := by
            rw [crcBit_iterate_xor 8 (c ^^^ b.toUInt32), hback]
        _ = (crcBit poly)^[8 * (b :: bs).length] (c ^^^ UInt32.ofNat (gather (b :: bs))) := by
            rw [hword, ← Function.iterate_add_apply, List.length_cons, Nat.mul_add,
              UInt32.xor_assoc]

variable (htop : poly.toBitVec.getLsbD 31 = true)

include htop

/-- Different registers stay different under the same bytes. -/
theorem crcRegister_injective (bs : List UInt8) :
    Function.Injective (fun c => crcRegister poly c bs) := by
  induction bs with
  | nil => exact fun _ _ h => h
  | cons b bs ih =>
      intro x y h
      have hbyte : crcByte poly x b = crcByte poly y b := ih h
      have hxor := (crcBit_injective htop).iterate 8 hbyte
      simpa using hxor

/-- One register is taken apart by different bytes. -/
theorem crcRegister_window (c : UInt32) {us vs : List UInt8} (hlen : us.length = vs.length)
    (h4 : us.length ≤ 4) (h : crcRegister poly c us = crcRegister poly c vs) : us = vs := by
  rw [crcRegister_eq_word c us h4, crcRegister_eq_word c vs (by omega), hlen] at h
  have hword : UInt32.ofNat (gather us) = UInt32.ofNat (gather vs) := by
    have hxor := (crcBit_injective htop).iterate _ h
    simpa using hxor
  have hfit : ∀ bs : List UInt8, bs.length ≤ 4 → gather bs < 2 ^ 32 := by
    intro bs hbs
    have hpow : (256 : Nat) ^ bs.length ≤ 256 ^ 4 := Nat.pow_le_pow_right (by omega) hbs
    exact lt_of_lt_of_le (gather_lt bs) hpow
  have hgather : gather us = gather vs := by
    have hnat := congrArg UInt32.toNat hword
    rwa [UInt32.toNat_ofNat', UInt32.toNat_ofNat', Nat.mod_eq_of_lt (hfit us h4),
      Nat.mod_eq_of_lt (hfit vs (by omega))] at hnat
  rw [← spread_gather us, ← spread_gather vs, hlen, hgather]

/-- **A burst is detected.** Inputs that differ inside a window of up to four
bytes leave different registers. -/
theorem crcRegister_burst (c : UInt32) (pre post : List UInt8) {us vs : List UInt8}
    (hlen : us.length = vs.length) (h4 : us.length ≤ 4) (hne : us ≠ vs) :
    crcRegister poly c (pre ++ us ++ post) ≠ crcRegister poly c (pre ++ vs ++ post) := by
  intro h
  simp only [crcRegister_append] at h
  exact hne (crcRegister_window htop _ hlen h4 (crcRegister_injective htop post h))

omit htop

/-- **Residue.** Data followed by its checksum, low byte first, leaves a
register that does not depend on the data. -/
theorem crcRegister_residue (data : List UInt8) :
    crcRegister poly 0xFFFFFFFF (data ++ spread 4 (crc poly data).toNat)
      = (crcBit poly)^[32] 0xFFFFFFFF := by
  have hword : UInt32.ofNat (gather (spread 4 (crc poly data).toNat)) = crc poly data := by
    have hfit : (crc poly data).toNat % 256 ^ 4 = (crc poly data).toNat :=
      Nat.mod_eq_of_lt (crc poly data).toNat_lt
    rw [gather_spread, hfit, UInt32.ofNat_toNat]
  rw [crcRegister_append, crcRegister_eq_word _ _ (by simp), length_spread, hword, crc,
    ← UInt32.xor_assoc]
  simp

end Register

/-! ## Windows -/

/-- The lists are equal outside the `w` places from `i` on. -/
def AgreeOutside (i w : Nat) (xs ys : List UInt8) : Prop := ∀ j, j < i ∨ i + w ≤ j → xs[j]? = ys[j]?

namespace AgreeOutside

variable {i w : Nat} {xs ys : List UInt8}

theorem take_eq (h : AgreeOutside i w xs ys) : xs.take i = ys.take i := by
  apply List.ext_getElem?
  intro j
  rw [List.getElem?_take, List.getElem?_take]
  split
  · rename_i hj
    exact h j (.inl hj)
  · rfl

theorem drop_eq (h : AgreeOutside i w xs ys) : xs.drop (i + w) = ys.drop (i + w) := by
  apply List.ext_getElem?
  intro j
  rw [List.getElem?_drop, List.getElem?_drop]
  exact h _ (.inr (by omega))

/-- The window moves along when a front of equal length is taken off. -/
theorem drop (h : AgreeOutside i w xs ys) (n : Nat) :
    AgreeOutside (i - n) w (xs.drop n) (ys.drop n) := by
  intro j hj
  rw [List.getElem?_drop, List.getElem?_drop]
  exact h _ (by omega)

end AgreeOutside

theorem agreeOutside_set (xs : List UInt8) (i : Nat) (b : UInt8) :
    AgreeOutside i 1 (xs.set i b) xs := by
  intro j hj
  exact List.getElem?_set_ne (by omega)

/-- **Checksummed data** of one length that differs at most inside a window
of four bytes, the checksum included, is equal. -/
theorem crc_burst {poly : UInt32} (htop : poly.toBitVec.getLsbD 31 = true) {xs ys data data' : List UInt8}
    (hxs : xs = data ++ putU32 (crc poly data)) (hys : ys = data' ++ putU32 (crc poly data'))
    (hlen : xs.length = ys.length) {i w : Nat} (hw : w ≤ 4) (h : AgreeOutside i w xs ys) :
    xs = ys := by
  have hsplit : ∀ zs : List UInt8, zs.take i ++ (zs.drop i).take w ++ zs.drop (i + w) = zs := by
    intro zs
    rw [List.append_assoc, ← List.drop_drop, List.take_append_drop, List.take_append_drop]
  have hregister : crcRegister poly 0xFFFFFFFF xs = crcRegister poly 0xFFFFFFFF ys := by
    rw [hxs, hys]
    exact (crcRegister_residue data).trans (crcRegister_residue data').symm
  have hlength : ((xs.drop i).take w).length = ((ys.drop i).take w).length := by
    simp [hlen]
  have hshort : ((xs.drop i).take w).length ≤ 4 := le_trans (by simp) hw
  by_contra hne
  have hwindow : (xs.drop i).take w ≠ (ys.drop i).take w := by
    intro heq
    apply hne
    rw [← hsplit xs, ← hsplit ys, h.take_eq, h.drop_eq, heq]
  have hburst := crcRegister_burst htop 0xFFFFFFFF (xs.take i) (xs.drop (i + w)) hlength hshort hwindow
  rw [hsplit xs, h.take_eq, h.drop_eq, hsplit ys] at hburst
  exact hburst hregister

end GpuMemoryService.Lib
