/-
GpuMemoryService.Lib.Binary64 — IEEE 754 binary64 by bit pattern, with
exact rational values and rounding to nearest, ties to even.

A double is its 64-bit word, so that a value stored and read back is the
same value, payloads of NaNs and the sign of zero included. Arithmetic
decodes the operands, computes in `ℚ` and rounds once; every NaN result is
the one quiet NaN, since the standard leaves the payload open.
-/
import Mathlib.Algebra.Order.Ring.Rat

namespace GpuMemoryService.Lib

structure Binary64 where
  bits : UInt64
deriving DecidableEq, Repr

namespace Binary64

/-- What a word stands for. -/
inductive Value where
  | nan
  | infinite (negative : Bool)
  | finite (q : ℚ)
deriving DecidableEq

def negative (x : Binary64) : Bool := decide (2 ^ 63 ≤ x.bits.toNat)

def exponentField (x : Binary64) : Nat := x.bits.toNat / 2 ^ 52 % 2 ^ 11

def fractionField (x : Binary64) : Nat := x.bits.toNat % 2 ^ 52

/-- `m * 2 ^ k`. -/
def scale (m : Nat) (k : Int) : ℚ :=
  if 0 ≤ k then ((m * 2 ^ k.toNat : Nat) : ℚ) else mkRat m (2 ^ (-k).toNat)

def value (x : Binary64) : Value :=
  if x.exponentField = 2047 then
    if x.fractionField = 0 then .infinite x.negative else .nan
  else
    let magnitude :=
      if x.exponentField = 0 then scale x.fractionField (-1074)
      else scale (2 ^ 52 + x.fractionField) (x.exponentField - 1075)
    .finite (if x.negative then -magnitude else magnitude)

def quietNaN : Binary64 := ⟨0x7FF8000000000000⟩

def withSign (negative : Bool) (magnitude : Nat) : Binary64 :=
  ⟨UInt64.ofNat (if negative then 2 ^ 63 + magnitude else magnitude)⟩

def infinity (negative : Bool) : Binary64 := withSign negative (2047 * 2 ^ 52)

def zero (negative : Bool) : Binary64 := withSign negative 0

/-- The integer nearest to `n / d`, ties to even. -/
def divNearest (n d : Nat) : Nat :=
  let q := n / d
  let r := n % d
  if 2 * r < d then q
  else if 2 * r > d then q + 1
  else if q % 2 = 0 then q else q + 1

/-- The exponent `e` with `2 ^ e ≤ n / d < 2 ^ (e + 1)`, for positive `n`, `d`. -/
def binade (n d : Nat) : Int :=
  let e : Int := (Nat.log2 n : Int) - Nat.log2 d
  let below : Bool := if 0 ≤ e then n < d * 2 ^ e.toNat else n * 2 ^ (-e).toNat < d
  if below then e - 1 else e

/-- The word of the magnitude nearest to `n / d`. A significand that rounds
up to the next binade carries into the exponent field by itself. -/
def magnitudeBits (n d : Nat) : Nat :=
  if n = 0 then 0
  else
    let e := max (binade n d) (-1022)
    let k := e - 52
    let m := if 0 ≤ k then divNearest n (d * 2 ^ k.toNat) else divNearest (n * 2 ^ (-k).toNat) d
    let subnormal : Bool := binade n d < -1022
    min (if subnormal then m else (e + 1022).toNat * 2 ^ 52 + m) (2047 * 2 ^ 52)

/-- Round a rational; the sign is given apart, for zeros. -/
def round (negative : Bool) (q : ℚ) : Binary64 :=
  withSign negative (magnitudeBits q.num.natAbs q.den)

/-- Conversion of an unsigned integer. -/
def ofUInt64 (n : UInt64) : Binary64 := round false n.toNat

def sub (x y : Binary64) : Binary64 :=
  match x.value, y.value with
  | .nan, _ => quietNaN
  | _, .nan => quietNaN
  | .infinite s, .infinite s' => if s = s' then quietNaN else infinity s
  | .infinite s, .finite _ => infinity s
  | .finite _, .infinite s => infinity (!s)
  | .finite p, .finite q =>
      if p = q then zero (x.negative && !y.negative) else round (decide (p < q)) (p - q)

def mul (x y : Binary64) : Binary64 :=
  let sign := x.negative != y.negative
  match x.value, y.value with
  | .nan, _ => quietNaN
  | _, .nan => quietNaN
  | .infinite _, .infinite _ => infinity sign
  | .infinite _, .finite q => if q = 0 then quietNaN else infinity sign
  | .finite p, .infinite _ => if p = 0 then quietNaN else infinity sign
  | .finite p, .finite q => round sign (p * q)

def div (x y : Binary64) : Binary64 :=
  let sign := x.negative != y.negative
  match x.value, y.value with
  | .nan, _ => quietNaN
  | _, .nan => quietNaN
  | .infinite _, .infinite _ => quietNaN
  | .infinite _, .finite _ => infinity sign
  | .finite _, .infinite _ => zero sign
  | .finite p, .finite q =>
      if q = 0 then (if p = 0 then quietNaN else infinity sign) else round sign (p / q)

def isNaN (x : Binary64) : Bool := x.value == .nan

def isInf (x : Binary64) : Bool :=
  match x.value with
  | .infinite _ => true
  | _ => false

/-- `x < y`; false when either is NaN. -/
def lt (x y : Binary64) : Bool :=
  match x.value, y.value with
  | .nan, _ => false
  | _, .nan => false
  | .infinite s, .infinite s' => s && !s'
  | .infinite s, .finite _ => s
  | .finite _, .infinite s => !s
  | .finite p, .finite q => decide (p < q)

/-- `x ≤ y`; false when either is NaN. -/
def le (x y : Binary64) : Bool :=
  match x.value, y.value with
  | .nan, _ => false
  | _, .nan => false
  | .infinite s, .infinite s' => s || !s'
  | .infinite s, .finite _ => s
  | .finite _, .infinite s => !s
  | .finite p, .finite q => decide (p ≤ q)

/-- Finite numbers compare by value. -/
theorem lt_finite {x y : Binary64} {q r : ℚ} (hx : x.value = .finite q) (hy : y.value = .finite r) :
    x.lt y = decide (q < r) := by
  simp [lt, hx, hy]

/-- What is below a number is not from it on. -/
theorem le_eq_false_of_lt {x y : Binary64} (h : x.lt y = true) : y.le x = false := by
  unfold lt at h
  unfold le
  cases hx : x.value with
  | nan => simp [hx] at h
  | infinite s =>
      cases hy : y.value with
      | nan => simp [hx, hy] at h
      | infinite s' => cases s <;> cases s' <;> simp_all
      | finite q => simp_all
  | finite p =>
      cases hy : y.value with
      | nan => simp [hx, hy] at h
      | infinite s' => simp_all
      | finite q =>
          simp only [hx, hy, decide_eq_true_eq] at h
          simpa using h

end Binary64

end GpuMemoryService.Lib
