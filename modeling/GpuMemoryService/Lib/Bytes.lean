/-
GpuMemoryService.Lib.Bytes — little-endian words and readers of byte
lists.

`spread w n` is the loop that writes `w` bytes of `n`, lowest first, and
`gather` the loop that puts bytes together again; they are inverse
(`gather_spread`, `spread_gather`).

A reader takes the bytes that are left and returns a value with the bytes
behind it. `Recognizes r E` says everything about a reader at once: it
succeeds with `a` exactly on the byte strings that start with an encoding
of `a`, where one value may have several encodings; `Inverts` is the case
of one encoding per value. Two rules compose it: `bind_iff` peels the first
reader off a sequence, in both directions, and `many` repeats a reader.
That a reader looks no further than what it consumes is
`Recognizes.append`. Bytes and little-endian words of 32 and 64 bits are
read by the inverse of what writes them.
-/
import Mathlib.Data.List.Forall2
import Mathlib.Tactic.Ring

namespace GpuMemoryService.Lib

/-! ## Words -/

/-- The lowest `w` bytes of `n`, lowest first. -/
def spread (w n : Nat) : List UInt8 :=
  (List.range w).map (fun i => UInt8.ofNat ((n >>> (8 * i)) &&& 0xFF))

/-- The number whose bytes these are, lowest first. -/
def gather (bs : List UInt8) : Nat :=
  bs.zipIdx.foldl (fun r e => r ||| e.1.toNat <<< (8 * e.2)) 0

@[simp] theorem length_spread (w n : Nat) : (spread w n).length = w := by simp [spread]

@[simp] theorem spread_zero (n : Nat) : spread 0 n = [] := rfl

theorem spread_succ (w n : Nat) : spread (w + 1) n = UInt8.ofNat n :: spread w (n / 256) := by
  have hbyte : ∀ m : Nat, UInt8.ofNat (m &&& 0xFF) = UInt8.ofNat m := by
    intro m
    apply UInt8.toNat_inj.mp
    have hmask : m &&& 0xFF = m % 2 ^ 8 := Nat.and_two_pow_sub_one_eq_mod m 8
    simp [hmask]
  have hshift : ∀ i, n >>> (8 * (i + 1)) = (n / 256) >>> (8 * i) := by
    intro i
    rw [Nat.mul_add, Nat.add_comm, Nat.shiftRight_add, Nat.shiftRight_eq_div_pow n]
  simp [spread, List.range_succ_eq_map, hbyte, hshift]

/-- The loop from position `k` on adds what it has not seen yet. -/
theorem foldl_gather (bs : List UInt8) (k r : Nat) (h : r < 2 ^ (8 * k)) :
    (bs.zipIdx k).foldl (fun r e => r ||| e.1.toNat <<< (8 * e.2)) r
      = r + 2 ^ (8 * k) * gather bs := by
  unfold gather
  induction bs generalizing k r with
  | nil => simp
  | cons b bs ih =>
      have hb := b.toNat_lt
      have hor : ∀ j s, s < 2 ^ (8 * j) → s ||| b.toNat <<< (8 * j) = s + b.toNat * 2 ^ (8 * j) := by
        intro j s hs
        rw [Nat.shiftLeft_eq, Nat.or_comm, Nat.mul_comm, ← Nat.two_pow_add_eq_or_of_lt hs]
        ring
      have hlt : ∀ j s, s < 2 ^ (8 * j) → s + b.toNat * 2 ^ (8 * j) < 2 ^ (8 * (j + 1)) := by
        intro j s hs
        have hscaled : (b.toNat + 1) * 2 ^ (8 * j) ≤ 256 * 2 ^ (8 * j) :=
          Nat.mul_le_mul_right _ (by omega)
        rw [Nat.add_mul] at hscaled
        rw [Nat.mul_add, Nat.pow_add]
        omega
      rw [List.zipIdx_cons, List.zipIdx_cons, List.foldl_cons, List.foldl_cons]
      dsimp only
      rw [hor k r h, ih (k + 1) _ (hlt k r h), hor 0 0 (by simp), ih (0 + 1) _ (hlt 0 0 (by simp)),
        Nat.mul_add, Nat.pow_add]
      ring

@[simp] theorem gather_nil : gather [] = 0 := rfl

theorem gather_cons (b : UInt8) (bs : List UInt8) :
    gather (b :: bs) = b.toNat + 256 * gather bs := by
  have hrest := foldl_gather bs 1 b.toNat b.toNat_lt
  show (bs.zipIdx 1).foldl _ (0 ||| b.toNat <<< (8 * 0)) = _
  simpa using hrest

theorem gather_lt (bs : List UInt8) : gather bs < 256 ^ bs.length := by
  induction bs with
  | nil => simp
  | cons b bs ih =>
      have hb := b.toNat_lt
      rw [gather_cons, List.length_cons, Nat.pow_succ]
      omega

/-- Reading what was written gives the number back. -/
theorem gather_spread (w n : Nat) : gather (spread w n) = n % 256 ^ w := by
  induction w generalizing n with
  | zero => simp [Nat.mod_one]
  | succ w ih =>
      rw [spread_succ, gather_cons, ih, Nat.pow_succ, Nat.mul_comm (256 ^ w), Nat.mod_mul]
      simp

/-- Writing what was read gives the bytes back. -/
theorem spread_gather (bs : List UInt8) : spread bs.length (gather bs) = bs := by
  induction bs with
  | nil => rfl
  | cons b bs ih =>
      have hb := b.toNat_lt
      have hbyte : UInt8.ofNat (gather (b :: bs)) = b := by
        apply UInt8.toNat_inj.mp
        rw [gather_cons, UInt8.toNat_ofNat']
        omega
      have hrest : gather (b :: bs) / 256 = gather bs := by
        rw [gather_cons]
        omega
      rw [List.length_cons, spread_succ, hbyte, hrest, ih]

/-! ## Readers -/

/-- What is left of the input, and the value read from its front. -/
abbrev Reader := StateT (List UInt8) Option

variable {α β : Type}

/-- Reads the next `n` bytes. -/
def takeBytes (n : Nat) : Reader (List UInt8) := fun bs =>
  if bs.length < n then none else some (bs.take n, bs.drop n)

/-- Reads `n` values, one after the other. -/
def many (r : Reader α) : Nat → Reader (List α)
  | 0 => pure []
  | n + 1 => do
      let a ← r
      let as ← many r n
      pure (a :: as)

/-- The reader succeeds exactly on the encodings `E` of its values. -/
def Recognizes (r : Reader α) (E : α → List UInt8 → Prop) : Prop :=
  ∀ bs a rest, r.run bs = some (a, rest) ↔ ∃ w, E a w ∧ bs = w ++ rest

theorem pure_run_eq_some {a b : α} {bs rest : List UInt8} :
    (pure a : Reader α).run bs = some (b, rest) ↔ b = a ∧ bs = rest := by
  simp [eq_comm]

theorem takeBytes_recognizes (n : Nat) : Recognizes (takeBytes n) (fun a w => w = a ∧ a.length = n) := by
  intro bs a rest
  show takeBytes n bs = _ ↔ _
  unfold takeBytes
  split
  · rename_i hlt
    simp only [reduceCtorEq, false_iff]
    rintro ⟨w, ⟨rfl, hlen⟩, rfl⟩
    simp at hlt
    omega
  · rename_i hge
    simp only [Option.some.injEq, Prod.mk.injEq]
    constructor
    · rintro ⟨rfl, rfl⟩
      exact ⟨_, ⟨rfl, by simp; omega⟩, by simp⟩
    · rintro ⟨w, ⟨rfl, hlen⟩, rfl⟩
      exact ⟨List.take_left' hlen, List.drop_left' hlen⟩

namespace Recognizes

variable {r : Reader α} {E : α → List UInt8 → Prop}

/-- Reading an encoding returns its value and what follows. -/
theorem run_append (h : Recognizes r E) {a : α} {w : List UInt8} (hw : E a w)
    (rest : List UInt8) : r.run (w ++ rest) = some (a, rest) :=
  (h _ _ _).mpr ⟨w, hw, rfl⟩

/-- What a reader returned it returns with more bytes behind as well. -/
theorem append (h : Recognizes r E) {bs rest : List UInt8} {a : α}
    (hr : r.run bs = some (a, rest)) (t : List UInt8) :
    r.run (bs ++ t) = some (a, rest ++ t) := by
  obtain ⟨w, hw, rfl⟩ := (h _ _ _).mp hr
  rw [List.append_assoc]
  exact h.run_append hw _

/-- **Sequencing.** A reader followed by others succeeds exactly if the
input starts with an encoding of some value and the others succeed behind
it. -/
theorem bind_iff (h : Recognizes r E) (f : α → Reader β) {bs : List UInt8}
    {x : β × List UInt8} :
    (r >>= f).run bs = some x ↔ ∃ a w rest, E a w ∧ bs = w ++ rest ∧ (f a).run rest = some x := by
  rw [StateT.run_bind]
  constructor
  · intro hx
    obtain ⟨⟨a, rest⟩, hr, hf⟩ := Option.bind_eq_some_iff.mp hx
    obtain ⟨w, hw, rfl⟩ := (h _ _ _).mp hr
    exact ⟨a, w, rest, hw, rfl, hf⟩
  · rintro ⟨a, w, rest, hw, rfl, hf⟩
    exact Option.bind_eq_some_iff.mpr ⟨(a, rest), h.run_append hw rest, hf⟩

/-- **Repetition.** -/
theorem many (h : Recognizes r E) (n : Nat) :
    Recognizes (many r n)
      (fun as w => as.length = n ∧ ∃ ws, List.Forall₂ E as ws ∧ w = ws.flatten) := by
  induction n with
  | zero =>
      intro bs as rest
      show (pure [] : Reader (List α)).run bs = _ ↔ _
      rw [pure_run_eq_some]
      constructor
      · rintro ⟨rfl, rfl⟩
        exact ⟨[], ⟨rfl, [], .nil, rfl⟩, rfl⟩
      · rintro ⟨w, ⟨hlen, ws, hws, rfl⟩, rfl⟩
        cases hws with
        | nil => exact ⟨rfl, rfl⟩
        | cons _ _ => simp at hlen
  | succ n ih =>
      intro bs as rest
      show (r >>= fun a => Lib.many r n >>= fun as => pure (a :: as)).run bs = _ ↔ _
      rw [h.bind_iff]
      constructor
      · rintro ⟨a, w, rest₁, hw, rfl, htail⟩
        obtain ⟨as', _, rest₂, ⟨hlen, ws, hws, rfl⟩, rfl, hpure⟩ := (ih.bind_iff _).mp htail
        obtain ⟨rfl, rfl⟩ := pure_run_eq_some.mp hpure
        exact ⟨w ++ ws.flatten, ⟨by simp [hlen], w :: ws, .cons hw hws, rfl⟩, by simp⟩
      · rintro ⟨_, ⟨hlen, ws, hws, rfl⟩, rfl⟩
        cases hws with
        | nil => simp at hlen
        | @cons a w as' ws' hw hws' =>
            refine ⟨a, w, ws'.flatten ++ rest, hw, by simp, (ih.bind_iff _).mpr ?_⟩
            exact ⟨as', ws'.flatten, rest, ⟨by simpa using hlen, ws', hws', rfl⟩, rfl,
              pure_run_eq_some.mpr ⟨rfl, rfl⟩⟩

end Recognizes

/-! ## One encoding per value -/

/-- The reader succeeds exactly on what `enc` writes. -/
def Inverts (r : Reader α) (enc : α → List UInt8) : Prop := Recognizes r (fun a w => w = enc a)

theorem Inverts.bind_iff {r : Reader α} {enc : α → List UInt8} (h : Inverts r enc)
    (f : α → Reader β) {bs : List UInt8} {x : β × List UInt8} :
    (r >>= f).run bs = some x ↔ ∃ a rest, bs = enc a ++ rest ∧ (f a).run rest = some x := by
  rw [Recognizes.bind_iff h]
  constructor
  · rintro ⟨a, w, rest, rfl, hbs, hf⟩
    exact ⟨a, rest, hbs, hf⟩
  · rintro ⟨a, rest, hbs, hf⟩
    exact ⟨a, enc a, rest, rfl, hbs, hf⟩

theorem Inverts.bind_append {r : Reader α} {enc : α → List UInt8} (h : Inverts r enc)
    (f : α → Reader β) (a : α) (rest : List UInt8) :
    (r >>= f).run (enc a ++ rest) = (f a).run rest := by
  rw [StateT.run_bind, Recognizes.run_append h rfl]
  rfl

/-- A fixed number of bytes, put together and taken apart again. -/
theorem inverts_word {w : Nat} {ofNat : Nat → α} {enc : α → List UInt8}
    (hread : ∀ bs : List UInt8, bs.length = w → enc (ofNat (gather bs)) = bs)
    (hwrite : ∀ a, (enc a).length = w ∧ ofNat (gather (enc a)) = a) :
    Inverts (takeBytes w >>= fun bs => pure (ofNat (gather bs))) enc := by
  intro bs a rest
  rw [(takeBytes_recognizes w).bind_iff]
  constructor
  · rintro ⟨_, bs', rest', ⟨rfl, hlen⟩, rfl, hpure⟩
    obtain ⟨rfl, rfl⟩ := pure_run_eq_some.mp hpure
    exact ⟨_, rfl, by rw [hread _ hlen]⟩
  · rintro ⟨_, rfl, rfl⟩
    exact ⟨enc a, enc a, rest, ⟨rfl, (hwrite a).1⟩, rfl,
      pure_run_eq_some.mpr ⟨(hwrite a).2.symm, rfl⟩⟩

def putU8 (v : UInt8) : List UInt8 := [v]

def putU32 (v : UInt32) : List UInt8 := spread 4 v.toNat

def putU64 (v : UInt64) : List UInt8 := spread 8 v.toNat

def getU8 : Reader UInt8 := do
  let w ← takeBytes 1
  pure (UInt8.ofNat (gather w))

def getU32 : Reader UInt32 := do
  let w ← takeBytes 4
  pure (UInt32.ofNat (gather w))

def getU64 : Reader UInt64 := do
  let w ← takeBytes 8
  pure (UInt64.ofNat (gather w))

@[simp] theorem length_putU8 (v : UInt8) : (putU8 v).length = 1 := rfl

@[simp] theorem length_putU32 (v : UInt32) : (putU32 v).length = 4 := length_spread 4 _

@[simp] theorem length_putU64 (v : UInt64) : (putU64 v).length = 8 := length_spread 8 _

theorem inverts_getU8 : Inverts getU8 putU8 := by
  refine inverts_word (fun bs hlen => ?_) (fun a => ?_)
  · obtain ⟨b, rfl⟩ := List.length_eq_one_iff.mp hlen
    simp [putU8, gather_cons]
  · simp [putU8, gather_cons]

theorem putU32_gather {bs : List UInt8} (hlen : bs.length = 4) :
    putU32 (UInt32.ofNat (gather bs)) = bs := by
  have hfit : gather bs < 2 ^ 32 := by
    have hlt := gather_lt bs
    rwa [hlen] at hlt
  rw [putU32, UInt32.toNat_ofNat', Nat.mod_eq_of_lt hfit, ← hlen, spread_gather]

theorem gather_putU32 (v : UInt32) : UInt32.ofNat (gather (putU32 v)) = v := by
  have hfit : v.toNat % 256 ^ 4 = v.toNat := Nat.mod_eq_of_lt v.toNat_lt
  rw [putU32, gather_spread, hfit, UInt32.ofNat_toNat]

theorem inverts_getU32 : Inverts getU32 putU32 :=
  inverts_word (fun _ hlen => putU32_gather hlen)
    (fun v => ⟨length_putU32 v, gather_putU32 v⟩)

theorem putU64_gather {bs : List UInt8} (hlen : bs.length = 8) :
    putU64 (UInt64.ofNat (gather bs)) = bs := by
  have hfit : gather bs < 2 ^ 64 := by
    have hlt := gather_lt bs
    rwa [hlen] at hlt
  rw [putU64, UInt64.toNat_ofNat', Nat.mod_eq_of_lt hfit, ← hlen, spread_gather]

theorem gather_putU64 (v : UInt64) : UInt64.ofNat (gather (putU64 v)) = v := by
  have hfit : v.toNat % 256 ^ 8 = v.toNat := Nat.mod_eq_of_lt v.toNat_lt
  rw [putU64, gather_spread, hfit, UInt64.ofNat_toNat]

theorem inverts_getU64 : Inverts getU64 putU64 :=
  inverts_word (fun _ hlen => putU64_gather hlen)
    (fun v => ⟨length_putU64 v, gather_putU64 v⟩)

end GpuMemoryService.Lib
