/-
GpuMemoryService.Lib.Gaps — maximal runs of free positions.

`F` is a set of free positions. A `Stretch` is an interval of them, a `Gap`
one that cannot be extended, and `Longest F n` says that no stretch is
longer than `n` and one is that long.

The second half is about one move: an interval outside `F` is given back
and an interval inside a gap is taken instead. What is given back joins the
free positions on both sides (`Flanked.gap`), and that is the only new
stretch (`Moved.stretch`); what is taken breaks one gap. So the longest
stretch afterwards is bounded by the longest before and the joined one
(`Moved.longest_le`), and is no shorter than before exactly if the joined
one makes up for the broken gap or another gap is as long
(`Moved.keeps_iff`).

`Partitions.gap_iff` reads the gaps off a partition in canonical form.
-/
import Mathlib.Data.Set.Basic
import GpuMemoryService.Lib.Partition

namespace GpuMemoryService.Lib

/-! ## Stretches and gaps -/

/-- Every position of the interval is in `F`. -/
def Stretch (F : Set Nat) (lo n : Nat) : Prop := ∀ b, lo ≤ b → b < lo + n → b ∈ F

/-- A nonempty stretch that ends where `F` does, on both sides. -/
structure Gap (F : Set Nat) (lo n : Nat) : Prop where
  pos : 0 < n
  inside : Stretch F lo n
  left : ∀ b, b + 1 = lo → b ∉ F
  right : lo + n ∉ F

/-- The length of the longest stretch, 0 if there is no position. -/
structure Longest (F : Set Nat) (n : Nat) : Prop where
  attained : ∃ lo, Stretch F lo n
  bound : ∀ lo k, Stretch F lo k → k ≤ n

section Gaps

variable {F G : Set Nat} {lo n a k : Nat}

theorem Stretch.mono (h : Stretch F lo n) (hFG : ∀ b, b ∈ F → b ∈ G) : Stretch G lo n :=
  fun b hlo hhi => hFG b (h b hlo hhi)

/-- A stretch that shares a position with a gap lies inside it. -/
theorem Gap.contains (hgap : Gap F lo n) (hs : Stretch F a k) {b : Nat} (hab : a ≤ b)
    (hbk : b < a + k) (hlo : lo ≤ b) (hhi : b < lo + n) : lo ≤ a ∧ a + k ≤ lo + n := by
  constructor
  · by_contra hlt
    exact hgap.left (lo - 1) (by omega) (hs _ (by omega) (by omega))
  · by_contra hlt
    exact hgap.right (hs _ (by omega) (by omega))

/-- Two gaps that share a position are one. -/
theorem Gap.unique (hgap : Gap F lo n) (hgap' : Gap F a k) {b : Nat} (hlo : lo ≤ b)
    (hhi : b < lo + n) (hab : a ≤ b) (hbk : b < a + k) : lo = a ∧ n = k := by
  have h := hgap.contains hgap'.inside hab hbk hlo hhi
  have h' := hgap'.contains hgap.inside hlo hhi hab hbk
  omega

/-- A longest stretch is a gap. -/
theorem Longest.gap (h : Longest F n) (hpos : 0 < n) (hs : Stretch F lo n) : Gap F lo n where
  pos := hpos
  inside := hs
  left := by
    intro b hb hmem
    have hlonger : Stretch F b (n + 1) := by
      intro c hbc hc
      rcases Nat.eq_or_lt_of_le hbc with rfl | hlt
      · exact hmem
      · exact hs c (by omega) (by omega)
    have := h.bound b (n + 1) hlonger
    omega
  right := by
    intro hmem
    have hlonger : Stretch F lo (n + 1) := by
      intro c hlo hc
      rcases Nat.lt_or_ge c (lo + n) with hlt | hge
      · exact hs c hlo hlt
      · have hc' : c = lo + n := by omega
        rw [hc']
        exact hmem
    have := h.bound lo (n + 1) hlonger
    omega

end Gaps

/-! ## One move -/

/-- `[o, o + n)` is outside `F`, with `lft` positions of `F` just before it
and `rgt` just behind it. -/
structure Flanked (F : Set Nat) (o n lft rgt : Nat) : Prop where
  pos : 0 < n
  taken : ∀ b, o ≤ b → b < o + n → b ∉ F
  left_le : lft ≤ o
  left : Stretch F (o - lft) lft
  leftEnd : ∀ b, b + 1 = o - lft → b ∉ F
  right : Stretch F (o + n) rgt
  rightEnd : o + n + rgt ∉ F

/-- `F'` is `F` with `[o, o + n)` given back and `[t, t + k)` taken. -/
def Moved (F F' : Set Nat) (o n t k : Nat) : Prop :=
  ∀ b, b ∈ F' ↔ (b ∈ F ∨ (o ≤ b ∧ b < o + n)) ∧ ¬ (t ≤ b ∧ b < t + k)

/-- The target `[t, t + k)` is nonempty, inside the gap `[f, f + p)`, and
that gap does not touch `[o, o + n)`. -/
structure Target (F : Set Nat) (o n t k f p : Nat) : Prop where
  gap : Gap F f p
  pos : 0 < k
  lo : f ≤ t
  hi : t + k ≤ f + p
  left : f + p ≠ o
  right : f ≠ o + n

section Move

variable {F F' : Set Nat} {o n lft rgt t k f p : Nat}

/-- What is given back joins its flanks to one gap. -/
theorem Flanked.gap (h : Flanked F o n lft rgt) :
    Gap {b | b ∈ F ∨ (o ≤ b ∧ b < o + n)} (o - lft) (lft + n + rgt) where
  pos := by
    have := h.pos
    omega
  inside := by
    intro b hlo hhi
    have := h.left_le
    rcases Nat.lt_or_ge b o with hb | hb
    · exact Or.inl (h.left b hlo (by omega))
    · rcases Nat.lt_or_ge b (o + n) with hb' | hb'
      · exact Or.inr ⟨hb, hb'⟩
      · exact Or.inl (h.right b hb' (by omega))
  left := by
    rintro b hb (hmem | hmem)
    · exact h.leftEnd b hb hmem
    · omega
  right := by
    have := h.left_le
    have heq : o - lft + (lft + n + rgt) = o + n + rgt := by omega
    rw [heq]
    rintro (hmem | hmem)
    · exact h.rightEnd hmem
    · omega

/-- The target is outside the joined gap. -/
theorem Flanked.apart (h : Flanked F o n lft rgt) (ht : Target F o n t k f p) {b : Nat}
    (hlo : o - lft ≤ b) (hhi : b < o + n + rgt) : ¬ (t ≤ b ∧ b < t + k) := by
  rintro ⟨htb, hbt⟩
  have hle := h.left_le
  have hpos := h.pos
  have hlow := ht.lo
  have hhigh := ht.hi
  have hgap := ht.gap.pos
  have hmono : Stretch {b | b ∈ F ∨ (o ≤ b ∧ b < o + n)} f p :=
    ht.gap.inside.mono (fun b hb => Or.inl hb)
  obtain ⟨hl, hr⟩ := h.gap.contains hmono (b := b) (by omega) (by omega) hlo (by omega)
  have houtside : f + p ≤ o ∨ o + n ≤ f := by
    by_contra hno
    exact h.taken (max f o) (by omega) (by omega) (ht.gap.inside _ (by omega) (by omega))
  rcases houtside with hbefore | hbehind
  · have := ht.left
    exact ht.gap.right (h.left _ (by omega) (by omega))
  · have := ht.right
    exact ht.gap.left (f - 1) (by omega) (h.right _ (by omega) (by omega))

/-- The joined gap is free after the move. -/
theorem Moved.joined (hm : Moved F F' o n t k) (h : Flanked F o n lft rgt)
    (ht : Target F o n t k f p) : Stretch F' (o - lft) (lft + n + rgt) := by
  intro b hlo hhi
  have := h.left_le
  exact (hm b).mpr ⟨h.gap.inside b hlo hhi, h.apart ht hlo (by omega)⟩

/-- **A stretch after the move** was one before, or is part of the joined
gap. -/
theorem Moved.stretch (hm : Moved F F' o n t k) (h : Flanked F o n lft rgt) {a l : Nat}
    (hs : Stretch F' a l) : Stretch F a l ∨ l ≤ lft + n + rgt := by
  by_cases hshare : ∃ b, a ≤ b ∧ b < a + l ∧ o ≤ b ∧ b < o + n
  · obtain ⟨b, hab, hbl, hob, hbn⟩ := hshare
    have hmono : Stretch {b | b ∈ F ∨ (o ≤ b ∧ b < o + n)} a l :=
      hs.mono (fun b hb => ((hm b).mp hb).1)
    have hle := h.left_le
    have := h.gap.contains hmono hab hbl (by omega) (by omega)
    exact Or.inr (by omega)
  · refine Or.inl (fun b hab hbl => ?_)
    rcases ((hm b).mp (hs b hab hbl)).1 with hmem | hback
    · exact hmem
    · exact absurd ⟨b, hab, hbl, hback⟩ hshare

section Lengths

variable {before after : Nat}

theorem Moved.longest_le (hm : Moved F F' o n t k) (h : Flanked F o n lft rgt)
    (hb : Longest F before) (ha : Longest F' after) : after ≤ max before (lft + n + rgt) := by
  obtain ⟨lo, hlo⟩ := ha.attained
  rcases hm.stretch h hlo with hold | hjoined
  · exact le_trans (hb.bound lo after hold) (le_max_left _ _)
  · exact le_trans hjoined (le_max_right _ _)

theorem Moved.joined_le (hm : Moved F F' o n t k) (h : Flanked F o n lft rgt)
    (ht : Target F o n t k f p) (ha : Longest F' after) : lft + n + rgt ≤ after :=
  ha.bound _ _ (hm.joined h ht)

/-- **When the longest stretch does not shrink.** -/
theorem Moved.keeps_iff (hm : Moved F F' o n t k) (h : Flanked F o n lft rgt)
    (ht : Target F o n t k f p) (hb : Longest F before) (ha : Longest F' after) :
    before ≤ after ↔ before ≤ lft + n + rgt ∨ ∃ lo, lo ≠ f ∧ Gap F lo before := by
  have hlow := ht.lo
  have hhigh := ht.hi
  have hpos := ht.pos
  have hbpos : 0 < before := lt_of_lt_of_le ht.gap.pos (hb.bound f p ht.gap.inside)
  constructor
  · intro hle
    obtain ⟨lo, hlo⟩ := ha.attained
    rcases hm.stretch h hlo with hold | hjoined
    · have heq : after = before := le_antisymm (hb.bound lo after hold) hle
      rw [heq] at hlo hold
      have hgap := hb.gap hbpos hold
      refine Or.inr ⟨lo, fun hsame => ?_, hgap⟩
      -- the broken gap is no stretch any more
      subst hsame
      obtain ⟨_, hlen⟩ := hgap.unique ht.gap (b := lo) (by omega) (by omega) (by omega)
        (by omega)
      exact ((hm t).mp (hlo t (by omega) (by omega))).2 ⟨le_rfl, by omega⟩
    · exact Or.inl (le_trans hle hjoined)
  · rintro (hjoined | ⟨lo, hne, hgap⟩)
    · exact le_trans hjoined (hm.joined_le h ht ha)
    · refine ha.bound lo before (fun b hlo hhi => (hm b).mpr ⟨Or.inl (hgap.inside b hlo hhi), ?_⟩)
      rintro ⟨htb, hbt⟩
      exact hne (hgap.unique ht.gap hlo hhi (by omega) (by omega)).1

end Lengths

end Move

/-! ## Gaps of a partition -/

section Partition

universe u v

variable {κ : Type u} {ν : Type v} [LinearOrder κ] {pos : κ → Nat} {len : ν → Nat}
  {m : OrdMap κ ν} {S : Set Nat} {p : ν → Prop}

/-- An entry with `p` is a gap of what these entries cover. -/
theorem Partitions.gap_of_entry (h : Partitions pos len m S) (hsep : Separated pos len p m)
    (hpos : Function.Injective pos) {k : κ} {v : ν} (hf : m.find? k = some v) (hp : p v) :
    Gap (Partitions.coveredBy pos len p m) (pos k) (len v) where
  pos := h.len_pos hf
  inside := fun b hlo hhi => ⟨k, v, hf, hp, mem_span.mpr ⟨hlo, hhi⟩⟩
  left := by
    rintro b hb ⟨k', v', hf', hp', hspan⟩
    rw [mem_span] at hspan
    have := h.apart hf' hf (by omega)
    exact hsep k' v' k v hf' hf hp' hp (by omega)
  right := by
    rintro ⟨k', v', hf', hp', hspan⟩
    rw [mem_span] at hspan
    rcases Nat.lt_trichotomy (pos k) (pos k') with hlt | heq | hgt
    · have := h.apart hf hf' hlt
      exact hsep k v k' v' hf hf' hp hp' (by omega)
    · have hk := hpos heq
      subst hk
      rw [hf] at hf'
      cases hf'
      omega
    · have := h.apart hf' hf hgt
      have := h.len_pos hf
      omega

/-- **The gaps are the entries.** -/
theorem Partitions.gap_iff (h : Partitions pos len m S) (hsep : Separated pos len p m)
    (hpos : Function.Injective pos) {lo n : Nat} :
    Gap (Partitions.coveredBy pos len p m) lo n ↔
      ∃ k v, m.find? k = some v ∧ p v ∧ pos k = lo ∧ len v = n := by
  constructor
  · intro hgap
    obtain ⟨k, v, hf, hp, hspan⟩ := hgap.inside lo le_rfl (by have := hgap.pos; omega)
    rw [mem_span] at hspan
    obtain ⟨hlo, hlen⟩ := (h.gap_of_entry hsep hpos hf hp).unique hgap hspan.1 hspan.2 le_rfl
      (by have := hgap.pos; omega)
    exact ⟨k, v, hf, hp, hlo, hlen⟩
  · rintro ⟨k, v, hf, hp, rfl, rfl⟩
    exact h.gap_of_entry hsep hpos hf hp

/-- A stretch lies inside an entry. -/
theorem Partitions.stretch_inside (h : Partitions pos len m S) (hsep : Separated pos len p m)
    (hpos : Function.Injective pos) {a n : Nat} (hn : 0 < n)
    (hs : Stretch (Partitions.coveredBy pos len p m) a n) :
    ∃ k v, m.find? k = some v ∧ p v ∧ pos k ≤ a ∧ a + n ≤ pos k + len v := by
  obtain ⟨k, v, hf, hp, hspan⟩ := hs a le_rfl (by omega)
  rw [mem_span] at hspan
  have := (h.gap_of_entry hsep hpos hf hp).contains hs le_rfl (by omega) hspan.1 hspan.2
  exact ⟨k, v, hf, hp, this⟩

end Partition

end GpuMemoryService.Lib
