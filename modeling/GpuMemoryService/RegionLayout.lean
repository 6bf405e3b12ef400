/-
GpuMemoryService.RegionLayout — the layout invariant of the region map and
its free index, with holes.

`Layout regions slots S` says that the regions partition exactly the bytes
in `S`, that each is filed under its own offset, that no two touching
regions are both free, and that `slots` is the set of the free regions.
`S` is the whole arena between calls; inside a call it has the holes the
call has opened. Taking a region out (`eraseFree`, `eraseLive`) and putting
one in (`insertFree`, `insertLive`) are the only things the operations do,
so each of them is a composition of these four rules.

On top of the rules: `canonicalizeFree_spec` (closing a hole with free
space, merged with its neighbours), `layout_filled` (a live region placed
in a hole) and `carve_eq` (opening a hole inside a free region by the
copying loop of `relocate`).
-/
import GpuMemoryService.Lib.Partition
import GpuMemoryService.RegionAllocator

namespace GpuMemoryService.RegionAllocator

open Lib

/-- The size of a region in exact arithmetic. -/
def sizeNat (r : RegionInfo) : Nat := r.size.toNat

/-- The bytes of a region filed at `k`. -/
abbrev bytesAt (k : UInt64) (r : RegionInfo) : Set Nat := span UInt64.toNat sizeNat k r

theorem mem_bytesAt {k : UInt64} {r : RegionInfo} {b : Nat} :
    b ∈ bytesAt k r ↔ k.toNat ≤ b ∧ b < k.toNat + r.size.toNat := Iff.rfl

theorem toNat_strictMono : StrictMono UInt64.toNat := fun _ _ h => UInt64.lt_iff_toNat_lt.mp h

/-- The regions partition `S` in canonical form and `slots` indexes the
free ones. -/
structure Layout (regions : OrdMap UInt64 RegionInfo) (slots : OrdSet FreeSlot)
    (S : Set Nat) : Prop where
  part : Partitions UInt64.toNat sizeNat regions S
  keyed : ∀ {k r}, regions.find? k = some r → r.offset = k
  merged : Separated UInt64.toNat sizeNat (fun r => r.live = false) regions
  slots : ∀ s, s ∈ slots ↔
    ∃ r, regions.find? s.offset = some r ∧ r.live = false ∧ r.size = s.size

namespace Layout

variable {m : OrdMap UInt64 RegionInfo} {sl : OrdSet FreeSlot} {S : Set Nat}
variable {k : UInt64} {r : RegionInfo}

theorem congr_set (h : Layout m sl S) {T : Set Nat} (hST : ∀ b, b ∈ S ↔ b ∈ T) :
    Layout m sl T :=
  ⟨h.part.congr_set hST, h.keyed, h.merged, h.slots⟩

/-! ## The four rules -/

theorem keyed_erase (h : Layout m sl S) {k' : UInt64} {r' : RegionInfo}
    (hf : (m.erase k).find? k' = some r') : r'.offset = k' := by
  exact h.keyed (OrdMap.find?_erase_some_iff.mp hf).2

theorem merged_erase (h : Layout m sl S) :
    Separated UInt64.toNat sizeNat (fun r => r.live = false) (m.erase k) := by
  intro k₁ r₁ k₂ r₂ hf₁ hf₂
  have hold₁ := (OrdMap.find?_erase_some_iff.mp hf₁).2
  have hold₂ := (OrdMap.find?_erase_some_iff.mp hf₂).2
  exact h.merged k₁ r₁ k₂ r₂ hold₁ hold₂

theorem keyed_insert (h : Layout m sl S) (hoff : r.offset = k) {k' : UInt64} {r' : RegionInfo}
    (hf : (m.insert k r).find? k' = some r') : r'.offset = k' := by
  rcases OrdMap.find?_insert_some_iff.mp hf with ⟨hk, hr⟩ | ⟨_, hold⟩
  · rw [hk, hr, hoff]
  · exact h.keyed hold

/-- Nothing is taken out. -/
theorem sdiff_self_Ico (h : Layout m sl S) (n : Nat) : Layout m sl (S \ Set.Ico n n) := by
  rw [Set.Ico_self]
  exact h.congr_set (fun b => by simp)

theorem eraseFree (h : Layout m sl S) (hf : m.find? k = some r) :
    Layout (m.erase k) (unindexFree sl k r.size) (S \ bytesAt k r) where
  part := h.part.erase toNat_strictMono.injective hf
  keyed := h.keyed_erase
  merged := h.merged_erase
  slots := by
    intro s
    rw [unindexFree, OrdMap.mem_erase, h.slots s, OrdMap.find?_erase]
    by_cases hk : s.offset = k
    · rw [if_pos hk]
      constructor
      · rintro ⟨hne, r', hf', _, hsize⟩
        rw [hk, hf] at hf'
        cases hf'
        exact absurd (by cases s; simp_all) hne
      · rintro ⟨r', hf', _⟩
        cases hf'
    · rw [if_neg hk]
      constructor
      · exact fun hs => hs.2
      · exact fun hs => ⟨fun heq => hk (by rw [heq]), hs⟩

theorem eraseLive (h : Layout m sl S) (hf : m.find? k = some r) (hlive : r.live = true) :
    Layout (m.erase k) sl (S \ bytesAt k r) where
  part := h.part.erase toNat_strictMono.injective hf
  keyed := h.keyed_erase
  merged := h.merged_erase
  slots := by
    intro s
    rw [h.slots s, OrdMap.find?_erase]
    by_cases hk : s.offset = k
    · rw [if_pos hk, hk, hf]
      simp [hlive]
    · rw [if_neg hk]

theorem insertFree (h : Layout m sl S) (hoff : r.offset = k) (hfree : r.live = false)
    (hsize : 0 < r.size.toNat) (hhole : ∀ b ∈ bytesAt k r, b ∉ S)
    (hleft : ∀ k' r', m.find? k' = some r' → r'.live = false →
      k'.toNat + r'.size.toNat ≠ k.toNat)
    (hright : ∀ k' r', m.find? k' = some r' → r'.live = false →
      k.toNat + r.size.toNat ≠ k'.toNat) :
    Layout (m.insert k r) (indexFree sl k r.size) (S ∪ bytesAt k r) where
  part := h.part.insert hsize hhole
  keyed := h.keyed_insert hoff
  merged := by
    intro k₁ r₁ k₂ r₂ hf₁ hf₂ hp₁ hp₂
    rcases OrdMap.find?_insert_some_iff.mp hf₁ with ⟨hk₁, hr₁⟩ | ⟨_, hold₁⟩
    · rcases OrdMap.find?_insert_some_iff.mp hf₂ with ⟨hk₂, _⟩ | ⟨_, hold₂⟩
      · rw [hk₁, hk₂, hr₁]
        simp only [sizeNat]
        omega
      · rw [hk₁, hr₁]
        exact hright k₂ r₂ hold₂ hp₂
    · rcases OrdMap.find?_insert_some_iff.mp hf₂ with ⟨hk₂, _⟩ | ⟨_, hold₂⟩
      · rw [hk₂]
        exact hleft k₁ r₁ hold₁ hp₁
      · exact h.merged k₁ r₁ k₂ r₂ hold₁ hold₂ hp₁ hp₂
  slots := by
    intro s
    rw [indexFree, OrdMap.mem_insert, h.slots s, OrdMap.find?_insert]
    by_cases hk : s.offset = k
    · have hnone : m.find? k = none := by
        cases hm : m.find? k with
        | none => rfl
        | some r' =>
            have hstart : k.toNat ∈ bytesAt k r := mem_bytesAt.mpr ⟨le_rfl, by omega⟩
            exact absurd (h.part.start_mem hm) (hhole _ hstart)
      rw [if_pos hk, hk, hnone]
      constructor
      · rintro (heq | ⟨r', hf', _⟩)
        · exact ⟨r, rfl, hfree, by rw [heq]⟩
        · cases hf'
      · rintro ⟨r', hf', _, hs⟩
        cases hf'
        exact Or.inl (by cases s; simp_all)
    · rw [if_neg hk]
      constructor
      · rintro (heq | hs)
        · exact absurd (by rw [heq]) hk
        · exact hs
      · exact Or.inr

theorem insertLive (h : Layout m sl S) (hoff : r.offset = k) (hlive : r.live = true)
    (hsize : 0 < r.size.toNat) (hhole : ∀ b ∈ bytesAt k r, b ∉ S) :
    Layout (m.insert k r) sl (S ∪ bytesAt k r) where
  part := h.part.insert hsize hhole
  keyed := h.keyed_insert hoff
  merged := by
    intro k₁ r₁ k₂ r₂ hf₁ hf₂ hp₁ hp₂
    rcases OrdMap.find?_insert_some_iff.mp hf₁ with ⟨_, hr₁⟩ | ⟨_, hold₁⟩
    · rw [hr₁, hlive] at hp₁
      cases hp₁
    · rcases OrdMap.find?_insert_some_iff.mp hf₂ with ⟨_, hr₂⟩ | ⟨_, hold₂⟩
      · rw [hr₂, hlive] at hp₂
        cases hp₂
      · exact h.merged k₁ r₁ k₂ r₂ hold₁ hold₂ hp₁ hp₂
  slots := by
    intro s
    rw [h.slots s, OrdMap.find?_insert]
    by_cases hk : s.offset = k
    · rw [if_pos hk, hk]
      constructor
      · rintro ⟨r', hf', _⟩
        have hstart : k.toNat ∈ bytesAt k r := mem_bytesAt.mpr ⟨le_rfl, by omega⟩
        exact absurd (h.part.start_mem hf') (hhole _ hstart)
      · rintro ⟨r', hf', hfree, _⟩
        cases hf'
        rw [hlive] at hfree
        cases hfree
    · rw [if_neg hk]

/-- Put a free region in unless it would be empty. -/
theorem insertFreeIf (h : Layout m sl S) {c : Prop} [Decidable c] (hc : c ↔ 0 < r.size.toNat)
    (hoff : r.offset = k) (hfree : r.live = false) (hhole : ∀ b ∈ bytesAt k r, b ∉ S)
    (hleft : ∀ k' r', m.find? k' = some r' → r'.live = false →
      k'.toNat + r'.size.toNat ≠ k.toNat)
    (hright : ∀ k' r', m.find? k' = some r' → r'.live = false →
      k.toNat + r.size.toNat ≠ k'.toNat) :
    Layout (if c then m.insert k r else m) (if c then indexFree sl k r.size else sl)
      (S ∪ bytesAt k r) := by
  by_cases hsize : c
  · rw [if_pos hsize, if_pos hsize]
    exact h.insertFree hoff hfree (hc.mp hsize) hhole hleft hright
  · rw [if_neg hsize, if_neg hsize]
    refine h.congr_set (fun b => ?_)
    have hempty : ¬ 0 < r.size.toNat := fun hpos => hsize (hc.mpr hpos)
    simp only [Set.mem_union, mem_bytesAt]
    constructor
    · exact Or.inl
    · rintro (hb | hb)
      · exact hb
      · omega

/-! ## Reading positions off a layout -/

/-- No region starts inside a hole. -/
theorem find?_hole (h : Layout m sl S) (hk : k.toNat ∉ S) : m.find? k = none := by
  cases hf : m.find? k with
  | none => rfl
  | some r => exact absurd (h.part.start_mem hf) hk

/-- No region starts inside another. -/
theorem find?_inside (h : Layout m sl S) (hf : m.find? k = some r) {k' : UInt64}
    (hlo : k.toNat < k'.toNat) (hhi : k'.toNat < k.toNat + r.size.toNat) : m.find? k' = none := by
  cases hf' : m.find? k' with
  | none => rfl
  | some r' =>
      have := h.part.apart hf hf' hlo
      simp only [sizeNat] at this
      omega

theorem eq_of_inside (h : Layout m sl S) (hf : m.find? k = some r) {k' : UInt64}
    {r' : RegionInfo} (hf' : m.find? k' = some r') (hlo : k.toNat ≤ k'.toNat)
    (hhi : k'.toNat < k.toNat + r.size.toNat) : k = k' := by
  by_contra hne
  have hlt := lt_of_le_of_ne hlo (fun hc => hne (UInt64.toNat_inj.mp hc))
  rw [h.find?_inside hf hlt hhi] at hf'
  cases hf'

/-- A region ends inside the arena, so its end is computed without wrap. -/
theorem end_le (h : Layout m sl S) {cap : Nat} (hS : ∀ b ∈ S, b < cap)
    (hf : m.find? k = some r) : k.toNat + r.size.toNat ≤ cap := by
  have hlen : 0 < r.size.toNat := h.part.len_pos hf
  have := hS _ (h.part.span_subset (b := k.toNat + r.size.toNat - 1) hf (by omega)
    (by simp only [sizeNat]; omega))
  omega

end Layout

/-! ## Operations on free space leave the live part alone -/

/-- The two maps hold the same live regions. -/
def LiveEq (m m' : OrdMap UInt64 RegionInfo) : Prop :=
  ∀ k r, r.live = true → (m'.find? k = some r ↔ m.find? k = some r)

theorem LiveEq.trans {m m' m'' : OrdMap UInt64 RegionInfo} (h : LiveEq m m')
    (h' : LiveEq m' m'') : LiveEq m m'' :=
  fun k r hl => (h' k r hl).trans (h k r hl)

theorem LiveEq.eraseFree {m : OrdMap UInt64 RegionInfo} {k : UInt64} {r : RegionInfo}
    (hf : m.find? k = some r) (hfree : r.live = false) : LiveEq m (m.erase k) := by
  intro k' r' hl
  rw [OrdMap.find?_erase]
  split
  · rename_i hk
    rw [hk, hf]
    constructor
    · intro h; cases h
    · intro h; cases h; rw [hfree] at hl; cases hl
  · exact Iff.rfl

theorem LiveEq.insertFree {m : OrdMap UInt64 RegionInfo} {k : UInt64} {r : RegionInfo}
    (hf : m.find? k = none) (hfree : r.live = false) : LiveEq m (m.insert k r) := by
  intro k' r' hl
  rw [OrdMap.find?_insert]
  split
  · rename_i hk
    rw [hk, hf]
    constructor
    · intro h; cases h; rw [hfree] at hl; cases hl
    · intro h; cases h
  · exact Iff.rfl

theorem LiveEq.insertFreeIf {m : OrdMap UInt64 RegionInfo} {c : Prop} [Decidable c]
    {k : UInt64} {r : RegionInfo} (hf : c → m.find? k = none) (hfree : r.live = false) :
    LiveEq m (if c then m.insert k r else m) := by
  by_cases hc : c
  · rw [if_pos hc]; exact LiveEq.insertFree (hf hc) hfree
  · rw [if_neg hc]; exact fun _ _ _ => Iff.rfl

/-- `ra'` has the live regions, the index and the counters of `ra`. -/
structure SameLive (ra ra' : RegionAllocator) : Prop where
  capacity : ra'.capacity = ra.capacity
  liveBytes : ra'.liveBytes = ra.liveBytes
  liveCount : ra'.liveCount = ra.liveCount
  allocOffset : ra'.allocOffset = ra.allocOffset
  live : LiveEq ra.regions ra'.regions

theorem SameLive.refl (ra : RegionAllocator) : SameLive ra ra :=
  ⟨rfl, rfl, rfl, rfl, fun _ _ _ => Iff.rfl⟩

theorem SameLive.eraseFree {ra : RegionAllocator} {k : UInt64} {r : RegionInfo}
    {slots : OrdMap FreeSlot Unit} (hf : ra.regions.find? k = some r) (hfree : r.live = false) :
    SameLive ra { ra with freeSlots := slots, regions := ra.regions.erase k } :=
  ⟨rfl, rfl, rfl, rfl, LiveEq.eraseFree hf hfree⟩

theorem SameLive.trans {ra ra' ra'' : RegionAllocator} (h : SameLive ra ra')
    (h' : SameLive ra' ra'') : SameLive ra ra'' where
  capacity := h'.capacity.trans h.capacity
  liveBytes := h'.liveBytes.trans h.liveBytes
  liveCount := h'.liveCount.trans h.liveCount
  allocOffset := h'.allocOffset.trans h.allocOffset
  live := h.live.trans h'.live

/-! ## `canonicalize_free` -/

section Canonicalize

variable {ra : RegionAllocator} {S : Set Nat}

/-- What merging to the left does: `lo` is the lower end after it. -/
structure LeftMerged (ra : RegionAllocator) (S : Set Nat) (off lo : UInt64)
    (ra' : RegionAllocator) : Prop where
  le : lo.toNat ≤ off.toNat
  taken : ∀ b, lo.toNat ≤ b → b < off.toNat → b ∈ S
  layout : Layout ra'.regions ra'.freeSlots (S \ Set.Ico lo.toNat off.toNat)
  same : SameLive ra ra'
  subset : ∀ {k r}, ra'.regions.find? k = some r → ra.regions.find? k = some r
  clear : ∀ k r, ra'.regions.find? k = some r → r.live = false →
    k.toNat + r.size.toNat ≠ lo.toNat

theorem absorbLeft_spec (h : Layout ra.regions ra.freeSlots S)
    (hS : ∀ b ∈ S, b < ra.capacity.toNat) (off : UInt64) :
    LeftMerged ra S off (ra.absorbLeft off).1 (ra.absorbLeft off).2 := by
  have hcap := ra.capacity.toNat_lt
  -- nothing merged: the map stays, and no free region may end at `off`
  have hstay : (∀ k r, ra.regions.find? k = some r → r.live = false →
      k.toNat + r.size.toNat ≠ off.toNat) → LeftMerged ra S off off ra := by
    intro hclear
    exact ⟨le_rfl, fun b h1 h2 => by omega, h.sdiff_self_Ico off.toNat, SameLive.refl ra, id, hclear⟩
  unfold absorbLeft
  cases hlast : (ra.regions.below off).getLast? with
  | none =>
      refine hstay (fun k r hf _ hend => ?_)
      have hle := UInt64.le_iff_toNat_le.mp (OrdMap.getLast?_below_none hlast k r hf)
      have : 0 < r.size.toNat := h.part.len_pos hf
      omega
  | some e =>
      obtain ⟨k, r⟩ := e
      obtain ⟨hf, hlt, hmax⟩ := OrdMap.getLast?_below hlast
      simp only at hf hlt hmax
      have hend := h.end_le hS hf
      have hadd : (k + r.size).toNat = k.toNat + r.size.toNat := toNat_add_of_lt (by omega)
      have hltN := UInt64.lt_iff_toNat_lt.mp hlt
      dsimp only
      split
      · rename_i hcond
        simp only [Bool.and_eq_true, Bool.not_eq_true', beq_iff_eq] at hcond
        obtain ⟨hfree, htouch⟩ := hcond
        have htouchN : k.toNat + r.size.toNat = off.toNat := by rw [← hadd, htouch]
        refine ⟨by simp only; omega, fun b h1 h2 => ?_, ?_, SameLive.eraseFree hf hfree,
          fun hf' => ?_, fun k' r' hf' hfree' => ?_⟩
        · exact h.part.span_subset hf h1 (by simp only [sizeNat]; omega)
        · rw [← htouchN]
          exact h.eraseFree hf
        · exact (OrdMap.find?_erase_some_iff.mp hf').2
        · have hold := (OrdMap.find?_erase_some_iff.mp hf').2
          exact h.merged k' r' k r hold hf hfree' hfree
      · rename_i hcond
        refine hstay (fun k' r' hf' hfree' htouch => hcond ?_)
        -- a free region ending at `off` is the last one below `off`
        have hlen' : 0 < r'.size.toNat := h.part.len_pos hf'
        have hle' := UInt64.le_iff_toNat_le.mp
          (hmax k' r' hf' (UInt64.lt_iff_toNat_lt.mpr (by omega)))
        have heq : k' = k := h.eq_of_inside hf' hf hle' (by omega)
        subst heq
        rw [hf] at hf'
        cases hf'
        simp only [hfree', Bool.not_false, Bool.true_and, beq_iff_eq]
        exact UInt64.toNat_inj.mp (by rw [hadd, htouch])

/-- What merging to the right does: `hi'` is the upper end after it. -/
structure RightMerged (ra : RegionAllocator) (S : Set Nat) (hi hi' : UInt64)
    (ra' : RegionAllocator) : Prop where
  le : hi.toNat ≤ hi'.toNat
  le_cap : hi'.toNat ≤ ra.capacity.toNat
  taken : ∀ b, hi.toNat ≤ b → b < hi'.toNat → b ∈ S
  layout : Layout ra'.regions ra'.freeSlots (S \ Set.Ico hi.toNat hi'.toNat)
  same : SameLive ra ra'
  subset : ∀ {k r}, ra'.regions.find? k = some r → ra.regions.find? k = some r
  clear : ∀ k r, ra'.regions.find? k = some r → r.live = false → hi'.toNat ≠ k.toNat

theorem absorbRight_spec (off hi : UInt64) (h : Layout ra.regions ra.freeSlots S)
    (hS : ∀ b ∈ S, b < ra.capacity.toNat) (hle : off.toNat ≤ hi.toNat)
    (hhi : hi.toNat ≤ ra.capacity.toNat)
    (hhole : ∀ b, off.toNat ≤ b → b < hi.toNat → b ∉ S) :
    RightMerged ra S hi (ra.absorbRight off hi).1 (ra.absorbRight off hi).2 := by
  have hcap := ra.capacity.toNat_lt
  have hstay : (∀ k r, ra.regions.find? k = some r → r.live = false → hi.toNat ≠ k.toNat) →
      RightMerged ra S hi hi ra := by
    intro hclear
    exact ⟨le_rfl, hhi, fun b h1 h2 => by omega, h.sdiff_self_Ico hi.toNat, SameLive.refl ra, id,
      hclear⟩
  unfold absorbRight
  cases hhead : (ra.regions.lowerBound off).head? with
  | none =>
      refine hstay (fun k r hf _ hstart => ?_)
      have := UInt64.lt_iff_toNat_lt.mp (OrdMap.head?_lowerBound_none hhead k r hf)
      omega
  | some e =>
      obtain ⟨k, r⟩ := e
      obtain ⟨hf, hge, hmin⟩ := OrdMap.head?_lowerBound hhead
      simp only at hf hge hmin
      have hend := h.end_le hS hf
      have hadd : (k + r.size).toNat = k.toNat + r.size.toNat := toNat_add_of_lt (by omega)
      dsimp only
      split
      · rename_i hcond
        simp only [Bool.and_eq_true, Bool.not_eq_true', beq_iff_eq] at hcond
        obtain ⟨hfree, rfl⟩ := hcond
        refine ⟨by simp only; omega, by simp only; omega, fun b h1 h2 => ?_, ?_,
          SameLive.eraseFree hf hfree, fun hf' => ?_, fun k' r' hf' hfree' => ?_⟩
        · simp only [hadd] at h2
          exact h.part.span_subset hf h1 h2
        · rw [hadd]
          exact h.eraseFree hf
        · exact (OrdMap.find?_erase_some_iff.mp hf').2
        · have hold := (OrdMap.find?_erase_some_iff.mp hf').2
          rw [hadd]
          exact h.merged k r k' r' hf hold hfree hfree'
      · rename_i hcond
        refine hstay (fun k' r' hf' hfree' hstart => hcond ?_)
        -- a region starting at `hi` is the first one from `off` on: `[off, hi)` is a hole
        have hle' := UInt64.le_iff_toNat_le.mp
          (hmin k' r' hf' (UInt64.le_iff_toNat_le.mpr (by omega)))
        have hgeN := UInt64.le_iff_toNat_le.mp hge
        have hout : ¬ k.toNat < hi.toNat := fun hlt => hhole _ hgeN hlt (h.part.start_mem hf)
        have heq : k' = k := UInt64.toNat_inj.mp (by omega)
        subst heq
        rw [hf] at hf'
        cases hf'
        simp only [hfree', Bool.not_false, Bool.true_and, beq_iff_eq]
        exact UInt64.toNat_inj.mp hstart.symm

/-- Around the hole `[off, top)` everything up to `lo` and `hi` has been
taken out: `[lo, hi)` is a hole. -/
theorem not_mem_merged {lo off top hi b : Nat} (hhole : ∀ b, off ≤ b → b < top → b ∉ S)
    (hlo : lo ≤ b) (hhi : b < hi) : b ∉ (S \ Set.Ico lo off) \ Set.Ico top hi := by
  rintro ⟨⟨hb, hleft⟩, hright⟩
  simp only [Set.mem_Ico, not_and, not_lt] at hleft hright
  have hoff := hleft hlo
  by_cases hmid : b < top
  · exact hhole b hoff hmid hb
  · have := hright (by omega)
    omega

/-- Putting `[lo, hi)` back adds the bytes of the hole alone. -/
theorem mem_merged_iff {lo off top hi : Nat} (hlo : lo ≤ off) (hmid : off ≤ top) (hhi : top ≤ hi)
    (hleft : ∀ b, lo ≤ b → b < off → b ∈ S) (hright : ∀ b, top ≤ b → b < hi → b ∈ S) (b : Nat) :
    b ∈ ((S \ Set.Ico lo off) \ Set.Ico top hi) ∪ Set.Ico lo hi ↔ b ∈ S ∪ Set.Ico off top := by
  simp only [Set.mem_union, Set.mem_sdiff, Set.mem_Ico]
  constructor
  · rintro (⟨⟨hb, _⟩, _⟩ | ⟨h1, h2⟩)
    · exact Or.inl hb
    · by_cases hb1 : b < off
      · exact Or.inl (hleft b h1 hb1)
      · by_cases hb2 : b < top
        · exact Or.inr ⟨by omega, hb2⟩
        · exact Or.inl (hright b (by omega) h2)
  · rintro (hb | ⟨h1, h2⟩)
    · by_cases hin : lo ≤ b ∧ b < hi
      · exact Or.inr hin
      · exact Or.inl ⟨⟨hb, by omega⟩, by omega⟩
    · exact Or.inr ⟨by omega, by omega⟩

/-- Filling a hole with free space always succeeds, keeps the layout
canonical and touches nothing live. -/
theorem canonicalizeFree_spec (ra : RegionAllocator) (off size : UInt64)
    (h : Layout ra.regions ra.freeSlots S) (hS : ∀ b ∈ S, b < ra.capacity.toNat) (hsize : 0 < size.toNat)
    (hfit : off.toNat + size.toNat ≤ ra.capacity.toNat)
    (hhole : ∀ b, off.toNat ≤ b → b < off.toNat + size.toNat → b ∉ S) :
    ∃ f ra', ra.canonicalizeFree off size = (.ok f, ra') ∧ SameLive ra ra' ∧
      Layout ra'.regions ra'.freeSlots (S ∪ Set.Ico off.toNat (off.toNat + size.toNat)) := by
  have hcap := ra.capacity.toNat_lt
  have hadd : (off + size).toNat = off.toNat + size.toNat := toNat_add_of_lt (by omega)
  have hzero : ¬ (size == 0) = true := by
    simpa using toNat_pos_iff.mp hsize
  have hbounds : ¬ (decide (off > ra.capacity) || decide (size > ra.capacity - off)) = true := by
    have hsub := toNat_sub_of_ge (a := ra.capacity) (b := off) (by omega)
    simp only [Bool.or_eq_true, decide_eq_true_eq, gt_iff_lt, UInt64.lt_iff_toNat_lt, hsub]
    omega
  unfold canonicalizeFree
  rw [if_neg hzero, if_neg hbounds]
  have hl := absorbLeft_spec h hS off
  generalize ra.absorbLeft off = al at hl ⊢
  obtain ⟨lo, left⟩ := al
  dsimp only at hl ⊢
  have hcapl : left.capacity.toNat = ra.capacity.toNat := by rw [hl.same.capacity]
  have hr := absorbRight_spec off (off + size) hl.layout
    (fun b hb => by rw [hcapl]; exact hS b hb.1) (by omega) (by omega)
    (fun b h1 h2 hb => hhole b h1 (by omega) hb.1)
  generalize left.absorbRight off (off + size) = ar at hr ⊢
  obtain ⟨hi, merged⟩ := ar
  dsimp only at hr ⊢
  have hlo := hl.le
  have hhi := hr.le
  have hlen : (hi - lo).toNat = hi.toNat - lo.toNat := toNat_sub_of_ge (by omega)
  -- the hole is now `[lo, hi)`: what was merged has been taken out of the map
  have hout : ∀ b, lo.toNat ≤ b → b < hi.toNat →
      b ∉ (S \ Set.Ico lo.toNat off.toNat) \ Set.Ico (off + size).toNat hi.toNat := by
    rw [hadd]
    exact fun b h1 h2 => not_mem_merged hhole h1 h2
  have hnone : merged.regions.find? lo = none :=
    hr.layout.find?_hole (hout _ le_rfl (by omega))
  refine ⟨_, _, rfl, ?_, ?_⟩
  · have hall := hl.same.trans hr.same
    refine ⟨hall.capacity, hall.liveBytes, hall.liveCount, hall.allocOffset, ?_⟩
    simp only [putFree, OrdMap.emplace_of_none _ hnone]
    exact hall.live.trans (LiveEq.insertFree hnone rfl)
  · simp only [putFree, OrdMap.emplace_of_none _ hnone]
    refine (hr.layout.insertFree (k := lo) (r := merged.freshFree lo (hi - lo) .derived)
      rfl rfl ?_ ?_ ?_ ?_).congr_set (fun b => ?_)
    · simp only [freshFree, hlen]; omega
    · intro b hb
      simp only [mem_bytesAt, freshFree, hlen] at hb
      exact hout b hb.1 (by omega)
    · exact fun k' r' hf' hfree' => hl.clear k' r' (hr.subset hf') hfree'
    · intro k' r' hf' hfree'
      have := hr.clear k' r' hf' hfree'
      simp only [freshFree, hlen]
      omega
    · have hbytes : bytesAt lo (merged.freshFree lo (hi - lo) .derived)
          = Set.Ico lo.toNat hi.toNat := by
        ext b
        simp only [mem_bytesAt, Set.mem_Ico, freshFree, hlen]
        omega
      have hiff := mem_merged_iff (b := b) hl.le (by omega) hr.le hl.taken
        (fun b h1 h2 => (hr.taken b h1 h2).1)
      rw [hbytes, hiff, hadd]

end Canonicalize

/-! ## Alignment -/

theorem exists_pow_of_isPow2 {a : UInt64} (h : isPow2 a = true) : ∃ k < 64, a.toNat = 2 ^ k := by
  simp only [isPow2, Bool.and_eq_true, bne_iff_ne, beq_iff_eq] at h
  exact exists_pow_of_and_pred h.1 h.2

theorem toNat_pos_of_isPow2 {a : UInt64} (h : isPow2 a = true) : 0 < a.toNat := by
  obtain ⟨k, _, hk⟩ := exists_pow_of_isPow2 h
  rw [hk]
  exact Nat.two_pow_pos k

/-- `align_up` is the exact rounding when that stays below the word size,
and 0 when the addition wraps. -/
theorem alignUp_cases (v : UInt64) {a : UInt64} (ha : isPow2 a = true) :
    (v.toNat + (a.toNat - 1) < 2 ^ 64 ∧ (alignUp v a).toNat = roundUp v.toNat a.toNat) ∨
    (2 ^ 64 ≤ v.toNat + (a.toNat - 1) ∧ alignUp v a = 0) := by
  obtain ⟨k, hk, hpow⟩ := exists_pow_of_isPow2 ha
  have hpos := toNat_pos_of_isPow2 ha
  have hmask : (a - 1).toNat = a.toNat - 1 := toNat_sub_of_ge (a := a) (b := 1) hpos
  have hzero : ¬ (a == 0) = true := by simpa using toNat_pos_iff.mp hpos
  have hsum : (v + (a - 1)).toNat = (v.toNat + (a.toNat - 1)) % 2 ^ 64 := by
    rw [UInt64.toNat_add, hmask]
  have hv := v.toNat_lt
  have halt := a.toNat_lt
  unfold alignUp
  rw [if_neg hzero]
  by_cases hwrap : v.toNat + (a.toNat - 1) < 2 ^ 64
  · have hge : ¬ (v + (a - 1)) < v := by
      rw [UInt64.lt_iff_toNat_lt, hsum, Nat.mod_eq_of_lt hwrap]; omega
    refine Or.inl ⟨hwrap, ?_⟩
    simp only [if_neg hge]
    rw [toNat_and_not_pred hk hpow, hsum, Nat.mod_eq_of_lt hwrap, roundUp]
  · have hlt : (v + (a - 1)) < v := by
      rw [UInt64.lt_iff_toNat_lt, hsum]; omega
    refine Or.inr ⟨by omega, ?_⟩
    simp only [if_pos hlt]

/-- A slot that passes the fit test has room for the aligned size behind
its front pad, and the pad ends at the aligned offset. A slot whose
aligned offset would wrap never passes. -/
theorem fits_spec {a aligned : UInt64} {slot : FreeSlot} (ha : isPow2 a = true)
    (hend : slot.offset.toNat + slot.size.toNat < 2 ^ 64)
    (hfits : fits a aligned slot = true) :
    slot.offset.toNat + (frontPad a slot).toNat = roundUp slot.offset.toNat a.toNat ∧
      (frontPad a slot).toNat + aligned.toNat ≤ slot.size.toNat := by
  simp only [fits, Bool.not_eq_true', Bool.or_eq_false_iff, decide_eq_false_iff_not, gt_iff_lt,
    UInt64.lt_iff_toNat_lt, Nat.not_lt] at hfits
  obtain ⟨hfront, hroom⟩ := hfits
  rw [toNat_sub_of_ge hfront] at hroom
  have hoff := slot.offset.toNat_lt
  rcases alignUp_cases slot.offset ha with ⟨_, hval⟩ | ⟨hwrap, hzero⟩
  · have hge : slot.offset.toNat ≤ (alignUp slot.offset a).toNat := by
      rw [hval]; exact le_roundUp _ (toNat_pos_of_isPow2 ha)
    have hpad : (frontPad a slot).toNat = (alignUp slot.offset a).toNat - slot.offset.toNat :=
      toNat_sub_of_ge hge
    exact ⟨by omega, by omega⟩
  · exfalso
    have hpad : (frontPad a slot).toNat = (2 ^ 64 - slot.offset.toNat + 0) % 2 ^ 64 := by
      rw [frontPad, hzero, UInt64.toNat_sub]; rfl
    have halt := a.toNat_lt
    omega

/-! ## Opening a hole inside a free region -/

theorem find?_insertIf {m : OrdMap UInt64 RegionInfo} {c : Prop} [Decidable c]
    {k k' : UInt64} {r r' : RegionInfo} (h : (if c then m.insert k r else m).find? k' = some r') :
    (k' = k ∧ r' = r) ∨ m.find? k' = some r' := by
  split at h
  · rcases OrdMap.find?_insert_some_iff.mp h with hnew | ⟨_, hold⟩
    · exact Or.inl hnew
    · exact Or.inr hold
  · exact Or.inr h

/-- The data of a hole `[a, a + n)` in the free region `r` at `k`: the
region `f` for the part before it and `t`, at `kt`, for the part behind it,
with the guards under which they are put in. -/
structure HoleIn (k : UInt64) (r : RegionInfo) (a n : Nat) (f : RegionInfo) (kt : UInt64)
    (t : RegionInfo) (cf ct : Prop) : Prop where
  free : r.live = false
  pos : 0 < n
  start_le : k.toNat ≤ a
  end_le : a + n ≤ k.toNat + r.size.toNat
  front_free : f.live = false
  front_off : f.offset = k
  front_size : f.size.toNat = a - k.toNat
  front_guard : cf ↔ 0 < f.size.toNat
  tail_free : t.live = false
  tail_key : kt.toNat = a + n
  tail_off : t.offset = kt
  tail_size : t.size.toNat = k.toNat + r.size.toNat - (a + n)
  tail_guard : ct ↔ 0 < t.size.toNat

/-- The region taken out and its front part put back. -/
def fronted (m : OrdMap UInt64 RegionInfo) (k : UInt64) (f : RegionInfo) (cf : Prop)
    [Decidable cf] : OrdMap UInt64 RegionInfo :=
  if cf then (m.erase k).insert k f else m.erase k

def frontedSlots (sl : OrdSet FreeSlot) (k : UInt64) (r f : RegionInfo) (cf : Prop)
    [Decidable cf] : OrdSet FreeSlot :=
  if cf then indexFree (unindexFree sl k r.size) k f.size else unindexFree sl k r.size

/-- The region replaced by its parts before and behind the hole. -/
def carved (m : OrdMap UInt64 RegionInfo) (k : UInt64) (f : RegionInfo) (kt : UInt64)
    (t : RegionInfo) (cf ct : Prop) [Decidable cf] [Decidable ct] : OrdMap UInt64 RegionInfo :=
  if ct then (fronted m k f cf).insert kt t else fronted m k f cf

def carvedSlots (sl : OrdSet FreeSlot) (k : UInt64) (r f : RegionInfo) (kt : UInt64)
    (t : RegionInfo) (cf ct : Prop) [Decidable cf] [Decidable ct] : OrdSet FreeSlot :=
  if ct then indexFree (frontedSlots sl k r f cf) kt t.size else frontedSlots sl k r f cf

section Carved

variable {m : OrdMap UInt64 RegionInfo} {sl : OrdSet FreeSlot} {S : Set Nat}
variable {k kt : UInt64} {r f t : RegionInfo} {a n : Nat} {cf ct : Prop}
variable [Decidable cf]

theorem layout_fronted (h : Layout m sl S) (hf : m.find? k = some r)
    (hh : HoleIn k r a n f kt t cf ct) :
    Layout (fronted m k f cf) (frontedSlots sl k r f cf)
      (S \ Set.Ico a (k.toNat + r.size.toNat)) := by
  obtain ⟨hfree, hn, hka, hend, hffree, hfoff, hfsize, hcf, _, _, _, _, _⟩ := hh
  refine ((h.eraseFree hf).insertFreeIf hcf hfoff hffree ?_ ?_ ?_).congr_set (fun b => ?_)
  · intro b hb
    simp only [mem_bytesAt, hfsize] at hb
    simp only [Set.mem_sdiff, mem_bytesAt]
    omega
  · intro k' r' hf' hfree'
    have hold := (OrdMap.find?_erase_some_iff.mp hf').2
    exact h.merged k' r' k r hold hf hfree' hfree
  · -- a region starting at the hole would start inside `r`
    intro k' r' hf' _ hstart
    have hmem := (h.eraseFree hf).part.start_mem hf'
    simp only [Set.mem_sdiff, mem_bytesAt] at hmem
    omega
  · have hin : k.toNat ≤ b → b < a → b ∈ S :=
      fun h1 h2 => h.part.span_subset hf h1 (by simp only [sizeNat]; omega)
    simp only [Set.mem_union, Set.mem_sdiff, Set.mem_Ico, mem_bytesAt, hfsize]
    constructor
    · rintro (⟨hb, hout⟩ | ⟨h1, h2⟩)
      · exact ⟨hb, by omega⟩
      · exact ⟨hin h1 (by omega), by omega⟩
    · rintro ⟨hb, hout⟩
      by_cases hk : k.toNat ≤ b ∧ b < a
      · exact Or.inr (by omega)
      · exact Or.inl ⟨hb, by omega⟩

theorem layout_carved [Decidable ct] (h : Layout m sl S) (hf : m.find? k = some r)
    (hh : HoleIn k r a n f kt t cf ct) :
    Layout (carved m k f kt t cf ct) (carvedSlots sl k r f kt t cf ct) (S \ Set.Ico a (a + n)) := by
  have hfront := layout_fronted h hf hh
  obtain ⟨hfree, hn, hka, hend, hffree, hfoff, hfsize, hcf, htfree, hkt, htoff, htsize, hct⟩ := hh
  refine (hfront.insertFreeIf hct htoff htfree ?_ ?_ ?_).congr_set (fun b => ?_)
  · intro b hb
    simp only [mem_bytesAt, htsize] at hb
    simp only [Set.mem_sdiff, Set.mem_Ico]
    omega
  · -- a free region ending at the tail would reach into the hole
    intro k' r' hf' hfree' htouch
    have hlen : 0 < r'.size.toNat := hfront.part.len_pos hf'
    have hmem := hfront.part.span_subset (b := a + n - 1) hf' (by omega)
      (by simp only [sizeNat]; omega)
    simp only [Set.mem_sdiff, Set.mem_Ico] at hmem
    omega
  · -- a free region starting behind `r` would have touched `r`
    intro k' r' hf' hfree' htouch
    have hlen : 0 < r.size.toNat := h.part.len_pos hf
    rcases find?_insertIf hf' with ⟨hk, _⟩ | hf'
    · rw [hk] at htouch
      omega
    · have hold := (OrdMap.find?_erase_some_iff.mp hf').2
      exact h.merged k r k' r' hf hold hfree hfree' (by simp only [sizeNat]; omega)
  · have hin : a + n ≤ b → b < k.toNat + r.size.toNat → b ∈ S :=
      fun h1 h2 => h.part.span_subset hf (by omega) h2
    simp only [Set.mem_union, Set.mem_sdiff, Set.mem_Ico, mem_bytesAt, htsize]
    constructor
    · rintro (⟨hb, hout⟩ | ⟨h1, h2⟩)
      · exact ⟨hb, by omega⟩
      · exact ⟨hin (by omega) (by omega), by omega⟩
    · rintro ⟨hb, hout⟩
      by_cases hk : a + n ≤ b ∧ b < k.toNat + r.size.toNat
      · exact Or.inr (by omega)
      · exact Or.inl ⟨hb, by omega⟩

theorem liveEq_fronted (hf : m.find? k = some r) (hh : HoleIn k r a n f kt t cf ct) :
    LiveEq m (fronted m k f cf) :=
  (LiveEq.eraseFree hf hh.free).trans
    (LiveEq.insertFreeIf (fun _ => OrdMap.find?_erase_self m k) hh.front_free)

/-- Behind the front part nothing starts up to the end of the region. -/
theorem find?_fronted (h : Layout m sl S) (hf : m.find? k = some r)
    (hh : HoleIn k r a n f kt t cf ct) {k' : UInt64} (hlo : a ≤ k'.toNat)
    (hhi : k'.toNat < k.toNat + r.size.toNat) : (fronted m k f cf).find? k' = none := by
  refine (layout_fronted h hf hh).find?_hole ?_
  rintro ⟨_, hout⟩
  exact hout ⟨hlo, hhi⟩

omit [Decidable cf] in
/-- Where there is a tail, it starts inside the region. -/
theorem HoleIn.tail_lt (hh : HoleIn k r a n f kt t cf ct) (hct : ct) :
    kt.toNat < k.toNat + r.size.toNat := by
  have hsize := hh.tail_guard.mp hct
  have hkey := hh.tail_key
  rw [hh.tail_size] at hsize
  omega

theorem find?_tail (h : Layout m sl S) (hf : m.find? k = some r)
    (hh : HoleIn k r a n f kt t cf ct) (hct : ct) : (fronted m k f cf).find? kt = none := by
  refine find?_fronted h hf hh ?_ (hh.tail_lt hct)
  rw [hh.tail_key]
  exact Nat.le_add_right a n

theorem liveEq_carved [Decidable ct] (h : Layout m sl S) (hf : m.find? k = some r)
    (hh : HoleIn k r a n f kt t cf ct) : LiveEq m (carved m k f kt t cf ct) :=
  (liveEq_fronted hf hh).trans
    (LiveEq.insertFreeIf (fun hct => find?_tail h hf hh hct) hh.tail_free)

/-- The hole filled with a live region. -/
theorem layout_filled [Decidable ct] (h : Layout m sl S) (hf : m.find? k = some r)
    (hh : HoleIn k r a n f kt t cf ct) {ka : UInt64} {live : RegionInfo} (hka : ka.toNat = a)
    (hlive : live.live = true) (hoff : live.offset = ka) (hsize : live.size.toNat = n) :
    Layout ((carved m k f kt t cf ct).insert ka live) (carvedSlots sl k r f kt t cf ct) S := by
  refine ((layout_carved h hf hh).insertLive hoff hlive (by rw [hsize]; exact hh.pos) ?_).congr_set
    (fun b => ?_)
  · intro b hb
    simp only [mem_bytesAt, hka, hsize] at hb
    simp only [Set.mem_sdiff, Set.mem_Ico]
    omega
  · have hstart := hh.start_le
    have hend := hh.end_le
    have hin : a ≤ b → b < a + n → b ∈ S := fun h1 h2 =>
      h.part.span_subset hf (by omega) (by simp only [sizeNat]; omega)
    simp only [Set.mem_union, Set.mem_sdiff, Set.mem_Ico, mem_bytesAt, hka, hsize]
    constructor
    · rintro (⟨hb, _⟩ | ⟨h1, h2⟩)
      · exact hb
      · exact hin h1 h2
    · intro hb
      by_cases hc : a ≤ b ∧ b < a + n
      · exact Or.inr hc
      · exact Or.inl ⟨hb, hc⟩

/-- Nothing live starts in the hole. -/
theorem not_live_in_hole [Decidable ct] (h : Layout m sl S) (hf : m.find? k = some r)
    (hh : HoleIn k r a n f kt t cf ct) {ka : UInt64} (hka : ka.toNat = a) {r' : RegionInfo}
    (hl : r'.live = true) : m.find? ka ≠ some r' := by
  intro hf'
  have hpos := hh.pos
  have hmem := (layout_carved h hf hh).part.start_mem ((liveEq_carved h hf hh ka r' hl).mpr hf')
  simp only [Set.mem_sdiff, Set.mem_Ico, hka] at hmem
  omega

end Carved

/-! ## The carving loop -/

theorem carveStep_skip {lo hi k : UInt64} {r : RegionInfo}
    (acc : OrdMap UInt64 RegionInfo × OrdSet FreeSlot)
    (h : r.live = true ∨ min (k + r.size) hi ≤ max k lo) :
    carveStep lo hi acc (k, r) = (acc.1.insert k r, acc.2) := by
  simp only [carveStep]
  rcases h with hlive | hout
  · rw [if_pos hlive]
  · by_cases hlive : r.live = true
    · rw [if_pos hlive]
    · rw [if_neg hlive, if_pos hout]

/-- Regions that are live or miss the target are copied. -/
theorem foldl_carveStep_skip {lo hi : UInt64} (l : List (UInt64 × RegionInfo))
    (acc : OrdMap UInt64 RegionInfo × OrdSet FreeSlot)
    (h : ∀ e ∈ l, e.2.live = true ∨ min (e.1 + e.2.size) hi ≤ max e.1 lo) :
    l.foldl (carveStep lo hi) acc = (l.foldl (fun m e => m.insert e.1 e.2) acc.1, acc.2) := by
  induction l generalizing acc with
  | nil => rfl
  | cons e l ih =>
      rw [List.foldl_cons, List.foldl_cons, carveStep_skip acc (h e (by simp))]
      exact ih _ (fun e' he' => h e' (by simp [he']))

/-- The region that holds the target is replaced by its two parts. -/
theorem carveStep_hit {lo hi k : UInt64} {r : RegionInfo}
    (acc : OrdMap UInt64 RegionInfo × OrdSet FreeSlot) (hfree : r.live = false)
    (hlo : max k lo = lo) (hhi : min (k + r.size) hi = hi) (hlt : lo < hi)
    (hsize : k + r.size - k = r.size) :
    carveStep lo hi acc (k, r) =
      ((if hi < k + r.size then
          (if k < lo then acc.1.insert k { r with offset := k, size := lo - k } else acc.1).insert
            hi { r with offset := hi, size := k + r.size - hi }
        else if k < lo then acc.1.insert k { r with offset := k, size := lo - k } else acc.1),
       (if hi < k + r.size then
          indexFree (if k < lo then indexFree (unindexFree acc.2 k r.size) k (lo - k)
            else unindexFree acc.2 k r.size) hi (k + r.size - hi)
        else if k < lo then indexFree (unindexFree acc.2 k r.size) k (lo - k)
          else unindexFree acc.2 k r.size)) := by
  have hnot : ¬ lo ≥ hi := not_le.mpr hlt
  simp only [carveStep, hfree, hlo, hhi, hsize, if_neg hnot, Bool.false_eq_true, if_false]
  by_cases h1 : k < lo <;> by_cases h2 : hi < k + r.size <;> simp [h1, h2]

section Carve

variable {ra : RegionAllocator} {S : Set Nat} {k lo hi : UInt64} {r : RegionInfo}

/-- The parts of the free region `r` around the target `[lo, hi)`. -/
theorem holeIn_target (h : Layout ra.regions ra.freeSlots S)
    (hS : ∀ b ∈ S, b < ra.capacity.toNat) (hf : ra.regions.find? k = some r)
    (hfree : r.live = false) (hlt : lo < hi) (hk : k.toNat ≤ lo.toNat)
    (hend : hi.toNat ≤ k.toNat + r.size.toNat) :
    HoleIn k r lo.toNat (hi.toNat - lo.toNat) { r with offset := k, size := lo - k } hi
      { r with offset := hi, size := k + r.size - hi } (k < lo) (hi < k + r.size) := by
  have hcap := ra.capacity.toNat_lt
  have hle := h.end_le hS hf
  have hadd : (k + r.size).toNat = k.toNat + r.size.toNat := toNat_add_of_lt (by omega)
  have hfront : (lo - k).toNat = lo.toNat - k.toNat := toNat_sub_of_ge hk
  have htail : (k + r.size - hi).toNat = k.toNat + r.size.toNat - hi.toNat := by
    rw [toNat_sub_of_ge (by omega), hadd]
  have hltN := UInt64.lt_iff_toNat_lt.mp hlt
  refine ⟨hfree, by omega, hk, by omega, hfree, rfl, hfront, ?_, hfree, by omega, rfl, ?_, ?_⟩
  · simp only [UInt64.lt_iff_toNat_lt, hfront]; omega
  · simp only [htail]; omega
  · simp only [UInt64.lt_iff_toNat_lt, hadd, htail]; omega

/-- Every other region misses the target, which lies inside `r`. -/
theorem misses_target (h : Layout ra.regions ra.freeSlots S)
    (hS : ∀ b ∈ S, b < ra.capacity.toNat) (hf : ra.regions.find? k = some r)
    (hk : k.toNat ≤ lo.toNat) (hend : hi.toNat ≤ k.toNat + r.size.toNat)
    {k' : UInt64} {r' : RegionInfo} (hf' : ra.regions.find? k' = some r') (hne : k' ≠ k) :
    min (k' + r'.size) hi ≤ max k' lo := by
  have hcap := ra.capacity.toNat_lt
  have hle := h.end_le hS hf'
  have hadd : (k' + r'.size).toNat = k'.toNat + r'.size.toNat := toNat_add_of_lt (by omega)
  rw [UInt64.le_iff_toNat_le, toNat_min, toNat_max, hadd]
  rcases Nat.lt_trichotomy k'.toNat k.toNat with hc | hc | hc
  · have := h.part.apart hf' hf hc
    simp only [sizeNat] at this
    omega
  · exact absurd (UInt64.toNat_inj.mp hc) hne
  · have := h.part.apart hf hf' hc
    simp only [sizeNat] at this
    omega

/-- The copying loop computes the map with the target carved out of the
free region that holds it. -/
theorem carve_eq (h : Layout ra.regions ra.freeSlots S)
    (hS : ∀ b ∈ S, b < ra.capacity.toNat) (hf : ra.regions.find? k = some r)
    (hfree : r.live = false) (hlt : lo < hi) (hk : k.toNat ≤ lo.toNat)
    (hend : hi.toNat ≤ k.toNat + r.size.toNat) :
    ra.carve lo hi = { ra with
      regions := carved ra.regions k { r with offset := k, size := lo - k } hi
        { r with offset := hi, size := k + r.size - hi } (k < lo) (hi < k + r.size)
      freeSlots := carvedSlots ra.freeSlots k r { r with offset := k, size := lo - k } hi
        { r with offset := hi, size := k + r.size - hi } (k < lo) (hi < k + r.size) } := by
  have hcap := ra.capacity.toNat_lt
  have hltN := UInt64.lt_iff_toNat_lt.mp hlt
  have hle := h.end_le hS hf
  have hadd : (k + r.size).toNat = k.toNat + r.size.toNat := toNat_add_of_lt (by omega)
  have hmax : max k lo = lo := UInt64.toNat_inj.mp (by rw [toNat_max]; omega)
  have hmin : min (k + r.size) hi = hi := UInt64.toNat_inj.mp (by rw [toNat_min, hadd]; omega)
  have hsize : k + r.size - k = r.size :=
    UInt64.toNat_inj.mp (by rw [toNat_sub_of_ge (by omega), hadd]; omega)
  obtain ⟨l₁, l₂, hsplit⟩ := List.append_of_mem (OrdMap.find?_eq_some_iff.mp hf)
  obtain ⟨hne₁, hne₂⟩ := OrdMap.ne_of_split hsplit
  have hrebuild := OrdMap.foldl_insert_split hsplit
  have hfind : ∀ e ∈ l₁ ++ l₂, ra.regions.find? e.1 = some e.2 := fun e he => by
    refine OrdMap.find?_eq_some_iff.mpr ?_
    rw [hsplit]
    rcases List.mem_append.mp he with hin | hin <;> simp [hin]
  have hskip : ∀ e ∈ l₁ ++ l₂, e.1 ≠ k →
      e.2.live = true ∨ min (e.1 + e.2.size) hi ≤ max e.1 lo := fun e he hne =>
    Or.inr (misses_target h hS hf hk hend (hfind e he) hne)
  -- no region behind `r` starts at the end of the target, unless the target ends `r`
  have hne₃ : hi < k + r.size → ∀ e ∈ l₂, e.1 ≠ hi := fun hin e he heq => by
    rw [UInt64.lt_iff_toNat_lt, hadd] at hin
    have hstart := hfind e (List.mem_append_right l₁ he)
    rw [heq, h.find?_inside hf (by omega) hin] at hstart
    cases hstart
  have hfold : ra.regions.entries.foldl (carveStep lo hi) (OrdMap.empty, ra.freeSlots) =
      (carved ra.regions k { r with offset := k, size := lo - k } hi
        { r with offset := hi, size := k + r.size - hi } (k < lo) (hi < k + r.size),
       carvedSlots ra.freeSlots k r { r with offset := k, size := lo - k } hi
        { r with offset := hi, size := k + r.size - hi } (k < lo) (hi < k + r.size)) := by
    rw [hsplit, List.foldl_append, List.foldl_cons,
      foldl_carveStep_skip l₁ _ (fun e he => hskip e (List.mem_append_left l₂ he) (hne₁ e he)),
      carveStep_hit _ hfree hmax hmin hlt hsize,
      foldl_carveStep_skip l₂ _ (fun e he => hskip e (List.mem_append_right l₁ he) (hne₂ e he))]
    refine Prod.ext ?_ rfl
    simp only [carved, fronted]
    by_cases hc1 : k < lo <;> by_cases hc2 : hi < k + r.size <;> simp only [hc1, hc2, if_true, if_false]
    · rw [OrdMap.foldl_insert_comm l₂ _ _ _ (hne₃ hc2), OrdMap.foldl_insert_comm l₂ _ _ _ hne₂,
        hrebuild]
    · rw [OrdMap.foldl_insert_comm l₂ _ _ _ hne₂, hrebuild]
    · rw [OrdMap.foldl_insert_comm l₂ _ _ _ (hne₃ hc2), hrebuild]
    · rw [hrebuild]
  simp only [carve, hfold]

end Carve

end GpuMemoryService.RegionAllocator
