/-
GpuMemoryService.RegionGaps — the free regions are the gaps between the
live ones.

`freeSet` is the set of bytes of the arena outside every live region. The
free regions are its gaps (`Inv.gap_iff`), so the two cached figures are
the length of the longest gap (`Inv.longest`) and the number of gaps
(`Inv.gap_count`).

An exchange of one live region for another is a move in the sense of
`Lib.Gaps` (`Effect.moved`).
-/
import Mathlib.Data.Set.Card
import GpuMemoryService.Lib.Gaps
import GpuMemoryService.RegionCanonical
import GpuMemoryService.RegionPlacement

namespace GpuMemoryService.RegionAllocator

open Lib

/-- The bytes of the arena that are in no live region. -/
def freeSet (ra : RegionAllocator) : Set Nat :=
  {b | b < ra.capacity.toNat ∧
    ∀ r ∈ ra.snapshotLive, ¬ (r.offset.toNat ≤ b ∧ b < r.offset.toNat + r.size.toNat)}

section Gaps

variable {ra : RegionAllocator}

/-- These are the bytes of the free regions. -/
theorem Inv.freeSet_eq (hinv : Inv ra) :
    ra.freeSet = Partitions.coveredBy UInt64.toNat sizeNat (fun r => r.live = false) ra.regions := by
  ext b
  rw [hinv.mem_free_bytes]
  simp [freeSet, liveIntervals, interval]

theorem Inv.mem_freeSet (hinv : Inv ra) {b : Nat} :
    b ∈ ra.freeSet ↔
      b < ra.capacity.toNat ∧ ∀ k r, ra.LiveAt k r → ¬ (k.toNat ≤ b ∧ b < k.toNat + r.size.toNat) := by
  unfold freeSet
  constructor
  · rintro ⟨hlt, hout⟩
    refine ⟨hlt, fun k r hl => ?_⟩
    have hoff := hinv.offset_eq hl
    rw [← hoff] at hl ⊢
    exact hout r (hinv.mem_snapshotLive.mpr hl)
  · rintro ⟨hlt, hout⟩
    exact ⟨hlt, fun r hr => hout _ r (hinv.mem_snapshotLive.mp hr)⟩

/-- **The free regions are the gaps.** -/
theorem Inv.gap_iff (hinv : Inv ra) {lo n : Nat} :
    Gap ra.freeSet lo n ↔
      ∃ f ∈ ra.snapshotFree, f.offset.toNat = lo ∧ f.size.toNat = n := by
  rw [hinv.freeSet_eq, hinv.layout.part.gap_iff hinv.layout.merged toNat_strictMono.injective]
  constructor
  · rintro ⟨k, r, hf, hfree, hlo, hn⟩
    have hoff := hinv.layout.keyed hf
    exact ⟨r, hinv.mem_snapshotFree.mpr ⟨by rw [hoff]; exact hf, hfree⟩, by rw [hoff]; exact hlo, hn⟩
  · rintro ⟨f, hf, hlo, hn⟩
    obtain ⟨hfound, hfree⟩ := hinv.mem_snapshotFree.mp hf
    exact ⟨f.offset, f, hfound, hfree, hlo, hn⟩

theorem Inv.gap_of_free (hinv : Inv ra) {f : RegionInfo} (hf : f ∈ ra.snapshotFree) :
    Gap ra.freeSet f.offset.toNat f.size.toNat :=
  hinv.gap_iff.mpr ⟨f, hf, rfl, rfl⟩

/-- A stretch of free bytes lies inside a free region. -/
theorem Inv.stretch_inside (hinv : Inv ra) {a n : Nat} (hn : 0 < n) (hs : Stretch ra.freeSet a n) :
    ∃ f ∈ ra.snapshotFree, f.offset.toNat ≤ a ∧ a + n ≤ f.offset.toNat + f.size.toNat := by
  rw [hinv.freeSet_eq] at hs
  obtain ⟨k, r, hf, hfree, hlo, hhi⟩ :=
    hinv.layout.part.stretch_inside hinv.layout.merged toNat_strictMono.injective hn hs
  have hoff := hinv.layout.keyed hf
  refine ⟨r, hinv.mem_snapshotFree.mpr ⟨by rw [hoff]; exact hf, hfree⟩, ?_, ?_⟩
  · rw [hoff]
    exact hlo
  · rw [hoff]
    exact hhi

/-- A free byte is in a free region. -/
theorem Inv.region_of_free (hinv : Inv ra) {b : Nat} (hb : b ∈ ra.freeSet) :
    ∃ f ∈ ra.snapshotFree, f.offset.toNat ≤ b ∧ b < f.offset.toNat + f.size.toNat := by
  have hone : Stretch ra.freeSet b 1 := by
    intro c hlo hhi
    have hc : c = b := by omega
    rw [hc]
    exact hb
  obtain ⟨f, hf, hlo, hhi⟩ := hinv.stretch_inside Nat.one_pos hone
  exact ⟨f, hf, hlo, by omega⟩

/-- The size index lists the free regions. -/
theorem Inv.mem_freeSlots (hinv : Inv ra) {s : FreeSlot} :
    s ∈ ra.freeSlots ↔ ∃ f ∈ ra.snapshotFree, s = ⟨f.size, f.offset⟩ := by
  have hmem := hinv.mem_freeIntervals (i := (s.offset, s.size))
  rw [← hmem, freeIntervals, List.mem_map]
  constructor
  · rintro ⟨f, hf, heq⟩
    obtain ⟨ho, hs⟩ := Prod.mk.inj heq
    exact ⟨f, hf, by rw [ho, hs]⟩
  · rintro ⟨f, hf, rfl⟩
    exact ⟨f, hf, rfl⟩

/-- The last slot of the index has the largest size. -/
theorem largestSlot_cases (slots : OrdSet FreeSlot) :
    (largestSlot slots = 0 ∧ ∀ s, s ∉ slots) ∨
      ∃ s ∈ slots, largestSlot slots = s.size ∧ ∀ s' ∈ slots, s'.size.toNat ≤ s.size.toNat := by
  unfold largestSlot
  cases hlast : slots.entries.getLast? with
  | none =>
      have hnil : slots.entries = [] := List.getLast?_eq_none_iff.mp hlast
      refine Or.inl ⟨rfl, fun s hs => ?_⟩
      obtain ⟨u, hu⟩ := OrdMap.mem_iff_find?.mp hs
      have := OrdMap.find?_eq_some_iff.mp hu
      rw [hnil] at this
      cases this
  | some e =>
      refine Or.inr ⟨e.1, ?_, rfl, fun s hs => ?_⟩
      · exact OrdMap.mem_iff_find?.mpr
          ⟨e.2, OrdMap.find?_eq_some_iff.mpr (List.mem_of_getLast? hlast)⟩
      · obtain ⟨u, hu⟩ := OrdMap.mem_iff_find?.mp hs
        obtain ⟨init, hinit⟩ := List.getLast?_eq_some_iff.mp hlast
        have hmem := OrdMap.find?_eq_some_iff.mp hu
        have hsorted := slots.sorted
        rw [hinit] at hmem hsorted
        have hle : s ≤ e.1 := by
          rcases List.mem_append.mp hmem with hin | hin
          · exact le_of_lt ((List.pairwise_append.mp hsorted).2.2 _ hin e (by simp))
          · rw [← List.mem_singleton.mp hin]
        rcases slot_le_iff.mp hle with hlt | ⟨heq, _⟩
        · exact le_of_lt (UInt64.lt_iff_toNat_lt.mp hlt)
        · rw [heq]

/-- **The largest free region is the longest gap.** -/
theorem Inv.longest (hinv : Inv ra) (hc : Cached ra) :
    Longest ra.freeSet ra.largestFreeRegion.toNat := by
  rw [hc.largestFreeRegion]
  have hbound : ∀ lo k, Stretch ra.freeSet lo k → 0 < k → ∃ s ∈ ra.freeSlots, k ≤ s.size.toNat := by
    intro lo k hs hk
    obtain ⟨f, hf, hlo, hhi⟩ := hinv.stretch_inside hk hs
    exact ⟨⟨f.size, f.offset⟩, hinv.mem_freeSlots.mpr ⟨f, hf, rfl⟩, by dsimp only; omega⟩
  rcases largestSlot_cases ra.freeSlots with ⟨hzero, hnone⟩ | ⟨s, hs, hsize, hmax⟩
  · refine ⟨⟨0, ?_⟩, fun lo k hst => ?_⟩
    · rw [hzero]
      exact fun b _ hlt => absurd hlt (Nat.not_lt_zero b)
    · rcases Nat.eq_zero_or_pos k with hk | hk
      · omega
      · obtain ⟨s, hs, _⟩ := hbound lo k hst hk
        exact absurd hs (hnone s)
  · rw [hsize]
    refine ⟨?_, fun lo k hst => ?_⟩
    · obtain ⟨f, hf, rfl⟩ := hinv.mem_freeSlots.mp hs
      exact ⟨_, (hinv.gap_of_free hf).inside⟩
    · rcases Nat.eq_zero_or_pos k with hk | hk
      · omega
      · obtain ⟨s', hs', hle⟩ := hbound lo k hst hk
        exact le_trans hle (hmax s' hs')

/-- There are no more free regions than bytes. -/
theorem Inv.size_freeSlots_le (hinv : Inv ra) : ra.freeSlots.size ≤ ra.capacity.toNat := by
  have hcount : ra.freeSlots.size ≤ ra.regions.size := by
    rw [hinv.size_freeSlots]
    exact List.length_filter_le _ _
  have hweigh : ra.regions.weigh (fun _ _ => 1) ≤ ra.regions.weigh (fun _ r => sizeNat r) :=
    OrdMap.weigh_le_weigh (fun k r hf => hinv.layout.part.len_pos hf)
  rw [hinv.weigh_sizes, OrdMap.weigh_one] at hweigh
  omega

/-- **The free region count is the number of gaps.** -/
theorem Inv.gap_count (hinv : Inv ra) (hc : Cached ra) :
    {p : Nat × Nat | Gap ra.freeSet p.1 p.2}.ncard = ra.freeRegionCount.toNat := by
  let place : FreeSlot → Nat × Nat := fun s => (s.offset.toNat, s.size.toNat)
  have hinj : Function.Injective place := by
    intro s s' heq
    obtain ⟨ho, hs⟩ := Prod.mk.inj heq
    cases s
    cases s'
    rw [FreeSlot.mk.injEq]
    exact ⟨UInt64.toNat_inj.mp hs, UInt64.toNat_inj.mp ho⟩
  have hset : {p : Nat × Nat | Gap ra.freeSet p.1 p.2} =
      (((ra.freeSlots.entries.map (·.1)).map place).toFinset : Set (Nat × Nat)) := by
    ext p
    rw [Set.mem_ofPred_eq, hinv.gap_iff, List.coe_toFinset, Set.mem_ofPred_eq, List.mem_map]
    simp only [OrdMap.mem_keys, ← OrdMap.mem_iff_find?, hinv.mem_freeSlots]
    constructor
    · rintro ⟨f, hf, hlo, hn⟩
      exact ⟨⟨f.size, f.offset⟩, ⟨f, hf, rfl⟩, Prod.ext hlo hn⟩
    · rintro ⟨s, ⟨f, hf, rfl⟩, rfl⟩
      exact ⟨f, hf, rfl, rfl⟩
  have hnodup : ((ra.freeSlots.entries.map (·.1)).map place).Nodup :=
    ra.freeSlots.nodup_keys.map hinj
  have hsize := hinv.size_freeSlots_le
  have hcap := ra.capacity.toNat_lt
  rw [hset, Set.ncard_coe_finset, List.toFinset_card_of_nodup hnodup, List.length_map,
    List.length_map, hc.freeRegionCount, UInt64.toNat_ofNat', Nat.mod_eq_of_lt]
  · rfl
  · omega

end Gaps

/-! ## Exchanges -/

section Exchange

variable {ra ra' : RegionAllocator} {id : AllocationId} {old new : RegionInfo}

/-- **An exchange of live regions moves free bytes**: the old region is
given back and the new one taken. -/
theorem Effect.moved (hinv : Inv ra) (he : Effect ra ra' id (some old) (some new)) :
    Moved ra.freeSet ra'.freeSet old.offset.toNat old.size.toNat new.offset.toNat
      new.size.toNat := by
  have hinv' := he.inv hinv
  obtain ⟨hold, _⟩ := he.old_live rfl
  have hend := hinv.end_le hold.1
  intro b
  rw [hinv.mem_freeSet, hinv'.mem_freeSet, he.capacity]
  constructor
  · rintro ⟨hlt, hout⟩
    have hnew : ra'.LiveAt new.offset new := (he.live _ _).mpr (Or.inl ⟨rfl, rfl⟩)
    refine ⟨?_, hout _ _ hnew⟩
    by_cases hb : old.offset.toNat ≤ b ∧ b < old.offset.toNat + old.size.toNat
    · exact Or.inr hb
    · refine Or.inl ⟨hlt, fun k r hl hk => ?_⟩
      by_cases hsame : k = old.offset
      · subst hsame
        rw [hl.unique hold] at hk
        exact hb hk
      · exact hout k r ((he.live k r).mpr (Or.inr ⟨hl, fun o ho => by cases ho; exact hsame⟩)) hk
  · rintro ⟨hback, hnot⟩
    refine ⟨?_, fun k r hl hk => ?_⟩
    · rcases hback with ⟨hlt, _⟩ | hb
      · exact hlt
      · omega
    · rcases (he.live k r).mp hl with ⟨hr, rfl⟩ | ⟨hl', hne⟩
      · cases hr
        exact hnot hk
      · rcases hback with ⟨_, hout⟩ | hb
        · exact hout k r hl' hk
        · -- a byte of the old region is in no other live region
          exact hne old rfl (hinv.layout.part.shared toNat_strictMono.injective hl'.1 hold.1
            (mem_bytesAt.mpr hk) (mem_bytesAt.mpr hb))

end Exchange

end GpuMemoryService.RegionAllocator
