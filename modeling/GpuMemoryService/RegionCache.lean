/-
GpuMemoryService.RegionCache — no operation reads the summary cache.

`uncached` drops the cache of an arena. Every operation answers the same
without it and leaves the same arena up to it: one lemma for each
operation. With a cache that agrees with the index (`Cached`), the queries
that do read it depend only on what is left without it
(`Cached.ensureSummary_eq`).
-/
import GpuMemoryService.RegionActions

namespace GpuMemoryService.RegionAllocator

open Lib

/-- The arena without its summary cache. -/
def uncached (ra : RegionAllocator) : RegionAllocator :=
  { ra with summaryDirty := true, freeCount := 0, largestFree := 0 }

/-- The outcome of a call, up to the cache. -/
def uncachedOutcome (x : Result RegionInfo × RegionAllocator) :
    Result RegionInfo × RegionAllocator := (x.1, x.2.uncached)

section Cache

variable (ra : RegionAllocator)

theorem place_uncached (req : AllocRequest) (aligned : UInt64) (slot : FreeSlot)
    (front : UInt64) :
    ra.uncached.place req aligned slot front =
      ((ra.place req aligned slot front).1, (ra.place req aligned slot front).2.uncached) := by
  unfold place putFreeIf
  by_cases hfront : front > 0 <;> by_cases htail : slot.size - front - aligned > 0 <;>
    simp only [hfront, htail, if_true, if_false] <;> rfl

theorem allocate_uncached (req : AllocRequest) :
    ra.uncached.allocate req = uncachedOutcome (ra.allocate req) := by
  have hcap : ra.uncached.capacity = ra.capacity := rfl
  have hfree : ra.uncached.freeBytes = ra.freeBytes := rfl
  have hslots : ra.uncached.freeSlots = ra.freeSlots := rfl
  simp only [allocate, hcap, hfree, hslots, place_uncached]
  split
  · rfl
  split
  · rfl
  split
  · rfl
  split
  · rfl
  split
  · rfl
  split
  · rfl
  · split <;> rfl

theorem absorbLeft_uncached (off : UInt64) :
    ra.uncached.absorbLeft off = ((ra.absorbLeft off).1, (ra.absorbLeft off).2.uncached) := by
  have hregions : ra.uncached.regions = ra.regions := rfl
  unfold absorbLeft
  rw [hregions]
  split
  · split <;> rfl
  · rfl

theorem absorbRight_uncached (off hi : UInt64) :
    ra.uncached.absorbRight off hi
      = ((ra.absorbRight off hi).1, (ra.absorbRight off hi).2.uncached) := by
  have hregions : ra.uncached.regions = ra.regions := rfl
  unfold absorbRight
  rw [hregions]
  split
  · split <;> rfl
  · rfl

theorem canonicalizeFree_uncached (off size : UInt64) :
    ra.uncached.canonicalizeFree off size = uncachedOutcome (ra.canonicalizeFree off size) := by
  have hcap : ra.uncached.capacity = ra.capacity := rfl
  simp only [canonicalizeFree, hcap, absorbLeft_uncached, absorbRight_uncached]
  split
  · rfl
  split
  · rfl
  · rfl

theorem free_uncached (id : AllocationId) (gen : AllocationGeneration) :
    ra.uncached.free id gen = uncachedOutcome (ra.free id gen) := by
  have hlocate : ∀ a b c, ra.uncached.locate id gen a b c = ra.locate id gen a b c :=
    fun _ _ _ => rfl
  unfold free
  rw [hlocate]
  split
  · rfl
  · extract_lets off off'
    exact canonicalizeFree_uncached { ra with
      regions := ra.regions.erase off
      allocOffset := ra.allocOffset.erase id
      liveBytes := ra.liveBytes - _
      liveCount := ra.liveCount - 1 } off _

theorem carve_uncached (lo hi : UInt64) : ra.uncached.carve lo hi = (ra.carve lo hi).uncached := rfl

theorem relocate_uncached (id : AllocationId) (gen : AllocationGeneration) (o n a : UInt64) :
    ra.uncached.relocate id gen o n a = uncachedOutcome (ra.relocate id gen o n a) := by
  have hlocate : ∀ a b c, ra.uncached.locate id gen a b c = ra.locate id gen a b c :=
    fun _ _ _ => rfl
  have hoff : ra.uncached.offsetOf id = ra.offsetOf id := rfl
  have hcap : ra.uncached.capacity = ra.capacity := rfl
  have hover : ∀ hi, ra.uncached.overlapsLive o hi = ra.overlapsLive o hi := fun _ => rfl
  have hremoved :
      { ra.uncached with
        regions := ra.uncached.regions.erase (ra.offsetOf id)
        allocOffset := ra.uncached.allocOffset.erase id }
      = ({ ra with
          regions := ra.regions.erase (ra.offsetOf id)
          allocOffset := ra.allocOffset.erase id } : RegionAllocator).uncached := rfl
  unfold relocate
  rw [hlocate]
  split
  · rfl
  simp only [hoff, hover, hremoved]
  rw [hcap, carve_uncached, canonicalizeFree_uncached]
  split
  · rfl
  split
  · rfl
  split
  · rfl
  split
  · rfl
  split
  · rfl
  rcases RegionAllocator.canonicalizeFree _ _ _ with ⟨f | region, freed⟩ <;> rfl

theorem pin_uncached (id : AllocationId) (gen : AllocationGeneration) :
    ra.uncached.pin id gen = uncachedOutcome (ra.pin id gen) := by
  have hlocate : ∀ a b c, ra.uncached.locate id gen a b c = ra.locate id gen a b c :=
    fun _ _ _ => rfl
  unfold pin
  rw [hlocate]
  split <;> rfl

theorem unpin_uncached (id : AllocationId) (gen : AllocationGeneration) :
    ra.uncached.unpin id gen = uncachedOutcome (ra.unpin id gen) := by
  have hlocate : ∀ a b c, ra.uncached.locate id gen a b c = ra.locate id gen a b c :=
    fun _ _ _ => rfl
  unfold unpin
  rw [hlocate]
  split
  · rfl
  · split <;> rfl

theorem ensureSummary_uncached : ra.ensureSummary.uncached = ra.uncached := by
  unfold ensureSummary
  split <;> rfl

variable {ra} in
/-- A cache that agrees with the index can be dropped. -/
theorem Cached.ensureSummary_eq (h : Cached ra) : ra.ensureSummary = ra.uncached.ensureSummary := by
  obtain ⟨hcount, hlargest⟩ := h.ensureSummary
  unfold RegionAllocator.ensureSummary at *
  cases hdirty : ra.summaryDirty with
  | true => rfl
  | false =>
      simp only [hdirty, Bool.not_false, if_true] at hcount hlargest ⊢
      cases ra
      simp only [uncached, largestSlot] at *
      subst hcount hlargest hdirty
      rfl

end Cache

end GpuMemoryService.RegionAllocator
