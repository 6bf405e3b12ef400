/-
GpuMemoryService.RegionRenaming — allocation ids are only names.

The allocator stores and compares allocation ids and computes nothing from
them. So renaming every id along a bijection, in the arena and in the
arguments of a call, renames the ids in the result and in the arena after
the call and changes nothing else: one lemma for each operation.

Free regions carry the id 0 of a default-constructed region, which is no
allocation and is not renamed.
-/
import GpuMemoryService.RegionAllocator

namespace GpuMemoryService.RegionAllocator

open Lib

variable (ρ : Equiv.Perm AllocationId)

/-! ## Renaming -/

/-- A live region under its new id. -/
def renamedRegion (r : RegionInfo) : RegionInfo :=
  { r with allocId := if r.live then ρ r.allocId else r.allocId }

def renamedRequest (req : AllocRequest) : AllocRequest := { req with allocId := ρ req.allocId }

/-- The arena with every allocation under its new id. -/
def rename (ra : RegionAllocator) : RegionAllocator :=
  { ra with
    regions := ra.regions.mapValues (renamedRegion ρ)
    allocOffset := ra.allocOffset.rekey ρ id }

/-- The outcome of a call under the new ids. -/
def renamedOutcome (x : Result RegionInfo × RegionAllocator) : Result RegionInfo × RegionAllocator :=
  (x.1.map (renamedRegion ρ), x.2.rename ρ)

theorem renamedRegion_of_free {r : RegionInfo} (h : r.live = false) : renamedRegion ρ r = r := by
  unfold renamedRegion
  rw [if_neg (by simp [h])]

theorem renamedRegion_of_live {r : RegionInfo} (h : r.live = true) :
    renamedRegion ρ r = { r with allocId := ρ r.allocId } := by
  simp [renamedRegion, h]

/-- A new arena has no allocation to rename. -/
theorem new_rename (capacity : UInt64) : (RegionAllocator.new capacity).rename ρ = .new capacity := by
  unfold rename RegionAllocator.new
  dsimp only
  rw [OrdMap.mapValues_emplace, OrdMap.mapValues_empty, renamedRegion_of_free ρ rfl, OrdMap.rekey_empty]

theorem getD_renamed (o : Option RegionInfo) :
    ((o.map (renamedRegion ρ)).getD {}).provenance = (o.getD {}).provenance := by
  cases o <;> rfl

/-! ## Allocation -/

section Allocation

variable (ra : RegionAllocator)

theorem putFree_rename (off size : UInt64) (p : Provenance) :
    (ra.rename ρ).putFree off size p = (ra.putFree off size p).rename ρ := by
  have hfree : renamedRegion ρ (ra.freshFree off size p) = ra.freshFree off size p :=
    renamedRegion_of_free ρ rfl
  simp only [putFree, rename, OrdMap.mapValues_emplace, hfree]
  rfl

theorem putFreeIf_rename (off size : UInt64) (p : Provenance) :
    (ra.rename ρ).putFreeIf off size p = (ra.putFreeIf off size p).rename ρ := by
  unfold putFreeIf
  split
  · exact putFree_rename ρ ra off size p
  · rfl

/-- Taking a region out and putting one in. -/
theorem erase_rename (off : UInt64) (slots : OrdSet FreeSlot) :
    { ra.rename ρ with regions := (ra.rename ρ).regions.erase off, freeSlots := slots }
      = ({ ra with regions := ra.regions.erase off, freeSlots := slots } : RegionAllocator).rename ρ := by
  simp only [rename, OrdMap.mapValues_erase]

theorem liveRegion_rename (req : AllocRequest) (off aligned : UInt64) :
    (ra.rename ρ).liveRegion (renamedRequest ρ req) off aligned
      = renamedRegion ρ (ra.liveRegion req off aligned) := rfl

theorem emplace_rename (req : AllocRequest) (off aligned : UInt64) :
    { ra.rename ρ with
      nextRegionId := (ra.rename ρ).nextRegionId + 1
      regions := (ra.rename ρ).regions.emplace off (renamedRegion ρ (ra.liveRegion req off aligned)) }
      = ({ ra with
          nextRegionId := ra.nextRegionId + 1
          regions := ra.regions.emplace off (ra.liveRegion req off aligned) }
            : RegionAllocator).rename ρ := by
  simp only [rename, OrdMap.mapValues_emplace]

theorem count_rename (id : AllocationId) (off bytes : UInt64) :
    { ra.rename ρ with
      liveBytes := (ra.rename ρ).liveBytes + bytes
      liveCount := (ra.rename ρ).liveCount + 1
      allocOffset := (ra.rename ρ).allocOffset.insert (ρ id) off
      summaryDirty := true }
      = ({ ra with
          liveBytes := ra.liveBytes + bytes
          liveCount := ra.liveCount + 1
          allocOffset := ra.allocOffset.insert id off
          summaryDirty := true } : RegionAllocator).rename ρ := by
  simp only [rename, OrdMap.rekey_insert]
  rfl

theorem place_rename (req : AllocRequest) (aligned : UInt64) (slot : FreeSlot) (front : UInt64) :
    (ra.rename ρ).place (renamedRequest ρ req) aligned slot front =
      (renamedRegion ρ (ra.place req aligned slot front).1,
        (ra.place req aligned slot front).2.rename ρ) := by
  have hprov : (((ra.rename ρ).regions.find? slot.offset).getD {}).provenance
      = ((ra.regions.find? slot.offset).getD {}).provenance := by
    rw [rename, OrdMap.find?_mapValues, getD_renamed]
  have hid : (renamedRequest ρ req).allocId = ρ req.allocId := rfl
  have hslots : (ra.rename ρ).freeSlots = ra.freeSlots := rfl
  simp only [place, hprov, hid, hslots, erase_rename, putFreeIf_rename, liveRegion_rename,
    emplace_rename, count_rename]

theorem allocate_rename (req : AllocRequest) :
    (ra.rename ρ).allocate (renamedRequest ρ req) = renamedOutcome ρ (ra.allocate req) := by
  have hcap : (ra.rename ρ).capacity = ra.capacity := rfl
  have hfree : (ra.rename ρ).freeBytes = ra.freeBytes := rfl
  have hslots : (ra.rename ρ).freeSlots = ra.freeSlots := rfl
  have hbytes : (renamedRequest ρ req).bytes = req.bytes := rfl
  have halign : (renamedRequest ρ req).alignment = req.alignment := rfl
  simp only [allocate, hcap, hfree, hslots, hbytes, halign, place_rename]
  split
  · rfl
  split
  · rfl
  split
  · rfl
  split
  · rfl
  split
  · rfl
  split
  · rfl
  · split <;> rfl

end Allocation

/-! ## Freeing -/

section Freeing

variable (ra : RegionAllocator)

theorem absorbLeft_rename (off : UInt64) :
    (ra.rename ρ).absorbLeft off = ((ra.absorbLeft off).1, (ra.absorbLeft off).2.rename ρ) := by
  have hslots : (ra.rename ρ).freeSlots = ra.freeSlots := rfl
  have hregions : (ra.rename ρ).regions = ra.regions.mapValues (renamedRegion ρ) := rfl
  unfold absorbLeft
  rw [hregions, OrdMap.below_mapValues, List.getLast?_map]
  cases hlast : (ra.regions.below off).getLast? with
  | none => rfl
  | some e =>
      simp only [Option.map_some, renamedRegion]
      split
      · rw [hslots, ← erase_rename]
        rfl
      · rfl

theorem absorbRight_rename (off hi : UInt64) :
    (ra.rename ρ).absorbRight off hi
      = ((ra.absorbRight off hi).1, (ra.absorbRight off hi).2.rename ρ) := by
  have hslots : (ra.rename ρ).freeSlots = ra.freeSlots := rfl
  have hregions : (ra.rename ρ).regions = ra.regions.mapValues (renamedRegion ρ) := rfl
  unfold absorbRight
  rw [hregions, OrdMap.lowerBound_mapValues, List.head?_map]
  cases hhead : (ra.regions.lowerBound off).head? with
  | none => rfl
  | some e =>
      simp only [Option.map_some, renamedRegion]
      split
      · rw [hslots, ← erase_rename]
        rfl
      · rfl

theorem canonicalizeFree_rename (off size : UInt64) :
    (ra.rename ρ).canonicalizeFree off size = renamedOutcome ρ (ra.canonicalizeFree off size) := by
  have hcap : (ra.rename ρ).capacity = ra.capacity := rfl
  have hfree : ∀ (left : RegionAllocator) lo n,
      renamedRegion ρ (left.freshFree lo n .derived) = left.freshFree lo n .derived :=
    fun _ _ _ => renamedRegion_of_free ρ rfl
  simp only [canonicalizeFree, hcap, absorbLeft_rename, absorbRight_rename, putFree_rename]
  split
  · rfl
  split
  · rfl
  · rw [renamedOutcome, Except.map, hfree]
    rfl

theorem locate_rename (id : AllocationId) (gen : AllocationGeneration)
    (unknown notLive stale : String) :
    (ra.rename ρ).locate (ρ id) gen unknown notLive stale
      = (ra.locate id gen unknown notLive stale).map (renamedRegion ρ) := by
  have hindex : (ra.rename ρ).allocOffset.find? (ρ id) = ra.allocOffset.find? id := by
    rw [rename, OrdMap.find?_rekey, Option.map_id_apply]
  have hregions : (ra.rename ρ).regions = ra.regions.mapValues (renamedRegion ρ) := rfl
  unfold locate
  rw [hindex]
  cases ra.allocOffset.find? id with
  | none => rfl
  | some off =>
      simp only [hregions, OrdMap.find?_mapValues]
      cases ra.regions.find? off with
      | none => rfl
      | some r =>
          simp only [Option.map_some, renamedRegion]
          split
          · rfl
          split
          · rfl
          · rfl

theorem offsetOf_rename (id : AllocationId) : (ra.rename ρ).offsetOf (ρ id) = ra.offsetOf id := by
  unfold offsetOf
  rw [rename, OrdMap.find?_rekey, Option.map_id_apply]

theorem free_rename (id : AllocationId) (gen : AllocationGeneration) :
    (ra.rename ρ).free (ρ id) gen = renamedOutcome ρ (ra.free id gen) := by
  unfold free
  rw [locate_rename, offsetOf_rename]
  cases ra.locate id gen "unknown or already-freed allocation" "allocation region is not live"
      "stale allocation generation on free" with
  | error f => rfl
  | ok r =>
      dsimp only [Except.map]
      rw [← canonicalizeFree_rename]
      simp only [rename, OrdMap.mapValues_erase, OrdMap.rekey_erase]
      rfl

end Freeing

/-! ## Relocation -/

section Relocation

variable (ra : RegionAllocator)

theorem overlapsLive_rename (lo hi : UInt64) :
    (ra.rename ρ).overlapsLive lo hi = ra.overlapsLive lo hi := by
  have hregions : (ra.rename ρ).regions = ra.regions.mapValues (renamedRegion ρ) := rfl
  unfold overlapsLive
  rw [hregions, OrdMap.below_mapValues, OrdMap.lowerBound_mapValues, List.getLast?_map,
    List.takeWhile_map, List.any_map]
  cases (ra.regions.below lo).getLast? <;> rfl

/-- One round of the carving loop. -/
theorem carveStep_rename (lo hi : UInt64) (next : OrdMap UInt64 RegionInfo)
    (slots : OrdSet FreeSlot) (e : UInt64 × RegionInfo) :
    carveStep lo hi (next.mapValues (renamedRegion ρ), slots) (e.1, renamedRegion ρ e.2)
      = ((carveStep lo hi (next, slots) e).1.mapValues (renamedRegion ρ),
          (carveStep lo hi (next, slots) e).2) := by
  obtain ⟨s, r⟩ := e
  cases hlive : r.live with
  | true =>
      have hl : (renamedRegion ρ r).live = true := hlive
      simp only [carveStep, hlive, hl, if_true, OrdMap.mapValues_insert]
  | false =>
      have hpart : ∀ off n, renamedRegion ρ { r with live := false, offset := off, size := n }
          = { r with live := false, offset := off, size := n } :=
        fun _ _ => renamedRegion_of_free ρ rfl
      simp only [renamedRegion_of_free ρ hlive, carveStep, hlive, Bool.false_eq_true, if_false]
      split
      · simp only [OrdMap.mapValues_insert, renamedRegion_of_free ρ hlive]
      split <;> split <;> simp only [OrdMap.mapValues_insert, hpart]

theorem carve_rename (lo hi : UInt64) : (ra.rename ρ).carve lo hi = (ra.carve lo hi).rename ρ := by
  -- the loop, from any state
  have hloop : ∀ (l : List (UInt64 × RegionInfo)) (next : OrdMap UInt64 RegionInfo)
      (slots : OrdSet FreeSlot),
      (l.map (fun e => (e.1, renamedRegion ρ e.2))).foldl (carveStep lo hi)
          (next.mapValues (renamedRegion ρ), slots)
        = ((l.foldl (carveStep lo hi) (next, slots)).1.mapValues (renamedRegion ρ),
            (l.foldl (carveStep lo hi) (next, slots)).2) := by
    intro l
    induction l with
    | nil => exact fun _ _ => rfl
    | cons e l ih =>
        intro next slots
        rw [List.map_cons, List.foldl_cons, List.foldl_cons, carveStep_rename, ih]
  have hentries : (ra.rename ρ).regions.entries
      = ra.regions.entries.map (fun e => (e.1, renamedRegion ρ e.2)) := rfl
  have hslots : (ra.rename ρ).freeSlots = ra.freeSlots := rfl
  unfold carve
  rw [hentries, hslots, show (OrdMap.empty : OrdMap UInt64 RegionInfo)
    = OrdMap.empty.mapValues (renamedRegion ρ) from rfl, hloop]
  rfl

theorem relocate_rename (id : AllocationId) (gen : AllocationGeneration) (o n a : UInt64) :
    (ra.rename ρ).relocate (ρ id) gen o n a = renamedOutcome ρ (ra.relocate id gen o n a) := by
  have hcap : (ra.rename ρ).capacity = ra.capacity := rfl
  unfold relocate
  rw [locate_rename, offsetOf_rename]
  cases ra.locate id gen "unknown allocation" "allocation region is not live"
      "stale generation on relocate" with
  | error f => rfl
  | ok old =>
      dsimp only [Except.map]
      have hsize : (renamedRegion ρ old).size = old.size := rfl
      have hremoved :
          { ra.rename ρ with
            regions := (ra.rename ρ).regions.erase (ra.offsetOf id)
            allocOffset := (ra.rename ρ).allocOffset.erase (ρ id) }
          = ({ ra with
              regions := ra.regions.erase (ra.offsetOf id)
              allocOffset := ra.allocOffset.erase id } : RegionAllocator).rename ρ := by
        simp only [rename, OrdMap.mapValues_erase, OrdMap.rekey_erase]
      simp only [hremoved]
      rw [hsize, hcap, overlapsLive_rename, carve_rename, canonicalizeFree_rename]
      split
      · rfl
      split
      · rfl
      split
      · rfl
      split
      · rfl
      split
      · rfl
      rcases RegionAllocator.canonicalizeFree _ _ _ with ⟨f | region, freed⟩
      · rfl
      · have hmoved : renamedRegion ρ (movedRegion old gen o n a)
            = movedRegion (renamedRegion ρ old) gen o n a := rfl
        simp only [renamedOutcome, Except.map, rename, OrdMap.mapValues_emplace,
          OrdMap.rekey_insert, hmoved]
        rfl

end Relocation

/-! ## Pins and queries -/

section Queries

variable (ra : RegionAllocator)

theorem pin_rename (id : AllocationId) (gen : AllocationGeneration) :
    (ra.rename ρ).pin (ρ id) gen = renamedOutcome ρ (ra.pin id gen) := by
  unfold pin
  rw [locate_rename, offsetOf_rename]
  cases ra.locate id gen "unknown allocation" "allocation not live" "stale generation on pin" with
  | error f => rfl
  | ok r =>
      simp only [renamedOutcome, Except.map, rename, OrdMap.mapValues_insert]
      rfl

theorem unpin_rename (id : AllocationId) (gen : AllocationGeneration) :
    (ra.rename ρ).unpin (ρ id) gen = renamedOutcome ρ (ra.unpin id gen) := by
  unfold unpin
  rw [locate_rename, offsetOf_rename]
  cases ra.locate id gen "unknown allocation" "allocation not live" "stale generation on unpin" with
  | error f => rfl
  | ok r =>
      have hpins : (renamedRegion ρ r).pinCount = r.pinCount := rfl
      simp only [Except.map, hpins]
      split
      · rfl
      · simp only [renamedOutcome, Except.map, rename, OrdMap.mapValues_insert]
        rfl

theorem get_rename (id : AllocationId) (gen : AllocationGeneration) :
    (ra.rename ρ).get (ρ id) gen = (ra.get id gen).map (renamedRegion ρ) :=
  locate_rename ρ ra id gen _ _ _

theorem ensureSummary_rename : (ra.rename ρ).ensureSummary = ra.ensureSummary.rename ρ := by
  unfold ensureSummary
  have hdirty : (ra.rename ρ).summaryDirty = ra.summaryDirty := rfl
  rw [hdirty]
  split <;> rfl

theorem freeRegionCount_rename : (ra.rename ρ).freeRegionCount = ra.freeRegionCount := by
  rw [freeRegionCount, ensureSummary_rename]
  rfl

theorem largestFreeRegion_rename : (ra.rename ρ).largestFreeRegion = ra.largestFreeRegion := by
  rw [largestFreeRegion, ensureSummary_rename]
  rfl

theorem bytesWith_rename (m : Movability) : (ra.rename ρ).bytesWith m = ra.bytesWith m := by
  simp only [bytesWith, rename, OrdMap.mapValues, List.foldl_map]
  rfl

theorem externalFragmentation_rename :
    (ra.rename ρ).externalFragmentation = ra.externalFragmentation := by
  unfold externalFragmentation
  rw [ensureSummary_rename]
  rfl

theorem snapshotLive_rename :
    (ra.rename ρ).snapshotLive = ra.snapshotLive.map (renamedRegion ρ) := by
  simp only [snapshotLive, rename, OrdMap.mapValues, List.map_map, List.filter_map]
  rfl

theorem snapshotFree_rename : (ra.rename ρ).snapshotFree = ra.snapshotFree := by
  have hfree : ∀ r ∈ ra.snapshotFree, renamedRegion ρ r = r := by
    intro r hr
    refine renamedRegion_of_free ρ ?_
    simpa [snapshotFree] using (List.mem_filter.mp hr).2
  calc (ra.rename ρ).snapshotFree = ra.snapshotFree.map (renamedRegion ρ) := by
        simp only [snapshotFree, rename, OrdMap.mapValues, List.map_map, List.filter_map]
        rfl
    _ = ra.snapshotFree.map id := List.map_congr_left hfree
    _ = ra.snapshotFree := List.map_id _

end Queries

end GpuMemoryService.RegionAllocator
