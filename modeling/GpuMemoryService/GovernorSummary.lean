/-
GpuMemoryService.GovernorSummary — a summary is what a recount would give.

`summary()` takes its figures from five places: the incremental counters of
the arena, the cached figures of the free-slot index, two sums over the
regions, and a sum over the records. `summary_recomputed` puts them against
the live regions and the records, after any run:

* what is free and what is committed make up the arena, and the cached
  figures are the longest gap between the live regions and their number;
* where no id in use has been drawn again, the records are the live
  regions, so that bytes, count and classes can be recounted from them;
* what is reclaimable is movable, unless a record has a movability that no
  enumerator names: that is neither counted as movable nor excluded from
  reclaim.
-/
import Mathlib.Order.Bounds.Basic
import GpuMemoryService.RegionGaps
import GpuMemoryService.GovernorReclaim
import GpuMemoryService.GovernorQueries
import GpuMemoryService.GovernorPlans

namespace GpuMemoryService.MemoryGovernor

open Lib

/-! ## Records and regions weigh the same -/

section Weights

variable {g : MemoryGovernor}

/-- Where every live region is indexed, the regions weigh no more than
their records. -/
theorem Inv.weigh_regions_le (h : Inv g) (hidx : g.arena.Indexed)
    (hpos : 0 < g.domain.managedCapacity.toNat) {f : AllocationId → AllocationRecord → Nat}
    {w : UInt64 → RegionInfo → Nat} (hfree : ∀ k r, r.live = false → w k r = 0)
    (hle : ∀ id rec r, g.Current id rec.generation rec r → r.live = true → w r.offset r ≤ f id rec) :
    g.arena.regions.weigh w ≤ g.records.weigh f := by
  rw [← OrdMap.weigh_restrict (p := (·.live)) hfree]
  refine OrdMap.weigh_le_of_key (·.offset) (fun k r hf => ?_)
  obtain ⟨hfound, hlive⟩ := OrdMap.find?_restrict.mp hf
  have harena := h.arena hpos
  have hoff := harena.layout.keyed hfound
  have hmem : r ∈ g.arena.snapshotLive :=
    harena.mem_snapshotLive.mpr ⟨by rw [hoff]; exact hfound, hlive⟩
  obtain ⟨rec, hcur⟩ := current_of_live h hidx hpos hmem
  refine ⟨r.allocId, rec, hcur.found, by rw [hcur.agrees.offset]; exact hoff, ?_⟩
  rw [← hcur.generation] at hcur
  rw [← hoff]
  exact hle _ rec r hcur hlive

/-- **Weighing the records is weighing the live regions.** -/
theorem Inv.weigh_records_eq (h : Inv g) (hidx : g.arena.Indexed)
    (hpos : 0 < g.domain.managedCapacity.toNat) {f : AllocationId → AllocationRecord → Nat}
    {w : UInt64 → RegionInfo → Nat} (hfree : ∀ k r, r.live = false → w k r = 0)
    (heq : ∀ id rec r, g.Current id rec.generation rec r → r.live = true → w r.offset r = f id rec) :
    g.arena.regions.weigh w = g.records.weigh f :=
  le_antisymm
    (h.weigh_regions_le hidx hpos hfree (fun id rec r hcur hlive => (heq id rec r hcur hlive).le))
    (h.weigh_records_le (fun id rec r hcur hlive => (heq id rec r hcur hlive).ge))

end Weights

/-! ## The summary -/

/-- What a record of class `m` weighs. -/
def classBytes (m : Movability) (_ : AllocationId) (rec : AllocationRecord) : Nat :=
  if rec.movability = m then rec.regionSize.toNat else 0

/-- The bytes of the arena outside every record's interval. -/
def unrecorded (g : MemoryGovernor) : Set Nat :=
  {b | b < g.domain.managedCapacity.toNat ∧ ∀ id rec, g.records.find? id = some rec →
    ¬ (rec.offset.toNat ≤ b ∧ b < rec.offset.toNat + rec.regionSize.toNat)}

/-- The figures against the live regions. -/
structure Accurate (g : MemoryGovernor) (s : MemorySummary) : Prop where
  total : s.free.toNat + s.committed.toNat = g.domain.managedCapacity.toNat
  largestFree : IsGreatest {n | n = 0 ∨ ∃ lo, Gap g.arena.freeSet lo n} s.largestFree.toNat
  freeRegions : {p : Nat × Nat | Gap g.arena.freeSet p.1 p.2}.ncard = s.freeRegions.toNat
  classes : s.movable.toNat + s.pinned.toNat ≤ s.committed.toNat
  reclaimable : (∀ id rec, g.records.find? id = some rec → Declared rec.movability) →
    s.reclaimable ≤ s.movable

/-- The figures against the records. -/
structure Recounted (g : MemoryGovernor) (s : MemorySummary) : Prop where
  committed : s.committed.toNat = g.recordedBytes
  liveAllocations : s.liveAllocations.toNat = g.records.size
  movable : s.movable.toNat = g.records.weigh (classBytes .movable)
  pinned : s.pinned.toNat = g.records.weigh (classBytes .pinned)
  gaps : g.arena.freeSet = g.unrecorded

section Summary

variable {g : MemoryGovernor}

/-- Movable and pinned bytes are different live bytes. -/
theorem class_weights_le (ra : RegionAllocator) :
    ra.regions.weigh (RegionAllocator.classSize .movable) +
        ra.regions.weigh (RegionAllocator.classSize .pinned) ≤
      ra.regions.weigh RegionAllocator.liveSize := by
  unfold OrdMap.weigh
  rw [← List.sum_map_add]
  refine List.sum_le_sum (fun e _ => ?_)
  unfold RegionAllocator.classSize RegionAllocator.liveSize
  cases e.2.live with
  | false => simp
  | true => cases e.2.movability <;> simp

/-- A record that is not excluded from reclaim is movable, if its
movability is declared. -/
theorem movable_of_open {rec : AllocationRecord} (hopen : excluded rec = false)
    (hdeclared : Declared rec.movability) : rec.movability = .movable := by
  simp only [excluded, Bool.or_eq_false_iff, beq_eq_false_iff_ne] at hopen
  have hcases : rec.movability = .movable ∨ rec.movability = .pinned ∨
      rec.movability = .nonmovable := by
    simpa [Declared, ByteEnum.enumerators, Movability.all] using hdeclared
  rcases hcases with hmov | hpin | hnon
  · exact hmov
  · exact absurd hpin hopen.1.1.1.2
  · exact absurd hnon hopen.1.1.2

theorem reclaimable_le_movable (h : Inv g) (hpos : 0 < g.domain.managedCapacity.toNat)
    (hdeclared : ∀ id rec, g.records.find? id = some rec → Declared rec.movability) :
    g.reclaimableBytes ≤ g.arena.movableBytes := by
  rw [UInt64.le_iff_toNat_le, h.toNat_reclaimableBytes, RegionAllocator.movableBytes,
    (h.arena hpos).toNat_bytesWith]
  refine h.weigh_records_le (fun id rec r hcur hlive => ?_)
  unfold openSize RegionAllocator.classSize
  cases hopen : excluded rec with
  | true => simp
  | false =>
      have hmov := movable_of_open hopen (hdeclared id rec hcur.found)
      rw [hcur.agrees.movability] at hmov
      simp [hlive, hmov, hcur.agrees.size]

theorem accurate_of_inv (h : Inv g) (hpos : 0 < g.domain.managedCapacity.toNat)
    (hc : RegionAllocator.Cached g.arena) : Accurate g g.summary.1 := by
  have harena := h.arena hpos
  have hlongest := harena.longest hc
  have hlive := harena.liveBytes_le
  exact
    { total := by
        show g.arena.freeBytes.toNat + g.arena.liveBytes.toNat = _
        rw [harena.toNat_freeBytes, ← h.capacity]
        omega
      largestFree := by
        show IsGreatest _ g.arena.largestFreeRegion.toNat
        constructor
        · rcases Nat.eq_zero_or_pos g.arena.largestFreeRegion.toNat with hzero | hlarge
          · exact Or.inl hzero
          · obtain ⟨lo, hlo⟩ := hlongest.attained
            exact Or.inr ⟨lo, hlongest.gap hlarge hlo⟩
        · rintro n (rfl | ⟨lo, hgap⟩)
          · exact Nat.zero_le _
          · exact hlongest.bound lo n hgap.inside
      freeRegions := harena.gap_count hc
      classes := by
        show (g.arena.bytesWith .movable).toNat + (g.arena.bytesWith .pinned).toNat ≤
          g.arena.liveBytes.toNat
        rw [harena.toNat_bytesWith, harena.toNat_bytesWith, harena.bytes]
        exact class_weights_le g.arena
      reclaimable := reclaimable_le_movable h hpos }

/-- The bytes of a class, recounted from the records. -/
theorem Inv.bytesWith_records (h : Inv g) (hidx : g.arena.Indexed)
    (hpos : 0 < g.domain.managedCapacity.toNat) (m : Movability) :
    (g.arena.bytesWith m).toNat = g.records.weigh (classBytes m) := by
  rw [(h.arena hpos).toNat_bytesWith]
  refine h.weigh_records_eq hidx hpos (fun k r hl => by simp [RegionAllocator.classSize, hl]) ?_
  intro id rec r hcur hlive
  simp [RegionAllocator.classSize, classBytes, hlive, hcur.agrees.movability, hcur.agrees.size]

/-- The live intervals are the records' intervals. -/
theorem Inv.freeSet_eq_unrecorded (h : Inv g) (hidx : g.arena.Indexed)
    (hpos : 0 < g.domain.managedCapacity.toNat) : g.arena.freeSet = g.unrecorded := by
  have harena := h.arena hpos
  ext b
  unfold RegionAllocator.freeSet unrecorded
  rw [← h.capacity]
  constructor
  · rintro ⟨hlt, hout⟩
    refine ⟨hlt, fun id rec hf => ?_⟩
    obtain ⟨_, _, region, hcur⟩ := h.current hf
    obtain ⟨_, hlive, _⟩ := harena.lookup_some hcur.lookup
    rw [hcur.agrees.offset, hcur.agrees.size]
    exact hout region (harena.mem_snapshotLive.mpr hlive)
  · rintro ⟨hlt, hout⟩
    refine ⟨hlt, fun r hr => ?_⟩
    obtain ⟨rec, hcur⟩ := current_of_live h hidx hpos hr
    rw [← hcur.agrees.offset, ← hcur.agrees.size]
    exact hout _ rec hcur.found

theorem recounted_of_indexed (h : Inv g) (hpos : 0 < g.domain.managedCapacity.toNat)
    (hidx : g.arena.Indexed) : Recounted g g.summary.1 where
  committed := by
    show g.arena.liveBytes.toNat = _
    rw [(h.arena hpos).bytes]
    refine h.weigh_records_eq hidx hpos (fun k r hl => by simp [RegionAllocator.liveSize, hl]) ?_
    intro id rec r hcur hlive
    simp [RegionAllocator.liveSize, hlive, hcur.agrees.size]
  liveAllocations := by
    show g.arena.liveCount.toNat = _
    rw [(h.arena hpos).count, ← OrdMap.weigh_one]
    refine h.weigh_records_eq hidx hpos (fun k r hl => by simp [RegionAllocator.liveOne, hl]) ?_
    intro id rec r hcur hlive
    simp [RegionAllocator.liveOne, hlive]
  movable := h.bytesWith_records hidx hpos .movable
  pinned := h.bytesWith_records hidx hpos .pinned
  gaps := h.freeSet_eq_unrecorded hidx hpos

/-- **Summaries equal recomputation.** In every reachable state with managed
memory the figures are accurate against the live regions; and in every run
in which no accepted request draws an id in use, against the records. -/
theorem summary_recomputed (domain : MemoryDomain) (hasBackend : Bool) (calls : List Call)
    (hpos : 0 < (run perform (new domain hasBackend) calls).domain.managedCapacity.toNat) :
    let g := run perform (new domain hasBackend) calls
    Accurate g g.summary.1 ∧
      (Guarded perform FreshGrant (new domain hasBackend) calls → Recounted g g.summary.1) := by
  intro g
  have hinv : Inv g := run_inv (inv_new domain hasBackend) calls
  exact ⟨accurate_of_inv hinv hpos (run_cached domain hasBackend calls),
    fun hfresh => recounted_of_indexed hinv hpos (run_indexed_of_grants hfresh)⟩

/-- Mutations with queries between them, and two gaps at the end. -/
def queriedRun : List Call :=
  [.initializeArena (.ok 4096),
   .request { bytes := 100, reclaimability := .bestEffort },
   .summary,
   .request { bytes := 50, movability := .nonmovable },
   .pressure,
   .request { bytes := 70 },
   .pin ⟨3⟩ ⟨1⟩,
   .planCompaction,
   .release ⟨2⟩ ⟨1⟩]

theorem summary_recomputed_queriedRun :
    let g := run perform (new { managedCapacity := 1024 } true) queriedRun
    g.summary.1.freeRegions = 2 ∧ Accurate g g.summary.1 ∧ Recounted g g.summary.1 := by
  have hboth := summary_recomputed { managedCapacity := 1024 } true queriedRun (by decide +kernel)
  refine ⟨by decide +kernel, hboth.1, hboth.2 ?_⟩
  exact ⟨trivial, fun _ => rfl, trivial, fun _ => rfl, trivial, fun _ => rfl, trivial, trivial,
    trivial, trivial⟩

/-- **Two ways a recount differs**: a movability no enumerator names is
reclaimable and not movable, and a region whose id has been drawn again is
counted without a record. -/
theorem recount_differs :
    (let s := (run perform (new { managedCapacity := 1024 } true)
      [.initializeArena (.ok 4096),
       .request { bytes := 8, movability := .undeclared 3 (by decide),
                  reclaimability := .bestEffort }]).summary.1
    s.reclaimable = 8 ∧ s.movable = 0) ∧
    let g := run perform (new { managedCapacity := 1024 } true) reusedRun
    g.summary.1.committed = 640 ∧ g.recordedBytes = 384 ∧ g.summary.1.liveAllocations = 3 ∧
      g.records.size = 2 := by
  rw [run_reusedRun]
  exact ⟨by decide +kernel, by decide +kernel⟩

end Summary

end GpuMemoryService.MemoryGovernor
