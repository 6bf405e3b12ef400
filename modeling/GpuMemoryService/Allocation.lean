/-
GpuMemoryService.Allocation — the allocation request, its validation, the
authoritative allocation record (`allocation.hpp`, `allocation.cpp`) and
the alignment helper of `util.hpp`.

`min_bytes`, `contiguous` and the four upstream generations are carried as
the source carries them; the allocator reads only the first.
-/
import GpuMemoryService.RegionAllocator

namespace GpuMemoryService

/-- Validated allocation intent, not yet an allocation. -/
structure AllocationRequest where
  bytes : UInt64 := 0
  minBytes : UInt64 := 0
  alignment : UInt64 := 1
  contiguous : Bool := true
  memClass : MemoryClass := .unknown
  reclaimability : Reclaimability := .unknown
  movability : Movability := .movable
  requiresPin : Bool := false
  owner : Bytes := []
  worker : WorkerId := {}
  workerBoot : WorkerBootId := {}
  sourceBoot : SourceBootId := {}
  workload : WorkloadId := {}
  execution : ExecutionId := {}
  reservationGen : ReservationGeneration := .none
  resourceClaimGen : ResourceClaimGeneration := .none
  placementGen : PlacementGeneration := .none
  policyGen : PolicyGeneration := .none
  backingRef : Bytes := []
  provenance : Provenance := .derived
deriving DecidableEq, Repr

/-- Generation-bound allocation state once an allocation is granted. -/
structure AllocationRecord where
  id : AllocationId := {}
  generation : AllocationGeneration := .none
  requestedBytes : UInt64 := 0
  regionSize : UInt64 := 0
  offset : UInt64 := 0
  alignment : UInt64 := 1
  regionId : MemoryRegionId := {}
  regionGeneration : MemoryRegionGeneration := .none
  memClass : MemoryClass := .unknown
  reclaimability : Reclaimability := .unknown
  movability : Movability := .movable
  pinCount : UInt32 := 0
  residency : ResidencyState := .unknown
  lifecycle : LifecycleState := .requested
  owner : Bytes := []
  worker : WorkerId := {}
  workerBoot : WorkerBootId := {}
  sourceBoot : SourceBootId := {}
  workload : WorkloadId := {}
  execution : ExecutionId := {}
  relocationGeneration : RelocationGeneration := .none
  reservationGen : ReservationGeneration := .none
  resourceClaimGen : ResourceClaimGeneration := .none
  placementGen : PlacementGeneration := .none
  policyGen : PolicyGeneration := .none
  backingRef : Bytes := []
  provenance : Provenance := .derived
  recoverable : Bool := false
deriving DecidableEq, Repr

/-- The checks before a request reaches the arena. Two further `if`s of the
source have empty bodies and are left out. -/
def validateRequest (req : AllocationRequest) (governedCapacity : UInt64) : Failure :=
  if req.bytes == 0 then ⟨.zeroBytes, "zero-byte request"⟩
  else if req.bytes > governedCapacity then
    ⟨.requestExceedsCapacity, "request exceeds governed capacity"⟩
  else if req.alignment == 0 || !isPow2 req.alignment then
    ⟨if req.alignment == 0 then .impossibleAlignment else .nonPowerOfTwoAlignment,
      "invalid alignment"⟩
  else if req.minBytes > req.bytes then
    ⟨.malformedLifetime, "min_bytes exceeds requested bytes"⟩
  else if req.requiresPin && req.movability == .movable && req.reclaimability == .neverReclaim then
    ⟨.contradictoryMovability,
      "pinned and never-reclaim is not contradictory but pins are non-movable"⟩
  else {}

/-- `detail::align_up`: unlike the allocator's own, it returns `v` when the
alignment is not a power of two. -/
def Detail.alignUp (v align : UInt64) : UInt64 :=
  if !isPow2 align then v
  else
    let mask := align - 1
    let r := v + mask
    if r < v then 0 else r &&& ~~~mask

end GpuMemoryService
