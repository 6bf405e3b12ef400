/-
GpuMemoryService.Types — identities, generations, enumerations and
failures (`types.hpp`, `enum.hpp`, `error.hpp`).

`TypedId` and `TypedGeneration` are templates over a tag; the tag is an
index here, so identities of different domains stay different types. Only
the tags some modelled function uses are listed.

Translation note on enumerations. A scoped C++ enumeration with underlying
type `uint8_t` holds any byte, and the snapshot reader casts raw bytes into
these types before it checks them. Each enumeration therefore has a last
constructor `undeclared` for the bytes above its declared range, with the
range as a field, so that the type is exactly the set of bytes.
`RejectReason` is only ever produced by the code and has no such value.

`Result<T>` is `Except Failure T`. The texts of the failures are kept.
-/
import GpuMemoryService.Lib.OrdMap
import GpuMemoryService.Lib.Word

namespace GpuMemoryService

open Lib

/-! ## Identities -/

inductive IdTag where
  | gpuMemoryDomainId
  | deviceId
  | memoryRegionId
  | allocationId
  | workloadId
  | executionId
  | workerId
deriving DecidableEq, Repr

/-- An identity; value 0 is the default-constructed, empty one. -/
structure TypedId (tag : IdTag) where
  value : UInt64 := 0
deriving DecidableEq, Repr

instance {tag : IdTag} : LinearOrder (TypedId tag) :=
  LinearOrder.lift' TypedId.value (fun a b h => by cases a; cases b; simpa using h)

abbrev GpuMemoryDomainId := TypedId .gpuMemoryDomainId
abbrev DeviceId := TypedId .deviceId
abbrev MemoryRegionId := TypedId .memoryRegionId
abbrev AllocationId := TypedId .allocationId
abbrev WorkloadId := TypedId .workloadId
abbrev ExecutionId := TypedId .executionId
abbrev WorkerId := TypedId .workerId

/-! ## Generations -/

inductive GenTag where
  | gpuMemoryDomainGeneration
  | deviceGeneration
  | memoryRegionGeneration
  | allocationGeneration
  | relocationGeneration
  | watermarkGeneration
  | reservationGeneration
  | resourceClaimGeneration
  | placementGeneration
  | policyGeneration
  | workerBootId
  | sourceBootId
deriving DecidableEq, Repr

/-- A generation; 0 is "no generation". -/
structure TypedGeneration (tag : GenTag) where
  value : UInt64 := 0
deriving DecidableEq, Repr

namespace TypedGeneration

variable {tag : GenTag}

def none : TypedGeneration tag := ⟨0⟩

def first : TypedGeneration tag := ⟨1⟩

def isSet (g : TypedGeneration tag) : Bool := g.value != 0

/-- The next generation; at the largest word it falls back to `none`. -/
def next (g : TypedGeneration tag) : TypedGeneration tag :=
  if g.value == (-1 : UInt64) then none else ⟨g.value + 1⟩

end TypedGeneration

abbrev GpuMemoryDomainGeneration := TypedGeneration .gpuMemoryDomainGeneration
abbrev DeviceGeneration := TypedGeneration .deviceGeneration
abbrev MemoryRegionGeneration := TypedGeneration .memoryRegionGeneration
abbrev AllocationGeneration := TypedGeneration .allocationGeneration
abbrev RelocationGeneration := TypedGeneration .relocationGeneration
abbrev WatermarkGeneration := TypedGeneration .watermarkGeneration
abbrev ReservationGeneration := TypedGeneration .reservationGeneration
abbrev ResourceClaimGeneration := TypedGeneration .resourceClaimGeneration
abbrev PlacementGeneration := TypedGeneration .placementGeneration
abbrev PolicyGeneration := TypedGeneration .policyGeneration
abbrev WorkerBootId := TypedGeneration .workerBootId
abbrev SourceBootId := TypedGeneration .sourceBootId

/-! ## Enumerations -/

/-- How a quantity was derived. -/
inductive Provenance where
  | unknown
  | measured
  | reported
  | derived
  | estimated
  | synthetic
  | reconstructed
  | undeclared (byte : UInt8) (high : 7 ≤ byte)
deriving DecidableEq, Repr

inductive MemoryClass where
  | unknown
  | modelWeights
  | adapterWeights
  | kvCache
  | activation
  | tempWorkspace
  | communicationBuffer
  | collectiveBuffer
  | checkpointStaging
  | stateCache
  | compilationArtifact
  | userBuffer
  | internal
  | undeclared (byte : UInt8) (high : 13 ≤ byte)
deriving DecidableEq, Repr

inductive Reclaimability where
  | unknown
  | neverReclaim
  | reclaimAfterCompletion
  | reclaimIfCold
  | reclaimIfReloadable
  | reclaimIfCheckpointed
  | bestEffort
  | undeclared (byte : UInt8) (high : 7 ≤ byte)
deriving DecidableEq, Repr

inductive LifecycleState where
  | requested
  | validating
  | reserved
  | allocating
  | allocated
  | resident
  | pinned
  | reclaimable
  | evictionPending
  | evicting
  | relocationPending
  | relocating
  | releasePending
  | released
  | failed
  | stale
  | revalidationRequired
  | superseded
  | retired
  | undeclared (byte : UInt8) (high : 19 ≤ byte)
deriving DecidableEq, Repr

inductive ResidencyState where
  | unknown
  | nonresident
  | staging
  | resident
  | active
  | cold
  | evictable
  | evicting
  | reloading
  | stale
  | revalidationRequired
  | undeclared (byte : UInt8) (high : 11 ≤ byte)
deriving DecidableEq, Repr

inductive PressureState where
  | unknown
  | low
  | normal
  | elevated
  | high
  | critical
  | reclaiming
  | recovering
  | stale
  | revalidationRequired
  | undeclared (byte : UInt8) (high : 10 ≤ byte)
deriving DecidableEq, Repr

inductive DeviceHealth where
  | unknown
  | healthy
  | degraded
  | unresponsive
  | lost
  | undeclared (byte : UInt8) (high : 5 ≤ byte)
deriving DecidableEq, Repr

inductive Movability where
  | movable
  | pinned
  | nonmovable
  | undeclared (byte : UInt8) (high : 3 ≤ byte)
deriving DecidableEq, Repr

/-- Typed reason for a rejection. -/
inductive RejectReason where
  | none
  | invalidRequest
  | zeroBytes
  | sizeOverflow
  | impossibleAlignment
  | nonPowerOfTwoAlignment
  | requestExceedsCapacity
  | invalidOwner
  | staleReservation
  | staleResourceClaim
  | malformedLifetime
  | contradictoryMovability
  | unsupportedMemoryClass
  | insufficientTotalCapacity
  | insufficientContiguousCapacity
  | blockedByPinned
  | blockedByNonmovable
  | reservationConflict
  | revalidationRequired
  | physicalOom
  | governedCapacityExceeded
  | contiguousCapacityUnavailable
  | fragmentation
  | pinnedBlockers
  | reservationProtected
  | reclaimInsufficient
  | evictionNotSafe
  | deviceUnavailable
  | staleAuthority
  | staleGeneration
  | wrongOwner
  | crossDevice
  | doubleFree
  | freeOfActiveOrPinned
  | illegalTransition
  | internalError
  | unknown
deriving DecidableEq, Repr

/-! ## Failures and results -/

/-- A typed reason plus a human-readable explanation. -/
structure Failure where
  reason : RejectReason := .none
  message : String := ""
deriving DecidableEq, Repr

/-- The default-constructed failure carries no reason: it means success. -/
def Failure.ok (f : Failure) : Bool := f.reason == .none

abbrev Result (α : Type) := Except Failure α

/-- The call was accepted. -/
def Accepted {α : Type} (r : Result α) : Prop := ∃ a, r = .ok a

instance Accepted.decidable {α : Type} : (r : Result α) → Decidable (Accepted r)
  | .ok a => isTrue ⟨a, rfl⟩
  | .error _ => isFalse (fun ⟨_, h⟩ => by cases h)

/-- The content of a `std::string`. -/
abbrev Bytes := List UInt8

/-! ## Generation arithmetic -/

namespace TypedGeneration

variable {tag : GenTag}

/-- Below the largest word, `next` is the successor. -/
theorem toNat_next {g : TypedGeneration tag} (h : g.value.toNat + 1 < 2 ^ 64) :
    g.next.value.toNat = g.value.toNat + 1 := by
  have hne : ¬ (g.value == (-1 : UInt64)) = true := by
    intro heq
    have hval : g.value = (-1 : UInt64) := by simpa using heq
    rw [hval] at h
    exact absurd h (by decide)
  rw [next, if_neg hne]
  exact toNat_add_of_lt (a := g.value) (b := 1) h

end TypedGeneration

end GpuMemoryService
