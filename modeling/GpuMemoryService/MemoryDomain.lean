/-
GpuMemoryService.MemoryDomain — the governed domain with its watermarks and
the pressure classification (`memory_domain.hpp`, `pressure.hpp`,
`pressure.cpp`).

Watermarks and the fragmentation are doubles, kept by bit pattern
(`Lib.Binary64`). The default watermarks are the doubles nearest to 0.70,
0.90 and 0.97.
-/
import GpuMemoryService.Lib.Binary64
import GpuMemoryService.Types

namespace GpuMemoryService

open Lib

structure WatermarkConfig where
  low : Binary64 := ⟨0x3FE6666666666666⟩
  high : Binary64 := ⟨0x3FECCCCCCCCCCCCD⟩
  critical : Binary64 := ⟨0x3FEF0A3D70A3D70A⟩
  generation : WatermarkGeneration := .first
deriving DecidableEq, Repr

/-- The double 1.0. -/
def one : Binary64 := ⟨0x3FF0000000000000⟩

/-- The watermarks are numbers, in order, and fractions. -/
def WatermarkConfig.valid (w : WatermarkConfig) : Bool :=
  !w.low.isNaN && !w.high.isNaN && !w.critical.isNaN &&
    !w.low.isInf && !w.high.isInf && !w.critical.isInf &&
    (Binary64.zero false).le w.low && w.low.le one &&
    w.low.le w.high && w.high.le one &&
    w.high.le w.critical && w.critical.le one

/-- Authoritative governing state for one device-memory domain. -/
structure MemoryDomain where
  domainId : GpuMemoryDomainId := {}
  domainGeneration : GpuMemoryDomainGeneration := .first
  deviceId : DeviceId := {}
  deviceGeneration : DeviceGeneration := .first
  totalCapacity : UInt64 := 0
  allocatorVisibleCapacity : UInt64 := 0
  reservedHeadroom : UInt64 := 0
  managedCapacity : UInt64 := 0
  currentCommitted : UInt64 := 0
  currentPhysicallyAllocated : UInt64 := 0
  currentResident : UInt64 := 0
  currentReclaimable : UInt64 := 0
  currentMovable : UInt64 := 0
  currentPinned : UInt64 := 0
  externalFragmentation : Binary64 := .zero false
  pressure : PressureState := .unknown
  health : DeviceHealth := .unknown
  watermarks : WatermarkConfig := {}
  provenance : Provenance := .unknown
deriving DecidableEq, Repr

/-! ## Pressure -/

/-- The double 0.5. -/
def half : Binary64 := ⟨0x3FE0000000000000⟩

/-- Classification with hysteresis: once high, pressure stays high until
the utilization falls below the low watermark. -/
def classifyPressure (utilization : Binary64) (wm : WatermarkConfig) (last : PressureState) :
    PressureState :=
  if last == .high || last == .critical || last == .reclaiming then
    if utilization.lt wm.low then
      if utilization.lt (wm.low.mul half) then .low else .normal
    else if wm.critical.le utilization then .critical
    else if wm.high.le utilization then .high
    else .high
  else if wm.critical.le utilization then .critical
  else if wm.high.le utilization then .high
  else if wm.low.le utilization then .normal
  else if utilization.lt (wm.low.mul half) then .low
  else .normal

/-- Evidence bundle used to derive a pressure state. -/
structure PressureEvidence where
  managedCapacity : UInt64 := 0
  committed : UInt64 := 0
  free : UInt64 := 0
  reclaimable : UInt64 := 0
  largestFree : UInt64 := 0
  fragmentation : Binary64 := .zero false
  watermarks : WatermarkConfig := {}

def evaluatePressure (ev : PressureEvidence) (last : PressureState) : PressureState :=
  if ev.managedCapacity == 0 then .unknown
  else
    let utilization :=
      (Binary64.ofUInt64 ev.committed).div (Binary64.ofUInt64 ev.managedCapacity)
    classifyPressure utilization ev.watermarks last

end GpuMemoryService
