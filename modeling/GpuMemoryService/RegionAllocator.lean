/-
GpuMemoryService.RegionAllocator — the region/suballocation model over a
managed arena (`region_allocator.hpp`, `region_allocator.cpp`).

Four redundant structures describe one layout: `regions` (every live and
free region, by offset), `allocOffset` (live allocation to its offset),
`freeSlots` (the free regions by size, for best fit) and the counters.
Each operation takes the allocator and returns its result together with
the allocator after it, on the failing paths too.

Translation notes.
* All arithmetic is 64-bit and wraps, as in the source; `size_t` is 64-bit.
* An iterator at a lower bound is the list of entries from it on, and
  `std::prev` of it is the last entry below the bound (`Lib.OrdMap`).
* A lookup the source dereferences without a check reads the
  default-constructed region when the key is absent, and `regions_.at`,
  which would throw there, takes the `not live` failure. Neither happens
  on an allocator reached through its operations.
* `strategy_` is never read by the allocator and is left out, and so is
  the text of `dump`.
-/
import Mathlib.Data.Prod.Lex
import GpuMemoryService.Lib.Binary64
import GpuMemoryService.Types

namespace GpuMemoryService

open Lib

/-! ## Regions, requests and free slots -/

structure RegionInfo where
  regionId : MemoryRegionId := {}
  regionGeneration : MemoryRegionGeneration := {}
  offset : UInt64 := 0
  size : UInt64 := 0
  alignment : UInt64 := 1
  live : Bool := false
  allocId : AllocationId := {}
  allocGeneration : AllocationGeneration := {}
  movability : Movability := .movable
  pinCount : UInt32 := 0
  memClass : MemoryClass := .unknown
  reclaimability : Reclaimability := .unknown
  residency : ResidencyState := .unknown
  lifecycle : LifecycleState := .requested
  provenance : Provenance := .unknown
  workerBoot : WorkerBootId := {}
deriving DecidableEq, Repr

structure AllocRequest where
  bytes : UInt64 := 0
  alignment : UInt64 := 1
  movability : Movability := .movable
  memClass : MemoryClass := .unknown
  reclaimability : Reclaimability := .unknown
  allocId : AllocationId := {}
  allocGeneration : AllocationGeneration := {}
  workerBoot : WorkerBootId := {}
  provenance : Provenance := .derived
deriving DecidableEq, Repr

/-- A free region in the size index, ordered by size and then offset. -/
structure FreeSlot where
  size : UInt64 := 0
  offset : UInt64 := 0
deriving DecidableEq, Repr

instance : LinearOrder FreeSlot :=
  LinearOrder.lift' (fun s => toLex (s.size, s.offset)) (fun a b h => by
    cases a; cases b; simpa using h)

structure RegionAllocator where
  capacity : UInt64
  liveBytes : UInt64 := 0
  liveCount : UInt64 := 0
  nextRegionId : UInt64 := 1
  regions : OrdMap UInt64 RegionInfo := .empty
  allocOffset : OrdMap AllocationId UInt64 := .empty
  freeSlots : OrdSet FreeSlot := .empty
  summaryDirty : Bool := true
  freeCount : UInt64 := 0
  largestFree : UInt64 := 0
deriving DecidableEq

def isPow2 (v : UInt64) : Bool := v != 0 && (v &&& (v - 1)) == 0

namespace RegionAllocator

/-- Round up to `align`; 0 when the addition wraps. -/
def alignUp (v align : UInt64) : UInt64 :=
  if align == 0 then v
  else
    let mask := align - 1
    let r := v + mask
    if r < v then 0 else r &&& ~~~mask

def indexFree (slots : OrdSet FreeSlot) (off size : UInt64) : OrdSet FreeSlot :=
  slots.insert ⟨size, off⟩ ()

def unindexFree (slots : OrdSet FreeSlot) (off size : UInt64) : OrdSet FreeSlot :=
  slots.erase ⟨size, off⟩

/-- The constructor: one free region over the whole arena, indexed unless
the arena is empty. -/
def new (capacity : UInt64) : RegionAllocator :=
  let free : RegionInfo :=
    { live := false, offset := 0, size := capacity, regionId := ⟨1⟩, regionGeneration := ⟨1⟩,
      provenance := .derived }
  { capacity := capacity
    regions := OrdMap.empty.emplace 0 free
    freeSlots := if capacity > 0 then indexFree .empty 0 capacity else .empty }

def freeBytes (ra : RegionAllocator) : UInt64 := ra.capacity - ra.liveBytes

/-- The free region the source builds in `allocate` (front and tail of the
chosen slot) and in `canonicalize_free`. -/
def freshFree (ra : RegionAllocator) (off size : UInt64) (provenance : Provenance) : RegionInfo :=
  { live := false, offset := off, size := size, regionId := ⟨ra.nextRegionId⟩,
    regionGeneration := ⟨1⟩, provenance := provenance }

/-- Put a fresh free region into the map and the size index. -/
def putFree (ra : RegionAllocator) (off size : UInt64) (provenance : Provenance) :
    RegionAllocator :=
  { ra with
    nextRegionId := ra.nextRegionId + 1
    regions := ra.regions.emplace off (ra.freshFree off size provenance)
    freeSlots := indexFree ra.freeSlots off size }

/-! ## Allocation -/

/-- The bytes lost in front of an aligned placement in a free slot. -/
def frontPad (alignment : UInt64) (slot : FreeSlot) : UInt64 :=
  alignUp slot.offset alignment - slot.offset

/-- The slot passes the fit test of the best-fit loop. -/
def fits (alignment aligned : UInt64) (slot : FreeSlot) : Bool :=
  let front := frontPad alignment slot
  !(front > slot.size || aligned > slot.size - front)

/-- The live region `allocate` places. -/
def liveRegion (ra : RegionAllocator) (req : AllocRequest) (off aligned : UInt64) : RegionInfo :=
  { live := true, offset := off, size := aligned, alignment := req.alignment
    regionId := ⟨ra.nextRegionId⟩, regionGeneration := ⟨1⟩
    allocId := req.allocId, allocGeneration := req.allocGeneration
    movability := req.movability, memClass := req.memClass, reclaimability := req.reclaimability
    residency := .resident, lifecycle := .allocated
    provenance := req.provenance, workerBoot := req.workerBoot }

/-- A free remainder is put in only when it is not empty. -/
def putFreeIf (ra : RegionAllocator) (off size : UInt64) (provenance : Provenance) :
    RegionAllocator :=
  if size > 0 then ra.putFree off size provenance else ra

/-- The body of the best-fit loop for the slot that fits, with the front
pad the fit test computed. -/
def place (ra : RegionAllocator) (req : AllocRequest) (aligned : UInt64) (slot : FreeSlot)
    (front : UInt64) : RegionInfo × RegionAllocator :=
  let foff := slot.offset
  let allocOff := foff + front
  let tail := slot.size - front - aligned
  let frec := (ra.regions.find? foff).getD {}
  let taken := { ra with regions := ra.regions.erase foff, freeSlots := ra.freeSlots.erase slot }
  let fronted := taken.putFreeIf foff front frec.provenance
  let live := fronted.liveRegion req allocOff aligned
  let placed :=
    { fronted with
      nextRegionId := fronted.nextRegionId + 1
      regions := fronted.regions.emplace allocOff live }
  let tailed := placed.putFreeIf (allocOff + aligned) tail frec.provenance
  (live,
    { tailed with
      liveBytes := tailed.liveBytes + aligned
      liveCount := tailed.liveCount + 1
      allocOffset := tailed.allocOffset.insert req.allocId allocOff
      summaryDirty := true })

def allocate (ra : RegionAllocator) (req : AllocRequest) : Result RegionInfo × RegionAllocator :=
  if req.bytes == 0 then (.error ⟨.zeroBytes, "allocation of zero bytes"⟩, ra)
  else if req.alignment == 0 || !isPow2 req.alignment then
    (.error ⟨if req.alignment == 0 then .impossibleAlignment else .nonPowerOfTwoAlignment,
      "invalid alignment"⟩, ra)
  else if req.bytes > ra.capacity then
    (.error ⟨.insufficientTotalCapacity, "request exceeds capacity"⟩, ra)
  else
    let aligned := alignUp req.bytes req.alignment
    if aligned == 0 || aligned < req.bytes then
      (.error ⟨.sizeOverflow, "aligned size overflow"⟩, ra)
    else if aligned > ra.capacity then
      (.error ⟨.insufficientTotalCapacity, "aligned request exceeds capacity"⟩, ra)
    else
      -- best fit by size: the first slot from the lower bound on that fits
      match (ra.freeSlots.lowerBound ⟨aligned, 0⟩).find? (fun e => fits req.alignment aligned e.1) with
      | some (slot, _) =>
          let (live, ra') := ra.place req aligned slot (frontPad req.alignment slot)
          (.ok live, ra')
      | none =>
          if ra.freeBytes < aligned then
            (.error ⟨.insufficientTotalCapacity, "total managed free bytes insufficient"⟩, ra)
          else
            (.error ⟨.insufficientContiguousCapacity,
              "no contiguous free region of sufficient size"⟩, ra)

/-! ## Freeing -/

/-- Merge with the free region that ends at `off`, if there is one; the
first component is the new lower end. -/
def absorbLeft (ra : RegionAllocator) (off : UInt64) : UInt64 × RegionAllocator :=
  match (ra.regions.below off).getLast? with
  | some (k, r) =>
      if !r.live && k + r.size == off then
        (k, { ra with freeSlots := unindexFree ra.freeSlots k r.size, regions := ra.regions.erase k })
      else (off, ra)
  | none => (off, ra)

/-- Merge with the free region that starts at `hi`, if there is one; the
first component is the new upper end. -/
def absorbRight (ra : RegionAllocator) (off hi : UInt64) : UInt64 × RegionAllocator :=
  match (ra.regions.lowerBound off).head? with
  | some (k, r) =>
      if !r.live && k == hi then
        (k + r.size,
          { ra with freeSlots := unindexFree ra.freeSlots k r.size, regions := ra.regions.erase k })
      else (hi, ra)
  | none => (hi, ra)

def canonicalizeFree (ra : RegionAllocator) (off size : UInt64) :
    Result RegionInfo × RegionAllocator :=
  if size == 0 then (.error ⟨.zeroBytes, "zero-size free interval"⟩, ra)
  else if off > ra.capacity || size > ra.capacity - off then
    (.error ⟨.sizeOverflow, "free interval out of bounds"⟩, ra)
  else
    let (lo, left) := ra.absorbLeft off
    let (hi, merged) := left.absorbRight off (off + size)
    (.ok (merged.freshFree lo (hi - lo) .derived),
      { merged.putFree lo (hi - lo) .derived with summaryDirty := true })

/-- The lookup every handle operation starts with: the live region of `id`
at generation `gen`, or the failure with the operation's own text. -/
def locate (ra : RegionAllocator) (id : AllocationId) (gen : AllocationGeneration)
    (unknown notLive stale : String) : Result RegionInfo :=
  match ra.allocOffset.find? id with
  | none => .error ⟨.staleGeneration, unknown⟩
  | some off =>
      match ra.regions.find? off with
      | none => .error ⟨.staleGeneration, notLive⟩
      | some r =>
          if !r.live then .error ⟨.staleGeneration, notLive⟩
          else if r.allocGeneration != gen then .error ⟨.staleGeneration, stale⟩
          else .ok r

/-- The offset `alloc_offset_` holds for `id`. -/
def offsetOf (ra : RegionAllocator) (id : AllocationId) : UInt64 :=
  (ra.allocOffset.find? id).getD 0

def free (ra : RegionAllocator) (id : AllocationId) (gen : AllocationGeneration) :
    Result RegionInfo × RegionAllocator :=
  match ra.locate id gen "unknown or already-freed allocation" "allocation region is not live"
      "stale allocation generation on free" with
  | .error f => (.error f, ra)
  | .ok r =>
      let off := ra.offsetOf id
      canonicalizeFree
        { ra with
          regions := ra.regions.erase off
          allocOffset := ra.allocOffset.erase id
          liveBytes := ra.liveBytes - r.size
          liveCount := ra.liveCount - 1 }
        off r.size

/-! ## Relocation -/

/-- The target check before any mutation: the region before the target
reaches into it, or a region that starts inside it is live. -/
def overlapsLive (ra : RegionAllocator) (newOffset newHi : UInt64) : Bool :=
  (match (ra.regions.below newOffset).getLast? with
    | some (k, r) => r.live && k + r.size > newOffset
    | none => false) ||
  ((ra.regions.lowerBound newOffset).takeWhile (fun e => decide (e.1 < newHi))).any (·.2.live)

/-- One round of the carving loop: copy the region into `next`, or, when it
is free and meets the target, only its parts outside the target. -/
def carveStep (newOffset newHi : UInt64)
    (acc : OrdMap UInt64 RegionInfo × OrdSet FreeSlot) (kv : UInt64 × RegionInfo) :
    OrdMap UInt64 RegionInfo × OrdSet FreeSlot :=
  let (next, slots) := acc
  let (s, r) := kv
  let e := s + r.size
  if r.live then (next.insert s r, slots)
  else
    let ovS := max s newOffset
    let ovE := min e newHi
    if ovS ≥ ovE then (next.insert s r, slots)
    else
      let slots := unindexFree slots s (e - s)
      let (next, slots) :=
        if s < ovS then
          (next.insert s { r with offset := s, size := ovS - s }, indexFree slots s (ovS - s))
        else (next, slots)
      if ovE < e then
        (next.insert ovE { r with offset := ovE, size := e - ovE }, indexFree slots ovE (e - ovE))
      else (next, slots)

/-- Carve the target interval out of the free space. -/
def carve (ra : RegionAllocator) (newOffset newHi : UInt64) : RegionAllocator :=
  let (next, slots) := ra.regions.entries.foldl (carveStep newOffset newHi) (.empty, ra.freeSlots)
  { ra with regions := next, freeSlots := slots }

/-- The region after the move. -/
def movedRegion (old : RegionInfo) (gen : AllocationGeneration)
    (newOffset newSize newAlignment : UInt64) : RegionInfo :=
  { old with
    offset := newOffset
    size := newSize
    alignment := newAlignment
    allocGeneration := gen.next
    regionGeneration := old.regionGeneration.next
    lifecycle := .resident }

def relocate (ra : RegionAllocator) (id : AllocationId) (gen : AllocationGeneration)
    (newOffset newSize newAlignment : UInt64) : Result RegionInfo × RegionAllocator :=
  match ra.locate id gen "unknown allocation" "allocation region is not live"
      "stale generation on relocate" with
  | .error f => (.error f, ra)
  | .ok old =>
      let oldOff := ra.offsetOf id
      if newAlignment == 0 || !isPow2 newAlignment then
        (.error ⟨.impossibleAlignment, "invalid relocation alignment"⟩, ra)
      else if newSize == 0 || newOffset % newAlignment != 0 then
        (.error ⟨.invalidRequest, "invalid relocation target"⟩, ra)
      else if newOffset > ra.capacity || newSize > ra.capacity - newOffset then
        (.error ⟨.sizeOverflow, "relocation target out of bounds"⟩, ra)
      else
        let newHi := newOffset + newSize
        let oldEnd := oldOff + old.size
        if newOffset < oldEnd && oldOff < newHi then
          (.error ⟨.invalidRequest, "relocation target overlaps current region"⟩, ra)
        else if ra.overlapsLive newOffset newHi then
          (.error ⟨.invalidRequest, "relocation target overlaps a live region"⟩, ra)
        else
          let removed :=
            { ra with regions := ra.regions.erase oldOff, allocOffset := ra.allocOffset.erase id }
          match (removed.carve newOffset newHi).canonicalizeFree oldOff old.size with
          | (.error f, ra') => (.error f, ra')
          | (.ok _, ra') =>
              let moved := movedRegion old gen newOffset newSize newAlignment
              (.ok moved,
                { ra' with
                  regions := ra'.regions.emplace newOffset moved
                  allocOffset := ra'.allocOffset.insert id newOffset
                  liveBytes :=
                    if newSize ≥ old.size then ra'.liveBytes + (newSize - old.size)
                    else ra'.liveBytes - (old.size - newSize)
                  summaryDirty := true })

/-! ## Pins and queries -/

def pin (ra : RegionAllocator) (id : AllocationId) (gen : AllocationGeneration) :
    Result RegionInfo × RegionAllocator :=
  match ra.locate id gen "unknown allocation" "allocation not live" "stale generation on pin" with
  | .error f => (.error f, ra)
  | .ok r =>
      let r' := { r with movability := .pinned, pinCount := r.pinCount + 1 }
      (.ok r', { ra with regions := ra.regions.insert (ra.offsetOf id) r' })

def unpin (ra : RegionAllocator) (id : AllocationId) (gen : AllocationGeneration) :
    Result RegionInfo × RegionAllocator :=
  match ra.locate id gen "unknown allocation" "allocation not live" "stale generation on unpin" with
  | .error f => (.error f, ra)
  | .ok r =>
      if r.pinCount == 0 then
        (.error ⟨.invalidRequest, "unpin of non-pinned allocation"⟩, ra)
      else
        let r' :=
          { r with
            pinCount := r.pinCount - 1
            movability := if r.pinCount - 1 == 0 then .movable else r.movability }
        (.ok r', { ra with regions := ra.regions.insert (ra.offsetOf id) r' })

def get (ra : RegionAllocator) (id : AllocationId) (gen : AllocationGeneration) :
    Result RegionInfo :=
  ra.locate id gen "unknown allocation" "allocation not live" "stale generation on query"

/-- Refresh the cached free-region count and largest free size. -/
def ensureSummary (ra : RegionAllocator) : RegionAllocator :=
  if !ra.summaryDirty then ra
  else
    { ra with
      freeCount := UInt64.ofNat ra.freeSlots.size
      largestFree := (ra.freeSlots.entries.getLast?.map (·.1.size)).getD 0
      summaryDirty := false }

def freeRegionCount (ra : RegionAllocator) : UInt64 := ra.ensureSummary.freeCount

def largestFreeRegion (ra : RegionAllocator) : UInt64 := ra.ensureSummary.largestFree

def externalFragmentation (ra : RegionAllocator) : Binary64 :=
  let ra := ra.ensureSummary
  if ra.freeBytes == 0 then .zero false
  else
    (Binary64.ofUInt64 1).sub
      ((Binary64.ofUInt64 ra.largestFree).div (Binary64.ofUInt64 ra.freeBytes))

/-- Sum of the sizes of the live regions of one movability, as the source
accumulates it. -/
def bytesWith (ra : RegionAllocator) (m : Movability) : UInt64 :=
  ra.regions.entries.foldl
    (fun s e => if e.2.live && e.2.movability == m then s + e.2.size else s) 0

def movableBytes (ra : RegionAllocator) : UInt64 := ra.bytesWith .movable

def pinnedBytes (ra : RegionAllocator) : UInt64 := ra.bytesWith .pinned

def snapshotLive (ra : RegionAllocator) : List RegionInfo :=
  (ra.regions.entries.map (·.2)).filter (·.live)

def snapshotFree (ra : RegionAllocator) : List RegionInfo :=
  (ra.regions.entries.map (·.2)).filter (fun r => !r.live)

/-! ## Self check -/

/-- The running variables of the loop in `verify`. -/
structure VerifyState where
  expected : UInt64 := 0
  liveSum : UInt64 := 0
  prevFree : Bool := false
  havePrev : Bool := false
  prevEnd : UInt64 := 0
  freeCountRegions : UInt64 := 0

def verifyStep (st : VerifyState) (e : UInt64 × RegionInfo) : Except String VerifyState :=
  let (first, r) := e
  if first != st.expected then
    .error ("gap/overlap at " ++ toString first ++ " expected " ++ toString st.expected ++ "\n")
  else if st.havePrev && st.prevEnd > first then .error ("overlap at " ++ toString first ++ "\n")
  else if st.havePrev && st.prevFree && !r.live && st.prevEnd == first then
    .error ("adjacent free not merged at " ++ toString first ++ "\n")
  else if r.live && (r.alignment == 0 || (r.alignment &&& (r.alignment - 1)) != 0) then
    .error ("bad alignment at " ++ toString first ++ "\n")
  else if r.live && first % r.alignment != 0 then
    .error ("misaligned at " ++ toString first ++ "\n")
  else
    .ok
      { expected := first + r.size
        liveSum := if r.live then st.liveSum + r.size else st.liveSum
        prevFree := !r.live
        havePrev := true
        prevEnd := first + r.size
        freeCountRegions := if r.live then st.freeCountRegions else st.freeCountRegions + 1 }

def verify (ra : RegionAllocator) : String :=
  match ra.regions.entries.foldlM verifyStep {} with
  | .error msg => msg
  | .ok st =>
      if st.expected != ra.capacity then "arena does not cover capacity\n"
      else if st.liveSum != ra.liveBytes then "live byte sum mismatch\n"
      else if st.freeCountRegions != UInt64.ofNat ra.freeSlots.size then "free-slot index drift\n"
      else ""

/-! ## Calls -/

/-- The calls a client can make on the allocator. -/
inductive Call where
  | allocate (req : AllocRequest)
  | free (id : AllocationId) (gen : AllocationGeneration)
  | relocate (id : AllocationId) (gen : AllocationGeneration)
      (newOffset newSize newAlignment : UInt64)
  | pin (id : AllocationId) (gen : AllocationGeneration)
  | unpin (id : AllocationId) (gen : AllocationGeneration)
  | get (id : AllocationId) (gen : AllocationGeneration)
deriving DecidableEq, Repr

def perform (ra : RegionAllocator) : Call → Result RegionInfo × RegionAllocator
  | .allocate req => ra.allocate req
  | .free id gen => ra.free id gen
  | .relocate id gen newOffset newSize newAlignment =>
      ra.relocate id gen newOffset newSize newAlignment
  | .pin id gen => ra.pin id gen
  | .unpin id gen => ra.unpin id gen
  | .get id gen => (ra.get id gen, ra)

end RegionAllocator

end GpuMemoryService
