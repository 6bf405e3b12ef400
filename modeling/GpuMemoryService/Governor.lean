/-
GpuMemoryService.Governor — the authoritative runtime of one governed
domain (`governed_memory.hpp`, `governed_memory.cpp`).

The governor keeps a record for every live allocation beside the arena
layout, the records of what was released or recovered, and the counters of
its domain. Every public operation runs under one mutex, so a run of the
governor is a sequence of calls; each takes the governor and returns its
result together with the governor after it.

Translation notes.
* The backend is reached only through its answer to `allocate_arena`, which
  is an argument of `initialize`: any backend is some sequence of answers.
  Pointers are words, 0 is `nullptr`.
* `domain_` and the summary cache of the arena are `mutable`: `pressure`,
  `summary`, `explain` and `plan_compaction` are queries that write them,
  and return the governor too.
* `explain` renders a summary as text. The text is left out and the call
  returns the fields it prints.
* `save` and `load` are `snapshot` and `restore` through a file; a `load`
  whose file is rejected changes nothing.
-/
import Mathlib.Data.List.Sort
import GpuMemoryService.Lib.Run
import GpuMemoryService.Persistence

namespace GpuMemoryService

open Lib

/-! ## Replies and state -/

/-- Current authoritative location and generation for a request. -/
structure AllocationHandle where
  id : AllocationId
  generation : AllocationGeneration
  offset : UInt64 := 0
  size : UInt64 := 0
  alignment : UInt64 := 1
deriving DecidableEq, Repr

/-- Typed snapshot of governed memory facts. -/
structure MemorySummary where
  managedCapacity : UInt64 := 0
  free : UInt64 := 0
  committed : UInt64 := 0
  resident : UInt64 := 0
  reclaimable : UInt64 := 0
  movable : UInt64 := 0
  pinned : UInt64 := 0
  largestFree : UInt64 := 0
  freeRegions : UInt64 := 0
  liveAllocations : UInt64 := 0
  externalFragmentation : Binary64 := .zero false
  provenance : Provenance := .unknown
  pressure : PressureState := .unknown
  domainGeneration : GpuMemoryDomainGeneration := .none
deriving DecidableEq, Repr

/-- One relocation step of a plan; the generation is the one before the move. -/
structure CompactionStep where
  id : AllocationId
  generation : AllocationGeneration
  oldOffset : UInt64 := 0
  oldSize : UInt64 := 0
  newOffset : UInt64 := 0
  newSize : UInt64 := 0
  movability : Movability := .movable
deriving DecidableEq, Repr

structure CompactionPlan where
  steps : List CompactionStep := []
  bytesMoved : UInt64 := 0
  largestFreeBefore : UInt64 := 0
  largestFreeAfter : UInt64 := 0
  rationale : String := ""
deriving DecidableEq, Repr

/-- The fields `explain` prints. -/
structure Explanation where
  domainId : GpuMemoryDomainId
  domainGeneration : GpuMemoryDomainGeneration
  deviceId : DeviceId
  summary : MemorySummary
deriving DecidableEq, Repr

structure MemoryGovernor where
  domain : MemoryDomain
  hasBackend : Bool
  arena : RegionAllocator
  records : OrdMap AllocationId AllocationRecord := .empty
  retired : OrdMap AllocationId AllocationRecord := .empty
  arenaBase : UInt64 := 0
  initialized : Bool := false
  nextAllocId : UInt64 := 1
  historyCount : UInt64 := 0
deriving DecidableEq

/-- Saturating subtraction. -/
def sub (a b : UInt64) : UInt64 := if a ≥ b then a - b else 0

def reclaimabilityRequiresBacking (r : Reclaimability) : Bool :=
  r == .reclaimIfReloadable || r == .reclaimIfCheckpointed

def reclaimabilityPriority : Reclaimability → Nat
  | .bestEffort => 0
  | .reclaimIfCheckpointed => 1
  | .reclaimIfReloadable => 2
  | .reclaimIfCold => 3
  | .reclaimAfterCompletion => 4
  | .neverReclaim => 5
  | .unknown => 6
  | .undeclared _ _ => 6

namespace MemoryGovernor

/-- The constructor. -/
def new (domain : MemoryDomain) (hasBackend : Bool) : MemoryGovernor :=
  { domain := domain, hasBackend := hasBackend, arena := .new domain.managedCapacity }

/-- `initialize`: allocate the physical arena for the managed capacity. -/
def initializeArena (g : MemoryGovernor) (answer : Except String UInt64) :
    Result Unit × MemoryGovernor :=
  if g.initialized then (.ok (), g)
  else if !g.hasBackend then (.error ⟨.internalError, "no backend"⟩, g)
  else if g.domain.managedCapacity == 0 then
    (.error ⟨.invalidRequest, "managed capacity is zero"⟩, g)
  else
    match answer with
    | .error err => (.error ⟨.physicalOom, err⟩, g)
    | .ok base =>
        (.ok (),
          { g with
            arenaBase := base
            initialized := true
            domain := { g.domain with health := .healthy } })

/-! ## Requests -/

/-- `next_id_locked`: the counter wraps, and then draws 0 and old ids. -/
def nextId (g : MemoryGovernor) : AllocationId × MemoryGovernor :=
  (⟨g.nextAllocId⟩, { g with nextAllocId := g.nextAllocId + 1 })

/-- The movability a request is granted with. -/
def grantedMovability (req : AllocationRequest) : Movability :=
  if req.requiresPin then .pinned else req.movability

/-- What the governor asks of the arena. -/
def arenaRequest (req : AllocationRequest) (id : AllocationId) : AllocRequest :=
  { bytes := req.bytes
    alignment := req.alignment
    movability := grantedMovability req
    memClass := req.memClass
    reclaimability := req.reclaimability
    allocId := id
    allocGeneration := .first
    workerBoot := req.workerBoot
    provenance := req.provenance }

/-- The record of a granted request. -/
def grantedRecord (req : AllocationRequest) (id : AllocationId) (r : RegionInfo) :
    AllocationRecord :=
  { id := id
    generation := .first
    requestedBytes := req.bytes
    regionSize := r.size
    offset := r.offset
    alignment := req.alignment
    regionId := r.regionId
    regionGeneration := r.regionGeneration
    memClass := req.memClass
    reclaimability := req.reclaimability
    movability := grantedMovability req
    pinCount := if req.requiresPin then 1 else 0
    residency := .resident
    lifecycle := if req.requiresPin then .pinned else .resident
    owner := req.owner
    worker := req.worker
    workerBoot := req.workerBoot
    sourceBoot := req.sourceBoot
    workload := req.workload
    execution := req.execution
    relocationGeneration := .none
    reservationGen := req.reservationGen
    resourceClaimGen := req.resourceClaimGen
    placementGen := req.placementGen
    policyGen := req.policyGen
    backingRef := req.backingRef
    provenance := req.provenance
    recoverable := !req.backingRef.isEmpty }

/-- The domain counters after a grant of `size` bytes. -/
def chargeDomain (d : MemoryDomain) (movability : Movability) (size : UInt64) : MemoryDomain :=
  let d :=
    { d with
      currentCommitted := d.currentCommitted + size
      currentResident := d.currentResident + size }
  if movability == .movable then { d with currentMovable := d.currentMovable + size }
  else if movability == .pinned then { d with currentPinned := d.currentPinned + size }
  else d

/-- Record the region the arena has granted. -/
def grant (g : MemoryGovernor) (req : AllocationRequest) (id : AllocationId) (r : RegionInfo)
    (arena : RegionAllocator) : MemoryGovernor :=
  { g with
    arena := arena
    records := g.records.insert id (grantedRecord req id r)
    domain := chargeDomain g.domain (grantedMovability req) r.size }

def request (g : MemoryGovernor) (req : AllocationRequest) :
    Result AllocationHandle × MemoryGovernor :=
  let vf := validateRequest req g.domain.managedCapacity
  if !vf.ok then (.error vf, g)
  else if !g.initialized then (.error ⟨.internalError, "governor not initialized"⟩, g)
  else
    let regionSize := Detail.alignUp req.bytes req.alignment
    if regionSize == 0 || regionSize < req.bytes then
      (.error ⟨.sizeOverflow, "aligned allocation size overflow"⟩, g)
    else
      -- the id is drawn before the arena answers: a rejected request uses it up
      let (id, g) := g.nextId
      match g.arena.allocate (arenaRequest req id) with
      | (.error f, arena) => (.error f, { g with arena := arena })
      | (.ok r, arena) =>
          (.ok ⟨id, .first, r.offset, r.size, req.alignment⟩, g.grant req id r arena)

/-! ## Release -/

/-- The record of a released allocation. -/
def releasedRecord (r : AllocationRecord) : AllocationRecord :=
  { r with lifecycle := .released, residency := .nonresident }

/-- The domain counters after a release. -/
def dischargeDomain (d : MemoryDomain) (rel : AllocationRecord) : MemoryDomain :=
  let d :=
    { d with
      currentCommitted := sub d.currentCommitted rel.regionSize
      currentResident := sub d.currentResident rel.regionSize }
  if rel.movability == .movable then
    { d with currentMovable := sub d.currentMovable rel.regionSize }
  else if rel.movability == .pinned then
    { d with currentPinned := sub d.currentPinned rel.regionSize }
  else d

/-- Retire the record of a region the arena has freed. -/
def retire (g : MemoryGovernor) (id : AllocationId) (r : AllocationRecord)
    (arena : RegionAllocator) : MemoryGovernor :=
  { g with
    arena := arena
    retired := g.retired.insert id (releasedRecord r)
    records := g.records.erase id
    domain := dischargeDomain g.domain (releasedRecord r)
    historyCount := g.historyCount + 1 }

def releaseForWorker (g : MemoryGovernor) (id : AllocationId) (gen : AllocationGeneration)
    (workerBoot : WorkerBootId) (sourceBoot : SourceBootId) :
    Result AllocationRecord × MemoryGovernor :=
  match g.records.find? id with
  | none =>
      match g.retired.find? id with
      | some rel =>
          if rel.generation == gen then
            (.error ⟨.doubleFree, "double free of released allocation"⟩, g)
          else (.error ⟨.staleGeneration, "stale generation on released allocation"⟩, g)
      | none => (.error ⟨.staleGeneration, "unknown allocation"⟩, g)
  | some r =>
      if r.generation != gen then
        (.error ⟨.staleGeneration, "stale allocation generation on release"⟩, g)
      else if workerBoot.isSet && workerBoot != r.workerBoot then
        (.error ⟨.staleAuthority, "stale worker boot authority"⟩, g)
      else if sourceBoot.isSet && sourceBoot != r.sourceBoot then
        (.error ⟨.staleAuthority, "stale source boot authority"⟩, g)
      else if r.pinCount > 0 then
        (.error ⟨.freeOfActiveOrPinned, "cannot release a pinned allocation"⟩, g)
      else if r.residency == .active then
        (.error ⟨.freeOfActiveOrPinned, "cannot release an active allocation"⟩, g)
      else
        match g.arena.free id gen with
        | (.error f, arena) => (.error f, { g with arena := arena })
        | (.ok _, arena) => (.ok (releasedRecord r), g.retire id r arena)

/-- A release that carries no boot authority. -/
def release (g : MemoryGovernor) (id : AllocationId) (gen : AllocationGeneration) :
    Result AllocationRecord × MemoryGovernor :=
  g.releaseForWorker id gen {} {}

/-! ## Pins and queries of one allocation -/

/-- The record lookup the handle operations start with. -/
def locate (g : MemoryGovernor) (id : AllocationId) (gen : AllocationGeneration) (stale : String) :
    Result AllocationRecord :=
  match g.records.find? id with
  | none => .error ⟨.staleGeneration, "unknown allocation"⟩
  | some r => if r.generation != gen then .error ⟨.staleGeneration, stale⟩ else .ok r

/-- The record after a pin, with the count the arena reports. -/
def pinnedRecord (r : AllocationRecord) (pinCount : UInt32) : AllocationRecord :=
  { r with movability := .pinned, pinCount := pinCount, lifecycle := .pinned }

/-- Record a pin the arena has counted. -/
def recordPin (g : MemoryGovernor) (id : AllocationId) (r : AllocationRecord)
    (region : RegionInfo) (arena : RegionAllocator) : MemoryGovernor :=
  let movable := sub g.domain.currentMovable r.regionSize
  let pinned := sub g.domain.currentPinned 0
  { g with
    arena := arena
    records := g.records.insert id (pinnedRecord r region.pinCount)
    domain :=
      { g.domain with currentMovable := movable, currentPinned := pinned + r.regionSize } }

def pin (g : MemoryGovernor) (id : AllocationId) (gen : AllocationGeneration) :
    Result Unit × MemoryGovernor :=
  match g.locate id gen "stale generation on pin" with
  | .error f => (.error f, g)
  | .ok r =>
      match g.arena.pin id gen with
      | (.error f, arena) => (.error f, { g with arena := arena })
      | (.ok region, arena) => (.ok (), g.recordPin id r region arena)

/-- The record after an unpin, with what the arena reports. -/
def unpinnedRecord (r : AllocationRecord) (region : RegionInfo) : AllocationRecord :=
  { r with
    movability := region.movability
    pinCount := region.pinCount
    lifecycle := if region.pinCount == 0 then .resident else .pinned }

/-- Record an unpin the arena has counted. -/
def recordUnpin (g : MemoryGovernor) (id : AllocationId) (r : AllocationRecord)
    (region : RegionInfo) (arena : RegionAllocator) : MemoryGovernor :=
  { g with
    arena := arena
    records := g.records.insert id (unpinnedRecord r region)
    domain :=
      if region.pinCount == 0 then
        { g.domain with
          currentPinned := sub g.domain.currentPinned r.regionSize
          currentMovable := g.domain.currentMovable + r.regionSize }
      else g.domain }

def unpin (g : MemoryGovernor) (id : AllocationId) (gen : AllocationGeneration) :
    Result Unit × MemoryGovernor :=
  match g.locate id gen "stale generation on unpin" with
  | .error f => (.error f, g)
  | .ok r =>
      match g.arena.unpin id gen with
      | (.error f, arena) => (.error f, { g with arena := arena })
      | (.ok region, arena) => (.ok (), g.recordUnpin id r region arena)

def get (g : MemoryGovernor) (id : AllocationId) (gen : AllocationGeneration) :
    Result AllocationRecord :=
  match g.locate id gen "stale allocation generation on query" with
  | .error f => .error f
  | .ok r =>
      match g.arena.get id gen with
      | .error f => .error f
      | .ok _ => .ok r

def allocations (g : MemoryGovernor) : List AllocationRecord := g.records.entries.map (·.2)

def regionSize (g : MemoryGovernor) (id : AllocationId) : UInt64 :=
  match g.records.find? id with
  | some r => r.regionSize
  | none =>
      match g.retired.find? id with
      | some r => r.regionSize
      | none => 0

/-! ## Pressure and summary -/

/-- The three exclusions reclaim and the reclaimable sum share. -/
def excluded (r : AllocationRecord) : Bool :=
  let pinned := r.pinCount > 0 || r.movability == .pinned || r.movability == .nonmovable
  let never := r.reclaimability == .neverReclaim || r.reclaimability == .unknown
  let active := r.residency == .active
  pinned || never || active

def reclaimableBytes (g : MemoryGovernor) : UInt64 :=
  g.records.entries.foldl
    (fun total e => if excluded e.2 then total else total + e.2.regionSize) 0

def pressure (g : MemoryGovernor) : PressureState × MemoryGovernor :=
  let arena := g.arena.ensureSummary
  let p := evaluatePressure
    { managedCapacity := g.domain.managedCapacity
      committed := arena.liveBytes
      free := arena.freeBytes
      reclaimable := g.reclaimableBytes
      largestFree := arena.largestFree
      fragmentation := arena.externalFragmentation
      watermarks := g.domain.watermarks }
    g.domain.pressure
  (p, { g with arena := arena, domain := { g.domain with pressure := p } })

def summary (g : MemoryGovernor) : MemorySummary × MemoryGovernor :=
  let (p, g') := g.pressure
  ({ managedCapacity := g.domain.managedCapacity
     free := g.arena.freeBytes
     committed := g.arena.liveBytes
     resident := g.arena.liveBytes
     reclaimable := g.reclaimableBytes
     movable := g.arena.movableBytes
     pinned := g.arena.pinnedBytes
     largestFree := g.arena.largestFreeRegion
     freeRegions := g.arena.freeRegionCount
     liveAllocations := g.arena.liveCount
     externalFragmentation := g.arena.externalFragmentation
     provenance := g.domain.provenance
     pressure := p
     domainGeneration := g.domain.domainGeneration }, g')

def explain (g : MemoryGovernor) : Explanation × MemoryGovernor :=
  let (s, g') := g.summary
  (⟨g.domain.domainId, g.domain.domainGeneration, g.domain.deviceId, s⟩, g')

/-! ## Reclaim selection -/

/-- A reclaim candidate with its sort keys. -/
structure Candidate where
  id : AllocationId
  priority : Nat
  size : UInt64
deriving DecidableEq, Repr

/-- The comparison of the sort: priority, then larger size, then smaller id. -/
def Candidate.before (a b : Candidate) : Bool :=
  if a.priority != b.priority then a.priority < b.priority
  else if a.size != b.size then a.size > b.size
  else a.id.value < b.id.value

/-- The record of a candidate, unless one of the hard exclusions holds. -/
def candidate (r : AllocationRecord) : Option Candidate :=
  if excluded r then none
  else if reclaimabilityRequiresBacking r.reclaimability && !r.recoverable && r.backingRef.isEmpty
  then none
  else some ⟨r.id, reclaimabilityPriority r.reclaimability, r.regionSize⟩

/-- Stable sort: `b` is not before `a` exactly when `a` may stand first. -/
def reclaimCandidates (g : MemoryGovernor) (max : UInt64) : List AllocationId :=
  let c := (g.records.entries.map (·.2)).filterMap candidate
  let sorted := c.insertionSort (fun a b => Candidate.before b a = false)
  (sorted.map (·.id)).take max.toNat

/-! ## Compaction -/

/-- The running best of the planning loop. -/
structure Planning where
  bestGain : Binary64
  plan : CompactionPlan

/-- The live regions the planner may move. -/
def movableRegion (m : RegionInfo) : Bool :=
  m.live && !(m.movability != .movable || m.pinCount > 0) && m.residency != .active &&
    m.reclaimability != .neverReclaim

/-- The sizes of the free regions just before and just behind `m`. -/
def freeNeighbours (free : List RegionInfo) (m : RegionInfo) : UInt64 × UInt64 :=
  free.foldl
    (fun (lft, rgt) f =>
      (if f.offset + f.size == m.offset then f.size else lft,
       if f.offset == m.offset + m.size then f.size else rgt))
    (0, 0)

/-- The inner loop: try the free region `f` as target for `m`. -/
def tryTarget (m : RegionInfo) (lft rgt : UInt64) (st : Planning) (f : RegionInfo) : Planning :=
  if f.offset + f.size == m.offset || f.offset == m.offset + m.size then st
  else if f.size < m.size then st
  else
    let nf := Detail.alignUp f.offset m.alignment
    let front := if nf ≥ f.offset then nf - f.offset else 0
    if front > f.size || m.size > f.size - front then st
    else
      let tailFree := f.size - front - m.size
      let consolidated := lft + m.size + rgt
      let after := max st.plan.largestFreeBefore consolidated
      let after := if front > 0 then max after front else after
      let after := if tailFree > 0 then max after tailFree else after
      let gain :=
        (Binary64.ofUInt64 after).sub (Binary64.ofUInt64 st.plan.largestFreeBefore)
      if st.bestGain.lt gain then
        { bestGain := gain
          plan :=
            { st.plan with
              steps := [⟨m.allocId, m.allocGeneration, m.offset, m.size, nf, m.size, .movable⟩]
              bytesMoved := m.size
              largestFreeAfter := after } }
      else st

/-- The outer loop: all targets for the live region `m`. -/
def tryRegion (free : List RegionInfo) (st : Planning) (m : RegionInfo) : Planning :=
  if movableRegion m then
    let (lft, rgt) := freeNeighbours free m
    free.foldl (tryTarget m lft rgt) st
  else st

/-- The double -1.0, below every gain. -/
def minusOne : Binary64 := ⟨0xBFF0000000000000⟩

def planCompaction (g : MemoryGovernor) : CompactionPlan × MemoryGovernor :=
  let live := g.arena.snapshotLive
  let free := g.arena.snapshotFree
  let arena := g.arena.ensureSummary
  let start : Planning :=
    { bestGain := minusOne
      plan := { largestFreeBefore := arena.largestFree, largestFreeAfter := arena.largestFree } }
  let plan := (live.foldl (tryRegion free) start).plan
  ({ plan with
      rationale :=
        if plan.steps.isEmpty then
          "no safe compaction found (all movable allocations are pinned, active, or lack a free target)"
        else
          "deterministic single-move compaction: " ++ toString plan.bytesMoved ++ " bytes moved" },
    { g with arena := arena })

/-- The record after a relocation, with what the arena reports. -/
def relocatedRecord (r : AllocationRecord) (region : RegionInfo) : AllocationRecord :=
  { r with
    offset := region.offset
    regionSize := region.size
    regionGeneration := region.regionGeneration
    generation := region.allocGeneration
    relocationGeneration :=
      if r.relocationGeneration.isSet then r.relocationGeneration.next else .first
    lifecycle := .resident }

/-- Record a move the arena has made. -/
def recordMove (g : MemoryGovernor) (id : AllocationId) (r : AllocationRecord)
    (region : RegionInfo) (arena : RegionAllocator) : MemoryGovernor :=
  { g with arena := arena, records := g.records.insert id (relocatedRecord r region) }

def applyRelocation (g : MemoryGovernor) (id : AllocationId) (gen : AllocationGeneration)
    (newOffset newSize : UInt64) : Result AllocationHandle × MemoryGovernor :=
  match g.locate id gen "stale generation on relocate" with
  | .error f => (.error f, g)
  | .ok r =>
      if r.pinCount > 0 then
        (.error ⟨.blockedByPinned, "cannot relocate a pinned allocation"⟩, g)
      else
        match g.arena.relocate id gen newOffset newSize r.alignment with
        | (.error f, arena) => (.error f, { g with arena := arena })
        | (.ok region, arena) =>
            (.ok ⟨id, region.allocGeneration, region.offset, region.size, r.alignment⟩,
              g.recordMove id r region arena)

/-! ## Persistence hooks -/

def snapshot (g : MemoryGovernor) : PersistSnapshot :=
  { domain := g.domain
    records := g.records.entries.map (·.2)
    retired := g.retired.entries.map (·.2)
    nextAllocId := g.nextAllocId
    historyCount := g.historyCount }

/-- A recovered record is never current. -/
def recoveredRecord (r : AllocationRecord) : AllocationRecord :=
  { r with lifecycle := .revalidationRequired, residency := .revalidationRequired }

def restore (g : MemoryGovernor) (s : PersistSnapshot) : Result Unit × MemoryGovernor :=
  let recovered := s.records.foldl
    (fun m r => m.insert (recoveredRecord r).id (recoveredRecord r)) OrdMap.empty
  let retired := s.retired.foldl (fun m r => m.insert r.id r) recovered
  (.ok (),
    { g with
      domain :=
        { s.domain with
          currentCommitted := 0
          currentResident := 0
          currentMovable := 0
          currentPinned := 0
          health := .unknown
          pressure := .revalidationRequired }
      records := .empty
      retired := retired
      nextAllocId := s.nextAllocId
      historyCount := s.historyCount
      arena := .new s.domain.managedCapacity
      initialized := false })

/-! ## Calls -/

/-- The calls a client can make on a governor. -/
inductive Call where
  | initializeArena (answer : Except String UInt64)
  | request (req : AllocationRequest)
  | release (id : AllocationId) (gen : AllocationGeneration)
  | releaseForWorker (id : AllocationId) (gen : AllocationGeneration) (workerBoot : WorkerBootId)
      (sourceBoot : SourceBootId)
  | pin (id : AllocationId) (gen : AllocationGeneration)
  | unpin (id : AllocationId) (gen : AllocationGeneration)
  | get (id : AllocationId) (gen : AllocationGeneration)
  | summary
  | pressure
  | allocations
  | reclaimCandidates (max : UInt64)
  | planCompaction
  | applyRelocation (id : AllocationId) (gen : AllocationGeneration) (newOffset newSize : UInt64)
  | regionSize (id : AllocationId)
  | explain
  | snapshot
  | restore (s : PersistSnapshot)

/-- What a call returns. -/
inductive Reply where
  | done (r : Result Unit)
  | handle (r : Result AllocationHandle)
  | record (r : Result AllocationRecord)
  | summary (s : MemorySummary)
  | pressure (p : PressureState)
  | records (rs : List AllocationRecord)
  | ids (l : List AllocationId)
  | plan (p : CompactionPlan)
  | size (n : UInt64)
  | explanation (e : Explanation)
  | snapshot (s : PersistSnapshot)

def perform (g : MemoryGovernor) : Call → Reply × MemoryGovernor
  | .initializeArena answer => let (r, g') := g.initializeArena answer; (.done r, g')
  | .request req => let (r, g') := g.request req; (.handle r, g')
  | .release id gen => let (r, g') := g.release id gen; (.record r, g')
  | .releaseForWorker id gen workerBoot sourceBoot =>
      let (r, g') := g.releaseForWorker id gen workerBoot sourceBoot
      (.record r, g')
  | .pin id gen => let (r, g') := g.pin id gen; (.done r, g')
  | .unpin id gen => let (r, g') := g.unpin id gen; (.done r, g')
  | .get id gen => (.record (g.get id gen), g)
  | .summary => let (s, g') := g.summary; (.summary s, g')
  | .pressure => let (p, g') := g.pressure; (.pressure p, g')
  | .allocations => (.records g.allocations, g)
  | .reclaimCandidates max => (.ids (g.reclaimCandidates max), g)
  | .planCompaction => let (p, g') := g.planCompaction; (.plan p, g')
  | .applyRelocation id gen newOffset newSize =>
      let (r, g') := g.applyRelocation id gen newOffset newSize
      (.handle r, g')
  | .regionSize id => (.size (g.regionSize id), g)
  | .explain => let (e, g') := g.explain; (.explanation e, g')
  | .snapshot => (.snapshot g.snapshot, g)
  | .restore s => let (r, g') := g.restore s; (.done r, g')

end MemoryGovernor

end GpuMemoryService
