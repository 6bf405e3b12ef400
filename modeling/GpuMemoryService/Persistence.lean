/-
GpuMemoryService.Persistence — the durable snapshot of a governor and its
binary format (`persistence.hpp`, `persistence.cpp`).

`encode` writes magic, version, domain, the counted lists of live and of
retired records, the next id, the history count and a checksum of all
bytes before it. `decode` reads the same fields back, then checks the end
of the buffer, the checksum and the structure of the snapshot. It reports
the first thing that is wrong, with the text of the source.

Translation notes.
* `Writer` appends to a buffer: a write is the bytes it appends.
* `Reader` keeps a position in the buffer: here it keeps the bytes from
  that position on, so `remaining()` is their number.
* A double is written as its bit pattern, which is what `Binary64` is.
* The duplicate check and the running sum of live sizes share a loop in the
  source; the sum is a fold of its own here.
* `static_cast<std::uint32_t>` of a size keeps the low 32 bits.
-/
import GpuMemoryService.Allocation
import GpuMemoryService.EnumBytes
import GpuMemoryService.Lib.Bytes
import GpuMemoryService.Lib.Crc
import GpuMemoryService.Lib.Intervals
import GpuMemoryService.MemoryDomain

namespace GpuMemoryService

open Lib

/-- The bytes of "GSMS". -/
def kMagic : UInt32 := 0x47534d53

def kVersion : UInt32 := 1

/-- Bound on hostile counts. -/
def kMaxRecords : UInt32 := 0x100000

/-- Durable records as a plain aggregate. -/
structure PersistSnapshot where
  magic : UInt32 := kMagic
  version : UInt32 := kVersion
  domain : MemoryDomain := {}
  records : List AllocationRecord := []
  retired : List AllocationRecord := []
  nextAllocId : UInt64 := 1
  historyCount : UInt64 := 0
deriving DecidableEq

namespace Persist

/-- CRC-32 (IEEE, reflected). -/
def crc32 (data : Bytes) : UInt32 := crc 0xEDB88320 data

/-! ## Writer -/

namespace Writer

def u8 (v : UInt8) : Bytes := putU8 v

def u32 (v : UInt32) : Bytes := putU32 v

def u64 (v : UInt64) : Bytes := putU64 v

def str (s : Bytes) : Bytes := u32 (UInt32.ofNat s.length) ++ s

end Writer

/-- The fields of a record, with the byte that stands for its flag. -/
def recordBytes (r : AllocationRecord) (flag : UInt8) : Bytes :=
  Writer.u64 r.id.value ++ Writer.u64 r.generation.value ++
  Writer.u64 r.requestedBytes ++ Writer.u64 r.regionSize ++ Writer.u64 r.offset ++
  Writer.u64 r.alignment ++
  Writer.u64 r.regionId.value ++ Writer.u64 r.regionGeneration.value ++
  Writer.u8 (toByte r.memClass) ++
  Writer.u8 (toByte r.reclaimability) ++
  Writer.u8 (toByte r.movability) ++
  Writer.u32 r.pinCount ++
  Writer.u8 (toByte r.residency) ++
  Writer.u8 (toByte r.lifecycle) ++
  Writer.str r.owner ++
  Writer.u64 r.worker.value ++ Writer.u64 r.workerBoot.value ++ Writer.u64 r.sourceBoot.value ++
  Writer.u64 r.workload.value ++ Writer.u64 r.execution.value ++
  Writer.u64 r.relocationGeneration.value ++
  Writer.u64 r.reservationGen.value ++ Writer.u64 r.resourceClaimGen.value ++
  Writer.u64 r.placementGen.value ++ Writer.u64 r.policyGen.value ++
  Writer.str r.backingRef ++
  Writer.u8 (toByte r.provenance) ++
  Writer.u8 flag

def writeRecord (r : AllocationRecord) : Bytes := recordBytes r (if r.recoverable then 1 else 0)

def writeDomain (d : MemoryDomain) : Bytes :=
  Writer.u64 d.domainId.value ++ Writer.u64 d.domainGeneration.value ++
  Writer.u64 d.deviceId.value ++ Writer.u64 d.deviceGeneration.value ++
  Writer.u64 d.totalCapacity ++ Writer.u64 d.allocatorVisibleCapacity ++
  Writer.u64 d.reservedHeadroom ++ Writer.u64 d.managedCapacity ++
  Writer.u64 d.currentCommitted ++ Writer.u64 d.currentPhysicallyAllocated ++
  Writer.u64 d.currentResident ++
  Writer.u64 d.currentReclaimable ++ Writer.u64 d.currentMovable ++ Writer.u64 d.currentPinned ++
  Writer.u64 d.externalFragmentation.bits ++
  Writer.u8 (toByte d.pressure) ++ Writer.u8 (toByte d.health) ++ Writer.u8 (toByte d.provenance) ++
  Writer.u64 d.watermarks.generation.value ++
  Writer.u64 d.watermarks.low.bits ++ Writer.u64 d.watermarks.high.bits ++
  Writer.u64 d.watermarks.critical.bits

/-- Everything the checksum covers. -/
def encodeBody (s : PersistSnapshot) : Bytes :=
  Writer.u32 kMagic ++ Writer.u32 kVersion ++
  writeDomain s.domain ++
  Writer.u32 (UInt32.ofNat s.records.length) ++ s.records.flatMap writeRecord ++
  Writer.u32 (UInt32.ofNat s.retired.length) ++ s.retired.flatMap writeRecord ++
  Writer.u64 s.nextAllocId ++ Writer.u64 s.historyCount

def encode (s : PersistSnapshot) : Bytes := encodeBody s ++ Writer.u32 (crc32 (encodeBody s))

/-! ## Reader -/

namespace Read

def u8 : Reader UInt8 := getU8

def u32 : Reader UInt32 := getU32

def u64 : Reader UInt64 := getU64

/-- A string with its length in front, bounded by 2^20 bytes. -/
def str : Reader Bytes := do
  let n ← u32
  if n > 0x100000 then failure
  else takeBytes n.toNat

/-- A byte cast to an enumeration, not checked. -/
def enum (E : Type) [ByteEnum E] : Reader E := do
  let b ← u8
  pure (ofByte b)

end Read

def readRecord : Reader AllocationRecord := do
  let id ← Read.u64
  let generation ← Read.u64
  let requestedBytes ← Read.u64
  let regionSize ← Read.u64
  let offset ← Read.u64
  let alignment ← Read.u64
  let regionId ← Read.u64
  let regionGeneration ← Read.u64
  let memClass ← Read.enum MemoryClass
  let reclaimability ← Read.enum Reclaimability
  let movability ← Read.enum Movability
  let pinCount ← Read.u32
  let residency ← Read.enum ResidencyState
  let lifecycle ← Read.enum LifecycleState
  let owner ← Read.str
  let worker ← Read.u64
  let workerBoot ← Read.u64
  let sourceBoot ← Read.u64
  let workload ← Read.u64
  let execution ← Read.u64
  let relocationGeneration ← Read.u64
  let reservationGen ← Read.u64
  let resourceClaimGen ← Read.u64
  let placementGen ← Read.u64
  let policyGen ← Read.u64
  let backingRef ← Read.str
  let provenance ← Read.enum Provenance
  let flag ← Read.u8
  pure
    { id := ⟨id⟩, generation := ⟨generation⟩
      requestedBytes, regionSize, offset, alignment
      regionId := ⟨regionId⟩, regionGeneration := ⟨regionGeneration⟩
      memClass, reclaimability, movability, pinCount, residency, lifecycle, owner
      worker := ⟨worker⟩, workerBoot := ⟨workerBoot⟩, sourceBoot := ⟨sourceBoot⟩
      workload := ⟨workload⟩, execution := ⟨execution⟩
      relocationGeneration := ⟨relocationGeneration⟩
      reservationGen := ⟨reservationGen⟩, resourceClaimGen := ⟨resourceClaimGen⟩
      placementGen := ⟨placementGen⟩, policyGen := ⟨policyGen⟩
      backingRef, provenance
      recoverable := flag == 1 }

def readDomain : Reader MemoryDomain := do
  let domainId ← Read.u64
  let domainGeneration ← Read.u64
  let deviceId ← Read.u64
  let deviceGeneration ← Read.u64
  let totalCapacity ← Read.u64
  let allocatorVisibleCapacity ← Read.u64
  let reservedHeadroom ← Read.u64
  let managedCapacity ← Read.u64
  let currentCommitted ← Read.u64
  let currentPhysicallyAllocated ← Read.u64
  let currentResident ← Read.u64
  let currentReclaimable ← Read.u64
  let currentMovable ← Read.u64
  let currentPinned ← Read.u64
  let externalFragmentation ← Read.u64
  let pressure ← Read.enum PressureState
  let health ← Read.enum DeviceHealth
  let provenance ← Read.enum Provenance
  let generation ← Read.u64
  let low ← Read.u64
  let high ← Read.u64
  let critical ← Read.u64
  pure
    { domainId := ⟨domainId⟩, domainGeneration := ⟨domainGeneration⟩
      deviceId := ⟨deviceId⟩, deviceGeneration := ⟨deviceGeneration⟩
      totalCapacity, allocatorVisibleCapacity, reservedHeadroom, managedCapacity
      currentCommitted, currentPhysicallyAllocated, currentResident
      currentReclaimable, currentMovable, currentPinned
      externalFragmentation := ⟨externalFragmentation⟩
      pressure, health, provenance
      watermarks :=
        { low := ⟨low⟩, high := ⟨high⟩, critical := ⟨critical⟩, generation := ⟨generation⟩ } }

/-! ## Validation -/

def enumOk {E : Type} [ByteEnum E] (e : E) (max : UInt8) : Bool := toByte e ≤ max

def validateRecord (r : AllocationRecord) (managed : UInt64) : Bool :=
  if r.requestedBytes == 0 then false
  else if r.alignment == 0 || (r.alignment &&& (r.alignment - 1)) != 0 then false
  else if r.regionSize < r.requestedBytes then false
  else if r.offset > managed || r.regionSize > managed - r.offset then false
  else if r.offset % r.alignment != 0 then false
  else if !enumOk r.memClass (toByte MemoryClass.internal) then false
  else if !enumOk r.reclaimability (toByte Reclaimability.bestEffort) then false
  else if !enumOk r.movability (toByte Movability.nonmovable) then false
  else if !enumOk r.residency (toByte ResidencyState.revalidationRequired) then false
  else if !enumOk r.lifecycle (toByte LifecycleState.retired) then false
  else if !enumOk r.provenance (toByte Provenance.reconstructed) then false
  else if r.generation.value == 0 then false
  else true

/-- Every rejection of `decode` has this reason. -/
def fail {α : Type} (message : String) : Result α := .error ⟨.internalError, message⟩

/-- The result of a read, or the failure with its text. -/
def expect {α : Type} (message : String) : Option α → Result α
  | some a => .ok a
  | none => fail message

/-- A check of `decode`: fails when `bad` holds. -/
def reject (bad : Bool) (message : String) : Result Unit := if bad then fail message else .ok ()

/-- One round of the validation loops: `seen` holds the ids so far. -/
def admitRecord (invalid : String) (managed : UInt64) (seen : List AllocationId)
    (r : AllocationRecord) : Result (List AllocationId) := do
  reject (!validateRecord r managed) invalid
  reject (r.id ∈ seen) "duplicate allocation id"
  pure (r.id :: seen)

/-- The intervals of the records, as the overlap check builds them. -/
def intervals (records : List AllocationRecord) : List (UInt64 × UInt64) :=
  records.map (fun r => (r.offset, r.offset + r.regionSize))

def sumLive (records : List AllocationRecord) : UInt64 :=
  records.foldl (fun sum r => sum + r.regionSize) 0

/-- The checks on a snapshot that has been read. -/
def checkSnapshot (s : PersistSnapshot) : Result Unit := do
  let managed := s.domain.managedCapacity
  let seen ← s.records.foldlM (admitRecord "invalid record" managed) []
  let _ ← s.retired.foldlM (admitRecord "invalid retired record" managed) seen
  reject (sumLive s.records > managed) "physical bytes exceed governed capacity"
  reject (overlapsNext (sortIntervals (intervals s.records))) "overlapping persisted regions"

/-! ## Decoding -/

/-- The fields of the buffer, with the stored checksum and what is left. -/
def decodeFields (b : Bytes) : Result (PersistSnapshot × UInt32 × Bytes) := do
  let (magic, b) ← expect "truncated magic" (Read.u32.run b)
  reject (magic != kMagic) "bad magic"
  let (version, b) ← expect "truncated version" (Read.u32.run b)
  reject (version != kVersion) "unsupported version"
  let (domain, b) ← expect "malformed domain" (readDomain.run b)
  reject (!domain.watermarks.valid) "invalid watermarks (NaN/Inf/bad order)"
  let (rocount, b) ← expect "truncated record count" (Read.u32.run b)
  reject (rocount > kMaxRecords) "hostile record count"
  let (records, b) ← expect "malformed record" ((many readRecord rocount.toNat).run b)
  let (trcount, b) ← expect "truncated retired count" (Read.u32.run b)
  reject (trcount > kMaxRecords) "hostile retired count"
  let (retired, b) ← expect "malformed retired record" ((many readRecord trcount.toNat).run b)
  let (nextAllocId, b) ← expect "truncated next alloc id" (Read.u64.run b)
  let (historyCount, b) ← expect "truncated history" (Read.u64.run b)
  let (stored, b) ← expect "truncated checksum" (Read.u32.run b)
  pure ({ domain, records, retired, nextAllocId, historyCount }, stored, b)

def decode (b : Bytes) : Result PersistSnapshot := do
  let (s, stored, rest) ← decodeFields b
  reject (rest.length != 0) "trailing garbage"
  reject (stored != crc32 (b.take (b.length - 4))) "checksum mismatch"
  checkSnapshot s
  pure s

/-! ## Files -/

/-- What `write_file` does to the file: open it truncated, then append the
bytes. -/
inductive FileOp where
  | truncate
  | append (b : UInt8)
deriving DecidableEq, Repr

def FileOp.apply (content : Bytes) : FileOp → Bytes
  | .truncate => []
  | .append b => content ++ [b]

def writeFile (s : PersistSnapshot) : List FileOp := .truncate :: (encode s).map .append

/-- The content of the file after some of the operations. -/
def contentAfter (old : Bytes) (ops : List FileOp) : Bytes := ops.foldl FileOp.apply old

/-- Reads a file that could be opened. -/
def readFile (content : Bytes) : Result PersistSnapshot :=
  if content.length = 0 then fail "empty file" else decode content

end Persist

end GpuMemoryService
