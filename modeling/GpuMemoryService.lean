import GpuMemoryService.Lib.Binary64
import GpuMemoryService.Lib.Binary64Integers
import GpuMemoryService.Lib.Binary64Order
import GpuMemoryService.Lib.OrdMap
import GpuMemoryService.Lib.Images
import GpuMemoryService.Lib.Word
import GpuMemoryService.Lib.Partition
import GpuMemoryService.Lib.Gaps
import GpuMemoryService.Lib.Folds
import GpuMemoryService.Lib.Run
import GpuMemoryService.Lib.Lifetimes
import GpuMemoryService.Lib.Hysteresis
import GpuMemoryService.Lib.Isolation
import GpuMemoryService.Lib.Buffers
import GpuMemoryService.Lib.Bytes
import GpuMemoryService.Lib.Access
import GpuMemoryService.Lib.Crc
import GpuMemoryService.Lib.Intervals
import GpuMemoryService.Types
import GpuMemoryService.EnumBytes
import GpuMemoryService.RegionAllocator
import GpuMemoryService.RegionLayout
import GpuMemoryService.RegionInvariant
import GpuMemoryService.RegionOperations
import GpuMemoryService.RegionTheorems
import GpuMemoryService.RegionVerify
import GpuMemoryService.RegionOwnership
import GpuMemoryService.RegionActions
import GpuMemoryService.RegionCache
import GpuMemoryService.RegionPlacement
import GpuMemoryService.RegionCanonical
import GpuMemoryService.RegionHistories
import GpuMemoryService.RegionGaps
import GpuMemoryService.RegionRenaming
import GpuMemoryService.Allocation
import GpuMemoryService.MemoryDomain
import GpuMemoryService.PressureTraces
import GpuMemoryService.Persistence
import GpuMemoryService.SnapshotFormat
import GpuMemoryService.SnapshotValidation
import GpuMemoryService.SnapshotBytes
import GpuMemoryService.SnapshotFiles
import GpuMemoryService.SnapshotAccess
import GpuMemoryService.Protocol
import GpuMemoryService.ProtocolTheorems
import GpuMemoryService.PayloadCodec
import GpuMemoryService.BurstErrors
import GpuMemoryService.Net
import GpuMemoryService.Coordinator
import GpuMemoryService.Worker
import GpuMemoryService.WorkerMemory
import GpuMemoryService.CoordinatorRounds
import GpuMemoryService.CoordinatorTheorems
import GpuMemoryService.TruncatedPayloads
import GpuMemoryService.Transport
import GpuMemoryService.Registration
import GpuMemoryService.CoordinatorConnections
import GpuMemoryService.WorkerLife
import GpuMemoryService.Deployment
import GpuMemoryService.Governor
import GpuMemoryService.GovernorInvariant
import GpuMemoryService.GovernorAgreement
import GpuMemoryService.GovernorLedger
import GpuMemoryService.GovernorHandles
import GpuMemoryService.GovernorPins
import GpuMemoryService.GovernorMoves
import GpuMemoryService.GovernorAccounting
import GpuMemoryService.GovernorClasses
import GpuMemoryService.GovernorPinPairs
import GpuMemoryService.GovernorRecovery
import GpuMemoryService.GovernorSaving
import GpuMemoryService.GovernorLoading
import GpuMemoryService.GovernorFailures
import GpuMemoryService.GovernorQueries
import GpuMemoryService.GovernorHistories
import GpuMemoryService.GovernorReclaim
import GpuMemoryService.GovernorArena
import GpuMemoryService.GovernorVerdicts
import GpuMemoryService.GovernorCompaction
import GpuMemoryService.GovernorPlans
import GpuMemoryService.GovernorPlanning
import GpuMemoryService.GovernorFragmentation
import GpuMemoryService.GovernorPacking
import GpuMemoryService.GovernorEviction
import GpuMemoryService.GovernorSummary
import GpuMemoryService.GovernorRenaming
import GpuMemoryService.GovernorContents
import GpuMemoryService.GovernorAdmission
import GpuMemoryService.GovernorIsolation
import GpuMemoryService.GovernorContract
import GpuMemoryService.GovernorCrashes
import GpuMemoryService.GovernorPressure
