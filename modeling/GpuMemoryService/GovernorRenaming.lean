/-
GpuMemoryService.GovernorRenaming — a recovered governor behaves like a
fresh one.

A governor after `restore` and `initialize` draws its ids from where the
snapshot left off, and carries the snapshot's retired records, its domain
and its history count. `Mirrors` relates it to a fresh governor: arena and
records are those of the fresh one with every id shifted, and of the rest
only what a call can see has to agree. Retired records are seen by a
release only, so they have to agree at ids that were issued since and are
not live; the prior pressure is seen by the classification only through
whether it is held up by hysteresis (`held`), and so UNKNOWN and
REVALIDATION_REQUIRED count the same.

Every call keeps the relation and gives the shifted reply
(`perform_mirrors`), and with it every session (`recovered_like_fresh`).
Ids are compared in one place, the last tie-break of reclaim selection:
there the shift has to keep their order, which it does as long as it does
not wrap.
-/
import Mathlib.Data.Set.Monotone
import GpuMemoryService.RegionRenaming
import GpuMemoryService.GovernorAgreement
import GpuMemoryService.PressureTraces

namespace GpuMemoryService

open Lib

/-- Ids shifted by `δ`. -/
def shift (δ : UInt64) : Equiv.Perm AllocationId where
  toFun i := ⟨i.value + δ⟩
  invFun i := ⟨i.value - δ⟩
  left_inv i := by simp
  right_inv i := by simp

namespace MemoryGovernor

/-! ## Renamed replies and calls -/

section Renamed

variable (ρ : Equiv.Perm AllocationId)

def renamedRecord (r : AllocationRecord) : AllocationRecord := { r with id := ρ r.id }

def renamedHandle (h : AllocationHandle) : AllocationHandle := { h with id := ρ h.id }

def renamedStep (st : CompactionStep) : CompactionStep := { st with id := ρ st.id }

def renamedPlan (p : CompactionPlan) : CompactionPlan :=
  { p with steps := p.steps.map (renamedStep ρ) }

def renamedReply : Reply → Reply
  | .handle r => .handle (r.map (renamedHandle ρ))
  | .record r => .record (r.map (renamedRecord ρ))
  | .records rs => .records (rs.map (renamedRecord ρ))
  | .ids l => .ids (l.map ρ)
  | .plan p => .plan (renamedPlan ρ p)
  | .snapshot s =>
      .snapshot
        { s with
          records := s.records.map (renamedRecord ρ)
          retired := s.retired.map (renamedRecord ρ)
          nextAllocId := (ρ ⟨s.nextAllocId⟩).value }
  | reply => reply

/-- The call under the new ids. -/
def renamedCall : Call → Call
  | .release id gen => .release (ρ id) gen
  | .releaseForWorker id gen workerBoot sourceBoot =>
      .releaseForWorker (ρ id) gen workerBoot sourceBoot
  | .pin id gen => .pin (ρ id) gen
  | .unpin id gen => .unpin (ρ id) gen
  | .get id gen => .get (ρ id) gen
  | .applyRelocation id gen o n => .applyRelocation (ρ id) gen o n
  | .regionSize id => .regionSize (ρ id)
  | c => c

end Renamed

/-! ## The relation -/

/-- What a call can see of the domain. -/
def seen (d : MemoryDomain) :
    UInt64 × WatermarkConfig × Provenance × GpuMemoryDomainGeneration × Bool :=
  (d.managedCapacity, d.watermarks, d.provenance, d.domainGeneration, held d.pressure)

/-- `b` does what `a` does, `δ` ids ahead, for holders of the handles in
`issued`. -/
structure Mirrors (δ : UInt64) (issued : List AllocationHandle) (a b : MemoryGovernor) : Prop where
  arena : b.arena = a.arena.rename (shift δ)
  records : b.records = a.records.rekey (shift δ) (renamedRecord (shift δ))
  next : (⟨b.nextAllocId⟩ : AllocationId) = shift δ ⟨a.nextAllocId⟩
  domain : seen b.domain = seen a.domain
  ready : b.initialized = a.initialized
  retired : ∀ h ∈ issued, a.records.find? h.id = none →
    b.retired.find? (shift δ h.id) = (a.retired.find? h.id).map (renamedRecord (shift δ))

section Domains

theorem seen_chargeDomain (d : MemoryDomain) (m : Movability) (n : UInt64) :
    seen (chargeDomain d m n) = seen d := by
  unfold chargeDomain
  dsimp only
  split
  · rfl
  · split <;> rfl

theorem seen_dischargeDomain (d : MemoryDomain) (r : AllocationRecord) :
    seen (dischargeDomain d r) = seen d := by
  unfold dischargeDomain
  dsimp only
  split
  · rfl
  · split <;> rfl

theorem seen_recordUnpin (g : MemoryGovernor) (id : AllocationId) (r : AllocationRecord)
    (region : RegionInfo) (arena : RegionAllocator) :
    seen (g.recordUnpin id r region arena).domain = seen g.domain := by
  simp only [recordUnpin]
  split <;> rfl

end Domains

section Mirroring

variable {δ : UInt64} {issued : List AllocationHandle} {a b : MemoryGovernor}

theorem Mirrors.find? (h : Mirrors δ issued a b) (id : AllocationId) :
    b.records.find? (shift δ id) = (a.records.find? id).map (renamedRecord (shift δ)) := by
  rw [h.records, OrdMap.find?_rekey]

/-- A change of the two arenas alone. -/
theorem Mirrors.with_arena (h : Mirrors δ issued a b) (arena : RegionAllocator) :
    Mirrors δ issued { a with arena := arena } { b with arena := arena.rename (shift δ) } :=
  ⟨rfl, h.records, h.next, h.domain, h.ready, h.retired⟩

/-- A live record rewritten on both sides. -/
theorem Mirrors.rewrite (h : Mirrors δ issued a b) {a' b' : MemoryGovernor} {id : AllocationId}
    {r : AllocationRecord} (harena : b'.arena = a'.arena.rename (shift δ))
    (ha : a'.records = a.records.insert id r)
    (hb : b'.records = b.records.insert (shift δ id) (renamedRecord (shift δ) r))
    (hnext : a'.nextAllocId = a.nextAllocId ∧ b'.nextAllocId = b.nextAllocId)
    (hdomain : seen a'.domain = seen a.domain ∧ seen b'.domain = seen b.domain)
    (hready : a'.initialized = a.initialized ∧ b'.initialized = b.initialized)
    (hretired : a'.retired = a.retired ∧ b'.retired = b.retired) : Mirrors δ issued a' b' where
  arena := harena
  records := by rw [ha, hb, h.records, OrdMap.rekey_insert]
  next := by rw [hnext.1, hnext.2, h.next]
  domain := by rw [hdomain.1, hdomain.2, h.domain]
  ready := by rw [hready.1, hready.2, h.ready]
  retired := by
    intro hd hmem hnone
    rw [hretired.1, hretired.2]
    refine h.retired hd hmem ?_
    rw [ha, OrdMap.find?_insert] at hnone
    split at hnone
    · cases hnone
    · exact hnone

theorem locate_mirrors (h : Mirrors δ issued a b) (id : AllocationId) (gen : AllocationGeneration)
    (stale : String) :
    b.locate (shift δ id) gen stale = (a.locate id gen stale).map (renamedRecord (shift δ)) := by
  unfold locate
  rw [h.find?]
  cases a.records.find? id with
  | none => rfl
  | some r =>
      simp only [Option.map_some, renamedRecord]
      split <;> rfl

/-- Handles a reply issues. -/
def handlesOf : Reply → List AllocationHandle
  | .handle (.ok h) => [h]
  | _ => []

/-- `b` answers the renamed call as `a` answers the call, and they stay
related. -/
def Answers (δ : UInt64) (issued : List AllocationHandle) (a b : MemoryGovernor) (c : Call) : Prop :=
  (b.perform (renamedCall (shift δ) c)).1 = renamedReply (shift δ) (a.perform c).1 ∧
    Mirrors δ (issued ++ handlesOf (a.perform c).1) (a.perform c).2
      (b.perform (renamedCall (shift δ) c)).2

theorem Mirrors.issue_none (h : Mirrors δ issued a b) : Mirrors δ (issued ++ []) a b := by
  rwa [List.append_nil]

/-- A handle of a live allocation is issued. -/
theorem Mirrors.issue (h : Mirrors δ issued a b) {hd : AllocationHandle} {rec : AllocationRecord}
    (hlive : a.records.find? hd.id = some rec) : Mirrors δ (issued ++ [hd]) a b where
  arena := h.arena
  records := h.records
  next := h.next
  domain := h.domain
  ready := h.ready
  retired := by
    intro hd' hmem hnone
    rcases List.mem_append.mp hmem with hold | hnew
    · exact h.retired hd' hold hnone
    · cases List.mem_singleton.mp hnew
      rw [hlive] at hnone
      cases hnone

theorem Mirrors.managed (h : Mirrors δ issued a b) :
    b.domain.managedCapacity = a.domain.managedCapacity := congrArg (·.1) h.domain

theorem Mirrors.next_succ (h : Mirrors δ issued a b) :
    (⟨b.nextAllocId + 1⟩ : AllocationId) = shift δ ⟨a.nextAllocId + 1⟩ := by
  have hnext : b.nextAllocId = a.nextAllocId + δ := congrArg TypedId.value h.next
  rw [hnext, UInt64.add_assoc, UInt64.add_comm δ, ← UInt64.add_assoc]
  rfl

theorem request_mirrors (h : Mirrors δ issued a b) (req : AllocationRequest) :
    Answers δ issued a b (.request req) := by
  have halloc : b.arena.allocate (arenaRequest req ⟨b.nextAllocId⟩) =
      RegionAllocator.renamedOutcome (shift δ)
        (a.arena.allocate (arenaRequest req ⟨a.nextAllocId⟩)) := by
    rw [h.arena, h.next]
    exact RegionAllocator.allocate_rename (shift δ) a.arena (arenaRequest req ⟨a.nextAllocId⟩)
  simp only [Answers, perform, renamedCall, request, h.managed, h.ready, nextId, halloc]
  split
  · exact ⟨rfl, h.issue_none⟩
  split
  · exact ⟨rfl, h.issue_none⟩
  split
  · exact ⟨rfl, h.issue_none⟩
  rcases a.arena.allocate (arenaRequest req ⟨a.nextAllocId⟩) with ⟨f | r, arena⟩
  · refine ⟨rfl, Mirrors.issue_none ?_⟩
    exact ⟨rfl, h.records, h.next_succ, h.domain, rfl, h.retired⟩
  · have hid : (⟨b.nextAllocId⟩ : AllocationId) = shift δ ⟨a.nextAllocId⟩ := h.next
    refine ⟨?_, Mirrors.issue ?_ (OrdMap.find?_insert_self _ _ _)⟩
    · simp only [RegionAllocator.renamedOutcome, Except.map, hid]
      rfl
    · refine ⟨rfl, ?_, h.next_succ, ?_, rfl, ?_⟩
      · simp only [grant, RegionAllocator.renamedOutcome, Except.map, hid, h.records,
          OrdMap.rekey_insert]
        rfl
      · simp only [grant, RegionAllocator.renamedOutcome, Except.map, seen_chargeDomain]
        exact h.domain
      · intro hd hmem hnone
        refine h.retired hd hmem ?_
        simp only [grant, OrdMap.find?_insert] at hnone
        split at hnone
        · cases hnone
        · exact hnone

theorem releaseForWorker_mirrors (h : Mirrors δ issued a b) {id : AllocationId}
    (hissued : ∃ hd ∈ issued, hd.id = id) (gen : AllocationGeneration) (w : WorkerBootId)
    (s : SourceBootId) :
    (b.releaseForWorker (shift δ id) gen w s).1
        = (a.releaseForWorker id gen w s).1.map (renamedRecord (shift δ)) ∧
      Mirrors δ issued (a.releaseForWorker id gen w s).2
        (b.releaseForWorker (shift δ id) gen w s).2 := by
  have hfree : b.arena.free (shift δ id) gen =
      RegionAllocator.renamedOutcome (shift δ) (a.arena.free id gen) := by
    rw [h.arena]
    exact RegionAllocator.free_rename (shift δ) a.arena id gen
  unfold releaseForWorker
  rw [h.find?]
  cases hf : a.records.find? id with
  | none =>
      obtain ⟨hd, hmem, rfl⟩ := hissued
      simp only [Option.map_none, h.retired hd hmem hf]
      cases a.retired.find? hd.id with
      | none => exact ⟨rfl, h⟩
      | some rel =>
          simp only [Option.map_some, renamedRecord]
          split
          · exact ⟨rfl, h⟩
          · exact ⟨rfl, h⟩
  | some r =>
      simp only [Option.map_some, renamedRecord, hfree]
      split
      · exact ⟨rfl, h⟩
      split
      · exact ⟨rfl, h⟩
      split
      · exact ⟨rfl, h⟩
      split
      · exact ⟨rfl, h⟩
      split
      · exact ⟨rfl, h⟩
      rcases a.arena.free id gen with ⟨f | region, arena⟩
      · exact ⟨rfl, h.with_arena arena⟩
      · refine ⟨rfl, rfl, ?_, h.next, ?_, h.ready, ?_⟩
        · simp only [retire, RegionAllocator.renamedOutcome, Except.map, h.records,
            OrdMap.rekey_erase]
        · simp only [retire, RegionAllocator.renamedOutcome, Except.map, seen_dischargeDomain]
          exact h.domain
        · intro hd hmem hnone
          simp only [retire, RegionAllocator.renamedOutcome, Except.map, OrdMap.find?_insert,
            OrdMap.find?_erase, (shift δ).injective.eq_iff] at hnone ⊢
          split
          · rfl
          · rename_i hne
            rw [if_neg hne] at hnone
            exact h.retired hd hmem hnone

theorem pin_mirrors (h : Mirrors δ issued a b) (id : AllocationId) (gen : AllocationGeneration) :
    Answers δ issued a b (.pin id gen) := by
  have hpin : b.arena.pin (shift δ id) gen =
      RegionAllocator.renamedOutcome (shift δ) (a.arena.pin id gen) := by
    rw [h.arena]
    exact RegionAllocator.pin_rename (shift δ) a.arena id gen
  simp only [Answers, perform, renamedCall, pin, locate_mirrors h, hpin]
  cases a.locate id gen "stale generation on pin" with
  | error f => exact ⟨rfl, h.issue_none⟩
  | ok r =>
      dsimp only [Except.map]
      rcases a.arena.pin id gen with ⟨f | region, arena⟩
      · exact ⟨rfl, (h.with_arena arena).issue_none⟩
      · refine ⟨rfl, Mirrors.issue_none ?_⟩
        exact h.rewrite (r := pinnedRecord r region.pinCount) rfl rfl rfl ⟨rfl, rfl⟩
          ⟨rfl, rfl⟩ ⟨rfl, rfl⟩ ⟨rfl, rfl⟩

theorem unpin_mirrors (h : Mirrors δ issued a b) (id : AllocationId) (gen : AllocationGeneration) :
    Answers δ issued a b (.unpin id gen) := by
  have hunpin : b.arena.unpin (shift δ id) gen =
      RegionAllocator.renamedOutcome (shift δ) (a.arena.unpin id gen) := by
    rw [h.arena]
    exact RegionAllocator.unpin_rename (shift δ) a.arena id gen
  simp only [Answers, perform, renamedCall, unpin, locate_mirrors h, hunpin]
  cases a.locate id gen "stale generation on unpin" with
  | error f => exact ⟨rfl, h.issue_none⟩
  | ok r =>
      dsimp only [Except.map]
      rcases a.arena.unpin id gen with ⟨f | region, arena⟩
      · exact ⟨rfl, (h.with_arena arena).issue_none⟩
      · refine ⟨rfl, Mirrors.issue_none ?_⟩
        exact h.rewrite (r := unpinnedRecord r region) rfl rfl rfl ⟨rfl, rfl⟩
          ⟨seen_recordUnpin _ _ _ _ _, seen_recordUnpin _ _ _ _ _⟩ ⟨rfl, rfl⟩ ⟨rfl, rfl⟩

theorem get_mirrors (h : Mirrors δ issued a b) (id : AllocationId) (gen : AllocationGeneration) :
    Answers δ issued a b (.get id gen) := by
  have hget : b.arena.get (shift δ id) gen =
      (a.arena.get id gen).map (RegionAllocator.renamedRegion (shift δ)) := by
    rw [h.arena]
    exact RegionAllocator.get_rename (shift δ) a.arena id gen
  simp only [Answers, perform, renamedCall, get, locate_mirrors h, hget]
  refine ⟨?_, h.issue_none⟩
  rcases a.locate id gen _ with f | r
  · rfl
  · rcases a.arena.get id gen with f | region <;> rfl

theorem applyRelocation_mirrors (h : Mirrors δ issued a b) (id : AllocationId)
    (gen : AllocationGeneration) (o n : UInt64) :
    Answers δ issued a b (.applyRelocation id gen o n) := by
  have hmove : ∀ al, b.arena.relocate (shift δ id) gen o n al =
      RegionAllocator.renamedOutcome (shift δ) (a.arena.relocate id gen o n al) := by
    intro al
    rw [h.arena]
    exact RegionAllocator.relocate_rename (shift δ) a.arena id gen o n al
  simp only [Answers, perform, renamedCall, applyRelocation, locate_mirrors h]
  cases a.locate id gen "stale generation on relocate" with
  | error f => exact ⟨rfl, h.issue_none⟩
  | ok r =>
      simp only [Except.map, renamedRecord, hmove]
      split
      · exact ⟨rfl, h.issue_none⟩
      rcases a.arena.relocate id gen o n r.alignment with ⟨f | region, arena⟩
      · exact ⟨rfl, (h.with_arena arena).issue_none⟩
      · refine ⟨rfl, Mirrors.issue ?_ (OrdMap.find?_insert_self _ _ _)⟩
        exact h.rewrite (r := relocatedRecord r region) rfl rfl rfl ⟨rfl, rfl⟩
          ⟨rfl, rfl⟩ ⟨rfl, rfl⟩ ⟨rfl, rfl⟩

/-! ## Queries -/

/-- What the two queries that read all records, and pressure, rest on: the
records are in the same order on both sides, each under its own id. -/
structure InOrder (δ : UInt64) (a : MemoryGovernor) : Prop where
  mono : StrictMonoOn (shift δ) {k | k ∈ a.records}
  ids : ∀ id r, a.records.find? id = some r → r.id = id

theorem Mirrors.allRecords (h : Mirrors δ issued a b) (ho : InOrder δ a) :
    b.records.entries.map (·.2) = (a.records.entries.map (·.2)).map (renamedRecord (shift δ)) := by
  rw [h.records, OrdMap.entries_rekey _ _ _ ho.mono, List.map_map, List.map_map]
  rfl

theorem reclaimableBytes_mirrors (h : Mirrors δ issued a b) (ho : InOrder δ a) :
    b.reclaimableBytes = a.reclaimableBytes := by
  unfold reclaimableBytes
  rw [h.records, OrdMap.entries_rekey _ _ _ ho.mono, List.foldl_map]
  rfl

theorem pressure_mirrors (h : Mirrors δ issued a b) (ho : InOrder δ a) :
    b.pressure.1 = a.pressure.1 ∧ Mirrors δ issued a.pressure.2 b.pressure.2 := by
  have harena : b.arena.ensureSummary = a.arena.ensureSummary.rename (shift δ) := by
    rw [h.arena, RegionAllocator.ensureSummary_rename]
  have hseen := h.domain
  simp only [seen, Prod.mk.injEq] at hseen
  obtain ⟨hmanaged, hmarks, hprov, hgen, hheld⟩ := hseen
  have hlevel : b.pressure.1 = a.pressure.1 := by
    simp only [pressure, harena, hmanaged, hmarks, reclaimableBytes_mirrors h ho,
      RegionAllocator.externalFragmentation_rename]
    exact evaluatePressure_held _ hheld
  refine ⟨hlevel, harena, h.records, h.next, ?_, h.ready, h.retired⟩
  have hnext : held b.pressure.2.domain.pressure = held a.pressure.2.domain.pressure :=
    congrArg held hlevel
  simp only [seen, Prod.mk.injEq]
  exact ⟨hmanaged, hmarks, hprov, hgen, hnext⟩

theorem summary_mirrors (h : Mirrors δ issued a b) (ho : InOrder δ a) :
    b.summary.1 = a.summary.1 ∧ Mirrors δ issued a.summary.2 b.summary.2 := by
  obtain ⟨hlevel, hstate⟩ := pressure_mirrors h ho
  refine ⟨?_, hstate⟩
  have hseen := h.domain
  simp only [seen, Prod.mk.injEq] at hseen
  obtain ⟨hmanaged, _, hprov, hgen, _⟩ := hseen
  simp only [summary, hlevel, hmanaged, hprov, hgen, reclaimableBytes_mirrors h ho, h.arena,
    RegionAllocator.movableBytes, RegionAllocator.pinnedBytes, RegionAllocator.bytesWith_rename,
    RegionAllocator.freeRegionCount_rename, RegionAllocator.largestFreeRegion_rename,
    RegionAllocator.externalFragmentation_rename]
  rfl

/-- A candidate under its new id. -/
def renamedCandidate (ρ : Equiv.Perm AllocationId) (c : Candidate) : Candidate :=
  { c with id := ρ c.id }

theorem candidate_renamed (ρ : Equiv.Perm AllocationId) (r : AllocationRecord) :
    candidate (renamedRecord ρ r) = (candidate r).map (renamedCandidate ρ) := by
  have hexcluded : excluded (renamedRecord ρ r) = excluded r := rfl
  unfold candidate
  rw [hexcluded]
  split
  · rfl
  · rw [apply_ite (Option.map (renamedCandidate ρ))]
    rfl

theorem reclaimCandidates_mirrors (h : Mirrors δ issued a b) (ho : InOrder δ a) (max : UInt64) :
    b.reclaimCandidates max = (a.reclaimCandidates max).map (shift δ) := by
  have hmapped : ((a.records.entries.map (·.2)).map (renamedRecord (shift δ))).filterMap candidate =
      ((a.records.entries.map (·.2)).filterMap candidate).map (renamedCandidate (shift δ)) := by
    rw [List.filterMap_map, List.map_filterMap]
    exact List.filterMap_congr (fun r _ => candidate_renamed _ r)
  have hkey : ∀ c ∈ (a.records.entries.map (·.2)).filterMap candidate, c.id ∈ a.records := by
    intro c hc
    obtain ⟨r, hr, hcand⟩ := List.mem_filterMap.mp hc
    obtain ⟨⟨k, r'⟩, he, rfl⟩ := List.mem_map.mp hr
    have hf : a.records.find? k = some r' := OrdMap.find?_eq_some_iff.mpr he
    have hid : c.id = r'.id := by
      unfold candidate at hcand
      split at hcand
      · cases hcand
      split at hcand
      · cases hcand
      · cases hcand
        rfl
    rw [hid, ho.ids k r' hf]
    exact OrdMap.mem_iff_find?.mpr ⟨r', hf⟩
  -- the last tie-break compares ids, in the same order on both sides
  have hbefore : ∀ c ∈ (a.records.entries.map (·.2)).filterMap candidate,
      ∀ d ∈ (a.records.entries.map (·.2)).filterMap candidate,
      (Candidate.before d c = false ↔
        Candidate.before (renamedCandidate (shift δ) d) (renamedCandidate (shift δ) c) = false) := by
    intro c hc d hd
    have hlt : (shift δ d.id).value < (shift δ c.id).value ↔ d.id.value < c.id.value :=
      ho.mono.lt_iff_lt (hkey d hd) (hkey c hc)
    have hsame : Candidate.before (renamedCandidate (shift δ) d) (renamedCandidate (shift δ) c)
        = Candidate.before d c := by
      simp only [Candidate.before, renamedCandidate]
      congr 2
      exact decide_eq_decide.mpr hlt
    rw [hsame]
  unfold reclaimCandidates
  dsimp only
  rw [h.allRecords ho, hmapped, ← List.map_insertionSort _ _ _ _ hbefore, List.map_map, ← List.map_take]
  simp only [List.map_take, List.map_map]
  rfl

/-- A plan under way under the new ids. -/
def renamedPlanning (ρ : Equiv.Perm AllocationId) (st : Planning) : Planning :=
  { st with plan := renamedPlan ρ st.plan }

theorem tryTarget_renamed (ρ : Equiv.Perm AllocationId) {m : RegionInfo} (hlive : m.live = true)
    (lft rgt : UInt64) (st : Planning) (f : RegionInfo) :
    tryTarget (RegionAllocator.renamedRegion ρ m) lft rgt (renamedPlanning ρ st) f
      = renamedPlanning ρ (tryTarget m lft rgt st f) := by
  rw [RegionAllocator.renamedRegion_of_live ρ hlive]
  simp only [tryTarget, apply_ite (renamedPlanning ρ)]
  rfl

theorem tryRegion_renamed (ρ : Equiv.Perm AllocationId) (free : List RegionInfo) (st : Planning)
    (m : RegionInfo) :
    tryRegion free (renamedPlanning ρ st) (RegionAllocator.renamedRegion ρ m)
      = renamedPlanning ρ (tryRegion free st m) := by
  have hmov : movableRegion (RegionAllocator.renamedRegion ρ m) = movableRegion m := rfl
  unfold tryRegion
  rw [hmov]
  split
  · rename_i hmovable
    have hlive : m.live = true := by
      simp only [movableRegion, Bool.and_eq_true] at hmovable
      exact hmovable.1.1.1
    exact List.foldl_hom (renamedPlanning ρ) (fun st f => tryTarget_renamed ρ hlive _ _ st f)
  · rfl

theorem foldl_tryRegion_renamed (ρ : Equiv.Perm AllocationId) (free live : List RegionInfo)
    (st : Planning) :
    live.foldl (fun st m => tryRegion free st (RegionAllocator.renamedRegion ρ m))
        (renamedPlanning ρ st)
      = renamedPlanning ρ (live.foldl (tryRegion free) st) :=
  List.foldl_hom (renamedPlanning ρ) (fun st m => tryRegion_renamed ρ free st m)

theorem planCompaction_mirrors (h : Mirrors δ issued a b) :
    b.planCompaction.1 = renamedPlan (shift δ) a.planCompaction.1 ∧
      Mirrors δ issued a.planCompaction.2 b.planCompaction.2 := by
  have harena : b.arena.ensureSummary = a.arena.ensureSummary.rename (shift δ) := by
    rw [h.arena, RegionAllocator.ensureSummary_rename]
  refine ⟨?_, ⟨harena, h.records, h.next, h.domain, h.ready, h.retired⟩⟩
  have hloop : ∀ n : UInt64,
      b.arena.snapshotLive.foldl (tryRegion b.arena.snapshotFree)
          { bestGain := minusOne, plan := { largestFreeBefore := n, largestFreeAfter := n } }
        = renamedPlanning (shift δ)
            (a.arena.snapshotLive.foldl (tryRegion a.arena.snapshotFree)
              { bestGain := minusOne, plan := { largestFreeBefore := n, largestFreeAfter := n } }) := by
    intro n
    rw [h.arena, RegionAllocator.snapshotLive_rename, RegionAllocator.snapshotFree_rename,
      List.foldl_map]
    exact foldl_tryRegion_renamed (shift δ) a.arena.snapshotFree a.arena.snapshotLive
      { bestGain := minusOne, plan := { largestFreeBefore := n, largestFreeAfter := n } }
  have hlargest : b.arena.ensureSummary.largestFree = a.arena.ensureSummary.largestFree := by
    rw [harena]
    rfl
  unfold planCompaction
  dsimp only
  rw [hlargest, hloop]
  generalize a.arena.snapshotLive.foldl (tryRegion a.arena.snapshotFree) _ = st
  have hempty : (renamedPlanning (shift δ) st).plan.steps.isEmpty = st.plan.steps.isEmpty :=
    List.isEmpty_map
  rw [hempty]
  rfl

/-! ## Every call -/

/-- The calls of a client that holds the handles in `issued`. -/
def Uses (issued : List AllocationHandle) : Call → Prop
  | .request _ | .pin _ _ | .unpin _ _ | .get _ _ | .applyRelocation _ _ _ _ => True
  | .summary | .pressure | .reclaimCandidates _ | .planCompaction => True
  | .release id _ | .releaseForWorker id _ _ _ => ∃ hd ∈ issued, hd.id = id
  | _ => False

/-- **One call** is answered the same on both sides, up to the shift. -/
theorem perform_mirrors (h : Mirrors δ issued a b) (ho : InOrder δ a) {c : Call}
    (hc : Uses issued c) : Answers δ issued a b c := by
  cases c with
  | request req => exact request_mirrors h req
  | release id gen =>
      obtain ⟨hreply, hstate⟩ := releaseForWorker_mirrors h hc gen {} {}
      exact ⟨congrArg Reply.record hreply, hstate.issue_none⟩
  | releaseForWorker id gen w s =>
      obtain ⟨hreply, hstate⟩ := releaseForWorker_mirrors h hc gen w s
      exact ⟨congrArg Reply.record hreply, hstate.issue_none⟩
  | pin id gen => exact pin_mirrors h id gen
  | unpin id gen => exact unpin_mirrors h id gen
  | get id gen => exact get_mirrors h id gen
  | applyRelocation id gen o n => exact applyRelocation_mirrors h id gen o n
  | summary =>
      obtain ⟨hreply, hstate⟩ := summary_mirrors h ho
      exact ⟨congrArg Reply.summary hreply, hstate.issue_none⟩
  | pressure =>
      obtain ⟨hreply, hstate⟩ := pressure_mirrors h ho
      exact ⟨congrArg Reply.pressure hreply, hstate.issue_none⟩
  | reclaimCandidates max =>
      exact ⟨congrArg Reply.ids (reclaimCandidates_mirrors h ho max), h.issue_none⟩
  | planCompaction =>
      obtain ⟨hreply, hstate⟩ := planCompaction_mirrors h
      exact ⟨congrArg Reply.plan hreply, hstate.issue_none⟩
  | _ => exact hc.elim

end Mirroring

/-! ## Sessions -/

/-- A call of a client that knows no ids: handles are named by the order in
which they were issued. -/
inductive Op where
  | request (req : AllocationRequest)
  | release (k : Nat)
  | releaseForWorker (k : Nat) (workerBoot : WorkerBootId) (sourceBoot : SourceBootId)
  | pin (k : Nat)
  | unpin (k : Nat)
  | get (k : Nat)
  | applyRelocation (k : Nat) (newOffset newSize : UInt64)
  | summary
  | pressure
  | reclaimCandidates (max : UInt64)
  | planCompaction

/-- The call with the handles that were issued; none before the handle is. -/
def Op.call (issued : List AllocationHandle) : Op → Option Call
  | .request req => some (.request req)
  | .release k => issued[k]?.map (fun h => .release h.id h.generation)
  | .releaseForWorker k w s => issued[k]?.map (fun h => .releaseForWorker h.id h.generation w s)
  | .pin k => issued[k]?.map (fun h => .pin h.id h.generation)
  | .unpin k => issued[k]?.map (fun h => .unpin h.id h.generation)
  | .get k => issued[k]?.map (fun h => .get h.id h.generation)
  | .applyRelocation k o n => issued[k]?.map (fun h => .applyRelocation h.id h.generation o n)
  | .summary => some .summary
  | .pressure => some .pressure
  | .reclaimCandidates max => some (.reclaimCandidates max)
  | .planCompaction => some .planCompaction

/-- A governor and the handles it has issued, oldest first. -/
structure Session where
  governor : MemoryGovernor
  issued : List AllocationHandle := []

def Session.step (x : Session) (op : Op) : Option Reply × Session :=
  match op.call x.issued with
  | none => (none, x)
  | some c =>
      let (reply, g) := x.governor.perform c
      (some reply, ⟨g, x.issued ++ handlesOf reply⟩)

/-- What a governor answers to a client. -/
def replies (g : MemoryGovernor) (ops : List Op) : List (Option Reply) :=
  (trace Session.step { governor := g } ops).map (·.2)

/-- The handles a client is issued. -/
def issuedBy (g : MemoryGovernor) (ops : List Op) : List AllocationHandle :=
  (run Session.step { governor := g } ops).issued

def Op.isRequest : Op → Bool
  | .request _ => true
  | _ => false

/-- The number of requests, granted or not. -/
def requestCount (ops : List Op) : Nat := ops.countP Op.isRequest

section Sessions

variable {δ : UInt64}

theorem Op.call_renamed (ρ : Equiv.Perm AllocationId) (issued : List AllocationHandle) (op : Op) :
    op.call (issued.map (renamedHandle ρ)) = (op.call issued).map (renamedCall ρ) := by
  cases op <;> simp only [Op.call, List.getElem?_map, Option.map_map, Option.map_some] <;> rfl

theorem Op.call_uses {issued : List AllocationHandle} {op : Op} {c : Call}
    (h : op.call issued = some c) : Uses issued c := by
  cases op with
  | release k =>
      obtain ⟨hd, hk, rfl⟩ := Option.map_eq_some_iff.mp h
      exact ⟨hd, List.mem_of_getElem? hk, rfl⟩
  | releaseForWorker k w s =>
      obtain ⟨hd, hk, rfl⟩ := Option.map_eq_some_iff.mp h
      exact ⟨hd, List.mem_of_getElem? hk, rfl⟩
  | request | summary | pressure | reclaimCandidates | planCompaction =>
      cases h
      trivial
  | _ =>
      obtain ⟨hd, _, rfl⟩ := Option.map_eq_some_iff.mp h
      trivial

theorem Op.call_request {issued : List AllocationHandle} {op : Op} {req : AllocationRequest}
    (h : op.call issued = some (.request req)) : op.isRequest = true := by
  cases op with
  | request => rfl
  | summary | pressure | reclaimCandidates | planCompaction => cases h
  | _ =>
      obtain ⟨hd, _, hc⟩ := Option.map_eq_some_iff.mp h
      cases hc

theorem requestCount_concat (ops : List Op) (op : Op) :
    requestCount (ops ++ [op]) = requestCount ops + if op.isRequest then 1 else 0 := by
  simp only [requestCount, List.countP_append, List.countP_singleton]

/-- A handle is issued for a live allocation. -/
theorem perform_issues {g : MemoryGovernor} (h : Inv g) {c : Call} {hd : AllocationHandle}
    (hmem : hd ∈ handlesOf (g.perform c).1) :
    ∃ rec, (g.perform c).2.records.find? hd.id = some rec := by
  have hreply : (g.perform c).1 = .handle (.ok hd) := by
    unfold handlesOf at hmem
    split at hmem
    · rename_i heq
      rw [heq, List.mem_singleton.mp hmem]
    · cases hmem
  have hs := perform_step h c
  rw [hreply] at hs
  generalize (g.perform c).2 = g' at hs
  cases hs with
  | quiet _ hm _ =>
      cases c with
      | request => cases hm
      | applyRelocation => cases hm
      | _ => cases hreply
  | granted => exact ⟨_, OrdMap.find?_insert_self _ _ _⟩
  | moved => exact ⟨_, OrdMap.find?_insert_self _ _ _⟩

/-- The ids a fresh governor has drawn after `k` requests. -/
def drawnIds (k : Nat) : Set AllocationId := {id | ∃ i < k, id.value = 1 + UInt64.ofNat i}

/-- The shift keeps the order of drawn ids until it wraps. -/
theorem strictMonoOn_shift {next : UInt64} {k : Nat} (hk : k + next.toNat < 2 ^ 64) :
    StrictMonoOn (shift (next - 1)) (drawnIds k) := by
  have hword : ∀ i < k, (1 + UInt64.ofNat i).toNat = 1 + i := by
    intro i hi
    rw [UInt64.toNat_add, UInt64.toNat_ofNat', UInt64.toNat_one]
    omega
  have hshift : ∀ i < k, (1 + UInt64.ofNat i + (next - 1)).toNat = next.toNat + i := by
    intro i hi
    have hsum : 1 + UInt64.ofNat i + (next - 1) = next + UInt64.ofNat i := by
      rw [UInt64.add_comm 1, UInt64.add_assoc, UInt64.add_comm 1, UInt64.sub_add_cancel,
        UInt64.add_comm]
    rw [hsum, UInt64.toNat_add, UInt64.toNat_ofNat']
    omega
  intro x hx y hy hlt
  obtain ⟨i, hi, hxi⟩ := hx
  obtain ⟨j, hj, hyj⟩ := hy
  have hij : x.value.toNat < y.value.toNat := hlt
  rw [hxi, hyj, hword i hi, hword j hj] at hij
  have hgoal : (x.value + (next - 1)).toNat < (y.value + (next - 1)).toNat := by
    rw [hxi, hyj, hshift i hi, hshift j hj]
    omega
  exact hgoal

/-- Two sessions after the same ops, `n` requests among them: `y` is with a
governor that draws its ids from `next`, `x` with one that draws from 1. -/
structure Alike (next : UInt64) (n : Nat) (x y : Session) : Prop where
  mirrors : Mirrors (next - 1) x.issued x.governor y.governor
  issued : y.issued = x.issued.map (renamedHandle (shift (next - 1)))
  inv : Inv x.governor
  drawn : ∃ k ≤ n, DrawnFrom 1 k x.governor ∧ ∀ h ∈ x.issued, h.id ∈ drawnIds k

theorem handlesOf_renamed (ρ : Equiv.Perm AllocationId) (reply : Reply) :
    handlesOf (renamedReply ρ reply) = (handlesOf reply).map (renamedHandle ρ) := by
  rcases reply with _ | (_ | _) | _ | _ | _ | _ | _ | _ | _ | _ | _ <;> rfl

theorem Alike.inOrder {next : UInt64} {n : Nat} {x y : Session} (h : Alike next n x y)
    (hn : n + next.toNat < 2 ^ 64) : InOrder (next - 1) x.governor := by
  obtain ⟨k, hk, hdrawn, _⟩ := h.drawn
  refine ⟨?_, fun id r hf => h.inv.record_id hf⟩
  have hmono : StrictMonoOn (shift (next - 1)) (drawnIds k) := strictMonoOn_shift (by omega)
  refine hmono.mono (fun id hid => ?_)
  obtain ⟨r, hf⟩ := OrdMap.mem_iff_find?.mp hid
  exact hdrawn.2 id r hf

/-- **One op** of two sessions. -/
theorem Alike.step {next : UInt64} {n : Nat} {x y : Session} (h : Alike next n x y)
    (hn : n + next.toNat < 2 ^ 64) (op : Op) :
    (y.step op).1 = (x.step op).1.map (renamedReply (shift (next - 1))) ∧
      Alike next (n + if op.isRequest then 1 else 0) (x.step op).2 (y.step op).2 := by
  have hcall : op.call y.issued = (op.call x.issued).map (renamedCall (shift (next - 1))) := by
    rw [h.issued, Op.call_renamed]
  obtain ⟨k, hk, hdrawn, hids⟩ := h.drawn
  unfold Session.step
  rw [hcall]
  cases hc : op.call x.issued with
  | none => exact ⟨rfl, h.mirrors, h.issued, h.inv, k, by omega, hdrawn, hids⟩
  | some c =>
      obtain ⟨hreply, hmirrors⟩ := perform_mirrors h.mirrors (h.inOrder hn) (Op.call_uses hc)
      have hs := perform_step h.inv c
      refine ⟨congrArg some hreply, hmirrors, ?_, hs.inv h.inv, ?_⟩
      · dsimp only [Option.map_some]
        rw [hreply, handlesOf_renamed, h.issued, List.map_append]
      · have hnorestore : ∀ s, c ≠ .restore s := by
          intro s hr
          have huses := Op.call_uses hc
          rw [hr] at huses
          exact huses
        have hnew : ∃ k' ≤ n + (if op.isRequest then 1 else 0), k ≤ k' ∧
            DrawnFrom 1 k' (x.governor.perform c).2 := by
          rcases hs.drawnFrom h.inv hnorestore hdrawn with hsame | ⟨⟨req, rfl⟩, hone⟩
          · exact ⟨k, by omega, le_rfl, hsame⟩
          · rw [if_pos (Op.call_request hc)]
            exact ⟨k + 1, Nat.add_le_add_right hk 1, Nat.le_succ k, hone⟩
        obtain ⟨k', hk', hle, hdrawn'⟩ := hnew
        refine ⟨k', hk', hdrawn', fun hd hmem => ?_⟩
        rcases List.mem_append.mp hmem with hold | hissued
        · obtain ⟨i, hi, hval⟩ := hids hd hold
          exact ⟨i, lt_of_lt_of_le hi hle, hval⟩
        · obtain ⟨rec, hf⟩ := perform_issues h.inv hissued
          exact hdrawn'.2 hd.id rec hf

/-- What an accepted `initialize` sets. -/
theorem initializeArena_accepted {g : MemoryGovernor} {answer : Except String UInt64}
    (hready : g.initialized = false) (h : Accepted (g.initializeArena answer).1) :
    ∃ base, (g.initializeArena answer).2 = g.withArena base := by
  rcases g.initializeArena_cases answer with ⟨htrue, _⟩ | ⟨⟨f, heq⟩, _⟩ | ⟨base, _, _, _, _, heq⟩
  · rw [hready] at htrue
    cases htrue
  · obtain ⟨_, hok⟩ := h
    rw [heq] at hok
    cases hok
  · exact ⟨base, by rw [heq]⟩

/-- A fresh and a recovered governor, before the first op. -/
theorem alike_start {d : MemoryDomain} {hasBackend : Bool} {g : MemoryGovernor}
    {s : PersistSnapshot} {answer answer' : Except String UInt64} (hpressure : d.pressure = .unknown)
    (hfresh : Accepted ((new d hasBackend).initializeArena answer).1)
    (hrecovered : Accepted ((g.restore s).2.initializeArena answer').1)
    (hmanaged : s.domain.managedCapacity = d.managedCapacity)
    (hmarks : s.domain.watermarks = d.watermarks) (hprov : s.domain.provenance = d.provenance)
    (hgen : s.domain.domainGeneration = d.domainGeneration) :
    Alike s.nextAllocId 0 { governor := ((new d hasBackend).initializeArena answer).2 }
      { governor := ((g.restore s).2.initializeArena answer').2 } := by
  have hinv : Inv ((new d hasBackend).initializeArena answer).2 :=
    (initializeArena_step _ answer).inv (inv_new d hasBackend)
  obtain ⟨base, ha⟩ := initializeArena_accepted rfl hfresh
  obtain ⟨base', hb⟩ := initializeArena_accepted rfl hrecovered
  rw [ha] at hinv ⊢
  rw [hb]
  refine ⟨⟨?_, rfl, ?_, ?_, rfl, ?_⟩, rfl, hinv, 0, le_rfl, ⟨rfl, ?_⟩, ?_⟩
  · simp only [withArena, restore, new, hmanaged, RegionAllocator.new_rename]
  · simp only [withArena, restore, new, shift, Equiv.coe_fn_mk, UInt64.add_comm 1, UInt64.sub_add_cancel]
  · -- REVALIDATION_REQUIRED holds the classification up no more than UNKNOWN
    simp only [seen, withArena, restore, new, hmanaged, hmarks, hprov, hgen, hpressure]
    rfl
  · intro h hmem
    cases hmem
  · intro id rec hf
    simp [withArena, new] at hf
  · intro h hmem
    cases hmem

/-- **A recovered governor behaves like a fresh one**: whatever the snapshot
holds, every client is answered as by a fresh governor of the same domain,
with ids shifted, and the shift keeps the order in which ids were issued. -/
theorem recovered_like_fresh (d : MemoryDomain) (hasBackend : Bool) (g : MemoryGovernor)
    (s : PersistSnapshot) (answer answer' : Except String UInt64) (ops : List Op)
    (hpressure : d.pressure = .unknown)
    (hfresh : Accepted ((new d hasBackend).initializeArena answer).1)
    (hrecovered : Accepted ((g.restore s).2.initializeArena answer').1)
    (hmanaged : s.domain.managedCapacity = d.managedCapacity)
    (hmarks : s.domain.watermarks = d.watermarks) (hprov : s.domain.provenance = d.provenance)
    (hgen : s.domain.domainGeneration = d.domainGeneration)
    (hfew : requestCount ops < 2 ^ 64 - s.nextAllocId.toNat) :
    replies ((g.restore s).2.initializeArena answer').2 ops =
        (replies ((new d hasBackend).initializeArena answer).2 ops).map
          (Option.map (renamedReply (shift (s.nextAllocId - 1)))) ∧
      StrictMonoOn (shift (s.nextAllocId - 1))
        {id | ∃ h ∈ issuedBy ((new d hasBackend).initializeArena answer).2 ops, h.id = id} := by
  have hstart := alike_start hpressure hfresh hrecovered hmanaged hmarks hprov hgen
  have hstep : ∀ pre op (x y : Session), pre ++ [op] <+: ops →
      Alike s.nextAllocId (requestCount pre) x y →
      (y.step op).1 = (x.step op).1.map (renamedReply (shift (s.nextAllocId - 1))) ∧
        Alike s.nextAllocId (requestCount (pre ++ [op])) (x.step op).2 (y.step op).2 := by
    intro pre op x y hpre halike
    have hcount : requestCount (pre ++ [op]) ≤ requestCount ops := hpre.sublist.countP_le
    rw [requestCount_concat] at hcount ⊢
    exact halike.step (by omega) op
  obtain ⟨hreplies, hend⟩ := replies_related
    (R := fun pre x y => Alike s.nextAllocId (requestCount pre) x y) hstart hstep
  refine ⟨hreplies, ?_⟩
  obtain ⟨k, hk, _, hids⟩ := hend.drawn
  have hmono : StrictMonoOn (shift (s.nextAllocId - 1)) (drawnIds k) :=
    strictMonoOn_shift (by omega)
  refine hmono.mono ?_
  rintro id ⟨h, hmem, rfl⟩
  exact hids h hmem

/-- A snapshot of a domain under pressure, with retired records under ids
that will be drawn again. -/
def crowdedSnapshot : PersistSnapshot :=
  { domain := { managedCapacity := 1024, pressure := .critical, currentCommitted := 1024 }
    records := [{ id := ⟨7⟩, regionSize := 512 }]
    retired := [{ id := ⟨8⟩, regionSize := 64, generation := ⟨1⟩ }]
    nextAllocId := 7 }

/-- Two requests, a move, a release with a stale handle and one with the
current one. -/
def sampleOps : List Op :=
  [.request { bytes := 100, alignment := 64 }, .request { bytes := 30 }, .pressure, .pin 1,
   .applyRelocation 0 512 128, .release 0, .release 2, .release 2, .reclaimCandidates 4,
   .planCompaction, .summary]

theorem recovered_like_fresh_crowded :
    (issuedBy ((new { managedCapacity := 1024 } true).initializeArena (.ok 4096)).2
        sampleOps).map (·.id.value) = [1, 2, 1] ∧
      replies (((new {} true).restore crowdedSnapshot).2.initializeArena (.ok 8192)).2 sampleOps =
        (replies ((new { managedCapacity := 1024 } true).initializeArena (.ok 4096)).2
          sampleOps).map (Option.map (renamedReply (shift 6))) :=
  ⟨by decide +kernel,
    (recovered_like_fresh { managedCapacity := 1024 } true (new {} true) crowdedSnapshot (.ok 4096)
      (.ok 8192) sampleOps rfl (by decide) (by decide) rfl rfl rfl rfl (by decide)).1⟩

end Sessions

end MemoryGovernor

end GpuMemoryService
