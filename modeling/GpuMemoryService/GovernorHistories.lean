/-
GpuMemoryService.GovernorHistories — the governor answers from its books.

Two governors whose records, tombstones, live regions, counters and domain
are equal up to region ids may have come by them in very different ways:
other placements in between, other splits and merges of free space, other
queries. `futures_agree` says that no later call can tell: whatever is
called from then on, in whatever order, restores included, every answer is
the same up to region ids, and the books stay equal up to region ids. So
they are all the state the governor has, and the equality is a
bisimulation.

Region ids do tell: they count the regions made so far (`numbers_differ`).
-/
import GpuMemoryService.GovernorAgreement
import GpuMemoryService.GovernorQueries
import GpuMemoryService.RegionHistories

namespace GpuMemoryService.MemoryGovernor

open Lib RegionAllocator

/-! ## Up to region ids -/

/-- A record without the id of its region. -/
def unnumberedRecord (r : AllocationRecord) : AllocationRecord := { r with regionId := {} }

/-- An answer without region ids. -/
def unnumberedReply : Reply → Reply
  | .record r => .record (r.map unnumberedRecord)
  | .records rs => .records (rs.map unnumberedRecord)
  | .snapshot s =>
      .snapshot { s with
        records := s.records.map unnumberedRecord
        retired := s.retired.map unnumberedRecord }
  | reply => reply

/-- The governors cannot be told apart by their arenas, nor by their
records up to region ids. -/
structure Indistinct (g g' : MemoryGovernor) : Prop where
  domain : g.domain = g'.domain
  hasBackend : g.hasBackend = g'.hasBackend
  arena : g.arena.Alike g'.arena
  records : OrdMap.Agree unnumberedRecord g.records g'.records
  retired : OrdMap.Agree unnumberedRecord g.retired g'.retired
  arenaBase : g.arenaBase = g'.arenaBase
  initialized : g.initialized = g'.initialized
  nextAllocId : g.nextAllocId = g'.nextAllocId
  historyCount : g.historyCount = g'.historyCount

section Calls

variable {g g' : MemoryGovernor}

/-- With other arenas. -/
theorem Indistinct.with_arena (h : Indistinct g g') {a b : RegionAllocator} (hab : a.Alike b) :
    Indistinct { g with arena := a } { g' with arena := b } :=
  { h with arena := hab }

/-- With a record rewritten, and what a call does to arena and domain. -/
theorem Indistinct.rewrite (h : Indistinct g g') {a b : RegionAllocator} (hab : a.Alike b)
    (id : AllocationId) {r r' : AllocationRecord} (hr : unnumberedRecord r = unnumberedRecord r')
    (d : MemoryDomain) :
    Indistinct { g with arena := a, records := g.records.insert id r, domain := d }
      { g' with arena := b, records := g'.records.insert id r', domain := d } where
  domain := rfl
  hasBackend := h.hasBackend
  arena := hab
  records := h.records.insert id hr
  retired := h.retired
  arenaBase := h.arenaBase
  initialized := h.initialized
  nextAllocId := h.nextAllocId
  historyCount := h.historyCount

/-- A handle is refused alike, or finds records that agree. -/
theorem Indistinct.locate (h : Indistinct g g') (id : AllocationId) (gen : AllocationGeneration)
    (stale : String) :
    (∃ f, g.locate id gen stale = .error f ∧ g'.locate id gen stale = .error f) ∨
      ∃ r r', g.locate id gen stale = .ok r ∧ g'.locate id gen stale = .ok r' ∧
        unnumberedRecord r = unnumberedRecord r' := by
  unfold MemoryGovernor.locate
  rcases h.records.find? id with ⟨hr, hr'⟩ | ⟨r, r', hr, hr', hsame⟩
  · rw [hr, hr']
    exact Or.inl ⟨_, rfl, rfl⟩
  · have hgen : r.generation = r'.generation := congrArg (·.generation) hsame
    simp only [hr, hr', ← hgen]
    split
    · exact Or.inl ⟨_, rfl, rfl⟩
    · exact Or.inr ⟨r, r', rfl, rfl, hsame⟩

theorem Indistinct.initializeArena (h : Indistinct g g') (answer : Except String UInt64) :
    (g.initializeArena answer).1 = (g'.initializeArena answer).1 ∧
      Indistinct (g.initializeArena answer).2 (g'.initializeArena answer).2 := by
  unfold MemoryGovernor.initializeArena
  rw [h.initialized, h.hasBackend, h.domain]
  iterate 3
    split
    · exact ⟨rfl, h⟩
  cases answer with
  | error err => exact ⟨rfl, h⟩
  | ok base =>
      exact ⟨rfl, { h with domain := rfl, hasBackend := rfl, arenaBase := rfl, initialized := rfl }⟩

theorem Indistinct.nextId (h : Indistinct g g') :
    g.nextId.1 = g'.nextId.1 ∧ Indistinct g.nextId.2 g'.nextId.2 :=
  ⟨congrArg (fun n => (⟨n⟩ : AllocationId)) h.nextAllocId,
    { h with nextAllocId := congrArg (· + 1) h.nextAllocId }⟩

theorem Indistinct.request (h : Indistinct g g') (req : AllocationRequest) :
    (g.request req).1 = (g'.request req).1 ∧
      Indistinct (g.request req).2 (g'.request req).2 := by
  unfold MemoryGovernor.request
  rw [h.initialized, h.domain]
  extract_lets vf size
  iterate 3
    split
    · exact ⟨rfl, h⟩
  obtain ⟨hid, hnext⟩ := h.nextId
  generalize g.nextId = x at hid hnext ⊢
  generalize g'.nextId = y at hid hnext ⊢
  obtain ⟨id, n⟩ := x
  obtain ⟨id', n'⟩ := y
  obtain rfl : id = id' := hid
  rcases (hnext.arena.allocate (arenaRequest req id)).cases with
    ⟨f, a, b, ha, hb, hab⟩ | ⟨r, r', a, b, ha, hb, hsame, hab⟩
  · simp only [ha, hb]
    exact ⟨trivial, hnext.with_arena hab⟩
  · have hoff : r.offset = r'.offset := congrArg (·.offset) hsame
    have hsize : r.size = r'.size := congrArg (·.size) hsame
    have hgen : r.regionGeneration = r'.regionGeneration := congrArg (·.regionGeneration) hsame
    simp only [ha, hb, hoff, hsize]
    refine ⟨trivial, ?_⟩
    unfold grant
    rw [hnext.domain, hsize]
    refine hnext.rewrite hab _ ?_ _
    simp only [unnumberedRecord, grantedRecord, hoff, hsize, hgen]

theorem Indistinct.releaseForWorker (h : Indistinct g g') (id : AllocationId)
    (gen : AllocationGeneration) (w : WorkerBootId) (s : SourceBootId) :
    (g.releaseForWorker id gen w s).1.map unnumberedRecord
        = (g'.releaseForWorker id gen w s).1.map unnumberedRecord ∧
      Indistinct (g.releaseForWorker id gen w s).2 (g'.releaseForWorker id gen w s).2 := by
  unfold MemoryGovernor.releaseForWorker
  rcases h.records.find? id with ⟨hr, hr'⟩ | ⟨r, r', hr, hr', hsame⟩
  · rw [hr, hr']
    rcases h.retired.find? id with ⟨ht, ht'⟩ | ⟨r, r', ht, ht', hsame⟩
    · rw [ht, ht']
      exact ⟨rfl, h⟩
    · have hgen : r.generation = r'.generation := congrArg (·.generation) hsame
      simp only [ht, ht', hgen]
      split
      · exact ⟨rfl, h⟩
      · exact ⟨rfl, h⟩
  · have hgen : r.generation = r'.generation := congrArg (·.generation) hsame
    have hworker : r.workerBoot = r'.workerBoot := congrArg (·.workerBoot) hsame
    have hsource : r.sourceBoot = r'.sourceBoot := congrArg (·.sourceBoot) hsame
    have hpins : r.pinCount = r'.pinCount := congrArg (·.pinCount) hsame
    have hresidency : r.residency = r'.residency := congrArg (·.residency) hsame
    simp only [hr, hr', hgen, hworker, hsource, hpins, hresidency]
    iterate 5
      split
      · exact ⟨rfl, h⟩
    rcases (h.arena.free id gen).cases with
      ⟨f, a, b, ha, hb, hab⟩ | ⟨o, o', a, b, ha, hb, _, hab⟩
    · rw [ha, hb]
      exact ⟨rfl, h.with_arena hab⟩
    · rw [ha, hb]
      have hreleased : unnumberedRecord (releasedRecord r) = unnumberedRecord (releasedRecord r') :=
        congrArg releasedRecord hsame
      refine ⟨congrArg Except.ok hreleased, ?_⟩
      have hsize : (releasedRecord r).regionSize = (releasedRecord r').regionSize :=
        congrArg (·.regionSize) hreleased
      have hmove : (releasedRecord r).movability = (releasedRecord r').movability :=
        congrArg (·.movability) hreleased
      exact
        { domain := by simp only [retire, dischargeDomain, h.domain, hsize, hmove]
          hasBackend := h.hasBackend
          arena := hab
          records := h.records.erase id
          retired := h.retired.insert id hreleased
          arenaBase := h.arenaBase
          initialized := h.initialized
          nextAllocId := h.nextAllocId
          historyCount := congrArg (· + 1) h.historyCount }

theorem Indistinct.pin (h : Indistinct g g') (id : AllocationId) (gen : AllocationGeneration) :
    (g.pin id gen).1 = (g'.pin id gen).1 ∧ Indistinct (g.pin id gen).2 (g'.pin id gen).2 := by
  unfold MemoryGovernor.pin
  rcases h.locate id gen "stale generation on pin" with ⟨f, hr, hr'⟩ | ⟨r, r', hr, hr', hsame⟩
  · rw [hr, hr']
    exact ⟨rfl, h⟩
  rw [hr, hr']
  rcases (h.arena.pin id gen).cases with ⟨f, a, b, ha, hb, hab⟩ | ⟨o, o', a, b, ha, hb, ho, hab⟩
  · simp only [ha, hb]
    exact ⟨trivial, h.with_arena hab⟩
  · have hsize : r.regionSize = r'.regionSize := congrArg (·.regionSize) hsame
    have hcount : o.pinCount = o'.pinCount := congrArg (·.pinCount) ho
    have hrecord : unnumberedRecord (pinnedRecord r o'.pinCount)
        = unnumberedRecord (pinnedRecord r' o'.pinCount) :=
      congrArg (pinnedRecord · o'.pinCount) hsame
    simp only [ha, hb, recordPin, h.domain, hsize, hcount]
    exact ⟨trivial, h.rewrite hab id hrecord _⟩

theorem Indistinct.unpin (h : Indistinct g g') (id : AllocationId) (gen : AllocationGeneration) :
    (g.unpin id gen).1 = (g'.unpin id gen).1 ∧ Indistinct (g.unpin id gen).2 (g'.unpin id gen).2 := by
  unfold MemoryGovernor.unpin
  rcases h.locate id gen "stale generation on unpin" with ⟨f, hr, hr'⟩ | ⟨r, r', hr, hr', hsame⟩
  · rw [hr, hr']
    exact ⟨rfl, h⟩
  rw [hr, hr']
  rcases (h.arena.unpin id gen).cases with ⟨f, a, b, ha, hb, hab⟩ | ⟨o, o', a, b, ha, hb, ho, hab⟩
  · simp only [ha, hb]
    exact ⟨trivial, h.with_arena hab⟩
  · have hsize : r.regionSize = r'.regionSize := congrArg (·.regionSize) hsame
    have hcount : o.pinCount = o'.pinCount := congrArg (·.pinCount) ho
    have hmove : o.movability = o'.movability := congrArg (·.movability) ho
    have hrecord : unnumberedRecord (unpinnedRecord r o) = unnumberedRecord (unpinnedRecord r' o') := by
      have hsame' := congrArg (unpinnedRecord · o') hsame
      simp only [unpinnedRecord, hcount, hmove] at hsame' ⊢
      exact hsame'
    simp only [ha, hb, recordUnpin, h.domain, hsize, hcount]
    exact ⟨trivial, h.rewrite hab id hrecord _⟩

theorem Indistinct.applyRelocation (h : Indistinct g g') (id : AllocationId)
    (gen : AllocationGeneration) (o n : UInt64) :
    (g.applyRelocation id gen o n).1 = (g'.applyRelocation id gen o n).1 ∧
      Indistinct (g.applyRelocation id gen o n).2 (g'.applyRelocation id gen o n).2 := by
  unfold MemoryGovernor.applyRelocation
  rcases h.locate id gen "stale generation on relocate" with ⟨f, hr, hr'⟩ | ⟨r, r', hr, hr', hsame⟩
  · rw [hr, hr']
    exact ⟨rfl, h⟩
  have hpins : r.pinCount = r'.pinCount := congrArg (·.pinCount) hsame
  have halign : r.alignment = r'.alignment := congrArg (·.alignment) hsame
  simp only [hr, hr', hpins, halign]
  split
  · exact ⟨rfl, h⟩
  rcases (h.arena.relocate id gen o n r'.alignment).cases with
    ⟨f, a, b, ha, hb, hab⟩ | ⟨m, m', a, b, ha, hb, hm, hab⟩
  · simp only [ha, hb]
    exact ⟨trivial, h.with_arena hab⟩
  · have hgen : m.allocGeneration = m'.allocGeneration := congrArg (·.allocGeneration) hm
    have hoff : m.offset = m'.offset := congrArg (·.offset) hm
    have hsize : m.size = m'.size := congrArg (·.size) hm
    have hregion : m.regionGeneration = m'.regionGeneration := congrArg (·.regionGeneration) hm
    have hrecord : unnumberedRecord (relocatedRecord r m) = unnumberedRecord (relocatedRecord r' m') := by
      have hsame' := congrArg (relocatedRecord · m') hsame
      simp only [relocatedRecord, hgen, hoff, hsize, hregion] at hsame' ⊢
      exact hsame'
    simp only [ha, hb, recordMove, hgen, hoff, hsize]
    exact ⟨trivial, { h with arena := hab, records := h.records.insert id hrecord }⟩

theorem Indistinct.get (h : Indistinct g g') (id : AllocationId) (gen : AllocationGeneration) :
    (g.get id gen).map unnumberedRecord = (g'.get id gen).map unnumberedRecord := by
  unfold MemoryGovernor.get
  rcases h.locate id gen "stale allocation generation on query" with
    ⟨f, hr, hr'⟩ | ⟨r, r', hr, hr', hsame⟩
  · rw [hr, hr']
  rw [hr, hr']
  rcases h.arena.get id gen with ⟨f, ha, hb⟩ | ⟨o, o', ha, hb⟩
  · simp only [ha, hb]
  · simp only [ha, hb]
    exact congrArg Except.ok hsame

theorem Indistinct.regionSize (h : Indistinct g g') (id : AllocationId) :
    g.regionSize id = g'.regionSize id := by
  unfold MemoryGovernor.regionSize
  rcases h.records.find? id with ⟨hr, hr'⟩ | ⟨r, r', hr, hr', hsame⟩
  · rw [hr, hr']
    rcases h.retired.find? id with ⟨ht, ht'⟩ | ⟨r, r', ht, ht', hsame⟩
    · rw [ht, ht']
    · rw [ht, ht']
      exact congrArg (·.regionSize) hsame
  · rw [hr, hr']
    exact congrArg (·.regionSize) hsame

theorem Indistinct.restore (h : Indistinct g g') (s : PersistSnapshot) :
    Indistinct (g.restore s).2 (g'.restore s).2 where
  domain := rfl
  hasBackend := h.hasBackend
  arena := ⟨rfl, rfl, rfl, rfl, rfl, rfl⟩
  records := OrdMap.Agree.refl _ _
  retired := OrdMap.Agree.refl _ _
  arenaBase := h.arenaBase
  initialized := rfl
  nextAllocId := rfl
  historyCount := rfl

end Calls

/-! ## Queries -/

section Queries

variable {g g' : MemoryGovernor}

theorem Indistinct.reclaimableBytes (h : Indistinct g g') :
    g.reclaimableBytes = g'.reclaimableBytes := by
  refine h.records.foldl_eq (fun s k r r' hsame => ?_) 0
  have hexcluded : excluded r = excluded r' := by
    change excluded (unnumberedRecord r) = excluded (unnumberedRecord r')
    rw [hsame]
  have hsize : r.regionSize = r'.regionSize := congrArg (·.regionSize) hsame
  simp only [hexcluded, hsize]

theorem Indistinct.pressure (h : Indistinct g g') (hc : Cached g.arena) (hc' : Cached g'.arena) :
    g.pressure.1 = g'.pressure.1 ∧ Indistinct g.pressure.2 g'.pressure.2 := by
  have hsummary := h.arena.ensureSummary
  have hlargest : g.arena.ensureSummary.largestFree = g'.arena.ensureSummary.largestFree :=
    h.arena.largestFreeRegion hc hc'
  have hfragmentation := hsummary.externalFragmentation (cached_ensureSummary hc)
    (cached_ensureSummary hc')
  have hverdict : g.pressure.1 = g'.pressure.1 := by
    unfold MemoryGovernor.pressure
    simp only [h.domain, hsummary.liveBytes, hsummary.freeBytes, h.reclaimableBytes, hlargest,
      hfragmentation]
  refine ⟨hverdict, ?_⟩
  exact
    { h with
      domain := by
        show { g.domain with pressure := g.pressure.1 } = { g'.domain with pressure := g'.pressure.1 }
        rw [hverdict, h.domain]
      arena := hsummary }

theorem Indistinct.summary (h : Indistinct g g') (hc : Cached g.arena) (hc' : Cached g'.arena) :
    g.summary.1 = g'.summary.1 ∧ Indistinct g.summary.2 g'.summary.2 := by
  obtain ⟨hverdict, hafter⟩ := h.pressure hc hc'
  refine ⟨?_, hafter⟩
  unfold MemoryGovernor.summary movableBytes pinnedBytes
  simp only [h.domain, h.arena.freeBytes, h.arena.liveBytes, h.reclaimableBytes,
    h.arena.bytesWith, h.arena.largestFreeRegion hc hc', h.arena.freeRegionCount hc hc',
    h.arena.liveCount, h.arena.externalFragmentation hc hc', hverdict]

theorem Indistinct.explain (h : Indistinct g g') (hc : Cached g.arena) (hc' : Cached g'.arena) :
    g.explain.1 = g'.explain.1 ∧ Indistinct g.explain.2 g'.explain.2 := by
  obtain ⟨hsummary, hafter⟩ := h.summary hc hc'
  refine ⟨?_, hafter⟩
  unfold MemoryGovernor.explain
  simp only [h.domain, hsummary]

theorem Indistinct.reclaimCandidates (h : Indistinct g g') (max : UInt64) :
    g.reclaimCandidates max = g'.reclaimCandidates max := by
  have hcandidates : ∀ l : List AllocationRecord,
      l.filterMap candidate = (l.map unnumberedRecord).filterMap candidate := by
    intro l
    rw [List.filterMap_map]
    rfl
  unfold MemoryGovernor.reclaimCandidates
  simp only [hcandidates (g.records.entries.map (·.2)), h.records.values,
    ← hcandidates (g'.records.entries.map (·.2))]

/-- The planner sees live regions without their ids and free intervals. -/
theorem tryRegion_visible (free : List RegionInfo) (st : Planning) (m : RegionInfo) :
    tryRegion (free.map visible) st (visible m) = tryRegion free st m := by
  cases hlive : m.live with
  | false => simp [tryRegion, movableRegion, hlive]
  | true =>
      rw [visible_of_live hlive]
      have hmovable : movableRegion (unnumbered m) = movableRegion m := rfl
      have hsides : freeNeighbours (free.map visible) (unnumbered m) = freeNeighbours free m := by
        unfold freeNeighbours
        rw [List.foldl_map]
        simp only [visible_offset, visible_size]
        rfl
      have htarget : ∀ lft rgt st f, tryTarget (unnumbered m) lft rgt st (visible f)
          = tryTarget m lft rgt st f := by
        intro lft rgt st f
        unfold tryTarget
        simp only [visible_offset, visible_size]
        rfl
      unfold tryRegion
      simp only [hmovable, hsides, List.foldl_map, htarget]

theorem Indistinct.planCompaction (h : Indistinct g g') (hc : Cached g.arena)
    (hc' : Cached g'.arena) :
    g.planCompaction.1 = g'.planCompaction.1 ∧ Indistinct g.planCompaction.2 g'.planCompaction.2 := by
  have hlargest : g.arena.ensureSummary.largestFree = g'.arena.ensureSummary.largestFree :=
    h.arena.largestFreeRegion hc hc'
  have hloop : ∀ (live free : List RegionInfo) (st : Planning), live.foldl (tryRegion free) st
      = (live.map visible).foldl (tryRegion (free.map visible)) st := by
    intro live free st
    rw [List.foldl_map]
    simp only [tryRegion_visible]
  refine ⟨?_, h.with_arena h.arena.ensureSummary⟩
  unfold MemoryGovernor.planCompaction
  simp only [hlargest, hloop g.arena.snapshotLive, h.arena.snapshotLive, h.arena.snapshotFree,
    ← hloop g'.arena.snapshotLive]

theorem Indistinct.snapshot (h : Indistinct g g') :
    unnumberedReply (.snapshot g.snapshot) = unnumberedReply (.snapshot g'.snapshot) := by
  simp only [unnumberedReply, MemoryGovernor.snapshot, h.domain, h.records.values, h.retired.values,
    h.nextAllocId, h.historyCount]

end Queries

/-! ## Runs -/

section Runs

variable {g g' : MemoryGovernor}

/-- **One call**: the same answer up to region ids, and governors that
cannot be told apart. -/
theorem Indistinct.step_agree (h : Indistinct g g') (hc : Cached g.arena) (hc' : Cached g'.arena)
    (c : Call) :
    unnumberedReply (g.perform c).1 = unnumberedReply (g'.perform c).1 ∧
      Indistinct (g.perform c).2 (g'.perform c).2 := by
  cases c with
  | initializeArena answer =>
      obtain ⟨hreply, hafter⟩ := h.initializeArena answer
      exact ⟨congrArg (fun r => unnumberedReply (.done r)) hreply, hafter⟩
  | request req =>
      obtain ⟨hreply, hafter⟩ := h.request req
      exact ⟨congrArg (fun r => unnumberedReply (.handle r)) hreply, hafter⟩
  | release id gen =>
      obtain ⟨hreply, hafter⟩ := h.releaseForWorker id gen {} {}
      exact ⟨congrArg Reply.record hreply, hafter⟩
  | releaseForWorker id gen w s =>
      obtain ⟨hreply, hafter⟩ := h.releaseForWorker id gen w s
      exact ⟨congrArg Reply.record hreply, hafter⟩
  | pin id gen =>
      obtain ⟨hreply, hafter⟩ := h.pin id gen
      exact ⟨congrArg (fun r => unnumberedReply (.done r)) hreply, hafter⟩
  | unpin id gen =>
      obtain ⟨hreply, hafter⟩ := h.unpin id gen
      exact ⟨congrArg (fun r => unnumberedReply (.done r)) hreply, hafter⟩
  | get id gen => exact ⟨congrArg Reply.record (h.get id gen), h⟩
  | summary =>
      obtain ⟨hreply, hafter⟩ := h.summary hc hc'
      exact ⟨congrArg (fun s => unnumberedReply (.summary s)) hreply, hafter⟩
  | pressure =>
      obtain ⟨hreply, hafter⟩ := h.pressure hc hc'
      exact ⟨congrArg (fun p => unnumberedReply (.pressure p)) hreply, hafter⟩
  | allocations => exact ⟨congrArg Reply.records h.records.values, h⟩
  | reclaimCandidates max =>
      exact ⟨congrArg (fun l => unnumberedReply (.ids l)) (h.reclaimCandidates max), h⟩
  | planCompaction =>
      obtain ⟨hreply, hafter⟩ := h.planCompaction hc hc'
      exact ⟨congrArg (fun p => unnumberedReply (.plan p)) hreply, hafter⟩
  | applyRelocation id gen o n =>
      obtain ⟨hreply, hafter⟩ := h.applyRelocation id gen o n
      exact ⟨congrArg (fun r => unnumberedReply (.handle r)) hreply, hafter⟩
  | regionSize id => exact ⟨congrArg (fun n => unnumberedReply (.size n)) (h.regionSize id), h⟩
  | explain =>
      obtain ⟨hreply, hafter⟩ := h.explain hc hc'
      exact ⟨congrArg (fun e => unnumberedReply (.explanation e)) hreply, hafter⟩
  | snapshot => exact ⟨h.snapshot, h⟩
  | restore s => exact ⟨rfl, h.restore s⟩

/-- **Whole runs** from governors that cannot be told apart. -/
theorem Indistinct.run_agree (h : Indistinct g g') (hi : Inv g) (hi' : Inv g') (hc : Cached g.arena)
    (hc' : Cached g'.arena) (cs : List Call) :
    (trace perform g cs).map (fun e => unnumberedReply e.2)
        = (trace perform g' cs).map (fun e => unnumberedReply e.2) ∧
      Indistinct (run perform g cs) (run perform g' cs) := by
  induction cs generalizing g g' with
  | nil => exact ⟨rfl, h⟩
  | cons c cs ih =>
      obtain ⟨hreply, hafter⟩ := h.step_agree hc hc' c
      obtain ⟨hreplies, hend⟩ := ih hafter ((perform_step hi c).inv hi)
        ((perform_step hi' c).inv hi') ((perform_arenaStep hi c).isCached hc)
        ((perform_arenaStep hi' c).isCached hc')
      refine ⟨?_, hend⟩
      simp only [trace, List.map_cons, hreply, hreplies]

/-- Without managed memory the arena was never used. -/
def Unused (g : MemoryGovernor) : Prop :=
  g.domain.managedCapacity.toNat = 0 → g.arena.Alike (.new g.domain.managedCapacity)

theorem Step.unused (h : Inv g) (hu : Unused g) {c : Call} {reply : Reply}
    (hs : Step g c reply g') : Unused g' := by
  have hupdate : ∀ {id : AllocationId} {rec : Option AllocationRecord} {region : Option RegionInfo},
      Update g g' id rec region → Unused g' := by
    intro _ _ _ u hzero
    have hpos := u.pos
    rw [← u.managed] at hpos
    omega
  cases hs with
  | quiet hq _ _ =>
      intro hzero
      rw [hq.managed] at hzero ⊢
      rcases hq.arena with ha | ha
      · rw [ha]
        exact hu hzero
      · rw [ha]
        exact (alike_ensureSummary g.arena).symm.trans (hu hzero)
  | granted hready hp => exact hupdate (granted_update h hready hp)
  | released _ hcur _ _ _ he => exact hupdate (released_update h hcur he)
  | pinned hcur he => exact hupdate (pinned_update h hcur he)
  | unpinned hcur _ he => exact hupdate (unpinned_update h hcur he)
  | moved hcur _ _ he => exact hupdate (moved_update h hcur he)
  | restored s => exact fun _ => Alike.refl _

theorem run_unused (domain : MemoryDomain) (hasBackend : Bool) (calls : List Call) :
    Unused (run perform (new domain hasBackend) calls) := by
  refine reachable_induction (P := Unused) ?_ ?_ calls
  · exact fun _ => Alike.refl _
  · exact fun g c hinv hunused => (perform_step hinv c).unused hinv hunused

end Runs

/-! ## The books -/

/-- The books of the governors are equal up to region ids. -/
structure EqualBooks (g g' : MemoryGovernor) : Prop where
  domain : g.domain = g'.domain
  hasBackend : g.hasBackend = g'.hasBackend
  records : OrdMap.Agree unnumberedRecord g.records g'.records
  retired : OrdMap.Agree unnumberedRecord g.retired g'.retired
  live : g.arena.snapshotLive.map unnumbered = g'.arena.snapshotLive.map unnumbered
  arenaBase : g.arenaBase = g'.arenaBase
  initialized : g.initialized = g'.initialized
  nextAllocId : g.nextAllocId = g'.nextAllocId
  historyCount : g.historyCount = g'.historyCount

theorem Indistinct.books {g g' : MemoryGovernor} (h : Indistinct g g') : EqualBooks g g' :=
  { h with live := h.arena.live }

/-- Governors reached with new ids and equal books cannot be told apart. -/
theorem EqualBooks.indistinct {domain domain' : MemoryDomain} {hasBackend hasBackend' : Bool}
    {before before' : List Call}
    (hfresh : Guarded perform FreshGrant (new domain hasBackend) before)
    (hfresh' : Guarded perform FreshGrant (new domain' hasBackend') before')
    (h : EqualBooks (run perform (new domain hasBackend) before)
      (run perform (new domain' hasBackend') before')) :
    Indistinct (run perform (new domain hasBackend) before)
      (run perform (new domain' hasBackend') before') := by
  have hinv := run_inv (inv_new domain hasBackend) before
  have hinv' := run_inv (inv_new domain' hasBackend') before'
  refine { h with arena := ?_ }
  have hunused := run_unused domain hasBackend before
  have hunused' := run_unused domain' hasBackend' before'
  unfold Unused at hunused hunused'
  rcases Nat.eq_zero_or_pos
    (run perform (new domain hasBackend) before).domain.managedCapacity.toNat with hzero | hpos
  · rw [← h.domain] at hunused'
    exact (hunused hzero).trans (hunused' hzero).symm
  · have hpos' := hpos
    rw [h.domain] at hpos'
    refine alike_of_live (hinv.arena hpos) (hinv'.arena hpos') (run_indexed_of_grants hfresh)
      (run_indexed_of_grants hfresh') ?_ h.live
    rw [hinv.capacity, hinv'.capacity, h.domain]

/-- **History independence.** For every two governors reached in runs whose
granted ids are new, with books that are equal up to region ids: every
further sequence of calls is answered alike, region ids apart, and leaves
books that are again equal up to region ids. -/
theorem futures_agree (domain domain' : MemoryDomain) (hasBackend hasBackend' : Bool)
    (before before' : List Call)
    (hfresh : Guarded perform FreshGrant (new domain hasBackend) before)
    (hfresh' : Guarded perform FreshGrant (new domain' hasBackend') before')
    (hbooks : EqualBooks (run perform (new domain hasBackend) before)
      (run perform (new domain' hasBackend') before'))
    (calls : List Call) :
    let g := run perform (new domain hasBackend) before
    let g' := run perform (new domain' hasBackend') before'
    (trace perform g calls).map (fun e => unnumberedReply e.2)
        = (trace perform g' calls).map (fun e => unnumberedReply e.2) ∧
      EqualBooks (run perform g calls) (run perform g' calls) := by
  intro g g'
  have hsame : Indistinct g g' := EqualBooks.indistinct hfresh hfresh' hbooks
  obtain ⟨hreplies, hend⟩ := hsame.run_agree (run_inv (inv_new domain hasBackend) before)
    (run_inv (inv_new domain' hasBackend') before') (run_cached domain hasBackend before)
    (run_cached domain' hasBackend' before') calls
  exact ⟨hreplies, hend.books⟩

/-- Three allocations, the last one aligned to 128 bytes; the second is
released at the end. -/
def releasedLast : List Call :=
  [.initializeArena (.ok 4096),
   .request { bytes := 64 },
   .request { bytes := 64 },
   .request { bytes := 128, alignment := 128 },
   .release ⟨2⟩ ⟨1⟩]

/-- The second is released before the third is granted, which then leaves
its front pad free. -/
def releasedBefore : List Call :=
  [.initializeArena (.ok 4096),
   .request { bytes := 64 },
   .request { bytes := 64 },
   .release ⟨2⟩ ⟨1⟩,
   .planCompaction,
   .request { bytes := 128, alignment := 128 },
   .get ⟨1⟩ ⟨1⟩]

theorem releasedLast_books :
    EqualBooks (run perform (new { managedCapacity := 256 } true) releasedLast)
      (run perform (new { managedCapacity := 256 } true) releasedBefore) where
  domain := by decide +kernel
  hasBackend := by decide +kernel
  records := by
    unfold OrdMap.Agree
    decide +kernel
  retired := by
    unfold OrdMap.Agree
    decide +kernel
  live := by decide +kernel
  arenaBase := by decide +kernel
  initialized := by decide +kernel
  nextAllocId := by decide +kernel
  historyCount := by decide +kernel

/-- What is called afterwards. -/
def afterwards : List Call :=
  [.request { bytes := 48 }, .planCompaction, .pin ⟨3⟩ ⟨1⟩, .release ⟨1⟩ ⟨1⟩, .allocations, .snapshot]

theorem futures_agree_afterwards :
    (trace perform (run perform (new { managedCapacity := 256 } true) releasedLast) afterwards).map
        (fun e => unnumberedReply e.2)
      = (trace perform (run perform (new { managedCapacity := 256 } true) releasedBefore)
          afterwards).map (fun e => unnumberedReply e.2) := by
  refine (futures_agree { managedCapacity := 256 } { managedCapacity := 256 } true true releasedLast
    releasedBefore ?_ ?_ releasedLast_books afterwards).1
  · exact ⟨trivial, fun _ => rfl, fun _ => rfl, fun _ => rfl, trivial, trivial⟩
  · exact ⟨trivial, fun _ => rfl, fun _ => rfl, trivial, trivial, fun _ => rfl, trivial, trivial⟩

/-- **Region ids do tell** the two histories apart. -/
theorem numbers_differ :
    (run perform (new { managedCapacity := 256 } true) releasedLast).records
      ≠ (run perform (new { managedCapacity := 256 } true) releasedBefore).records := by
  decide +kernel

end GpuMemoryService.MemoryGovernor
