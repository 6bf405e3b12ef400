/-
GpuMemoryService.GovernorInvariant — what one call of the governor does,
and the invariant that ties its records to the arena.

`Step g c reply g'` lists everything a call can do: leave the governor as
it was up to caches and the id counter (`Quiet`), or one of six changes,
each with the checks that led to it and the arena effect it rests on.
`perform_step` shows that every call is one of these, in one place; every
result about runs of the governor is a case analysis of `Step`.

`Inv` says that each record has its live region and agrees with it field by
field, and each indexed region has its record. It needs no assumption on
allocation ids: a request that draws an id still in use overwrites the
record and the index together.
-/
import GpuMemoryService.Governor
import GpuMemoryService.RegionTheorems

namespace GpuMemoryService.MemoryGovernor

open Lib

/-! ## The invariant -/

/-- The record and the region of one allocation say the same. -/
structure Agrees (rec : AllocationRecord) (r : RegionInfo) : Prop where
  id : rec.id = r.allocId
  generation : rec.generation = r.allocGeneration
  offset : rec.offset = r.offset
  size : rec.regionSize = r.size
  alignment : rec.alignment = r.alignment
  regionId : rec.regionId = r.regionId
  regionGeneration : rec.regionGeneration = r.regionGeneration
  movability : rec.movability = r.movability
  memClass : rec.memClass = r.memClass
  reclaimability : rec.reclaimability = r.reclaimability
  residency : rec.residency = r.residency
  workerBoot : rec.workerBoot = r.workerBoot

structure Inv (g : MemoryGovernor) : Prop where
  capacity : g.arena.capacity = g.domain.managedCapacity
  arena : 0 < g.domain.managedCapacity.toNat → g.arena.Inv
  idle : g.domain.managedCapacity.toNat = 0 → g.initialized = false ∧ g.records = .empty
  linked : ∀ {id rec}, g.records.find? id = some rec →
    ∃ r, g.arena.lookup id = some r ∧ Agrees rec r
  covered : ∀ {id r}, g.arena.lookup id = some r → ∃ rec, g.records.find? id = some rec

/-! ## Steps -/

/-- The governor is as before, up to caches, health, pressure and the id
counter. -/
structure Quiet (g g' : MemoryGovernor) : Prop where
  records : g'.records = g.records
  retired : g'.retired = g.retired
  arena : g'.arena = g.arena ∨ g'.arena = g.arena.ensureSummary
  managed : g'.domain.managedCapacity = g.domain.managedCapacity
  committed : g'.domain.currentCommitted = g.domain.currentCommitted
  resident : g'.domain.currentResident = g.domain.currentResident
  ready : g'.initialized = g.initialized ∨ 0 < g.domain.managedCapacity.toNat

theorem Quiet.refl (g : MemoryGovernor) : Quiet g g :=
  ⟨rfl, rfl, Or.inl rfl, rfl, rfl, rfl, Or.inl rfl⟩

/-- The call was accepted and changes allocations. -/
def mutates : Call → Reply → Bool
  | .request _, .handle (.ok _) => true
  | .release _ _, .record (.ok _) => true
  | .releaseForWorker _ _ _ _, .record (.ok _) => true
  | .pin _ _, .done (.ok _) => true
  | .unpin _ _, .done (.ok _) => true
  | .applyRelocation _ _ _ _, .handle (.ok _) => true
  | .restore _, _ => true
  | _, _ => false

/-- The boots a release call carries. -/
def bootsOf : Call → WorkerBootId × SourceBootId
  | .releaseForWorker _ _ workerBoot sourceBoot => (workerBoot, sourceBoot)
  | _ => ({}, {})

/-- The call is a release of the handle. -/
def IsRelease (id : AllocationId) (gen : AllocationGeneration) (c : Call) : Prop :=
  c = .release id gen ∨ ∃ workerBoot sourceBoot, c = .releaseForWorker id gen workerBoot sourceBoot

/-- `rec` is the current record of the handle and `region` its region. -/
structure Current (g : MemoryGovernor) (id : AllocationId) (gen : AllocationGeneration)
    (rec : AllocationRecord) (region : RegionInfo) : Prop where
  found : g.records.find? id = some rec
  generation : rec.generation = gen
  lookup : g.arena.lookup id = some region
  agrees : Agrees rec region

/-- Everything a call can do. -/
inductive Step (g : MemoryGovernor) : Call → Reply → MemoryGovernor → Prop
  | quiet {c reply g'} (hq : Quiet g g') (hm : mutates c reply = false)
      (hid : g'.nextAllocId = g.nextAllocId ∨
        ((∃ req, c = .request req) ∧ g'.nextAllocId = g.nextAllocId + 1)) : Step g c reply g'
  | granted {req live arena} (hready : g.initialized = true)
      (hp : g.arena.Placed (arenaRequest req ⟨g.nextAllocId⟩) live arena) :
      Step g (.request req)
        (.handle (.ok ⟨⟨g.nextAllocId⟩, .first, live.offset, live.size, req.alignment⟩))
        (g.nextId.2.grant req ⟨g.nextAllocId⟩ live arena)
  | released {c id gen rec region arena} (hc : IsRelease id gen c)
      (hcur : g.Current id gen rec region)
      (hworker : (bootsOf c).1.isSet = true → (bootsOf c).1 = rec.workerBoot)
      (hsource : (bootsOf c).2.isSet = true → (bootsOf c).2 = rec.sourceBoot)
      (hpins : rec.pinCount = 0)
      (he : g.arena.Effect arena id (some region) none) :
      Step g c (.record (.ok (releasedRecord rec))) (g.retire id rec arena)
  | pinned {id gen rec region arena} (hcur : g.Current id gen rec region)
      (he : g.arena.Effect arena id (some region) (some (RegionAllocator.pinnedRegion region))) :
      Step g (.pin id gen) (.done (.ok ()))
        (g.recordPin id rec (RegionAllocator.pinnedRegion region) arena)
  | unpinned {id gen rec region arena} (hcur : g.Current id gen rec region)
      (hpins : region.pinCount ≠ 0)
      (he : g.arena.Effect arena id (some region) (some (RegionAllocator.unpinnedRegion region))) :
      Step g (.unpin id gen) (.done (.ok ()))
        (g.recordUnpin id rec (RegionAllocator.unpinnedRegion region) arena)
  | moved {id gen o n rec region arena} (hcur : g.Current id gen rec region)
      (hpins : rec.pinCount = 0) (hadm : g.arena.Admissible o n rec.alignment)
      (he : g.arena.Effect arena id (some region)
        (some (RegionAllocator.movedRegion region gen o n rec.alignment))) :
      Step g (.applyRelocation id gen o n) (.handle (.ok ⟨id, gen.next, o, n, rec.alignment⟩))
        (g.recordMove id rec (RegionAllocator.movedRegion region gen o n rec.alignment) arena)
  | restored (s : PersistSnapshot) : Step g (.restore s) (.done (.ok ())) (g.restore s).2

section PerformStep

variable {g : MemoryGovernor}

/-- A governor with a record has a nonempty, well-formed arena. -/
theorem Inv.current (h : Inv g) {id : AllocationId} {rec : AllocationRecord}
    (hf : g.records.find? id = some rec) :
    0 < g.domain.managedCapacity.toNat ∧ g.arena.Inv ∧
      ∃ region, g.Current id rec.generation rec region := by
  have hcap : 0 < g.domain.managedCapacity.toNat := by
    by_contra hc
    rw [(h.idle (by omega)).2] at hf
    simp at hf
  obtain ⟨region, hl, hag⟩ := h.linked hf
  exact ⟨hcap, h.arena hcap, region, hf, rfl, hl, hag⟩

/-- A live record is filed under its own id. -/
theorem Inv.record_id (h : Inv g) {id : AllocationId} {rec : AllocationRecord}
    (hf : g.records.find? id = some rec) : rec.id = id := by
  obtain ⟨_, harena, region, hcur⟩ := h.current hf
  rw [hcur.agrees.id, (harena.lookup_some hcur.lookup).2.2]

theorem Current.holds {id : AllocationId} {gen : AllocationGeneration} {rec : AllocationRecord}
    {region : RegionInfo} (h : g.Current id gen rec region) : g.arena.Holds id gen region :=
  ⟨h.lookup, by rw [← h.agrees.generation, h.generation]⟩

/-- Only a quiet reply can come from a call that is refused. -/
theorem Step.refused {c : Call} {reply : Reply} (hm : mutates c reply = false) :
    Step g c reply g :=
  .quiet (Quiet.refl g) hm (Or.inl rfl)

/-- The lookup of the handle operations. -/
theorem locate_cases (g : MemoryGovernor) (id : AllocationId) (gen : AllocationGeneration)
    (stale : String) :
    (∃ f, f.reason = .staleGeneration ∧
      (∀ rec, g.records.find? id = some rec → rec.generation ≠ gen) ∧
      g.locate id gen stale = .error f) ∨
    ∃ rec, g.records.find? id = some rec ∧ rec.generation = gen ∧
      g.locate id gen stale = .ok rec := by
  unfold locate
  cases hf : g.records.find? id with
  | none => exact Or.inl ⟨_, rfl, fun rec h => by simp at h, rfl⟩
  | some rec =>
      by_cases hgen : rec.generation = gen
      · exact Or.inr ⟨rec, rfl, hgen, by simp [hgen]⟩
      · refine Or.inl ⟨⟨.staleGeneration, stale⟩, rfl, fun rec' h => ?_, by simp [hgen]⟩
        cases h
        exact hgen

theorem validateRequest_ok {req : AllocationRequest} {cap : UInt64}
    (h : (validateRequest req cap).ok = true) :
    0 < req.bytes.toNat ∧ req.bytes.toNat ≤ cap.toNat := by
  unfold validateRequest at h
  split at h
  · simp [Failure.ok] at h
  · rename_i hz
    split at h
    · simp [Failure.ok] at h
    · rename_i hle
      exact ⟨toNat_pos_iff.mpr (by simpa using hz), by
        simpa [UInt64.lt_iff_toNat_lt] using hle⟩

theorem request_step (h : Inv g) (req : AllocationRequest) :
    Step g (.request req) (.handle (g.request req).1) (g.request req).2 := by
  unfold request
  by_cases hv : (validateRequest req g.domain.managedCapacity).ok = true
  swap
  · simp only [Bool.not_eq_true] at hv
    simp only [hv, Bool.not_false, if_true]
    exact .refused rfl
  simp only [hv, Bool.not_true, Bool.false_eq_true, if_false]
  by_cases hi : g.initialized = true
  swap
  · simp only [Bool.not_eq_true] at hi
    simp only [hi, Bool.not_false, if_true]
    exact .refused rfl
  simp only [hi, Bool.not_true, Bool.false_eq_true, if_false]
  split
  · exact .refused rfl
  have hcap : 0 < g.domain.managedCapacity.toNat := by
    have := validateRequest_ok hv
    omega
  rcases (RegionAllocator.allocate_cases (h.arena hcap)) (arenaRequest req ⟨g.nextAllocId⟩) with
    ⟨f, heq⟩ | ⟨live, arena, heq, hp⟩
  · simp only [nextId, heq]
    exact .quiet ⟨rfl, rfl, Or.inl rfl, rfl, rfl, rfl, Or.inl rfl⟩ rfl (Or.inr ⟨⟨req, rfl⟩, rfl⟩)
  · simp only [nextId, heq]
    exact .granted hi hp

/-- A release of the current handle goes through when its checks do. -/
theorem Current.releaseForWorker (h : Inv g) {id : AllocationId} {gen : AllocationGeneration}
    {rec : AllocationRecord} {region : RegionInfo} (hcur : g.Current id gen rec region)
    {w : WorkerBootId} {s : SourceBootId} (hworker : ¬ (w.isSet && w != rec.workerBoot) = true)
    (hsource : ¬ (s.isSet && s != rec.sourceBoot) = true) (hpins : ¬ rec.pinCount > 0)
    (hactive : ¬ (rec.residency == .active) = true) :
    ∃ arena, g.releaseForWorker id gen w s = (.ok (releasedRecord rec), g.retire id rec arena) ∧
      g.arena.Effect arena id (some region) none := by
  obtain ⟨_, harena, _⟩ := h.current hcur.found
  rcases RegionAllocator.free_cases harena id gen with ⟨f, _, hnot, _⟩ | ⟨r, f, arena, hr, heq, heff⟩
  · exact absurd hcur.holds (hnot region)
  · rw [hr.unique hcur.holds] at heff
    have hgen : ¬ (rec.generation != gen) = true := by simp [hcur.generation]
    refine ⟨arena, ?_, heff⟩
    simp only [MemoryGovernor.releaseForWorker, hcur.found, if_neg hgen, if_neg hworker,
      if_neg hsource, if_neg hpins, if_neg hactive, heq]

theorem Current.locate {id : AllocationId} {gen : AllocationGeneration} {rec : AllocationRecord}
    {region : RegionInfo} (hcur : g.Current id gen rec region) (stale : String) :
    g.locate id gen stale = .ok rec := by
  simp [MemoryGovernor.locate, hcur.found, hcur.generation]

theorem Current.pin (h : Inv g) {id : AllocationId} {gen : AllocationGeneration}
    {rec : AllocationRecord} {region : RegionInfo} (hcur : g.Current id gen rec region) :
    ∃ arena, g.pin id gen
        = (.ok (), g.recordPin id rec (RegionAllocator.pinnedRegion region) arena) ∧
      g.arena.Effect arena id (some region) (some (RegionAllocator.pinnedRegion region)) := by
  obtain ⟨_, harena, _⟩ := h.current hcur.found
  rcases RegionAllocator.pin_cases harena id gen with ⟨f, _, hnot, _⟩ | ⟨r, arena, hr, heq, heff⟩
  · exact absurd hcur.holds (hnot region)
  · rw [hr.unique hcur.holds] at heq heff
    exact ⟨arena, by simp only [MemoryGovernor.pin, hcur.locate, heq], heff⟩

/-- An unpin of the current handle goes by the count of the region. -/
theorem Current.unpin (h : Inv g) {id : AllocationId} {gen : AllocationGeneration}
    {rec : AllocationRecord} {region : RegionInfo} (hcur : g.Current id gen rec region) :
    (region.pinCount = 0 ∧ ∃ f, g.unpin id gen = (.error f, g)) ∨
    (region.pinCount ≠ 0 ∧ ∃ arena, g.unpin id gen
        = (.ok (), g.recordUnpin id rec (RegionAllocator.unpinnedRegion region) arena) ∧
      g.arena.Effect arena id (some region) (some (RegionAllocator.unpinnedRegion region))) := by
  obtain ⟨_, harena, _⟩ := h.current hcur.found
  rcases RegionAllocator.unpin_cases harena id gen with
    ⟨f, hzero, heq⟩ | ⟨r, arena, hr, hpins, heq, heff⟩
  · exact Or.inl ⟨hzero region hcur.holds, f, by simp only [MemoryGovernor.unpin, hcur.locate, heq]⟩
  · rw [hr.unique hcur.holds] at heq heff hpins
    exact Or.inr ⟨hpins, arena, by simp only [MemoryGovernor.unpin, hcur.locate, heq], heff⟩

/-- The checks a relocation of the current handle has to pass. -/
structure Relocatable (g : MemoryGovernor) (id : AllocationId) (gen : AllocationGeneration)
    (o n : UInt64) (rec : AllocationRecord) : Prop where
  found : g.records.find? id = some rec
  generation : rec.generation = gen
  pins : rec.pinCount = 0
  admissible : g.arena.Admissible o n rec.alignment

/-- Of a current handle only its own record can be relocated. -/
theorem Current.forall_relocatable {id : AllocationId} {gen : AllocationGeneration} {o n : UInt64}
    {rec : AllocationRecord} {region : RegionInfo} (hcur : g.Current id gen rec region)
    (hpins : rec.pinCount = 0) (hadm : g.arena.Admissible o n rec.alignment)
    {Q : AllocationRecord → Prop} : (∀ r, g.Relocatable id gen o n r → Q r) ↔ Q rec := by
  constructor
  · intro h
    exact h rec ⟨hcur.found, hcur.generation, hpins, hadm⟩
  · intro h r hr
    have hfound := hr.found
    rw [hcur.found] at hfound
    cases hfound
    exact h

/-- A relocation is accepted exactly when its checks pass. -/
theorem Current.applyRelocation (h : Inv g) {id : AllocationId} {gen : AllocationGeneration}
    {rec : AllocationRecord} {region : RegionInfo} (hcur : g.Current id gen rec region)
    (o n : UInt64) :
    (¬ g.Relocatable id gen o n rec ∧ ∃ f, g.applyRelocation id gen o n = (.error f, g)) ∨
    (g.Relocatable id gen o n rec ∧ ∃ arena, g.applyRelocation id gen o n
        = (.ok ⟨id, gen.next, o, n, rec.alignment⟩,
          g.recordMove id rec (RegionAllocator.movedRegion region gen o n rec.alignment) arena) ∧
      g.arena.Effect arena id (some region)
        (some (RegionAllocator.movedRegion region gen o n rec.alignment))) := by
  obtain ⟨_, harena, _⟩ := h.current hcur.found
  simp only [MemoryGovernor.applyRelocation, hcur.locate]
  by_cases hpins : rec.pinCount > 0
  · rw [if_pos hpins]
    refine Or.inl ⟨fun hr => ?_, _, rfl⟩
    rw [hr.pins] at hpins
    exact absurd hpins (by decide)
  rw [if_neg hpins]
  rcases RegionAllocator.relocate_cases harena id gen o n rec.alignment with
    ⟨f, hnot, hmove⟩ | ⟨old, arena, hold, hadm, hmove, heff⟩
  · refine Or.inl ⟨fun hr => hnot ⟨⟨region, hcur.holds⟩, hr.admissible⟩, f, ?_⟩
    simp only [hmove]
  · rw [hold.unique hcur.holds] at hmove heff
    refine Or.inr ⟨⟨hcur.found, hcur.generation, by simpa using hpins, hadm⟩, arena, ?_, heff⟩
    simp only [hmove]
    rfl

/-- A relocation that changes nothing has failed its checks. -/
theorem not_relocatable (h : Inv g) {id : AllocationId} {gen : AllocationGeneration}
    {o n : UInt64} (hm : mutates (.applyRelocation id gen o n)
      (g.perform (.applyRelocation id gen o n)).1 = false) (rec : AllocationRecord) :
    ¬ g.Relocatable id gen o n rec := by
  intro hr
  obtain ⟨_, _, region, hcur⟩ := h.current hr.found
  rw [hr.generation] at hcur
  rcases hcur.applyRelocation h o n with ⟨hno, _⟩ | ⟨_, arena, heq, _⟩
  · exact hno hr
  · simp [perform, heq, mutates] at hm

theorem releaseForWorker_step (h : Inv g) {c : Call} {id : AllocationId}
    {gen : AllocationGeneration} (hc : IsRelease id gen c) :
    Step g c (.record (g.releaseForWorker id gen (bootsOf c).1 (bootsOf c).2).1)
      (g.releaseForWorker id gen (bootsOf c).1 (bootsOf c).2).2 := by
  have hrefused : ∀ f, Step g c (.record (.error f)) g := fun f =>
    .refused (by rcases hc with rfl | ⟨_, _, rfl⟩ <;> rfl)
  cases hf : g.records.find? id with
  | none =>
      simp only [releaseForWorker, hf]
      split
      · split
        · exact hrefused _
        · exact hrefused _
      · exact hrefused _
  | some rec =>
      by_cases hgen : rec.generation = gen
      swap
      · have hne : (rec.generation != gen) = true := by simp [hgen]
        simp only [releaseForWorker, hf, if_pos hne]
        exact hrefused _
      obtain ⟨_, _, region, hcur⟩ := h.current hf
      rw [hgen] at hcur
      have heq : ¬ (rec.generation != gen) = true := by simp [hgen]
      by_cases hworker : ((bootsOf c).1.isSet && (bootsOf c).1 != rec.workerBoot) = true
      · simp only [releaseForWorker, hf, if_neg heq, if_pos hworker]
        exact hrefused _
      by_cases hsource : ((bootsOf c).2.isSet && (bootsOf c).2 != rec.sourceBoot) = true
      · simp only [releaseForWorker, hf, if_neg heq, if_neg hworker, if_pos hsource]
        exact hrefused _
      by_cases hpins : rec.pinCount > 0
      · simp only [releaseForWorker, hf, if_neg heq, if_neg hworker, if_neg hsource, if_pos hpins]
        exact hrefused _
      by_cases hactive : (rec.residency == .active) = true
      · simp only [releaseForWorker, hf, if_neg heq, if_neg hworker, if_neg hsource, if_neg hpins,
          if_pos hactive]
        exact hrefused _
      obtain ⟨arena, hfree, heff⟩ := hcur.releaseForWorker h hworker hsource hpins hactive
      rw [hfree]
      refine .released hc hcur (fun hset => ?_) (fun hset => ?_) (by simpa using hpins) heff
      · by_contra hne
        exact hworker (by simp [hset, hne])
      · by_contra hne
        exact hsource (by simp [hset, hne])

theorem pin_step (h : Inv g) (id : AllocationId) (gen : AllocationGeneration) :
    Step g (.pin id gen) (.done (g.pin id gen).1) (g.pin id gen).2 := by
  rcases locate_cases g id gen "stale generation on pin" with ⟨f, _, _, heq⟩ | ⟨rec, hf, rfl, _⟩
  · simp only [pin, heq]
    exact .refused rfl
  · obtain ⟨_, _, region, hcur⟩ := h.current hf
    obtain ⟨arena, heq, heff⟩ := hcur.pin h
    rw [heq]
    exact .pinned hcur heff

theorem unpin_step (h : Inv g) (id : AllocationId) (gen : AllocationGeneration) :
    Step g (.unpin id gen) (.done (g.unpin id gen).1) (g.unpin id gen).2 := by
  rcases locate_cases g id gen "stale generation on unpin" with ⟨f, _, _, heq⟩ | ⟨rec, hf, rfl, _⟩
  · simp only [unpin, heq]
    exact .refused rfl
  · obtain ⟨_, _, region, hcur⟩ := h.current hf
    rcases hcur.unpin h with ⟨_, f, heq⟩ | ⟨hpins, arena, heq, heff⟩
    · rw [heq]
      exact .refused rfl
    · rw [heq]
      exact .unpinned hcur hpins heff

theorem applyRelocation_step (h : Inv g) (id : AllocationId) (gen : AllocationGeneration)
    (o n : UInt64) :
    Step g (.applyRelocation id gen o n) (.handle (g.applyRelocation id gen o n).1)
      (g.applyRelocation id gen o n).2 := by
  rcases locate_cases g id gen "stale generation on relocate" with
    ⟨f, _, _, heq⟩ | ⟨rec, hf, rfl, _⟩
  · simp only [applyRelocation, heq]
    exact .refused rfl
  · obtain ⟨_, _, region, hcur⟩ := h.current hf
    rcases hcur.applyRelocation h o n with ⟨_, f, heq⟩ | ⟨hrel, arena, heq, heff⟩
    · rw [heq]
      exact .refused rfl
    · rw [heq]
      exact .moved hcur hrel.pins hrel.admissible heff

/-- The governor with the arena the backend gave. -/
def withArena (g : MemoryGovernor) (base : UInt64) : MemoryGovernor :=
  { g with
    arenaBase := base
    initialized := true
    domain := { g.domain with health := .healthy } }

/-- What `initialize` can do: nothing, with success once it is initialized
and with a failure else, or take the arena of the backend. -/
theorem initializeArena_cases (g : MemoryGovernor) (answer : Except String UInt64) :
    (g.initialized = true ∧ g.initializeArena answer = (.ok (), g)) ∨
    ((∃ f, g.initializeArena answer = (.error f, g)) ∧
      ∀ base, answer = .ok base → g.hasBackend = false ∨ g.domain.managedCapacity = 0) ∨
    (∃ base, answer = .ok base ∧ g.initialized = false ∧ g.hasBackend = true ∧
      g.domain.managedCapacity ≠ 0 ∧ g.initializeArena answer = (.ok (), g.withArena base)) := by
  unfold initializeArena
  split
  · rename_i hready
    exact Or.inl ⟨hready, rfl⟩
  split
  · rename_i hbackend
    exact Or.inr (Or.inl ⟨⟨_, rfl⟩, fun _ _ => Or.inl (by simpa using hbackend)⟩)
  split
  · rename_i hcap
    exact Or.inr (Or.inl ⟨⟨_, rfl⟩, fun _ _ => Or.inr (by simpa using hcap)⟩)
  rename_i hready hbackend hcap
  cases answer with
  | error err => exact Or.inr (Or.inl ⟨⟨_, rfl⟩, fun _ hok => (by cases hok)⟩)
  | ok base =>
      exact Or.inr (Or.inr ⟨base, rfl, by simpa using hready, by simpa using hbackend,
        by simpa using hcap, rfl⟩)

theorem initializeArena_step (g : MemoryGovernor) (answer : Except String UInt64) :
    Step g (.initializeArena answer) (.done (g.initializeArena answer).1)
      (g.initializeArena answer).2 := by
  rcases g.initializeArena_cases answer with ⟨_, heq⟩ | ⟨⟨f, heq⟩, _⟩ | ⟨base, _, _, _, hcap, heq⟩
  · rw [heq]
    exact .refused rfl
  · rw [heq]
    exact .refused rfl
  · rw [heq]
    have hpos : 0 < g.domain.managedCapacity.toNat := toNat_pos_iff.mpr hcap
    exact .quiet ⟨rfl, rfl, Or.inl rfl, rfl, rfl, rfl, Or.inr hpos⟩ rfl (Or.inl rfl)

/-- **Every call is a step.** -/
theorem perform_step (h : Inv g) (c : Call) : Step g c (g.perform c).1 (g.perform c).2 := by
  cases c with
  | initializeArena answer => exact initializeArena_step g answer
  | request req => exact request_step h req
  | release id gen => exact releaseForWorker_step h (c := .release id gen) (Or.inl rfl)
  | releaseForWorker id gen w s =>
      exact releaseForWorker_step h (c := .releaseForWorker id gen w s) (Or.inr ⟨w, s, rfl⟩)
  | pin id gen => exact pin_step h id gen
  | unpin id gen => exact unpin_step h id gen
  | get id gen => exact .refused rfl
  | summary => exact .quiet ⟨rfl, rfl, Or.inr rfl, rfl, rfl, rfl, Or.inl rfl⟩ rfl (Or.inl rfl)
  | pressure => exact .quiet ⟨rfl, rfl, Or.inr rfl, rfl, rfl, rfl, Or.inl rfl⟩ rfl (Or.inl rfl)
  | allocations => exact .refused rfl
  | reclaimCandidates max => exact .refused rfl
  | planCompaction => exact .quiet ⟨rfl, rfl, Or.inr rfl, rfl, rfl, rfl, Or.inl rfl⟩ rfl (Or.inl rfl)
  | applyRelocation id gen o n => exact applyRelocation_step h id gen o n
  | regionSize id => exact .refused rfl
  | explain => exact .quiet ⟨rfl, rfl, Or.inr rfl, rfl, rfl, rfl, Or.inl rfl⟩ rfl (Or.inl rfl)
  | snapshot => exact .refused rfl
  | restore s => exact .restored s

end PerformStep

/-! ## What a call without effect leaves alone -/

/-- The two domains differ at most in health and pressure. -/
def SameBooks (d d' : MemoryDomain) : Prop :=
  { d' with health := d.health, pressure := d.pressure } = d

section Books

variable {g : MemoryGovernor}

theorem request_books {req : AllocationRequest}
    (hm : mutates (.request req) (.handle (g.request req).1) = false) :
    SameBooks g.domain (g.request req).2.domain := by
  revert hm
  unfold request
  extract_lets vf regionSize
  split
  · intro _; rfl
  split
  · intro _; rfl
  split
  · intro _; rfl
  dsimp only [nextId]
  split
  · intro _; rfl
  · intro hm; simp [mutates] at hm

theorem releaseForWorker_books {c : Call} {id : AllocationId} {gen : AllocationGeneration}
    (hc : IsRelease id gen c) {w : WorkerBootId} {s : SourceBootId}
    (hm : mutates c (.record (g.releaseForWorker id gen w s).1) = false) :
    SameBooks g.domain (g.releaseForWorker id gen w s).2.domain := by
  revert hm
  unfold releaseForWorker
  split
  · split
    · split <;> intro _ <;> rfl
    · intro _; rfl
  split
  · intro _; rfl
  split
  · intro _; rfl
  split
  · intro _; rfl
  split
  · intro _; rfl
  split
  · intro _; rfl
  split
  · intro _; rfl
  · intro hm
    rcases hc with rfl | ⟨_, _, rfl⟩ <;> simp [mutates] at hm

theorem pin_books {id : AllocationId} {gen : AllocationGeneration}
    (hm : mutates (.pin id gen) (.done (g.pin id gen).1) = false) :
    SameBooks g.domain (g.pin id gen).2.domain := by
  revert hm
  unfold pin
  split
  · intro _; rfl
  split
  · intro _; rfl
  · intro hm; simp [mutates] at hm

theorem unpin_books {id : AllocationId} {gen : AllocationGeneration}
    (hm : mutates (.unpin id gen) (.done (g.unpin id gen).1) = false) :
    SameBooks g.domain (g.unpin id gen).2.domain := by
  revert hm
  unfold unpin
  split
  · intro _; rfl
  split
  · intro _; rfl
  · intro hm; simp [mutates] at hm

theorem applyRelocation_books {id : AllocationId} {gen : AllocationGeneration} {o n : UInt64}
    (hm : mutates (.applyRelocation id gen o n) (.handle (g.applyRelocation id gen o n).1)
      = false) :
    SameBooks g.domain (g.applyRelocation id gen o n).2.domain := by
  revert hm
  unfold applyRelocation
  split
  · intro _; rfl
  split
  · intro _; rfl
  split
  · intro _; rfl
  · intro hm; simp [mutates] at hm

theorem initializeArena_books (answer : Except String UInt64) :
    SameBooks g.domain (g.initializeArena answer).2.domain := by
  rcases g.initializeArena_cases answer with ⟨_, heq⟩ | ⟨⟨f, heq⟩, _⟩ | ⟨base, _, _, _, _, heq⟩ <;>
    rw [heq] <;> rfl

/-- A call that changes no allocation leaves the books of the domain. -/
theorem perform_books {c : Call} (hm : mutates c (g.perform c).1 = false) :
    SameBooks g.domain (g.perform c).2.domain := by
  cases c with
  | initializeArena answer => exact initializeArena_books answer
  | request req => exact request_books hm
  | release id gen => exact releaseForWorker_books (c := .release id gen) (Or.inl rfl) hm
  | releaseForWorker id gen w s =>
      exact releaseForWorker_books (c := .releaseForWorker id gen w s) (Or.inr ⟨w, s, rfl⟩) hm
  | pin id gen => exact pin_books hm
  | unpin id gen => exact unpin_books hm
  | applyRelocation id gen o n => exact applyRelocation_books hm
  | restore s => simp [mutates] at hm
  | _ => rfl

end Books

/-! ## Preservation -/

/-- A change at one id: its record and its region become `rec` and
`region`, together. -/
structure Update (g g' : MemoryGovernor) (id : AllocationId) (rec : Option AllocationRecord)
    (region : Option RegionInfo) : Prop where
  records : ∀ i, g'.records.find? i = if i = id then rec else g.records.find? i
  lookup : ∀ i, g'.arena.lookup i = if i = id then region else g.arena.lookup i
  arena : g'.arena.Inv
  capacity : g'.arena.capacity = g.arena.capacity
  managed : g'.domain.managedCapacity = g.domain.managedCapacity
  pos : 0 < g.domain.managedCapacity.toNat
  agrees : ∀ {a}, rec = some a → ∃ r, region = some r ∧ Agrees a r
  dropped : rec = none → region = none

section Preservation

variable {g g' : MemoryGovernor}

theorem Update.inv {id : AllocationId} {rec : Option AllocationRecord}
    {region : Option RegionInfo} (h : Inv g) (u : Update g g' id rec region) : Inv g' where
  capacity := by rw [u.capacity, u.managed, h.capacity]
  arena := fun _ => u.arena
  idle := by
    intro hzero
    have := u.pos
    rw [u.managed] at hzero
    omega
  linked := by
    intro i a hf
    rw [u.records] at hf
    rw [u.lookup]
    split at hf
    · rename_i hi
      rw [if_pos hi]
      exact u.agrees hf
    · rename_i hi
      rw [if_neg hi]
      exact h.linked hf
  covered := by
    intro i r hl
    rw [u.lookup] at hl
    rw [u.records]
    split at hl
    · rename_i hi
      rw [if_pos hi]
      cases hrec : rec with
      | none => rw [u.dropped hrec] at hl; cases hl
      | some a => exact ⟨a, rfl⟩
    · rename_i hi
      rw [if_neg hi]
      exact h.covered hl

/-- The handle that is current after the change. -/
theorem Update.current {id : AllocationId} {rec : AllocationRecord} {region : RegionInfo}
    (u : Update g g' id (some rec) (some region)) : g'.Current id rec.generation rec region where
  found := by rw [u.records, if_pos rfl]
  generation := rfl
  lookup := by rw [u.lookup, if_pos rfl]
  agrees := by
    obtain ⟨r, hr, hag⟩ := u.agrees rfl
    cases hr
    exact hag

/-- What every record satisfied, every record satisfies after the change
exactly if the new one does. -/
theorem Update.forall_records {id : AllocationId} {rec : Option AllocationRecord}
    {region : Option RegionInfo} (u : Update g g' id rec region) {P : AllocationRecord → Prop}
    (hP : ∀ i r, g.records.find? i = some r → P r) :
    (∀ i r, g'.records.find? i = some r → P r) ↔ ∀ r, rec = some r → P r := by
  constructor
  · intro h r hr
    exact h id r (by rw [u.records, if_pos rfl]; exact hr)
  · intro h i r hf
    rw [u.records] at hf
    split at hf
    · exact h r hf
    · exact hP i r hf

/-- The record of a grant agrees with the region it was made from. -/
theorem agrees_granted {ra ra' : RegionAllocator} {req : AllocationRequest} {id : AllocationId}
    {live : RegionInfo} (hp : ra.Placed (arenaRequest req id) live ra') :
    Agrees (grantedRecord req id live) live := by
  obtain ⟨ra₀, off, aligned, rfl⟩ := hp.made
  constructor <;> rfl

theorem agrees_pinned {rec : AllocationRecord} {r : RegionInfo} (h : Agrees rec r) :
    Agrees (pinnedRecord rec (RegionAllocator.pinnedRegion r).pinCount)
      (RegionAllocator.pinnedRegion r) := by
  obtain ⟨h1, h2, h3, h4, h5, h6, h7, _, h9, h10, h11, h12⟩ := h
  constructor <;> first | assumption | rfl

theorem agrees_unpinned {rec : AllocationRecord} {r : RegionInfo} (h : Agrees rec r) :
    Agrees (unpinnedRecord rec (RegionAllocator.unpinnedRegion r))
      (RegionAllocator.unpinnedRegion r) := by
  obtain ⟨h1, h2, h3, h4, h5, h6, h7, _, h9, h10, h11, h12⟩ := h
  constructor <;> first | assumption | rfl

theorem agrees_moved {rec : AllocationRecord} {r : RegionInfo} {gen : AllocationGeneration}
    {o n : UInt64} (h : Agrees rec r) :
    Agrees (relocatedRecord rec (RegionAllocator.movedRegion r gen o n rec.alignment))
      (RegionAllocator.movedRegion r gen o n rec.alignment) := by
  obtain ⟨h1, _, _, _, h5, h6, _, h8, h9, h10, h11, h12⟩ := h
  constructor <;> first | assumption | rfl

/-- An accepted request needs a nonempty arena. -/
theorem Inv.pos_of_ready (h : Inv g) (hready : g.initialized = true) :
    0 < g.domain.managedCapacity.toNat := by
  by_contra hc
  have := (h.idle (by omega)).1
  rw [hready] at this
  cases this

/-- What the counters of a grant leave, and what they add. -/
theorem chargeDomain_fields (d : MemoryDomain) (m : Movability) (n : UInt64) :
    (chargeDomain d m n).managedCapacity = d.managedCapacity ∧
      (chargeDomain d m n).currentCommitted = d.currentCommitted + n ∧
      (chargeDomain d m n).currentResident = d.currentResident + n := by
  unfold chargeDomain
  dsimp only
  split
  · exact ⟨rfl, rfl, rfl⟩
  · split <;> exact ⟨rfl, rfl, rfl⟩

/-- What the counters of a release leave, and what they take away. -/
theorem dischargeDomain_fields (d : MemoryDomain) (rel : AllocationRecord) :
    (dischargeDomain d rel).managedCapacity = d.managedCapacity ∧
      (dischargeDomain d rel).currentCommitted = sub d.currentCommitted rel.regionSize ∧
      (dischargeDomain d rel).currentResident = sub d.currentResident rel.regionSize := by
  unfold dischargeDomain
  dsimp only
  split
  · exact ⟨rfl, rfl, rfl⟩
  · split <;> exact ⟨rfl, rfl, rfl⟩

theorem granted_update (h : Inv g) {req : AllocationRequest} {live : RegionInfo}
    {arena : RegionAllocator} (hready : g.initialized = true)
    (hp : g.arena.Placed (arenaRequest req ⟨g.nextAllocId⟩) live arena) :
    Update g (g.nextId.2.grant req ⟨g.nextAllocId⟩ live arena) ⟨g.nextAllocId⟩
      (some (grantedRecord req ⟨g.nextAllocId⟩ live)) (some live) := by
  have hpos := h.pos_of_ready hready
  refine ⟨fun i => ?_, hp.effect.lookup_eq (h.arena hpos), hp.effect.inv (h.arena hpos),
    hp.effect.capacity, (chargeDomain_fields _ _ _).1, hpos, fun ha => ?_, fun hc => by cases hc⟩
  · by_cases hi : i = ⟨g.nextAllocId⟩ <;> simp [grant, nextId, OrdMap.find?_insert, hi]
  · cases ha
    exact ⟨live, rfl, agrees_granted hp⟩

theorem released_update (h : Inv g) {id : AllocationId} {gen : AllocationGeneration}
    {rec : AllocationRecord} {region : RegionInfo} {arena : RegionAllocator}
    (hcur : g.Current id gen rec region) (he : g.arena.Effect arena id (some region) none) :
    Update g (g.retire id rec arena) id none none := by
  obtain ⟨hpos, harena, _⟩ := h.current hcur.found
  refine ⟨fun i => ?_, he.lookup_eq harena, he.inv harena, he.capacity,
    (dischargeDomain_fields _ _).1, hpos, (fun ha => by cases ha), fun _ => rfl⟩
  by_cases hi : i = id <;> simp [retire, OrdMap.find?_erase, hi]

/-- The three changes that rewrite a live record in place. -/
theorem rewritten_update (h : Inv g) {id : AllocationId} {gen : AllocationGeneration}
    {rec rec' : AllocationRecord} {region region' : RegionInfo}
    (hcur : g.Current id gen rec region)
    (he : g.arena.Effect g'.arena id (some region) (some region'))
    (hrecords : g'.records = g.records.insert id rec')
    (hmanaged : g'.domain.managedCapacity = g.domain.managedCapacity)
    (hag : Agrees rec' region') : Update g g' id (some rec') (some region') := by
  obtain ⟨hpos, harena, _⟩ := h.current hcur.found
  refine ⟨fun i => ?_, he.lookup_eq harena, he.inv harena, he.capacity, hmanaged, hpos,
    fun ha => ?_, fun hc => by cases hc⟩
  · by_cases hi : i = id <;> simp [hrecords, OrdMap.find?_insert, hi]
  · cases ha
    exact ⟨region', rfl, hag⟩

theorem pinned_update (h : Inv g) {id : AllocationId} {gen : AllocationGeneration}
    {rec : AllocationRecord} {region : RegionInfo} {arena : RegionAllocator}
    (hcur : g.Current id gen rec region)
    (he : g.arena.Effect arena id (some region) (some (RegionAllocator.pinnedRegion region))) :
    Update g (g.recordPin id rec (RegionAllocator.pinnedRegion region) arena) id
      (some (pinnedRecord rec (RegionAllocator.pinnedRegion region).pinCount))
      (some (RegionAllocator.pinnedRegion region)) :=
  rewritten_update h hcur he rfl rfl (agrees_pinned hcur.agrees)

theorem unpinned_update (h : Inv g) {id : AllocationId} {gen : AllocationGeneration}
    {rec : AllocationRecord} {region : RegionInfo} {arena : RegionAllocator}
    (hcur : g.Current id gen rec region)
    (he : g.arena.Effect arena id (some region) (some (RegionAllocator.unpinnedRegion region))) :
    Update g (g.recordUnpin id rec (RegionAllocator.unpinnedRegion region) arena) id
      (some (unpinnedRecord rec (RegionAllocator.unpinnedRegion region)))
      (some (RegionAllocator.unpinnedRegion region)) := by
  refine rewritten_update h hcur he rfl ?_ (agrees_unpinned hcur.agrees)
  simp only [recordUnpin]
  split <;> rfl

theorem moved_update (h : Inv g) {id : AllocationId} {gen : AllocationGeneration} {o n : UInt64}
    {rec : AllocationRecord} {region : RegionInfo} {arena : RegionAllocator}
    (hcur : g.Current id gen rec region)
    (he : g.arena.Effect arena id (some region)
      (some (RegionAllocator.movedRegion region gen o n rec.alignment))) :
    Update g (g.recordMove id rec (RegionAllocator.movedRegion region gen o n rec.alignment) arena)
      id (some (relocatedRecord rec (RegionAllocator.movedRegion region gen o n rec.alignment)))
      (some (RegionAllocator.movedRegion region gen o n rec.alignment)) :=
  rewritten_update h hcur he rfl rfl (agrees_moved hcur.agrees)

/-- A governor that owns a fresh arena and no records. -/
theorem inv_of_fresh (harena : g.arena = .new g.domain.managedCapacity)
    (hready : g.initialized = false) (hrec : g.records = .empty) : Inv g where
  capacity := by rw [harena]; rfl
  arena := fun hpos => by rw [harena]; exact (RegionAllocator.sound_new hpos).inv
  idle := fun _ => ⟨hready, hrec⟩
  linked := fun hf => by rw [hrec] at hf; simp at hf
  covered := fun hl => by
    rw [harena] at hl
    simp [RegionAllocator.lookup, RegionAllocator.new] at hl

theorem Quiet.lookup (hq : Quiet g g') (id : AllocationId) :
    g'.arena.lookup id = g.arena.lookup id := by
  rcases hq.arena with ha | ha <;> simp [ha]

theorem Quiet.inv (h : Inv g) (hq : Quiet g g') : Inv g' where
  capacity := by
    rw [hq.managed, ← h.capacity]
    rcases hq.arena with ha | ha <;> simp [ha]
  arena := by
    intro hpos
    rw [hq.managed] at hpos
    rcases hq.arena with ha | ha
    · rw [ha]; exact h.arena hpos
    · rw [ha]; exact (h.arena hpos).ensureSummary
  idle := by
    intro hzero
    rw [hq.managed] at hzero
    obtain ⟨hready, hrec⟩ := h.idle hzero
    refine ⟨?_, hq.records.trans hrec⟩
    rcases hq.ready with hr | hr
    · rw [hr, hready]
    · omega
  linked := by
    intro id rec hf
    rw [hq.records] at hf
    rw [hq.lookup]
    exact h.linked hf
  covered := by
    intro id r hl
    rw [hq.lookup] at hl
    rw [hq.records]
    exact h.covered hl

/-- **One step** keeps the invariant. -/
theorem Step.inv (h : Inv g) {c : Call} {reply : Reply} (hs : Step g c reply g') : Inv g' := by
  cases hs with
  | quiet hq _ _ => exact hq.inv h
  | granted hready hp => exact (granted_update h hready hp).inv h
  | released _ hcur _ _ _ he => exact (released_update h hcur he).inv h
  | pinned hcur he => exact (pinned_update h hcur he).inv h
  | unpinned hcur _ he => exact (unpinned_update h hcur he).inv h
  | moved hcur _ _ he => exact (moved_update h hcur he).inv h
  | restored s => exact inv_of_fresh rfl rfl rfl

theorem inv_new (domain : MemoryDomain) (hasBackend : Bool) : Inv (new domain hasBackend) :=
  inv_of_fresh rfl rfl rfl

/-- **Every run** keeps the invariant. -/
theorem run_inv (h : Inv g) (calls : List Call) : Inv (run perform g calls) :=
  run_of_step h (fun _ c hg => (perform_step hg c).inv hg) calls

/-- **Reachability rule.** What a new governor satisfies and every call of a
well-formed one keeps holds in every reachable state. -/
theorem reachable_induction {P : MemoryGovernor → Prop} {domain : MemoryDomain} {hasBackend : Bool}
    (hnew : P (new domain hasBackend)) (hstep : ∀ g c, Inv g → P g → P (g.perform c).2)
    (calls : List Call) : P (run perform (new domain hasBackend) calls) :=
  (run_of_step (I := fun g => Inv g ∧ P g) ⟨inv_new domain hasBackend, hnew⟩
    (fun g c hg => ⟨(perform_step hg.1 c).inv hg.1, hstep g c hg.1 hg.2⟩) calls).2

end Preservation

end GpuMemoryService.MemoryGovernor
