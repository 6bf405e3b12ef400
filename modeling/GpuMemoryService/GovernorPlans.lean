/-
GpuMemoryService.GovernorPlans — a planned move can be made.

The planner reads the arena alone: it takes id, generation, offset and size
from a live region and computes the target with its own scan. `apply_relocation`
starts from the record of the id and checks everything again with other code.
`planned_applies` is that the two agree: a step that has been planned is
accepted, and does what it says.

What carries the proof is that a live region is the one its id leads to.
An id counter that has come round to an id in use breaks that: the plan then
names a region that no record leads to, and the move is made with another
one (`reusedId_misplanned`).
-/
import GpuMemoryService.GovernorCompaction
import GpuMemoryService.GovernorPinPairs

namespace GpuMemoryService.MemoryGovernor

open Lib

/-! ## Moves -/

/-- The plan may move the live region `m` into the free region `f`. -/
structure Move (g : MemoryGovernor) (m f : RegionInfo) : Prop where
  live : m ∈ g.arena.snapshotLive
  free : f ∈ g.arena.snapshotFree
  movable : movableRegion m = true
  takes : Takes m f

/-- What a step promises about the state it was planned in. -/
structure Promises (g : MemoryGovernor) (st : CompactionStep) (rec : AllocationRecord)
    (region : RegionInfo) : Prop where
  current : g.Current st.id st.generation rec region
  movable : rec.movability = .movable ∧ region.movability = .movable
  unpinned : rec.pinCount = 0 ∧ region.pinCount = 0
  reclaimable : rec.reclaimability ≠ .neverReclaim
  oldOffset : st.oldOffset = rec.offset
  oldSize : st.oldSize = rec.regionSize
  newSize : st.newSize = rec.regionSize
  target : ∃ f ∈ g.arena.snapshotFree, f.offset.toNat ≤ st.newOffset.toNat ∧
    st.newOffset.toNat + st.newSize.toNat ≤ f.offset.toNat + f.size.toNat
  aligned : rec.alignment.toNat ∣ st.newOffset.toNat
  apart : st.newOffset.toNat + st.newSize.toNat ≤ st.oldOffset.toNat ∨
    st.oldOffset.toNat + st.oldSize.toNat ≤ st.newOffset.toNat

/-- What making the step does: `apply_relocation` accepts it, keeps the
size, takes the next generation, and leaves the other records alone. -/
structure Applies (g : MemoryGovernor) (st : CompactionStep) (rec : AllocationRecord) : Prop where
  accepted : (g.applyRelocation st.id st.generation st.newOffset st.newSize).1 =
    .ok ⟨st.id, st.generation.next, st.newOffset, st.oldSize, rec.alignment⟩
  moved : ∃ rec',
    (g.applyRelocation st.id st.generation st.newOffset st.newSize).2.records.find? st.id
        = some rec' ∧
      rec'.offset = st.newOffset ∧ rec'.regionSize = rec.regionSize ∧
      rec'.generation = st.generation.next
  advances : st.generation.value.toNat < 2 ^ 64 - 1 →
    st.generation.next.value.toNat = st.generation.value.toNat + 1
  others : ∀ id, id ≠ st.id →
    (g.applyRelocation st.id st.generation st.newOffset st.newSize).2.records.find? id
      = g.records.find? id

section Moves

variable {g : MemoryGovernor}

theorem movableRegion_iff {m : RegionInfo} :
    movableRegion m = true ↔ m.live = true ∧ m.movability = .movable ∧ m.pinCount = 0 ∧
      m.residency ≠ .active ∧ m.reclaimability ≠ .neverReclaim := by
  have hpins : m.pinCount ≤ 0 ↔ m.pinCount = 0 := UInt32.le_zero_iff
  simp [movableRegion, hpins, and_assoc]

/-- A live region is the one its id leads to, and has a record. -/
theorem current_of_live (h : Inv g) (hidx : g.arena.Indexed)
    (hpos : 0 < g.domain.managedCapacity.toNat) {m : RegionInfo} (hm : m ∈ g.arena.snapshotLive) :
    ∃ rec, g.Current m.allocId m.allocGeneration rec m := by
  have hlive := (h.arena hpos).mem_snapshotLive.mp hm
  have hlookup : g.arena.lookup m.allocId = some m :=
    RegionAllocator.lookup_eq_some_iff.mpr ⟨m.offset, hidx hlive, hlive⟩
  obtain ⟨rec, hf⟩ := h.covered hlookup
  obtain ⟨r, hr, hag⟩ := h.linked hf
  rw [hlookup] at hr
  cases hr
  exact ⟨rec, hf, hag.generation, hlookup, hag⟩

/-- The planner's alignment arithmetic gives an aligned offset. -/
theorem alignment_dvd_alignUp {a : UInt64} (hpow : isPow2 a = true) (o : UInt64) :
    a.toNat ∣ (Detail.alignUp o a).toNat := by
  rw [detail_alignUp_eq hpow, RegionAllocator.toNat_alignUp o hpow]
  split
  · exact Nat.dvd_zero _
  · exact roundUp_dvd _ _

/-- A free region and a live one have no byte in common. -/
theorem free_apart_live (hinv : g.arena.Inv) {f r : RegionInfo} {k : UInt64}
    (hf : f ∈ g.arena.snapshotFree) (hl : g.arena.LiveAt k r) :
    f.offset.toNat + f.size.toNat ≤ k.toNat ∨ k.toNat + r.size.toNat ≤ f.offset.toNat := by
  obtain ⟨hfound, hfree⟩ := hinv.mem_snapshotFree.mp hf
  rcases Nat.lt_trichotomy f.offset.toNat k.toNat with hlt | heq | hgt
  · exact Or.inl (hinv.layout.part.apart hfound hl.1 hlt)
  · rw [RegionAllocator.LiveAt, ← UInt64.toNat_inj.mp heq, hfound] at hl
    obtain ⟨hr, hlive⟩ := hl
    cases hr
    rw [hfree] at hlive
    cases hlive
  · exact Or.inr (hinv.layout.part.apart hl.1 hfound hgt)

/-- **A move the planner may choose is accepted**: its target passes every
check of the allocator. -/
theorem Move.admissible (hinv : g.arena.Inv) (hw : AlignsInside g) {m f : RegionInfo}
    (hmove : g.Move m f) :
    g.arena.Admissible (Detail.alignUp f.offset m.alignment) m.size m.alignment := by
  have hlive := hinv.mem_snapshotLive.mp hmove.live
  have hpow := (hinv.aligned hlive).1
  obtain ⟨hlo, hhi⟩ := hmove.takes.inside (hw m hmove.live f hmove.free)
  have hend := hinv.end_le (hinv.mem_snapshotFree.mp hmove.free).1
  refine
    { pow2 := hpow
      size_pos := hinv.size_pos hlive
      dvd := alignment_dvd_alignUp hpow f.offset
      inside := by omega
      clear := fun k r hl => ?_ }
  have := free_apart_live hinv hmove.free hl
  omega

theorem planned_move {st : CompactionStep} (hst : st ∈ g.planCompaction.1.steps) :
    ∃ m f, g.Move m f ∧ st = stepInto m f := by
  obtain ⟨m, hm, f, hf, hmov, htakes, rfl⟩ := planCompaction_steps hst
  exact ⟨m, f, ⟨hm, hf, hmov, htakes⟩, rfl⟩

/-- **The promises of a move hold.** -/
theorem Move.promises (h : Inv g) (hidx : g.arena.Indexed)
    (hidle : ∀ id rec, g.records.find? id = some rec → MovableIdle rec)
    (hpos : 0 < g.domain.managedCapacity.toNat) (hw : AlignsInside g) {m f : RegionInfo}
    (hmove : g.Move m f) : ∃ rec, Promises g (stepInto m f) rec m := by
  have hinv := h.arena hpos
  have hlive := hinv.mem_snapshotLive.mp hmove.live
  obtain ⟨_, hmov, hpins, _, hkeep⟩ := movableRegion_iff.mp hmove.movable
  obtain ⟨rec, hcur⟩ := current_of_live h hidx hpos hmove.live
  have hadm := hmove.admissible hinv hw
  obtain ⟨hlo, hhi⟩ := hmove.takes.inside (hw m hmove.live f hmove.free)
  have hrec : rec.movability = .movable := by rw [hcur.agrees.movability, hmov]
  exact ⟨rec,
    { current := hcur
      movable := ⟨hrec, hmov⟩
      unpinned := ⟨(hidle _ rec hcur.found hrec).1, hpins⟩
      reclaimable := by rw [hcur.agrees.reclaimability]; exact hkeep
      oldOffset := hcur.agrees.offset.symm
      oldSize := hcur.agrees.size.symm
      newSize := hcur.agrees.size.symm
      target := ⟨f, hmove.free, hlo, hhi⟩
      aligned := by rw [hcur.agrees.alignment]; exact hadm.dvd
      apart := (hadm.clear _ m hlive).symm }⟩

/-- **A move that is promised is made**: the region is exchanged for itself
at the target, with the next generation. -/
theorem Move.made (h : Inv g) (hpos : 0 < g.domain.managedCapacity.toNat)
    (hw : AlignsInside g) {m f : RegionInfo} (hmove : g.Move m f) {rec : AllocationRecord}
    (hp : Promises g (stepInto m f) rec m) :
    ∃ arena, g.applyRelocation m.allocId m.allocGeneration (Detail.alignUp f.offset m.alignment)
        m.size = (.ok ⟨m.allocId, m.allocGeneration.next, Detail.alignUp f.offset m.alignment,
          m.size, rec.alignment⟩,
        g.recordMove m.allocId rec (RegionAllocator.movedRegion m m.allocGeneration
          (Detail.alignUp f.offset m.alignment) m.size rec.alignment) arena) ∧
      g.arena.Effect arena m.allocId (some m) (some (RegionAllocator.movedRegion m
        m.allocGeneration (Detail.alignUp f.offset m.alignment) m.size rec.alignment)) := by
  have hadm : g.arena.Admissible (Detail.alignUp f.offset m.alignment) m.size rec.alignment := by
    rw [hp.current.agrees.alignment]
    exact hmove.admissible (h.arena hpos) hw
  rcases hp.current.applyRelocation h (Detail.alignUp f.offset m.alignment) m.size with
    ⟨hnot, _⟩ | ⟨_, hmade⟩
  · exact absurd ⟨hp.current.found, hp.current.generation, hp.unpinned.1, hadm⟩ hnot
  · exact hmade

theorem Move.applies (h : Inv g) (hpos : 0 < g.domain.managedCapacity.toNat)
    (hw : AlignsInside g) {m f : RegionInfo} (hmove : g.Move m f) {rec : AllocationRecord}
    (hp : Promises g (stepInto m f) rec m) : Applies g (stepInto m f) rec := by
  obtain ⟨arena, hmade, heff⟩ := hmove.made h hpos hw hp
  have hupdate := moved_update h hp.current heff
  have heq : g.applyRelocation (stepInto m f).id (stepInto m f).generation
      (stepInto m f).newOffset (stepInto m f).newSize = _ := hmade
  exact
    { accepted := by rw [heq]; rfl
      moved := by
        rw [heq]
        exact ⟨_, hupdate.current.found, rfl, hp.newSize, rfl⟩
      advances := fun hlt => TypedGeneration.toNat_next (by omega)
      others := fun id hne => by
        rw [heq]
        exact (hupdate.records id).trans (if_neg hne) }

end Moves

/-! ## Plans -/

section Plans

variable {g : MemoryGovernor}

/-- Planning fills the cache and nothing else. -/
theorem planCompaction_snd : g.planCompaction.2 = { g with arena := g.arena.ensureSummary } := rfl

theorem Move.planned {m f : RegionInfo} (hmove : g.Move m f) : g.planCompaction.2.Move m f where
  live := by simpa [planCompaction_snd, RegionAllocator.snapshotLive] using hmove.live
  free := by simpa [planCompaction_snd, RegionAllocator.snapshotFree] using hmove.free
  movable := hmove.movable
  takes := hmove.takes

theorem AlignsInside.planned (hw : AlignsInside g) : AlignsInside g.planCompaction.2 := by
  simpa [AlignsInside, planCompaction_snd, RegionAllocator.snapshotLive,
    RegionAllocator.snapshotFree] using hw

theorem Promises.planned {st : CompactionStep} {rec : AllocationRecord} {region : RegionInfo}
    (hp : Promises g st rec region) : Promises g.planCompaction.2 st rec region :=
  { hp with
    current := ⟨hp.current.found, hp.current.generation,
      by simpa [planCompaction_snd] using hp.current.lookup, hp.current.agrees⟩
    target := by
      simpa [planCompaction_snd, RegionAllocator.snapshotFree] using hp.target }

/-- **Planned moves can be made.** In every run in which no accepted
request draws an id in use, a planned step holds its promises in the state
it was planned in, and making it there succeeds. -/
theorem planned_applies (domain : MemoryDomain) (hasBackend : Bool) (calls : List Call)
    (hfresh : Guarded perform FreshGrant (new domain hasBackend) calls)
    (hcap : (run perform (new domain hasBackend) calls).domain.managedCapacity.toNat ≤ 2 ^ 63) :
    let g := run perform (new domain hasBackend) calls
    ∀ st ∈ g.planCompaction.1.steps,
      ∃ rec region, Promises g st rec region ∧ Applies g.planCompaction.2 st rec := by
  intro g st hst
  have hidx : g.arena.Indexed := run_indexed_of_grants hfresh
  obtain ⟨hinv, hbare⟩ := run_bare domain hasBackend calls
  obtain ⟨m, f, hmove, rfl⟩ := planned_move hst
  have hpos : 0 < g.domain.managedCapacity.toNat := hbare.pos hmove.live
  have hw : AlignsInside g := alignsInside_of_capacity hinv hcap hpos
  obtain ⟨rec, hp⟩ := hmove.promises hinv hidx
    (fun id rec hf => run_movableIdle domain hasBackend calls hf) hpos hw
  have hinv' : Inv g.planCompaction.2 := (perform_step hinv .planCompaction).inv hinv
  exact ⟨rec, m, hp, hmove.planned.applies hinv' hpos hw.planned hp.planned⟩

/-- A movable allocation in front of one that may not be moved. -/
def movableFirst : List Call :=
  [.initializeArena (.ok 4096),
   .request { bytes := 100 },
   .request { bytes := 100, movability := .nonmovable }]

/-- The step that moves it behind the other. -/
def movedBehind : CompactionStep := ⟨⟨1⟩, ⟨1⟩, 0, 100, 200, 100, .movable⟩

theorem planned_applies_movableFirst :
    let g := run perform (new { managedCapacity := 1024 } true) movableFirst
    movedBehind ∈ g.planCompaction.1.steps ∧
      ∃ rec region, Promises g movedBehind rec region ∧ Applies g.planCompaction.2 movedBehind rec := by
  have hmem : movedBehind ∈ (run perform (new { managedCapacity := 1024 } true)
      movableFirst).planCompaction.1.steps := by decide +kernel
  have hfresh : Guarded perform FreshGrant (new { managedCapacity := 1024 } true) movableFirst :=
    ⟨trivial, fun _ => rfl, fun _ => rfl, trivial⟩
  exact ⟨hmem, planned_applies { managedCapacity := 1024 } true movableFirst hfresh
    (by decide +kernel) movedBehind hmem⟩

end Plans

/-! ## An id counter that comes round -/

section ReusedIds

variable {g : MemoryGovernor}

/-- Whether the arena refuses a request does not depend on the id. -/
theorem allocate_refused_any {ra : RegionAllocator} {req : AllocRequest} {f : Failure}
    (h : ra.allocate req = (.error f, ra)) (id : AllocationId) :
    ra.allocate { req with allocId := id } = (.error f, ra) := by
  unfold RegionAllocator.allocate at h ⊢
  dsimp only at h ⊢
  split at h
  · rename_i hc
    rw [if_pos hc]
    exact h
  rename_i hbytes
  rw [if_neg hbytes]
  split at h
  · rename_i hc
    rw [if_pos hc]
    exact h
  rename_i halign
  rw [if_neg halign]
  split at h
  · rename_i hc
    rw [if_pos hc]
    exact h
  rename_i htotal
  rw [if_neg htotal]
  split at h
  · rename_i hc
    rw [if_pos hc]
    exact h
  rename_i hover
  rw [if_neg hover]
  split at h
  · rename_i hc
    rw [if_pos hc]
    exact h
  rename_i hfull
  rw [if_neg hfull]
  split at h
  · cases h
  · exact h

/-- A request the arena refuses uses up an id and changes nothing else. -/
theorem request_refused_draws {req : AllocationRequest} {f : Failure}
    (hready : g.initialized = true) (hvalid : (validateRequest req g.domain.managedCapacity).ok = true)
    (hsize : (Detail.alignUp req.bytes req.alignment == 0 ||
      Detail.alignUp req.bytes req.alignment < req.bytes) = false)
    (hrefused : g.arena.allocate (arenaRequest req {}) = (.error f, g.arena)) :
    (g.perform (.request req)).2 = { g with nextAllocId := g.nextAllocId + 1 } := by
  have hany : g.arena.allocate (arenaRequest req ⟨g.nextAllocId⟩) = (.error f, g.arena) :=
    allocate_refused_any hrefused ⟨g.nextAllocId⟩
  simp [perform, request, hready, hvalid, hsize, nextId, hany]

/-- `n` requests the arena refuses use up `n` ids. -/
theorem refused_run {req : AllocationRequest} {f : Failure}
    (hready : g.initialized = true) (hvalid : (validateRequest req g.domain.managedCapacity).ok = true)
    (hsize : (Detail.alignUp req.bytes req.alignment == 0 ||
      Detail.alignUp req.bytes req.alignment < req.bytes) = false)
    (hrefused : g.arena.allocate (arenaRequest req {}) = (.error f, g.arena)) (n : Nat) :
    run perform g (List.replicate n (.request req)) =
      { g with nextAllocId := g.nextAllocId + UInt64.ofNat n } := by
  induction n generalizing g with
  | zero => simp
  | succ n ih =>
      have hnext : g.nextAllocId + 1 + UInt64.ofNat n = g.nextAllocId + UInt64.ofNat (n + 1) := by
        rw [UInt64.ofNat_add, UInt64.add_assoc, UInt64.add_comm 1]
        rfl
      rw [List.replicate_succ, run, request_refused_draws hready hvalid hsize hrefused, ← hnext]
      exact ih (g := { g with nextAllocId := g.nextAllocId + 1 }) hready hvalid hrefused

/-- A request for all 1024 bytes, which the arena refuses while any of them
is in use. -/
def wholeArena : Call := .request { bytes := 1024 }

/-- Two allocations. -/
def twoHeld : List Call :=
  [.initializeArena (.ok 4096),
   .request { bytes := 256 },
   .request { bytes := 256, movability := .nonmovable }]

/-- Two allocations, as many refused requests as bring the counter round to
the first id, and a request that draws it. -/
def reusedRun : List Call :=
  twoHeld ++ List.replicate (2 ^ 64 - 2) wholeArena ++ [.request { bytes := 128 }]

theorem run_reusedRun :
    run perform (new { managedCapacity := 1024 } true) reusedRun =
      (perform { run perform (new { managedCapacity := 1024 } true) twoHeld with nextAllocId := 1 }
        (.request { bytes := 128 })).2 := by
  rw [reusedRun, run_concat, run_append, wholeArena,
    refused_run (f := ⟨.insufficientTotalCapacity, "total managed free bytes insufficient"⟩)
      (by decide +kernel) (by decide +kernel) (by decide +kernel) (by decide +kernel)]
  congr 3

/-- **A reused id is planned for the wrong region.** The plan names the
region of the first grant, which no record leads to any more; the record of
the id is that of the last. -/
theorem reusedId_misplanned :
    let g := run perform (new { managedCapacity := 1024 } true) reusedRun
    ∃ st ∈ g.planCompaction.1.steps, ∀ rec region, ¬ Promises g st rec region := by
  rw [run_reusedRun]
  refine ⟨⟨⟨1⟩, ⟨1⟩, 0, 256, 640, 256, .movable⟩, by decide +kernel, fun rec region hp => ?_⟩
  have hoffset : ((perform { run perform (new { managedCapacity := 1024 } true) twoHeld with
      nextAllocId := 1 } (.request { bytes := 128 })).2.records.find? ⟨1⟩).map (·.offset)
        = some 512 := by decide +kernel
  rw [hp.current.found, Option.map_some, ← hp.oldOffset] at hoffset
  exact absurd hoffset (by decide)

end ReusedIds

end GpuMemoryService.MemoryGovernor
