/-
GpuMemoryService.GovernorQueries — what observers change.

`summary`, `pressure`, `explain` and `plan_compaction` are const calls that
write two things: the summary cache of the arena and, through the
hysteresis, `domain_.pressure`. `blind` drops both. A query leaves the
blind governor as it is, and no other call reads what is dropped
(`perform_blind`), so two runs that differ in queries only end at the same
blind governor (`run_blind`).

A final summary then reads the same in every field but the pressure. The
pressure is the verdict of the classification on a prior verdict, and
depends on the observations through whether that prior is held up
(`summary_same`).
-/
import GpuMemoryService.RegionCache
import GpuMemoryService.PressureTraces
import GpuMemoryService.GovernorFailures

namespace GpuMemoryService.MemoryGovernor

open Lib

/-! ## The arena after a call -/

section Arena

variable {g : MemoryGovernor}

/-- What becomes of the arena. -/
inductive ArenaStep (ra : RegionAllocator) : RegionAllocator → Prop
  | same : ArenaStep ra ra
  | cached : ArenaStep ra ra.ensureSummary
  | called {c : RegionAllocator.Call} {r : RegionInfo} {ra' : RegionAllocator}
      (h : ra.perform c = (.ok r, ra')) : ArenaStep ra ra'
  | fresh (capacity : UInt64) : ArenaStep ra (.new capacity)

theorem request_arenaStep (h : Inv g) (req : AllocationRequest) :
    ArenaStep g.arena (g.request req).2.arena := by
  unfold request
  extract_lets vf regionSize
  split
  · exact .same
  rename_i hv
  split
  · exact .same
  split
  · exact .same
  have hcap : 0 < g.domain.managedCapacity.toNat := by
    have := validateRequest_ok (by simpa [vf] using hv)
    omega
  rcases RegionAllocator.allocate_cases (h.arena hcap) (arenaRequest req ⟨g.nextAllocId⟩) with
    ⟨f, heq⟩ | ⟨live, arena, heq, _⟩
  · simp only [nextId, heq]
    exact .same
  · simp only [nextId, heq]
    exact .called (c := .allocate (arenaRequest req ⟨g.nextAllocId⟩)) heq

theorem releaseForWorker_arenaStep (h : Inv g) (id : AllocationId) (gen : AllocationGeneration)
    (w : WorkerBootId) (s : SourceBootId) :
    ArenaStep g.arena (g.releaseForWorker id gen w s).2.arena := by
  cases hr : (g.releaseForWorker id gen w s).1 with
  | error f =>
      rw [releaseForWorker_refused h hr]
      exact .same
  | ok rec =>
      revert hr
      unfold releaseForWorker
      split
      · split
        · split <;> exact fun hr => (by cases hr)
        · exact fun hr => (by cases hr)
      iterate 5
        split
        · exact fun hr => (by cases hr)
      split
      · exact fun hr => (by cases hr)
      · rename_i heq
        exact fun _ => .called (c := .free id gen) heq

theorem pin_arenaStep (h : Inv g) (id : AllocationId) (gen : AllocationGeneration) :
    ArenaStep g.arena (g.pin id gen).2.arena := by
  cases hr : (g.pin id gen).1 with
  | error f =>
      rw [pin_refused h hr]
      exact .same
  | ok u =>
      revert hr
      unfold pin
      split
      · exact fun hr => (by cases hr)
      split
      · exact fun hr => (by cases hr)
      · rename_i heq
        exact fun _ => .called (c := .pin id gen) heq

theorem unpin_arenaStep (h : Inv g) (id : AllocationId) (gen : AllocationGeneration) :
    ArenaStep g.arena (g.unpin id gen).2.arena := by
  cases hr : (g.unpin id gen).1 with
  | error f =>
      rw [unpin_refused h hr]
      exact .same
  | ok u =>
      revert hr
      unfold unpin
      split
      · exact fun hr => (by cases hr)
      split
      · exact fun hr => (by cases hr)
      · rename_i heq
        exact fun _ => .called (c := .unpin id gen) heq

theorem applyRelocation_arenaStep (h : Inv g) (id : AllocationId) (gen : AllocationGeneration)
    (o n : UInt64) : ArenaStep g.arena (g.applyRelocation id gen o n).2.arena := by
  cases hr : (g.applyRelocation id gen o n).1 with
  | error f =>
      rw [applyRelocation_refused h hr]
      exact .same
  | ok u =>
      revert hr
      unfold applyRelocation
      split
      · exact fun hr => (by cases hr)
      rename_i rec _
      split
      · exact fun hr => (by cases hr)
      split
      · exact fun hr => (by cases hr)
      · rename_i heq
        exact fun _ => .called (c := .relocate id gen o n rec.alignment) heq

/-- **Every call** leaves the arena, refreshes its cache, makes one accepted
call on it, or replaces it. -/
theorem perform_arenaStep (h : Inv g) (c : Call) : ArenaStep g.arena (g.perform c).2.arena := by
  cases c with
  | initializeArena answer =>
      rcases g.initializeArena_cases answer with ⟨_, heq⟩ | ⟨⟨f, heq⟩, _⟩ | ⟨_, _, _, _, _, heq⟩ <;>
        simp only [perform, heq] <;> exact .same
  | request req => exact request_arenaStep h req
  | release id gen => exact releaseForWorker_arenaStep h id gen {} {}
  | releaseForWorker id gen w s => exact releaseForWorker_arenaStep h id gen w s
  | pin id gen => exact pin_arenaStep h id gen
  | unpin id gen => exact unpin_arenaStep h id gen
  | applyRelocation id gen o n => exact applyRelocation_arenaStep h id gen o n
  | restore s => exact .fresh _
  | summary => exact .cached
  | pressure => exact .cached
  | planCompaction => exact .cached
  | explain => exact .cached
  | get => exact .same
  | allocations => exact .same
  | reclaimCandidates => exact .same
  | regionSize => exact .same
  | snapshot => exact .same

theorem ArenaStep.isCached {ra ra' : RegionAllocator} (hs : ArenaStep ra ra')
    (hc : RegionAllocator.Cached ra) : RegionAllocator.Cached ra' := by
  cases hs with
  | same => exact hc
  | cached => exact RegionAllocator.cached_ensureSummary hc
  | called h => exact RegionAllocator.cached_perform hc h
  | fresh capacity => exact RegionAllocator.cached_of_dirty rfl

/-- **Every reachable governor** has a summary cache that agrees with the
index of its arena. -/
theorem run_cached (domain : MemoryDomain) (hasBackend : Bool) (calls : List Call) :
    RegionAllocator.Cached (run perform (new domain hasBackend) calls).arena := by
  refine reachable_induction (P := fun g => RegionAllocator.Cached g.arena) ?_ ?_ calls
  · exact RegionAllocator.cached_of_dirty rfl
  · exact fun g c hinv hcached => (perform_arenaStep hinv c).isCached hcached

end Arena

/-! ## Governors without what queries write -/

/-- The governor without the summary cache and the last verdict. -/
def blind (g : MemoryGovernor) : MemoryGovernor :=
  { g with arena := g.arena.uncached, domain := { g.domain with pressure := .unknown } }

/-- The calls that only observe. -/
def Call.isQuery : Call → Bool
  | .summary => true
  | .pressure => true
  | .explain => true
  | .reclaimCandidates _ => true
  | .planCompaction => true
  | _ => false

section Blind

variable (g : MemoryGovernor)

theorem locate_blind (id : AllocationId) (gen : AllocationGeneration) (stale : String) :
    g.blind.locate id gen stale = g.locate id gen stale := rfl

/-- A charge does not look at the last verdict. -/
theorem grant_blind (req : AllocationRequest) (id : AllocationId) (r : RegionInfo)
    (arena : RegionAllocator) :
    (g.blind.grant req id r arena.uncached).blind = (g.grant req id r arena).blind := by
  simp only [blind, grant, chargeDomain]
  split
  · rfl
  · split <;> rfl

theorem retire_blind (id : AllocationId) (r : AllocationRecord) (arena : RegionAllocator) :
    (g.blind.retire id r arena.uncached).blind = (g.retire id r arena).blind := by
  simp only [blind, retire, dischargeDomain]
  split
  · rfl
  · split <;> rfl

theorem recordUnpin_blind (id : AllocationId) (r : AllocationRecord) (region : RegionInfo)
    (arena : RegionAllocator) :
    (g.blind.recordUnpin id r region arena.uncached).blind
      = (g.recordUnpin id r region arena).blind := by
  simp only [blind, recordUnpin]
  split <;> rfl

theorem request_blind (req : AllocationRequest) :
    (g.blind.request req).2.blind = (g.request req).2.blind := by
  have hcap : g.blind.domain.managedCapacity = g.domain.managedCapacity := rfl
  have hready : g.blind.initialized = g.initialized := rfl
  have halloc : g.blind.arena.allocate (arenaRequest req ⟨g.nextAllocId⟩) =
      RegionAllocator.uncachedOutcome (g.arena.allocate (arenaRequest req ⟨g.nextAllocId⟩)) :=
    RegionAllocator.allocate_uncached g.arena _
  have hnext : g.blind.nextId = (g.nextId.1, g.nextId.2.blind) := rfl
  have harena : g.nextId.2.blind.arena = g.blind.arena := rfl
  have hid : g.nextId.1 = ⟨g.nextAllocId⟩ := rfl
  have hkeep : g.nextId.2.arena = g.arena := rfl
  simp only [request, hcap, hready, hnext, harena, hid, halloc, hkeep]
  split
  · rfl
  split
  · rfl
  split
  · rfl
  rcases g.arena.allocate (arenaRequest req ⟨g.nextAllocId⟩) with ⟨f | r, arena⟩
  · rfl
  · exact grant_blind g.nextId.2 req ⟨g.nextAllocId⟩ r arena

theorem releaseForWorker_blind (id : AllocationId) (gen : AllocationGeneration) (w : WorkerBootId)
    (s : SourceBootId) :
    (g.blind.releaseForWorker id gen w s).2.blind = (g.releaseForWorker id gen w s).2.blind := by
  have hrecords : g.blind.records = g.records := rfl
  have hretired : g.blind.retired = g.retired := rfl
  have hfree : g.blind.arena.free id gen
      = RegionAllocator.uncachedOutcome (g.arena.free id gen) :=
    RegionAllocator.free_uncached g.arena id gen
  simp only [releaseForWorker, hrecords, hretired, hfree]
  split
  · split
    · split <;> rfl
    · rfl
  iterate 5
    split
    · rfl
  rcases g.arena.free id gen with ⟨f | region, arena⟩
  · rfl
  · exact retire_blind g id _ arena

theorem pin_blind (id : AllocationId) (gen : AllocationGeneration) :
    (g.blind.pin id gen).2.blind = (g.pin id gen).2.blind := by
  have hpin : g.blind.arena.pin id gen
      = RegionAllocator.uncachedOutcome (g.arena.pin id gen) :=
    RegionAllocator.pin_uncached g.arena id gen
  simp only [pin, locate_blind, hpin]
  split
  · rfl
  rcases g.arena.pin id gen with ⟨f | region, arena⟩ <;> rfl

theorem unpin_blind (id : AllocationId) (gen : AllocationGeneration) :
    (g.blind.unpin id gen).2.blind = (g.unpin id gen).2.blind := by
  have hunpin : g.blind.arena.unpin id gen
      = RegionAllocator.uncachedOutcome (g.arena.unpin id gen) :=
    RegionAllocator.unpin_uncached g.arena id gen
  simp only [unpin, locate_blind, hunpin]
  split
  · rfl
  rcases g.arena.unpin id gen with ⟨f | region, arena⟩
  · rfl
  · exact recordUnpin_blind g id _ region arena

theorem applyRelocation_blind (id : AllocationId) (gen : AllocationGeneration) (o n : UInt64) :
    (g.blind.applyRelocation id gen o n).2.blind = (g.applyRelocation id gen o n).2.blind := by
  have hmove : ∀ a, g.blind.arena.relocate id gen o n a
      = RegionAllocator.uncachedOutcome (g.arena.relocate id gen o n a) :=
    RegionAllocator.relocate_uncached g.arena id gen o n
  simp only [applyRelocation, locate_blind, hmove]
  split
  · rfl
  split
  · rfl
  rcases RegionAllocator.relocate _ _ _ _ _ _ with ⟨f | region, arena⟩ <;> rfl

theorem initializeArena_blind (answer : Except String UInt64) :
    (g.blind.initializeArena answer).2.blind = (g.initializeArena answer).2.blind := by
  unfold initializeArena
  have hready : g.blind.initialized = g.initialized := rfl
  have hbackend : g.blind.hasBackend = g.hasBackend := rfl
  have hcap : g.blind.domain.managedCapacity = g.domain.managedCapacity := rfl
  rw [hready, hbackend, hcap]
  iterate 3
    split
    · rfl
  cases answer <;> rfl

/-- **No other call** reads what queries write. -/
theorem perform_blind {c : Call} (hc : c.isQuery = false) :
    (g.blind.perform c).2.blind = (g.perform c).2.blind := by
  cases c with
  | initializeArena answer => exact initializeArena_blind g answer
  | request req => exact request_blind g req
  | release id gen => exact releaseForWorker_blind g id gen {} {}
  | releaseForWorker id gen w s => exact releaseForWorker_blind g id gen w s
  | pin id gen => exact pin_blind g id gen
  | unpin id gen => exact unpin_blind g id gen
  | applyRelocation id gen o n => exact applyRelocation_blind g id gen o n
  | restore s => rfl
  | get => rfl
  | allocations => rfl
  | regionSize => rfl
  | snapshot => rfl
  | _ => cases hc

/-- **A query** changes nothing else. -/
theorem query_blind {c : Call} (hc : c.isQuery = true) : (g.perform c).2.blind = g.blind := by
  have harena : ∀ p, ({ g with
      arena := g.arena.ensureSummary
      domain := { g.domain with pressure := p } } : MemoryGovernor).blind = g.blind := by
    intro p
    simp only [blind, RegionAllocator.ensureSummary_uncached]
  cases c with
  | summary => exact harena _
  | pressure => exact harena _
  | explain => exact harena _
  | planCompaction => exact harena g.domain.pressure
  | reclaimCandidates max => rfl
  | _ => cases hc

end Blind

/-- A run ends, blind, where its calls end without the queries. -/
theorem run_blind {g g' : MemoryGovernor} (h : g.blind = g'.blind) (cs : List Call) :
    (run perform g cs).blind = (run perform g' (cs.filter (fun c => !c.isQuery))).blind := by
  induction cs generalizing g g' with
  | nil => exact h
  | cons c cs ih =>
      cases hc : c.isQuery with
      | true =>
          rw [List.filter_cons_of_neg (by simp [hc])]
          exact ih ((query_blind g hc).trans h)
      | false =>
          rw [List.filter_cons_of_pos (by simp [hc])]
          refine ih ?_
          calc (g.perform c).2.blind = (g.blind.perform c).2.blind := (perform_blind g hc).symm
            _ = (g'.perform c).2.blind := by rw [h, perform_blind g' hc]

/-! ## Final summaries -/

/-- The evidence the governor puts together for its verdict. -/
def evidence (g : MemoryGovernor) : PressureEvidence :=
  { managedCapacity := g.domain.managedCapacity
    committed := g.arena.ensureSummary.liveBytes
    free := g.arena.ensureSummary.freeBytes
    reclaimable := g.reclaimableBytes
    largestFree := g.arena.ensureSummary.largestFree
    fragmentation := g.arena.ensureSummary.externalFragmentation
    watermarks := g.domain.watermarks }

/-- The evidence decides the verdict whatever the prior verdict was: there
is no capacity, or the utilization is below the low watermark and not from
another one on, or it is from the high or the critical watermark on. -/
def decisive (ev : PressureEvidence) : Bool :=
  let u := (Binary64.ofUInt64 ev.committed).div (Binary64.ofUInt64 ev.managedCapacity)
  let high := ev.watermarks.critical.le u || ev.watermarks.high.le u
  ev.managedCapacity == 0 || (if u.lt ev.watermarks.low then !high else high)

section Summaries

variable {g : MemoryGovernor}

theorem pressure_eq (g : MemoryGovernor) :
    g.pressure.1 = evaluatePressure g.evidence g.domain.pressure := rfl

/-- A held and another prior get the same verdict exactly from evidence that
decides. -/
theorem evaluatePressure_held_eq_iff (ev : PressureEvidence) {p q : PressureState}
    (hp : held p = true) (hq : held q = false) :
    evaluatePressure ev p = evaluatePressure ev q ↔ decisive ev = true := by
  unfold evaluatePressure decisive
  cases hcap : ev.managedCapacity == 0 with
  | true => simp
  | false =>
      generalize (Binary64.ofUInt64 ev.committed).div (Binary64.ofUInt64 ev.managedCapacity) = u
      have hbelow : u.lt ev.watermarks.low = true → ev.watermarks.low.le u = false :=
        Binary64.le_eq_false_of_lt
      unfold held at hp hq
      simp only [classifyPressure, hp, hq, if_true, Bool.false_eq_true, if_false, Bool.false_or]
      generalize u.lt ev.watermarks.low = low at hbelow ⊢
      generalize ev.watermarks.low.le u = fromLow at hbelow ⊢
      generalize u.lt (ev.watermarks.low.mul half) = belowHalf
      generalize ev.watermarks.critical.le u = critical
      generalize ev.watermarks.high.le u = high
      revert hbelow
      revert low fromLow belowHalf critical high
      decide

/-- **Two verdicts agree** exactly when the evidence decides or the two
priors are held up alike. -/
theorem evaluatePressure_eq_iff (ev : PressureEvidence) (p q : PressureState) :
    evaluatePressure ev p = evaluatePressure ev q ↔ decisive ev = true ∨ held p = held q := by
  by_cases hheld : held p = held q
  · simp [hheld, evaluatePressure_held ev hheld]
  · rw [or_iff_left hheld]
    cases hp : held p with
    | true =>
        have hq : held q = false := by simpa [hp] using hheld
        exact evaluatePressure_held_eq_iff ev hp hq
    | false =>
        have hq : held q = true := by simpa [hp] using hheld
        rw [eq_comm]
        exact evaluatePressure_held_eq_iff ev hq hp

theorem evidence_blind (hc : RegionAllocator.Cached g.arena) : g.evidence = g.blind.evidence := by
  have harena : g.blind.arena.ensureSummary = g.arena.ensureSummary := hc.ensureSummary_eq.symm
  unfold evidence
  rw [harena]
  rfl

/-- Up to the verdict a summary shows nothing of what queries write. -/
theorem summary_blind (hc : RegionAllocator.Cached g.arena) (p : PressureState) :
    { g.summary.1 with pressure := p } = { g.blind.summary.1 with pressure := p } := by
  have harena : g.blind.arena.ensureSummary = g.arena.ensureSummary := hc.ensureSummary_eq.symm
  simp only [summary, RegionAllocator.largestFreeRegion, RegionAllocator.freeRegionCount,
    RegionAllocator.externalFragmentation, harena]
  rfl

/-- **What observers change.** Two runs from one reachable state that differ
in queries only: their final summaries agree in every field but the
pressure, and in the pressure exactly if the evidence decides it or the
last verdict is held up in both or in neither. -/
theorem summary_same (domain : MemoryDomain) (hasBackend : Bool) (start cs ds : List Call)
    (hsame : cs.filter (fun c => !c.isQuery) = ds.filter (fun c => !c.isQuery)) :
    let g := run perform (new domain hasBackend) start
    let a := run perform g cs
    let b := run perform g ds
    { b.summary.1 with pressure := a.summary.1.pressure } = a.summary.1 ∧
      (b.summary.1.pressure = a.summary.1.pressure ↔
        decisive a.evidence = true ∨ held b.domain.pressure = held a.domain.pressure) := by
  intro g a b
  have hblind : b.blind = a.blind := by
    rw [run_blind rfl ds, run_blind rfl cs, hsame]
  have hcached : ∀ calls, RegionAllocator.Cached (run perform g calls).arena := by
    intro calls
    rw [← run_append]
    exact run_cached domain hasBackend _
  constructor
  · rw [summary_blind (hcached ds), hblind, ← summary_blind (hcached cs)]
  · have hevidence : b.evidence = a.evidence := by
      rw [evidence_blind (hcached ds), hblind, ← evidence_blind (hcached cs)]
    have hpressure : ∀ h : MemoryGovernor,
        h.summary.1.pressure = evaluatePressure h.evidence h.domain.pressure := fun _ => rfl
    rw [hpressure, hpressure, hevidence]
    exact evaluatePressure_eq_iff _ _ _

/-- 95 of 100 bytes, and back to 75: between the default watermarks. -/
def backBetweenMarks (query : List Call) : List Call :=
  [.request { bytes := 75, alignment := 1 }, .request { bytes := 20, alignment := 1 }] ++ query ++
    [.release ⟨2⟩ ⟨1⟩]

/-- Queries while nothing is held change no later verdict. -/
theorem summary_same_early :
    let g := run perform (new { managedCapacity := 100 } true) [.initializeArena (.ok 4096)]
    (run perform g (.pressure :: .summary :: backBetweenMarks [])).summary.1.pressure =
      (run perform g (backBetweenMarks [])).summary.1.pressure :=
  (summary_same { managedCapacity := 100 } true [.initializeArena (.ok 4096)] (backBetweenMarks [])
    (.pressure :: .summary :: backBetweenMarks []) rfl).2.mpr (Or.inr (by decide +kernel))

/-- A query while the pressure is high changes what the last one is told. -/
theorem queryWhileHigh_differs :
    ¬ ∀ (domain : MemoryDomain) (hasBackend : Bool) (start cs ds : List Call),
      cs.filter (fun c => !c.isQuery) = ds.filter (fun c => !c.isQuery) →
      (run perform (run perform (new domain hasBackend) start) ds).summary.1 =
        (run perform (run perform (new domain hasBackend) start) cs).summary.1 := by
  intro h
  have heq := congrArg MemorySummary.pressure (h { managedCapacity := 100 } true
    [.initializeArena (.ok 4096)] (backBetweenMarks []) (backBetweenMarks [.pressure]) rfl)
  revert heq
  decide +kernel

end Summaries

end GpuMemoryService.MemoryGovernor
