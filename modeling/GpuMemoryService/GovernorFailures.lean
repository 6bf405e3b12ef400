/-
GpuMemoryService.GovernorFailures — failed operations change nothing.

A governor call has two layers of checks, its own and those of the arena,
and the arena's `free` and `relocate` take a region out of their maps
before `canonicalize_free`, which can itself fail. On every reachable
state that late failure does not happen (`free_never_late`,
`relocate_never_late`), and every early one returns what it was given
(`failures_change_nothing`). The one trace a refusal leaves is the id a
request has drawn by then.
-/
import GpuMemoryService.GovernorHandles
import GpuMemoryService.RegionActions

namespace GpuMemoryService

open Lib

/-! ## The late failure -/

namespace RegionAllocator

/-- The allocator `free` hands to `canonicalize_free`: the region, its index
entry and its share of the counters are gone. -/
def erasedByFree (ra : RegionAllocator) (id : AllocationId) (r : RegionInfo) : RegionAllocator :=
  { ra with
    regions := ra.regions.erase (ra.offsetOf id)
    allocOffset := ra.allocOffset.erase id
    liveBytes := ra.liveBytes - r.size
    liveCount := ra.liveCount - 1 }

/-- The allocator `relocate` hands to `canonicalize_free`: the region and its
index entry are gone and the target is carved out. -/
def erasedByRelocate (ra : RegionAllocator) (id : AllocationId) (newOffset newSize : UInt64) :
    RegionAllocator :=
  ({ ra with
      regions := ra.regions.erase (ra.offsetOf id)
      allocOffset := ra.allocOffset.erase id } : RegionAllocator).carve
    newOffset (newOffset + newSize)

section Late

variable {ra : RegionAllocator} {id : AllocationId} {gen : AllocationGeneration} {r : RegionInfo}

theorem holds_of_locate (hinv : Inv ra) {unknown notLive stale : String}
    (h : ra.locate id gen unknown notLive stale = .ok r) : ra.Holds id gen r := by
  rcases locate_cases hinv id gen unknown notLive stale with
    ⟨_, heq⟩ | ⟨_, _, _, heq⟩ | ⟨r', hr', heq⟩
  · rw [heq] at h; cases h
  · rw [heq] at h; cases h
  · rw [heq] at h
    cases h
    exact hr'

/-- Once `free` has erased the region it goes through. -/
theorem free_never_late (hinv : Inv ra) {unknown notLive stale : String}
    (h : ra.locate id gen unknown notLive stale = .ok r) :
    Accepted ((ra.erasedByFree id r).canonicalizeFree (ra.offsetOf id) r.size).1 := by
  have hr := holds_of_locate hinv h
  rcases free_cases hinv id gen with ⟨_, _, hnot, _⟩ | ⟨_, f, ra', _, heq, _⟩
  · exact absurd hr (hnot r)
  · simp only [free, locate_of_holds hinv hr] at heq
    exact ⟨f, congrArg Prod.fst heq⟩

/-- Once `relocate` has erased the region it goes through. -/
theorem relocate_never_late (hinv : Inv ra) {unknown notLive stale : String} {o n a : UInt64}
    (h : ra.locate id gen unknown notLive stale = .ok r) (hpass : ra.PassesChecks r o n a) :
    Accepted ((ra.erasedByRelocate id o n).canonicalizeFree (ra.offsetOf id) r.size).1 := by
  have hr := holds_of_locate hinv h
  obtain ⟨hofs, _, _⟩ := hr.liveAt hinv
  obtain ⟨f, ra₁, heq, _⟩ := carve_vacated hinv hr ((passesChecks_iff hinv hr).mp hpass)
  rw [erasedByRelocate, hofs]
  exact ⟨f, congrArg Prod.fst heq⟩

/-- An unusable arena has no region to lose. -/
theorem Unusable.locate (h : Unusable ra) {unknown notLive stale : String} :
    ra.locate id gen unknown notLive stale ≠ .ok r := by
  simp [RegionAllocator.locate, h.index]

end Late

end RegionAllocator

/-! ## Governor calls -/

namespace MemoryGovernor

/-- The calls that ask for a change of allocations. -/
def Call.changes : Call → Bool
  | .request _ => true
  | .release _ _ => true
  | .releaseForWorker _ _ _ _ => true
  | .pin _ _ => true
  | .unpin _ _ => true
  | .applyRelocation _ _ _ _ => true
  | _ => false

section Refused

variable {g : MemoryGovernor}

/-- A refusal leaves the governor as it was, up to the id a request draws. -/
structure Unchanged (g : MemoryGovernor) (c : Call) (g' : MemoryGovernor) : Prop where
  state : g' = { g with nextAllocId := g'.nextAllocId }
  drawn : g'.nextAllocId = g.nextAllocId ∨
    (c.isRequest = true ∧ g'.nextAllocId = g.nextAllocId + 1)

theorem Unchanged.refl (g : MemoryGovernor) (c : Call) : Unchanged g c g := ⟨rfl, Or.inl rfl⟩

/-- The arena behind a located record returns itself when it refuses. -/
theorem arena_refused (h : Inv g) {id : AllocationId} {rec : AllocationRecord}
    (hf : g.records.find? id = some rec) {c : RegionAllocator.Call} {f : Failure}
    {arena : RegionAllocator} (heq : g.arena.perform c = (.error f, arena)) :
    { g with arena := arena } = g := by
  obtain ⟨_, harena, _⟩ := h.current hf
  rcases RegionAllocator.perform_cases harena c with
    ⟨_, heq'⟩ | ⟨_, _, _, _, heq'⟩ | ⟨_, _, _, _, heq', _⟩
  · rw [heq] at heq'
    rw [(Prod.mk.inj heq').2]
  · rw [heq] at heq'
    cases heq'
  · rw [heq] at heq'
    cases heq'

theorem found_of_locate {id : AllocationId} {gen : AllocationGeneration} {stale : String}
    {rec : AllocationRecord} (h : g.locate id gen stale = .ok rec) :
    g.records.find? id = some rec := by
  rcases locate_cases g id gen stale with ⟨_, _, _, heq⟩ | ⟨rec', hf, _, heq⟩
  · rw [heq] at h; cases h
  · rw [heq] at h
    cases h
    exact hf

theorem request_refused (h : Inv g) {req : AllocationRequest} {f : Failure}
    (hr : (g.request req).1 = .error f) : Unchanged g (.request req) (g.request req).2 := by
  revert hr
  unfold request
  extract_lets vf regionSize
  split
  · exact fun _ => .refl g _
  rename_i hv
  split
  · exact fun _ => .refl g _
  split
  · exact fun _ => .refl g _
  have hcap : 0 < g.domain.managedCapacity.toNat := by
    have := validateRequest_ok (by simpa [vf] using hv)
    omega
  rcases RegionAllocator.allocate_cases (h.arena hcap) (arenaRequest req ⟨g.nextAllocId⟩) with
    ⟨f', heq⟩ | ⟨live, arena, heq, _⟩
  · simp only [nextId, heq]
    exact fun _ => ⟨rfl, Or.inr ⟨rfl, rfl⟩⟩
  · simp only [nextId, heq]
    exact fun hr => by cases hr

theorem releaseForWorker_refused (h : Inv g) {id : AllocationId} {gen : AllocationGeneration}
    {w : WorkerBootId} {s : SourceBootId} {f : Failure}
    (hr : (g.releaseForWorker id gen w s).1 = .error f) :
    (g.releaseForWorker id gen w s).2 = g := by
  revert hr
  unfold releaseForWorker
  cases hf : g.records.find? id with
  | none =>
      dsimp only
      split
      · split <;> exact fun _ => rfl
      · exact fun _ => rfl
  | some rec =>
      dsimp only
      split
      · exact fun _ => rfl
      split
      · exact fun _ => rfl
      split
      · exact fun _ => rfl
      split
      · exact fun _ => rfl
      split
      · exact fun _ => rfl
      split
      · rename_i heq
        exact fun _ => arena_refused h hf (c := .free id gen) heq
      · exact fun hr => by cases hr

theorem pin_refused (h : Inv g) {id : AllocationId} {gen : AllocationGeneration} {f : Failure}
    (hr : (g.pin id gen).1 = .error f) : (g.pin id gen).2 = g := by
  revert hr
  unfold pin
  split
  · exact fun _ => rfl
  rename_i hloc
  split
  · rename_i heq
    exact fun _ => arena_refused h (found_of_locate hloc) (c := .pin id gen) heq
  · exact fun hr => by cases hr

theorem unpin_refused (h : Inv g) {id : AllocationId} {gen : AllocationGeneration} {f : Failure}
    (hr : (g.unpin id gen).1 = .error f) : (g.unpin id gen).2 = g := by
  revert hr
  unfold unpin
  split
  · exact fun _ => rfl
  rename_i hloc
  split
  · rename_i heq
    exact fun _ => arena_refused h (found_of_locate hloc) (c := .unpin id gen) heq
  · exact fun hr => by cases hr

theorem applyRelocation_refused (h : Inv g) {id : AllocationId} {gen : AllocationGeneration}
    {o n : UInt64} {f : Failure} (hr : (g.applyRelocation id gen o n).1 = .error f) :
    (g.applyRelocation id gen o n).2 = g := by
  revert hr
  unfold applyRelocation
  split
  · exact fun _ => rfl
  rename_i rec hloc
  split
  · exact fun _ => rfl
  split
  · rename_i heq
    exact fun _ => arena_refused h (found_of_locate hloc)
      (c := .relocate id gen o n rec.alignment) heq
  · exact fun hr => by cases hr

/-- **A refused call leaves the governor unchanged.** -/
theorem perform_refused (h : Inv g) {c : Call} (hc : c.changes = true)
    (hr : (g.perform c).1.rejected = true) : Unchanged g c (g.perform c).2 := by
  have hsame : ∀ {g' : MemoryGovernor}, g' = g → Unchanged g c g' := fun heq => heq ▸ .refl g c
  cases c with
  | request req =>
      cases hreq : (g.request req).1 with
      | error f => exact request_refused h hreq
      | ok v => simp [perform, hreq, Reply.rejected] at hr
  | release id gen =>
      cases hrel : (g.release id gen).1 with
      | error f => exact hsame (releaseForWorker_refused h hrel)
      | ok v => simp [perform, hrel, Reply.rejected] at hr
  | releaseForWorker id gen w s =>
      cases hrel : (g.releaseForWorker id gen w s).1 with
      | error f => exact hsame (releaseForWorker_refused h hrel)
      | ok v => simp [perform, hrel, Reply.rejected] at hr
  | pin id gen =>
      cases hpin : (g.pin id gen).1 with
      | error f => exact hsame (pin_refused h hpin)
      | ok v => simp [perform, hpin, Reply.rejected] at hr
  | unpin id gen =>
      cases hpin : (g.unpin id gen).1 with
      | error f => exact hsame (unpin_refused h hpin)
      | ok v => simp [perform, hpin, Reply.rejected] at hr
  | applyRelocation id gen o n =>
      cases hmove : (g.applyRelocation id gen o n).1 with
      | error f => exact hsame (applyRelocation_refused h hmove)
      | ok v => simp [perform, hmove, Reply.rejected] at hr
  | _ => cases hc

end Refused

/-! ## Failures -/

/-- **Failed operations change nothing**, on every reachable governor and on
every reachable arena of any capacity. Where `free` or `relocate` has
erased a region, `canonicalize_free` succeeds. -/
theorem failures_change_nothing (domain : MemoryDomain) (hasBackend : Bool) (calls : List Call)
    (capacity : UInt64) (actions : List RegionAllocator.Action) :
    let g := run perform (new domain hasBackend) calls
    let ra := run RegionAllocator.act (RegionAllocator.new capacity) actions
    (∀ c : Call, c.changes = true → (g.perform c).1.rejected = true →
      Unchanged g c (g.perform c).2) ∧
    (∀ (c : RegionAllocator.Call) (f : Failure), (ra.perform c).1 = .error f →
      (ra.perform c).2 = ra) ∧
    (∀ id gen unknown notLive stale r, ra.locate id gen unknown notLive stale = .ok r →
      Accepted ((ra.erasedByFree id r).canonicalizeFree (ra.offsetOf id) r.size).1 ∧
      ∀ o n a, ra.PassesChecks r o n a →
        Accepted ((ra.erasedByRelocate id o n).canonicalizeFree (ra.offsetOf id) r.size).1) := by
  intro g ra
  have hinv : Inv g := run_inv (inv_new domain hasBackend) calls
  refine ⟨fun c hc hr => perform_refused hinv hc hr, fun c f hr => ?_, ?_⟩
  · exact RegionAllocator.perform_unchanged capacity actions c hr
  · intro id gen unknown notLive stale r hloc
    rcases RegionAllocator.run_act_cases capacity actions with harena | hempty
    · exact ⟨RegionAllocator.free_never_late harena hloc,
        fun o n a hpass => RegionAllocator.relocate_never_late harena hloc hpass⟩
    · exact absurd hloc hempty.locate

/-- A pin of a handle that was never issued, and a free that names an old
generation. -/
theorem stale_calls_change_nothing :
    Unchanged (run perform (new { managedCapacity := 100 } true) [.initializeArena (.ok 4096)])
      (.pin ⟨9⟩ ⟨1⟩) (((run perform (new { managedCapacity := 100 } true)
        [.initializeArena (.ok 4096)]).perform (.pin ⟨9⟩ ⟨1⟩)).2) ∧
    ((run RegionAllocator.act (RegionAllocator.new 100)
        (RegionAllocator.sampleCalls.map .call)).perform (.free ⟨1⟩ ⟨1⟩)).2
      = run RegionAllocator.act (RegionAllocator.new 100)
        (RegionAllocator.sampleCalls.map .call) := by
  have h := failures_change_nothing { managedCapacity := 100 } true [.initializeArena (.ok 4096)]
    100 (RegionAllocator.sampleCalls.map .call)
  refine ⟨h.1 _ rfl (by decide +kernel), h.2.1 (.free ⟨1⟩ ⟨1⟩)
    ⟨.staleGeneration, "stale allocation generation on free"⟩ (by decide +kernel)⟩

end MemoryGovernor

end GpuMemoryService
