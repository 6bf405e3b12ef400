/-
GpuMemoryService.RegionActions — the allocator with its cached summary.

`free_region_count`, `largest_free_region` and `external_fragmentation`
are const, but refresh the cached summary when it is dirty, so they are
steps of the allocator too. `Action` adds them to the calls. `Consistent` is
what holds after every sequence of actions: the representation invariant,
and a clean cache that agrees with the size index. `Reached` adds what the
discipline on callers gives.

`perform_unchanged` is the rule for failures: on every reachable
allocator, the empty arena included, a call that fails returns the
allocator it was given.
-/
import GpuMemoryService.RegionTheorems

namespace GpuMemoryService.RegionAllocator

open Lib

/-! ## Actions -/

/-- The calls, and the accessors that refresh the summary cache. -/
inductive Action where
  | call (c : Call)
  | freeRegionCount
  | largestFreeRegion
  | externalFragmentation
deriving DecidableEq, Repr

/-- What an action returns. -/
inductive Answer where
  | region (r : Result RegionInfo)
  | count (n : UInt64)
  | size (n : UInt64)
  | fragmentation (x : Binary64)

def act (ra : RegionAllocator) : Action → Answer × RegionAllocator
  | .call c => (.region (ra.perform c).1, (ra.perform c).2)
  | .freeRegionCount => (.count ra.freeRegionCount, ra.ensureSummary)
  | .largestFreeRegion => (.size ra.largestFreeRegion, ra.ensureSummary)
  | .externalFragmentation => (.fragmentation ra.externalFragmentation, ra.ensureSummary)

/-- The discipline on callers, for actions. -/
def FreshAction (ra : RegionAllocator) : Action → Prop
  | .call c => FreshId ra c
  | _ => True

instance (ra : RegionAllocator) : (a : Action) → Decidable (FreshAction ra a)
  | .call c => inferInstanceAs (Decidable (FreshId ra c))
  | .freeRegionCount => isTrue trivial
  | .largestFreeRegion => isTrue trivial
  | .externalFragmentation => isTrue trivial

/-! ## The cache -/

/-- The largest size in the index, 0 when it is empty. -/
def largestSlot (slots : OrdSet FreeSlot) : UInt64 :=
  (slots.entries.getLast?.map (·.1.size)).getD 0

/-- A clean cache agrees with the size index. -/
def Cached (ra : RegionAllocator) : Prop :=
  ra.summaryDirty = false →
    ra.freeCount = UInt64.ofNat ra.freeSlots.size ∧ ra.largestFree = largestSlot ra.freeSlots

section Cache

variable {ra ra' : RegionAllocator}

theorem Cached.ensureSummary (h : Cached ra) :
    ra.ensureSummary.freeCount = UInt64.ofNat ra.freeSlots.size ∧
      ra.ensureSummary.largestFree = largestSlot ra.freeSlots := by
  unfold RegionAllocator.ensureSummary
  cases hdirty : ra.summaryDirty with
  | true => exact ⟨rfl, rfl⟩
  | false => exact h hdirty

/-- Refreshing the cache makes it agree with the index. -/
theorem cached_ensureSummary (h : Cached ra) : Cached ra.ensureSummary := by
  intro _
  rw [ensureSummary_freeSlots]
  exact h.ensureSummary

theorem Cached.freeRegionCount (h : Cached ra) :
    ra.freeRegionCount = UInt64.ofNat ra.freeSlots.size := h.ensureSummary.1

theorem Cached.largestFreeRegion (h : Cached ra) :
    ra.largestFreeRegion = largestSlot ra.freeSlots := h.ensureSummary.2

theorem cached_of_dirty (h : ra.summaryDirty = true) : Cached ra := by
  intro hclean
  rw [h] at hclean
  cases hclean

theorem canonicalizeFree_dirty {off size : UInt64} {f : RegionInfo}
    (h : ra.canonicalizeFree off size = (.ok f, ra')) : ra'.summaryDirty = true := by
  unfold canonicalizeFree at h
  split at h
  · simp at h
  split at h
  · simp at h
  simp only [Prod.mk.injEq] at h
  rw [← h.2]

theorem allocate_dirty {req : AllocRequest} {r : RegionInfo}
    (h : ra.allocate req = (.ok r, ra')) : ra'.summaryDirty = true := by
  unfold allocate at h
  split at h
  · simp at h
  split at h
  · simp at h
  split at h
  · simp at h
  extract_lets aligned at h
  split at h
  · simp at h
  split at h
  · simp at h
  split at h
  · simp only [Prod.mk.injEq] at h
    rw [← h.2]
    rfl
  · split at h <;> simp at h

theorem free_dirty {id : AllocationId} {gen : AllocationGeneration} {r : RegionInfo}
    (h : ra.free id gen = (.ok r, ra')) : ra'.summaryDirty = true := by
  unfold free at h
  split at h
  · simp at h
  · exact canonicalizeFree_dirty h

theorem relocate_dirty {id : AllocationId} {gen : AllocationGeneration} {o n a : UInt64}
    {r : RegionInfo} (h : ra.relocate id gen o n a = (.ok r, ra')) : ra'.summaryDirty = true := by
  unfold relocate at h
  split at h
  · simp at h
  extract_lets oldOff newHi oldEnd removed at h
  split at h
  · simp at h
  split at h
  · simp at h
  split at h
  · simp at h
  split at h
  · simp at h
  split at h
  · simp at h
  split at h
  · simp at h
  · simp only [Prod.mk.injEq] at h
    rw [← h.2]

/-- An accepted call marks the cache dirty, or leaves index and cache alone. -/
theorem cached_perform {c : Call} {r : RegionInfo} (hc : Cached ra)
    (h : ra.perform c = (.ok r, ra')) : Cached ra' := by
  cases c with
  | allocate req => exact cached_of_dirty (allocate_dirty h)
  | free id gen => exact cached_of_dirty (free_dirty h)
  | relocate id gen o n a => exact cached_of_dirty (relocate_dirty h)
  | pin id gen =>
      simp only [perform, pin] at h
      split at h
      · simp at h
      · simp only [Prod.mk.injEq] at h
        rw [← h.2]
        exact hc
  | unpin id gen =>
      simp only [perform, unpin] at h
      split at h
      · simp at h
      split at h
      · simp at h
      · simp only [Prod.mk.injEq] at h
        rw [← h.2]
        exact hc
  | get id gen =>
      simp only [perform, Prod.mk.injEq] at h
      rw [← h.2]
      exact hc

end Cache

/-! ## Runs of actions -/

section Actions

variable {ra : RegionAllocator}

/-- Every action leaves the allocator alone, refreshes its cache, or has one
effect; the id of an `allocate` may be live already. -/
theorem act_cases (h : Inv ra) (a : Action) :
    (ra.act a).2 = ra ∨ (ra.act a).2 = ra.ensureSummary ∨
      ∃ id old new, Effect ra (ra.act a).2 id old new := by
  cases a with
  | call c =>
      rcases perform_cases h c with ⟨f, heq⟩ | ⟨_, _, r, _, heq⟩ | ⟨r, ra', old, new, heq, heff, _⟩
      · exact Or.inl (by simp only [act, heq])
      · exact Or.inl (by simp only [act, heq])
      · exact Or.inr (Or.inr ⟨c.id, old, new, by simpa only [act, heq] using heff⟩)
  | freeRegionCount => exact Or.inr (Or.inl rfl)
  | largestFreeRegion => exact Or.inr (Or.inl rfl)
  | externalFragmentation => exact Or.inr (Or.inl rfl)

theorem act_inv (h : Inv ra) (a : Action) : Inv (ra.act a).2 := by
  rcases act_cases h a with heq | heq | ⟨_, _, _, heff⟩
  · rw [heq]; exact h
  · rw [heq]; exact h.ensureSummary
  · exact heff.inv h

theorem act_capacity (h : Inv ra) (a : Action) : (ra.act a).2.capacity = ra.capacity := by
  rcases act_cases h a with heq | heq | ⟨_, _, _, heff⟩
  · rw [heq]
  · rw [heq, ensureSummary_capacity]
  · exact heff.capacity

/-- **Every run of actions** keeps the representation invariant and the
capacity. -/
theorem run_act_inv {capacity : UInt64} (hcap : 0 < capacity.toNat) (actions : List Action) :
    Inv (run act (new capacity) actions) ∧
      (run act (new capacity) actions).capacity = capacity :=
  run_of_step (I := fun ra => Inv ra ∧ ra.capacity = capacity) ⟨(sound_new hcap).inv, rfl⟩
    (fun _ a h => ⟨act_inv h.1 a, (act_capacity h.1 a).trans h.2⟩) actions

/-- A clean cache stays right. -/
theorem act_cached (h : Inv ra) (hc : Cached ra) (a : Action) : Cached (ra.act a).2 := by
  cases a with
  | call c =>
      rcases perform_cases h c with ⟨f, heq⟩ | ⟨_, _, r, _, heq⟩ | ⟨r, ra', _, _, heq, _⟩
      · simpa only [act, heq] using hc
      · simpa only [act, heq] using hc
      · simpa only [act, heq] using cached_perform hc heq
  | freeRegionCount => exact cached_ensureSummary hc
  | largestFreeRegion => exact cached_ensureSummary hc
  | externalFragmentation => exact cached_ensureSummary hc

/-- What holds of an allocator between any actions. -/
structure Consistent (capacity : UInt64) (ra : RegionAllocator) : Prop where
  capacity_eq : ra.capacity = capacity
  inv : Inv ra
  cached : Cached ra

/-- **Every run of actions** keeps all of it. -/
theorem run_consistent {capacity : UInt64} (hcap : 0 < capacity.toNat) (actions : List Action) :
    Consistent capacity (run act (new capacity) actions) :=
  run_of_step ⟨rfl, (sound_new hcap).inv, cached_of_dirty rfl⟩
    (fun _ a h => ⟨(act_capacity h.inv a).trans h.capacity_eq, act_inv h.inv a,
      act_cached h.inv h.cached a⟩) actions

/-- What holds of an allocator between actions of disciplined callers. -/
structure Reached (capacity : UInt64) (ra : RegionAllocator) : Prop where
  sound : Sound capacity ra
  cached : Cached ra

theorem Reached.consistent {capacity : UInt64} (h : Reached capacity ra) : Consistent capacity ra :=
  ⟨h.sound.capacity_eq, h.sound.inv, h.cached⟩

theorem Sound.ensureSummary {capacity : UInt64} (h : Sound capacity ra) :
    Sound capacity ra.ensureSummary where
  capacity_eq := by simpa using h.capacity_eq
  inv := h.inv.ensureSummary
  indexed := fun {k r} hl => by
    rw [ensureSummary_allocOffset]
    exact h.indexed (by simpa [LiveAt] using hl)

/-- **One action** keeps all of it. -/
theorem act_reached {capacity : UInt64} (h : Reached capacity ra) (a : Action)
    (hfresh : FreshAction ra a) : Reached capacity (ra.act a).2 := by
  have hcached := act_cached h.sound.inv h.cached a
  cases a with
  | call c => exact ⟨perform_sound h.sound c hfresh, hcached⟩
  | freeRegionCount => exact ⟨h.sound.ensureSummary, hcached⟩
  | largestFreeRegion => exact ⟨h.sound.ensureSummary, hcached⟩
  | externalFragmentation => exact ⟨h.sound.ensureSummary, hcached⟩

theorem run_reached {capacity : UInt64} (hcap : 0 < capacity.toNat) {actions : List Action}
    (h : Guarded act FreshAction (new capacity) actions) :
    Reached capacity (run act (new capacity) actions) :=
  h.run_inv ⟨sound_new hcap, cached_of_dirty rfl⟩ (fun _ a hr ha => act_reached hr a ha)

/-! ## The empty arena -/

/-- An arena of capacity 0 that holds nothing. -/
structure Unusable (ra : RegionAllocator) : Prop where
  capacity : ra.capacity = 0
  index : ra.allocOffset = .empty

/-- An unusable arena rejects every call and stays as it is. -/
theorem Unusable.perform (h : Unusable ra) (c : Call) : ∃ f, ra.perform c = (.error f, ra) := by
  have hlocate : ∀ id gen unknown notLive stale,
      ra.locate id gen unknown notLive stale = .error ⟨.staleGeneration, unknown⟩ := by
    intro id gen unknown notLive stale
    simp only [locate, h.index, OrdMap.find?_empty]
  cases c with
  | allocate req =>
      simp only [RegionAllocator.perform, allocate]
      by_cases hbytes : (req.bytes == 0) = true
      · exact ⟨_, if_pos hbytes⟩
      rw [if_neg hbytes]
      by_cases halign : (req.alignment == 0 || !isPow2 req.alignment) = true
      · exact ⟨_, if_pos halign⟩
      rw [if_neg halign]
      have hpos : 0 < req.bytes.toNat := toNat_pos_iff.mpr (by simpa using hbytes)
      have hcap : req.bytes > ra.capacity := by
        rw [h.capacity]
        exact UInt64.lt_iff_toNat_lt.mpr hpos
      exact ⟨_, if_pos hcap⟩
  | free id gen =>
      simp only [RegionAllocator.perform, free, hlocate]
      exact ⟨_, rfl⟩
  | relocate id gen o n a =>
      simp only [RegionAllocator.perform, relocate, hlocate]
      exact ⟨_, rfl⟩
  | pin id gen =>
      simp only [RegionAllocator.perform, pin, hlocate]
      exact ⟨_, rfl⟩
  | unpin id gen =>
      simp only [RegionAllocator.perform, unpin, hlocate]
      exact ⟨_, rfl⟩
  | get id gen =>
      simp only [RegionAllocator.perform, get, hlocate]
      exact ⟨_, rfl⟩

theorem Unusable.act (h : Unusable ra) (a : Action) : Unusable (ra.act a).2 := by
  have hcache : Unusable ra.ensureSummary :=
    ⟨by simpa using h.capacity, by simpa using h.index⟩
  cases a with
  | call c =>
      obtain ⟨f, heq⟩ := h.perform c
      simpa only [RegionAllocator.act, heq] using h
  | freeRegionCount => exact hcache
  | largestFreeRegion => exact hcache
  | externalFragmentation => exact hcache

/-- Every reachable allocator has a sound representation or an unusable
arena. -/
theorem run_act_cases (capacity : UInt64) (actions : List Action) :
    Inv (run act (new capacity) actions) ∨ Unusable (run act (new capacity) actions) := by
  by_cases hcap : 0 < capacity.toNat
  · exact Or.inl (run_act_inv hcap actions).1
  · have hzero : capacity = 0 := UInt64.toNat_inj.mp (by simpa using hcap)
    subst hzero
    exact Or.inr (run_of_step (I := Unusable) ⟨rfl, rfl⟩ (fun _ a h => h.act a) actions)

/-- **A failed call leaves the allocator as it was**, on every reachable
allocator. -/
theorem perform_unchanged (capacity : UInt64) (actions : List Action) (c : Call) {f : Failure}
    (h : ((run act (new capacity) actions).perform c).1 = .error f) :
    ((run act (new capacity) actions).perform c).2 = run act (new capacity) actions := by
  rcases run_act_cases capacity actions with hinv | hempty
  · rcases perform_cases hinv c with ⟨_, heq⟩ | ⟨_, _, _, _, heq⟩ | ⟨_, _, _, _, heq, _⟩
    · rw [heq]
    · rw [heq]
    · rw [heq] at h
      cases h
  · obtain ⟨_, heq⟩ := hempty.perform c
    rw [heq]

end Actions

end GpuMemoryService.RegionAllocator
