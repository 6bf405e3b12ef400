/-
GpuMemoryService.RegionHistories — what an arena remembers of its history.

Arenas with the same live regions can still differ: in the ids of their
regions, which count the regions in the order they were made, in what a
free region keeps of the regions it was cut from, and in the summary cache.
`Alike` is agreement on everything else.

No operation looks at the rest. On alike arenas it answers alike, region
ids apart, and leaves alike arenas: one lemma for each operation. And
arenas with the same live regions are alike, whatever they have been
through (`alike_of_live`).
-/
import GpuMemoryService.Lib.Images
import GpuMemoryService.RegionCanonical

namespace GpuMemoryService.RegionAllocator

open Lib

/-! ## Alike arenas -/

/-- A region without its id. -/
def unnumbered (r : RegionInfo) : RegionInfo := { r with regionId := {} }

/-- What the operations look at: of a free region, the interval. -/
def visible (r : RegionInfo) : RegionInfo :=
  if r.live then unnumbered r else { live := false, offset := r.offset, size := r.size }

/-- The arenas agree on what the operations look at. -/
structure Alike (a b : RegionAllocator) : Prop where
  capacity : a.capacity = b.capacity
  regions : OrdMap.Agree visible a.regions b.regions
  allocOffset : a.allocOffset = b.allocOffset
  freeSlots : a.freeSlots = b.freeSlots
  liveBytes : a.liveBytes = b.liveBytes
  liveCount : a.liveCount = b.liveCount

/-- The outcomes of a call are alike. -/
structure AlikeOutcome (x y : Result RegionInfo × RegionAllocator) : Prop where
  answer : x.1.map unnumbered = y.1.map unnumbered
  arena : Alike x.2 y.2

theorem Alike.refl (a : RegionAllocator) : Alike a a :=
  ⟨rfl, OrdMap.Agree.refl _ _, rfl, rfl, rfl, rfl⟩

theorem Alike.symm {a b : RegionAllocator} (h : Alike a b) : Alike b a :=
  ⟨h.capacity.symm, h.regions.symm, h.allocOffset.symm, h.freeSlots.symm, h.liveBytes.symm,
    h.liveCount.symm⟩

theorem Alike.trans {a b c : RegionAllocator} (h : Alike a b) (h' : Alike b c) : Alike a c :=
  ⟨h.capacity.trans h'.capacity, h.regions.trans h'.regions, h.allocOffset.trans h'.allocOffset,
    h.freeSlots.trans h'.freeSlots, h.liveBytes.trans h'.liveBytes, h.liveCount.trans h'.liveCount⟩

section Visible

variable {r r' : RegionInfo}

@[simp] theorem visible_live : (visible r).live = r.live := by
  unfold visible
  split
  · rfl
  · rename_i hfree
    exact (Bool.eq_false_iff.mpr hfree).symm

@[simp] theorem visible_offset : (visible r).offset = r.offset := by
  unfold visible
  split <;> rfl

@[simp] theorem visible_size : (visible r).size = r.size := by
  unfold visible
  split <;> rfl

theorem visible_of_live (h : r.live = true) : visible r = unnumbered r := if_pos h

theorem visible_of_free (h : r.live = false) :
    visible r = { live := false, offset := r.offset, size := r.size } := by
  rw [visible, if_neg (by simp [h])]

theorem live_eq (h : visible r = visible r') : r.live = r'.live := by
  simpa using congrArg (·.live) h

theorem size_eq (h : visible r = visible r') : r.size = r'.size := by
  simpa using congrArg (·.size) h

/-- The ids apart, a live region is what the operations look at. -/
theorem unnumbered_eq (h : visible r = visible r') (hlive : r.live = true) :
    unnumbered r = unnumbered r' := by
  have hlive' : r'.live = true := live_eq h ▸ hlive
  rwa [visible_of_live hlive, visible_of_live hlive'] at h

theorem visible_eq (h : unnumbered r = unnumbered r') : visible r = visible r' := by
  have hlive : r.live = r'.live := congrArg (·.live) h
  have hoff : r.offset = r'.offset := congrArg (·.offset) h
  have hsize : r.size = r'.size := congrArg (·.size) h
  unfold visible
  rw [hlive, h, hoff, hsize]

/-- Alike outcomes: the same failure, or regions that differ in their ids. -/
theorem AlikeOutcome.cases {x y : Result RegionInfo × RegionAllocator} (h : AlikeOutcome x y) :
    (∃ f a b, x = (.error f, a) ∧ y = (.error f, b) ∧ Alike a b) ∨
      ∃ r r' a b, x = (.ok r, a) ∧ y = (.ok r', b) ∧ unnumbered r = unnumbered r' ∧ Alike a b := by
  obtain ⟨hanswer, harena⟩ := h
  obtain ⟨_ | r, a⟩ := x
  · obtain ⟨_ | r', b⟩ := y
    · cases hanswer
      exact Or.inl ⟨_, a, b, rfl, rfl, harena⟩
    · cases hanswer
  · obtain ⟨_ | r', b⟩ := y
    · cases hanswer
    · exact Or.inr ⟨r, r', a, b, rfl, rfl, Except.ok.inj hanswer, harena⟩

end Visible

/-! ## Lookups -/

section Lookups

variable {a b : RegionAllocator}

theorem Alike.freeBytes (h : Alike a b) : a.freeBytes = b.freeBytes := by
  unfold RegionAllocator.freeBytes
  rw [h.capacity, h.liveBytes]

theorem Alike.offsetOf (h : Alike a b) (id : AllocationId) : a.offsetOf id = b.offsetOf id := by
  unfold RegionAllocator.offsetOf
  rw [h.allocOffset]

/-- A handle is refused with the same text, or finds the same region. -/
theorem Alike.locate (h : Alike a b) (id : AllocationId) (gen : AllocationGeneration)
    (unknown notLive stale : String) :
    (∃ f, a.locate id gen unknown notLive stale = .error f ∧
      b.locate id gen unknown notLive stale = .error f) ∨
    ∃ r r', a.locate id gen unknown notLive stale = .ok r ∧
      b.locate id gen unknown notLive stale = .ok r' ∧ unnumbered r = unnumbered r' := by
  unfold RegionAllocator.locate
  rw [h.allocOffset]
  cases b.allocOffset.find? id with
  | none => exact Or.inl ⟨_, rfl, rfl⟩
  | some off =>
      rcases h.regions.find? off with ⟨ha, hb⟩ | ⟨r, r', ha, hb, hvisible⟩
      · simp only [ha, hb]
        exact Or.inl ⟨_, rfl, rfl⟩
      · simp only [ha, hb, ← live_eq hvisible]
        cases hlive : r.live with
        | false => exact Or.inl ⟨_, rfl, rfl⟩
        | true =>
            have hsame := unnumbered_eq hvisible hlive
            have hgen : r.allocGeneration = r'.allocGeneration := congrArg (·.allocGeneration) hsame
            rw [← hgen]
            by_cases hstale : (r.allocGeneration != gen) = true
            · simp only [hstale, if_true, Bool.not_true, Bool.false_eq_true, if_false]
              exact Or.inl ⟨_, rfl, rfl⟩
            · simp only [hstale, Bool.not_true, Bool.false_eq_true, if_false]
              exact Or.inr ⟨r, r', rfl, rfl, hsame⟩

end Lookups

/-! ## Allocation -/

section Allocation

variable {a b : RegionAllocator}

/-- Taking a region out. -/
theorem Alike.erase (h : Alike a b) (off : UInt64) {s s' : OrdSet FreeSlot} (hs : s = s') :
    Alike { a with regions := a.regions.erase off, freeSlots := s }
      { b with regions := b.regions.erase off, freeSlots := s' } where
  capacity := h.capacity
  regions := h.regions.erase off
  allocOffset := h.allocOffset
  freeSlots := hs
  liveBytes := h.liveBytes
  liveCount := h.liveCount

theorem Alike.putFree (h : Alike a b) (off size : UInt64) (p q : Provenance) :
    Alike (a.putFree off size p) (b.putFree off size q) where
  capacity := h.capacity
  regions := h.regions.emplace off rfl
  allocOffset := h.allocOffset
  freeSlots := by simp only [RegionAllocator.putFree, h.freeSlots]
  liveBytes := h.liveBytes
  liveCount := h.liveCount

theorem Alike.putFreeIf (h : Alike a b) (off size : UInt64) (p q : Provenance) :
    Alike (a.putFreeIf off size p) (b.putFreeIf off size q) := by
  unfold RegionAllocator.putFreeIf
  split
  · exact h.putFree off size p q
  · exact h

/-- Putting the granted region in. -/
theorem Alike.emplace (h : Alike a b) (req : AllocRequest) (off aligned : UInt64) :
    Alike
      { a with
        nextRegionId := a.nextRegionId + 1
        regions := a.regions.emplace off (a.liveRegion req off aligned) }
      { b with
        nextRegionId := b.nextRegionId + 1
        regions := b.regions.emplace off (b.liveRegion req off aligned) } where
  capacity := h.capacity
  regions := h.regions.emplace off rfl
  allocOffset := h.allocOffset
  freeSlots := h.freeSlots
  liveBytes := h.liveBytes
  liveCount := h.liveCount

/-- Counting it. -/
theorem Alike.charge (h : Alike a b) (id : AllocationId) (off bytes : UInt64) :
    Alike
      { a with
        liveBytes := a.liveBytes + bytes
        liveCount := a.liveCount + 1
        allocOffset := a.allocOffset.insert id off
        summaryDirty := true }
      { b with
        liveBytes := b.liveBytes + bytes
        liveCount := b.liveCount + 1
        allocOffset := b.allocOffset.insert id off
        summaryDirty := true } where
  capacity := h.capacity
  regions := h.regions
  allocOffset := by simp only [h.allocOffset]
  freeSlots := h.freeSlots
  liveBytes := by simp only [h.liveBytes]
  liveCount := by simp only [h.liveCount]

theorem Alike.place (h : Alike a b) (req : AllocRequest) (aligned : UInt64) (slot : FreeSlot)
    (front : UInt64) :
    unnumbered (a.place req aligned slot front).1 = unnumbered (b.place req aligned slot front).1 ∧
      Alike (a.place req aligned slot front).2 (b.place req aligned slot front).2 := by
  refine ⟨rfl, ?_⟩
  have htaken := h.erase slot.offset (congrArg (OrdMap.erase · slot) h.freeSlots)
  have hfronted := htaken.putFreeIf slot.offset front
    ((a.regions.find? slot.offset).getD {}).provenance
    ((b.regions.find? slot.offset).getD {}).provenance
  have hplaced := hfronted.emplace req (slot.offset + front) aligned
  exact (hplaced.putFreeIf (slot.offset + front + aligned) (slot.size - front - aligned) _ _).charge
    req.allocId (slot.offset + front) aligned

theorem Alike.allocate (h : Alike a b) (req : AllocRequest) :
    AlikeOutcome (a.allocate req) (b.allocate req) := by
  unfold RegionAllocator.allocate
  rw [h.capacity, h.freeSlots, h.freeBytes]
  split
  · exact ⟨rfl, h⟩
  split
  · exact ⟨rfl, h⟩
  split
  · exact ⟨rfl, h⟩
  extract_lets aligned
  split
  · exact ⟨rfl, h⟩
  split
  · exact ⟨rfl, h⟩
  split
  · obtain ⟨hlive, harena⟩ := h.place req aligned _ _
    exact ⟨congrArg Except.ok hlive, harena⟩
  · split
    · exact ⟨rfl, h⟩
    · exact ⟨rfl, h⟩

end Allocation

/-! ## Freeing -/

section Freeing

variable {a b : RegionAllocator}

theorem Alike.absorbLeft (h : Alike a b) (off : UInt64) :
    (a.absorbLeft off).1 = (b.absorbLeft off).1 ∧ Alike (a.absorbLeft off).2 (b.absorbLeft off).2 := by
  unfold RegionAllocator.absorbLeft
  rcases h.regions.getLast?_below off with ⟨ha, hb⟩ | ⟨k, r, r', ha, hb, hvisible⟩
  · rw [ha, hb]
    exact ⟨rfl, h⟩
  · rw [ha, hb]
    simp only [live_eq hvisible, size_eq hvisible]
    split
    · exact ⟨rfl, h.erase k (congrArg (unindexFree · k r'.size) h.freeSlots)⟩
    · exact ⟨rfl, h⟩

theorem Alike.absorbRight (h : Alike a b) (off hi : UInt64) :
    (a.absorbRight off hi).1 = (b.absorbRight off hi).1 ∧
      Alike (a.absorbRight off hi).2 (b.absorbRight off hi).2 := by
  unfold RegionAllocator.absorbRight
  rcases h.regions.head?_lowerBound off with ⟨ha, hb⟩ | ⟨k, r, r', ha, hb, hvisible⟩
  · rw [ha, hb]
    exact ⟨rfl, h⟩
  · rw [ha, hb]
    simp only [live_eq hvisible, size_eq hvisible]
    split
    · exact ⟨rfl, h.erase k (congrArg (unindexFree · k r'.size) h.freeSlots)⟩
    · exact ⟨rfl, h⟩

/-- The cache is not compared. -/
theorem Alike.dirty (h : Alike a b) :
    Alike { a with summaryDirty := true } { b with summaryDirty := true } :=
  ⟨h.capacity, h.regions, h.allocOffset, h.freeSlots, h.liveBytes, h.liveCount⟩

theorem Alike.canonicalizeFree (h : Alike a b) (off size : UInt64) :
    AlikeOutcome (a.canonicalizeFree off size) (b.canonicalizeFree off size) := by
  unfold RegionAllocator.canonicalizeFree
  rw [h.capacity]
  split
  · exact ⟨rfl, h⟩
  split
  · exact ⟨rfl, h⟩
  · obtain ⟨hlo, hleft⟩ := h.absorbLeft off
    obtain ⟨hhi, hmerged⟩ := hleft.absorbRight off (off + size)
    simp only [hlo, hhi]
    exact ⟨rfl, (hmerged.putFree _ _ .derived .derived).dirty⟩

theorem Alike.free (h : Alike a b) (id : AllocationId) (gen : AllocationGeneration) :
    AlikeOutcome (a.free id gen) (b.free id gen) := by
  unfold RegionAllocator.free
  rcases h.locate id gen "unknown or already-freed allocation" "allocation region is not live"
      "stale allocation generation on free" with ⟨f, ha, hb⟩ | ⟨r, r', ha, hb, hsame⟩
  · simp only [ha, hb]
    exact ⟨rfl, h⟩
  · have hsize : r.size = r'.size := congrArg (·.size) hsame
    simp only [ha, hb, h.offsetOf, hsize]
    refine Alike.canonicalizeFree ?_ _ _
    exact
      { capacity := h.capacity
        regions := h.regions.erase _
        allocOffset := by simp only [h.allocOffset]
        freeSlots := h.freeSlots
        liveBytes := by simp only [h.liveBytes]
        liveCount := by simp only [h.liveCount] }

end Freeing

/-! ## Relocation -/

section Relocation

variable {a b : RegionAllocator}

theorem overlapsLive_visible (ra : RegionAllocator) (lo hi : UInt64) :
    { ra with regions := ra.regions.mapValues visible }.overlapsLive lo hi
      = ra.overlapsLive lo hi := by
  unfold overlapsLive
  rw [OrdMap.below_mapValues, OrdMap.lowerBound_mapValues, List.getLast?_map,
    List.takeWhile_map, List.any_map]
  cases (ra.regions.below lo).getLast? <;> simp [Function.comp_def]

theorem Alike.overlapsLive (h : Alike a b) (lo hi : UInt64) :
    a.overlapsLive lo hi = b.overlapsLive lo hi := by
  rw [← overlapsLive_visible a, ← overlapsLive_visible b]
  unfold RegionAllocator.overlapsLive
  rw [show a.regions.mapValues visible = b.regions.mapValues visible from h.regions]

/-- One round of the carving loop. -/
theorem carveStep_visible (lo hi : UInt64) (next : OrdMap UInt64 RegionInfo)
    (slots : OrdSet FreeSlot) (e : UInt64 × RegionInfo) :
    carveStep lo hi (next.mapValues visible, slots) (e.1, visible e.2)
      = ((carveStep lo hi (next, slots) e).1.mapValues visible,
          (carveStep lo hi (next, slots) e).2) := by
  obtain ⟨s, r⟩ := e
  cases hlive : r.live with
  | true =>
      simp only [carveStep, visible_live, hlive, if_true, OrdMap.mapValues_insert]
  | false =>
      simp only [carveStep, visible_live, visible_size, hlive, Bool.false_eq_true, if_false]
      split
      · simp only [OrdMap.mapValues_insert]
      have hpart : ∀ off n, visible { r with live := false, offset := off, size := n }
          = { visible r with live := false, offset := off, size := n } := by
        intro off n
        rw [visible_of_free hlive]
        rfl
      split <;> split <;> simp only [OrdMap.mapValues_insert, hpart]

/-- The loop, from any state. -/
theorem foldl_carveStep_visible (lo hi : UInt64) (l : List (UInt64 × RegionInfo))
    (next : OrdMap UInt64 RegionInfo) (slots : OrdSet FreeSlot) :
    (l.map (fun e => (e.1, visible e.2))).foldl (carveStep lo hi) (next.mapValues visible, slots)
      = ((l.foldl (carveStep lo hi) (next, slots)).1.mapValues visible,
          (l.foldl (carveStep lo hi) (next, slots)).2) := by
  induction l generalizing next slots with
  | nil => rfl
  | cons e l ih => rw [List.map_cons, List.foldl_cons, List.foldl_cons, carveStep_visible, ih]

theorem Alike.carve (h : Alike a b) (lo hi : UInt64) : Alike (a.carve lo hi) (b.carve lo hi) := by
  have hentries : a.regions.entries.map (fun e => (e.1, visible e.2))
      = b.regions.entries.map (fun e => (e.1, visible e.2)) := congrArg OrdMap.entries h.regions
  have hloop := foldl_carveStep_visible lo hi a.regions.entries .empty a.freeSlots
  rw [hentries, foldl_carveStep_visible, Prod.mk.injEq] at hloop
  unfold RegionAllocator.carve
  rw [← h.freeSlots]
  exact ⟨h.capacity, hloop.1.symm, h.allocOffset, hloop.2.symm, h.liveBytes, h.liveCount⟩

theorem Alike.relocate (h : Alike a b) (id : AllocationId) (gen : AllocationGeneration)
    (o n al : UInt64) : AlikeOutcome (a.relocate id gen o n al) (b.relocate id gen o n al) := by
  unfold RegionAllocator.relocate
  rcases h.locate id gen "unknown allocation" "allocation region is not live"
      "stale generation on relocate" with ⟨f, ha, hb⟩ | ⟨r, r', ha, hb, hsame⟩
  · simp only [ha, hb]
    exact ⟨rfl, h⟩
  have hsize : r.size = r'.size := congrArg (·.size) hsame
  have hremoved := h.erase (a.offsetOf id) h.freeSlots
  simp only [ha, hb, ← h.offsetOf, ← hsize, ← h.overlapsLive, ← h.capacity]
  iterate 5
    split
    · exact ⟨rfl, h⟩
  have hcarved : Alike
      (RegionAllocator.carve { a with
        regions := a.regions.erase (a.offsetOf id)
        allocOffset := a.allocOffset.erase id } o (o + n))
      (RegionAllocator.carve { b with
        capacity := a.capacity
        regions := b.regions.erase (a.offsetOf id)
        allocOffset := b.allocOffset.erase id } o (o + n)) := by
    refine Alike.carve ?_ o (o + n)
    exact ⟨rfl, hremoved.regions, by simp only [h.allocOffset], h.freeSlots, h.liveBytes,
      h.liveCount⟩
  rcases (hcarved.canonicalizeFree (a.offsetOf id) r.size).cases with
    ⟨f, ca, cb, hca, hcb, halike⟩ | ⟨s, s', ca, cb, hca, hcb, _, halike⟩
  · rw [hca, hcb]
    exact ⟨rfl, halike⟩
  · rw [hca, hcb]
    have hmoved : unnumbered (movedRegion r gen o n al) = unnumbered (movedRegion r' gen o n al) :=
      congrArg (movedRegion · gen o n al) hsame
    refine ⟨congrArg Except.ok hmoved, ?_⟩
    exact
      { capacity := halike.capacity
        regions := halike.regions.emplace o (visible_eq hmoved)
        allocOffset := by simp only [halike.allocOffset]
        freeSlots := halike.freeSlots
        liveBytes := by simp only [halike.liveBytes]
        liveCount := halike.liveCount }

end Relocation

/-! ## Pins and queries -/

section Queries

variable {a b : RegionAllocator}

/-- Rewriting a region in place. -/
theorem Alike.rewrite (h : Alike a b) (off : UInt64) {r r' : RegionInfo}
    (hr : unnumbered r = unnumbered r') :
    Alike { a with regions := a.regions.insert off r } { b with regions := b.regions.insert off r' } where
  capacity := h.capacity
  regions := h.regions.insert off (visible_eq hr)
  allocOffset := h.allocOffset
  freeSlots := h.freeSlots
  liveBytes := h.liveBytes
  liveCount := h.liveCount

theorem Alike.pin (h : Alike a b) (id : AllocationId) (gen : AllocationGeneration) :
    AlikeOutcome (a.pin id gen) (b.pin id gen) := by
  unfold RegionAllocator.pin
  rcases h.locate id gen "unknown allocation" "allocation not live" "stale generation on pin" with
    ⟨f, ha, hb⟩ | ⟨r, r', ha, hb, hsame⟩
  · simp only [ha, hb]
    exact ⟨rfl, h⟩
  · have hpinned : unnumbered { r with movability := .pinned, pinCount := r.pinCount + 1 }
        = unnumbered { r' with movability := .pinned, pinCount := r'.pinCount + 1 } :=
      congrArg (fun r => { r with movability := .pinned, pinCount := r.pinCount + 1 }) hsame
    simp only [ha, hb, h.offsetOf]
    exact ⟨congrArg Except.ok hpinned, h.rewrite _ hpinned⟩

theorem Alike.unpin (h : Alike a b) (id : AllocationId) (gen : AllocationGeneration) :
    AlikeOutcome (a.unpin id gen) (b.unpin id gen) := by
  unfold RegionAllocator.unpin
  rcases h.locate id gen "unknown allocation" "allocation not live" "stale generation on unpin" with
    ⟨f, ha, hb⟩ | ⟨r, r', ha, hb, hsame⟩
  · simp only [ha, hb]
    exact ⟨rfl, h⟩
  · have hcount : r.pinCount = r'.pinCount := congrArg (·.pinCount) hsame
    have hmove : r.movability = r'.movability := congrArg (·.movability) hsame
    simp only [ha, hb, h.offsetOf, hcount, hmove]
    split
    · exact ⟨rfl, h⟩
    · have hunpinned : ∀ n m, unnumbered { r with pinCount := n, movability := m }
          = unnumbered { r' with pinCount := n, movability := m } := fun n m =>
        congrArg (fun r => { r with pinCount := n, movability := m }) hsame
      exact ⟨congrArg Except.ok (hunpinned _ _), h.rewrite _ (hunpinned _ _)⟩

theorem Alike.get (h : Alike a b) (id : AllocationId) (gen : AllocationGeneration) :
    (∃ f, a.get id gen = .error f ∧ b.get id gen = .error f) ∨
      ∃ r r', a.get id gen = .ok r ∧ b.get id gen = .ok r' := by
  rcases h.locate id gen "unknown allocation" "allocation not live" "stale generation on query" with
    hrefused | ⟨r, r', ha, hb, _⟩
  · exact Or.inl hrefused
  · exact Or.inr ⟨r, r', ha, hb⟩

/-- The summary is a cache. -/
theorem alike_ensureSummary (a : RegionAllocator) : Alike a a.ensureSummary := by
  unfold RegionAllocator.ensureSummary
  split
  · exact Alike.refl a
  · exact ⟨rfl, OrdMap.Agree.refl _ _, rfl, rfl, rfl, rfl⟩

theorem Alike.ensureSummary (h : Alike a b) : Alike a.ensureSummary b.ensureSummary :=
  (alike_ensureSummary a).symm.trans (h.trans (alike_ensureSummary b))

theorem Alike.largestFreeRegion (h : Alike a b) (ha : Cached a) (hb : Cached b) :
    a.largestFreeRegion = b.largestFreeRegion := by
  rw [ha.largestFreeRegion, hb.largestFreeRegion, h.freeSlots]

theorem Alike.freeRegionCount (h : Alike a b) (ha : Cached a) (hb : Cached b) :
    a.freeRegionCount = b.freeRegionCount := by
  rw [ha.freeRegionCount, hb.freeRegionCount, h.freeSlots]

theorem Alike.externalFragmentation (h : Alike a b) (ha : Cached a) (hb : Cached b) :
    a.externalFragmentation = b.externalFragmentation := by
  have hlargest : a.ensureSummary.largestFree = b.ensureSummary.largestFree :=
    h.largestFreeRegion ha hb
  unfold RegionAllocator.externalFragmentation
  simp only [h.ensureSummary.freeBytes, hlargest]

theorem Alike.bytesWith (h : Alike a b) (m : Movability) : a.bytesWith m = b.bytesWith m := by
  unfold RegionAllocator.bytesWith
  refine h.regions.foldl_eq (fun s k r r' hvisible => ?_) 0
  -- a free region counts for nothing, a live one is all visible
  simp only [← live_eq hvisible, ← size_eq hvisible]
  cases hlive : r.live with
  | false => rfl
  | true =>
      have hmove : r.movability = r'.movability :=
        congrArg (·.movability) (unnumbered_eq hvisible hlive)
      rw [hmove]

theorem filter_map_visible (p : Bool → Bool) (l : List RegionInfo) :
    (l.filter (fun r => p r.live)).map visible = (l.map visible).filter (fun r => p r.live) := by
  rw [List.filter_map]
  congr 1
  exact List.filter_congr (fun r _ => by simp)

theorem Alike.snapshotLive (h : Alike a b) :
    a.snapshotLive.map visible = b.snapshotLive.map visible := by
  unfold RegionAllocator.snapshotLive
  rw [filter_map_visible (fun l => l), filter_map_visible (fun l => l), h.regions.values]

theorem Alike.snapshotFree (h : Alike a b) :
    a.snapshotFree.map visible = b.snapshotFree.map visible := by
  unfold RegionAllocator.snapshotFree
  rw [filter_map_visible not, filter_map_visible not, h.regions.values]

end Queries

/-! ## The same live regions -/

section Live

variable {a b : RegionAllocator}

/-- Of the live regions everything but the ids is looked at. -/
theorem Alike.live (h : Alike a b) :
    a.snapshotLive.map unnumbered = b.snapshotLive.map unnumbered := by
  have hall : ∀ ra : RegionAllocator, ra.snapshotLive.map visible = ra.snapshotLive.map unnumbered := by
    intro ra
    refine List.map_congr_left (fun r hr => visible_of_live ?_)
    exact (List.mem_filter.mp hr).2
  rw [← hall, ← hall, h.snapshotLive]

theorem mem_map_live {l l' : List RegionInfo} (h : l.map unnumbered = l'.map unnumbered)
    {r : RegionInfo} (hr : r ∈ l) : ∃ r' ∈ l', unnumbered r' = unnumbered r := by
  have hmem : unnumbered r ∈ l'.map unnumbered := h ▸ List.mem_map_of_mem hr
  exact List.mem_map.mp hmem

/-- What is in one arena under an offset is in the other, ids apart. -/
theorem find?_of_live (ha : Inv a) (hb : Inv b)
    (hlive : a.snapshotLive.map unnumbered = b.snapshotLive.map unnumbered)
    (hslots : a.freeSlots = b.freeSlots) {k : UInt64} {v : RegionInfo}
    (hf : (a.regions.mapValues visible).find? k = some v) :
    (b.regions.mapValues visible).find? k = some v := by
  rw [OrdMap.find?_mapValues] at hf ⊢
  obtain ⟨r, hr, rfl⟩ := Option.map_eq_some_iff.mp hf
  have hoff := ha.layout.keyed hr
  cases hl : r.live with
  | true =>
      have hmem : r ∈ a.snapshotLive := ha.mem_snapshotLive.mpr ⟨by rw [hoff]; exact hr, hl⟩
      obtain ⟨r', hr', hsame⟩ := mem_map_live hlive hmem
      have hoff' : r'.offset = r.offset := congrArg (·.offset) hsame
      have hfound := (hb.mem_snapshotLive.mp hr').1
      rw [hoff', hoff] at hfound
      rw [hfound, Option.map_some, visible_eq hsame]
  | false =>
      have hslot : (⟨r.size, k⟩ : FreeSlot) ∈ b.freeSlots := by
        rw [← hslots]
        exact (ha.layout.slots _).mpr ⟨r, hr, hl, rfl⟩
      obtain ⟨r', hr', hl', hsize⟩ := (hb.layout.slots _).mp hslot
      have hoff' := hb.layout.keyed hr'
      rw [hr', Option.map_some, visible_of_free hl, visible_of_free hl', hoff, hoff', hsize]

theorem index_of_live (ha : Inv a) (hb : Inv b) (hib : b.Indexed)
    (hlive : a.snapshotLive.map unnumbered = b.snapshotLive.map unnumbered) {id : AllocationId}
    {off : UInt64} (hf : a.allocOffset.find? id = some off) : b.allocOffset.find? id = some off := by
  obtain ⟨r, hr, hid⟩ := ha.index hf
  have hoff := ha.layout.keyed hr.1
  have hmem : r ∈ a.snapshotLive := ha.mem_snapshotLive.mpr (by rw [hoff]; exact hr)
  obtain ⟨r', hr', hsame⟩ := mem_map_live hlive hmem
  have hoff' : r'.offset = r.offset := congrArg (·.offset) hsame
  have hid' : r'.allocId = r.allocId := congrArg (·.allocId) hsame
  have hindexed := hib (hb.mem_snapshotLive.mp hr')
  rwa [hid', hid, hoff', hoff] at hindexed

/-- **History is not remembered**: arenas of one capacity with the same live
regions, ids apart, are alike. -/
theorem alike_of_live (ha : Inv a) (hb : Inv b) (hia : a.Indexed) (hib : b.Indexed)
    (hcap : a.capacity = b.capacity)
    (hlive : a.snapshotLive.map unnumbered = b.snapshotLive.map unnumbered) : Alike a b := by
  have hintervals : a.liveIntervals = b.liveIntervals := by
    have hmap := congrArg (List.map interval) hlive
    rw [List.map_map, List.map_map] at hmap
    exact hmap
  have hslots := freeSlots_of_live ha hb hcap (fun i => by rw [hintervals])
  have hregions : OrdMap.Agree visible a.regions b.regions :=
    OrdMap.ext_find? (fun k => Option.ext (fun v =>
      ⟨find?_of_live ha hb hlive hslots, find?_of_live hb ha hlive.symm hslots.symm⟩))
  have hindex : a.allocOffset = b.allocOffset :=
    OrdMap.ext_find? (fun id => Option.ext (fun off =>
      ⟨index_of_live ha hb hib hlive, index_of_live hb ha hia hlive.symm⟩))
  exact
    { capacity := hcap
      regions := hregions
      allocOffset := hindex
      freeSlots := hslots
      liveBytes := by
        rw [← UInt64.toNat_inj, ha.bytes, hb.bytes]
        exact hregions.weigh_eq (fun k r r' hv => by simp [liveSize, live_eq hv, size_eq hv])
      liveCount := by
        rw [← UInt64.toNat_inj, ha.count, hb.count]
        exact hregions.weigh_eq (fun k r r' hv => by simp [liveOne, live_eq hv]) }

end Live

end GpuMemoryService.RegionAllocator
