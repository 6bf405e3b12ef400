/-
GpuMemoryService.RegionCanonical — the layout is a function of the live
set.

Histories split and coalesce free space along different paths: front
pads, tails, the two halves of a carved region, merges to the left and to
the right. `SameLayout` is what a client can see of the result: the free
intervals in order, the size index, and the two cached figures.

`sameLayout_of_live` is the canonical-form law of `Lib.Partition` at this
allocator: the free regions are the maximal runs of bytes outside the live
ones, so two reachable allocators with the same live intervals agree on
all four, whatever their callers did. The ids and provenance of free
regions record their history and are not part of the layout.

Everything else follows from which regions are live after a run of frees
(`mem_snapshotLive_freeAll`), which does not depend on the order.
-/
import GpuMemoryService.RegionActions
import GpuMemoryService.RegionOwnership

namespace GpuMemoryService.RegionAllocator

open Lib

/-! ## Layouts -/

/-- The offset and size of a region. -/
def interval (r : RegionInfo) : UInt64 × UInt64 := (r.offset, r.size)

def liveIntervals (ra : RegionAllocator) : List (UInt64 × UInt64) := ra.snapshotLive.map interval

def freeIntervals (ra : RegionAllocator) : List (UInt64 × UInt64) := ra.snapshotFree.map interval

/-- The two allocators have the same free space, indexed and summarised
alike. -/
structure SameLayout (ra ra' : RegionAllocator) : Prop where
  free : ra.freeIntervals = ra'.freeIntervals
  slots : ra.freeSlots = ra'.freeSlots
  largest : ra.largestFreeRegion = ra'.largestFreeRegion
  count : ra.freeRegionCount = ra'.freeRegionCount

section Layouts

variable {ra ra' : RegionAllocator}

/-- The free bytes are the bytes outside the live intervals. -/
theorem Inv.mem_free_bytes (hinv : Inv ra) {b : Nat} :
    b ∈ Partitions.coveredBy UInt64.toNat sizeNat (fun r => r.live = false) ra.regions ↔
      b < ra.capacity.toNat ∧
        ∀ i ∈ ra.liveIntervals, ¬ (i.1.toNat ≤ b ∧ b < i.1.toNat + i.2.toNat) := by
  constructor
  · rintro ⟨k, r, hf, hfree, hb⟩
    refine ⟨((hinv.layout.part.covers b).mpr ⟨k, r, hf, hb⟩).2, fun i hi hbi => ?_⟩
    obtain ⟨r', hr', rfl⟩ := List.mem_map.mp hi
    have hlive := hinv.mem_snapshotLive.mp hr'
    obtain rfl := hinv.layout.part.shared toNat_strictMono.injective hf hlive.1 hb
      (mem_bytesAt.mpr hbi)
    rw [hlive.1] at hf
    cases hf
    rw [hlive.2] at hfree
    cases hfree
  · rintro ⟨hlt, hout⟩
    obtain ⟨k, r, hf, hb⟩ := (hinv.layout.part.covers b).mp ⟨Nat.zero_le b, hlt⟩
    refine ⟨k, r, hf, ?_, hb⟩
    by_contra hlive
    have hoff := hinv.layout.keyed hf
    have hmem : r ∈ ra.snapshotLive :=
      hinv.mem_snapshotLive.mpr ⟨by rw [hoff]; exact hf, by simpa using hlive⟩
    refine hout _ (List.mem_map_of_mem hmem) ?_
    rw [interval, hoff]
    exact mem_bytesAt.mp hb

theorem Inv.mem_freeIntervals (hinv : Inv ra) {i : UInt64 × UInt64} :
    i ∈ ra.freeIntervals ↔ (⟨i.2, i.1⟩ : FreeSlot) ∈ ra.freeSlots := by
  rw [hinv.layout.slots]
  constructor
  · intro hi
    obtain ⟨r, hr, rfl⟩ := List.mem_map.mp hi
    obtain ⟨hf, hfree⟩ := hinv.mem_snapshotFree.mp hr
    exact ⟨r, hf, hfree, rfl⟩
  · rintro ⟨r, hf, hfree, hsize⟩
    have hoff := hinv.layout.keyed hf
    refine List.mem_map.mpr ⟨r, hinv.mem_snapshotFree.mpr ⟨by rw [hoff]; exact hf, hfree⟩, ?_⟩
    rw [interval, hoff, hsize]

/-- The free intervals are listed from the lowest offset up. -/
theorem Inv.sorted_freeIntervals (hinv : Inv ra) :
    ra.freeIntervals.Pairwise (fun a b => a.1 < b.1) := by
  have hoff : (ra.regions.entries.map (·.2)).Pairwise (fun a b => a.offset < b.offset) := by
    refine List.pairwise_map.mpr (ra.regions.sorted.imp_of_mem (fun {a b} ha hb hlt => ?_))
    have hka : a.2.offset = a.1 := hinv.layout.keyed (OrdMap.find?_eq_some_iff.mpr ha)
    have hkb : b.2.offset = b.1 := hinv.layout.keyed (OrdMap.find?_eq_some_iff.mpr hb)
    rwa [hka, hkb]
  exact List.pairwise_map.mpr (hoff.filter _)

/-- One half of the canonical form. -/
theorem slots_subset (hinv : Inv ra) (hinv' : Inv ra') (hcap : ra.capacity = ra'.capacity)
    (hlive : ∀ i, i ∈ ra.liveIntervals ↔ i ∈ ra'.liveIntervals) {s : FreeSlot}
    (hs : s ∈ ra.freeSlots) : s ∈ ra'.freeSlots := by
  obtain ⟨r, hf, hfree, hsize⟩ := (hinv.layout.slots s).mp hs
  have hbytes : Partitions.coveredBy UInt64.toNat sizeNat (fun r => r.live = false) ra.regions
      = Partitions.coveredBy UInt64.toNat sizeNat (fun r => r.live = false) ra'.regions := by
    ext b
    rw [hinv.mem_free_bytes, hinv'.mem_free_bytes, hcap]
    simp only [hlive]
  have hpart' := hinv'.layout.part
  rw [← hcap] at hpart'
  obtain ⟨r', hf', hfree', hlen⟩ := hinv.layout.part.canonical toNat_strictMono.injective hpart'
    hinv.layout.merged hinv'.layout.merged hbytes hf hfree
  refine (hinv'.layout.slots s).mpr ⟨r', hf', hfree', ?_⟩
  rw [← hsize]
  exact UInt64.toNat_inj.mp hlen

theorem freeSlots_of_live (hinv : Inv ra) (hinv' : Inv ra') (hcap : ra.capacity = ra'.capacity)
    (hlive : ∀ i, i ∈ ra.liveIntervals ↔ i ∈ ra'.liveIntervals) : ra.freeSlots = ra'.freeSlots := by
  have hmem : ∀ s, s ∈ ra.freeSlots ↔ s ∈ ra'.freeSlots := fun s =>
    ⟨slots_subset hinv hinv' hcap hlive,
      slots_subset hinv' hinv hcap.symm (fun i => (hlive i).symm)⟩
  refine OrdMap.ext_find? (fun s => Option.ext (fun u => ?_))
  have := hmem s
  rw [OrdMap.mem_iff_find?, OrdMap.mem_iff_find?] at this
  cases u
  constructor
  · exact fun h => (this.mp ⟨_, h⟩).choose_spec
  · exact fun h => (this.mpr ⟨_, h⟩).choose_spec

theorem freeIntervals_of_slots (hinv : Inv ra) (hinv' : Inv ra')
    (hslots : ra.freeSlots = ra'.freeSlots) : ra.freeIntervals = ra'.freeIntervals := by
  let m : OrdMap UInt64 UInt64 := ⟨ra.freeIntervals, hinv.sorted_freeIntervals⟩
  let m' : OrdMap UInt64 UInt64 := ⟨ra'.freeIntervals, hinv'.sorted_freeIntervals⟩
  have hsame : m = m' := by
    refine OrdMap.ext_find? (fun k => Option.ext (fun n => ?_))
    rw [OrdMap.find?_eq_some_iff, OrdMap.find?_eq_some_iff, hinv.mem_freeIntervals,
      hinv'.mem_freeIntervals, hslots]
  exact congrArg OrdMap.entries hsame

/-- **Canonical layout.** Consistent allocators of one capacity with the
same live intervals have the same layout. -/
theorem sameLayout_of_live {capacity : UInt64} (h : Consistent capacity ra)
    (h' : Consistent capacity ra')
    (hlive : ∀ i, i ∈ ra.liveIntervals ↔ i ∈ ra'.liveIntervals) : SameLayout ra ra' := by
  have hcap : ra.capacity = ra'.capacity := h.capacity_eq.trans h'.capacity_eq.symm
  have hslots := freeSlots_of_live h.inv h'.inv hcap hlive
  exact
    { free := freeIntervals_of_slots h.inv h'.inv hslots
      slots := hslots
      largest := by rw [h.cached.largestFreeRegion, h'.cached.largestFreeRegion, hslots]
      count := by rw [h.cached.freeRegionCount, h'.cached.freeRegionCount, hslots] }

end Layouts

/-! ## Runs of frees -/

/-- The handle of a live region. -/
def handleOf (r : RegionInfo) : Handle := (r.allocId, r.allocGeneration)

/-- Free the handles one after another. -/
def freeAll (ra : RegionAllocator) (hs : List Handle) : RegionAllocator :=
  run perform ra (hs.map (fun h => .free h.1 h.2))

section Frees

variable {ra : RegionAllocator} {capacity : UInt64}

theorem perform_reached (h : Reached capacity ra) (c : Call) (hfresh : FreshId ra c) :
    Reached capacity (ra.perform c).2 :=
  act_reached h (.call c) hfresh

theorem Sound.holds_iff (h : Sound capacity ra) {id : AllocationId} {gen : AllocationGeneration}
    {r : RegionInfo} : ra.Holds id gen r ↔ r ∈ ra.snapshotLive ∧ handleOf r = (id, gen) := by
  rw [h.inv.mem_snapshotLive, handleOf, Prod.mk.injEq]
  constructor
  · intro hr
    obtain ⟨_, hlive, hid⟩ := hr.liveAt h.inv
    exact ⟨hlive, hid, hr.2⟩
  · rintro ⟨hlive, rfl, rfl⟩
    exact ⟨lookup_eq_some_iff.mpr ⟨_, h.indexed hlive, hlive⟩, rfl⟩

/-- One free takes the region of its handle out of the live set, if there is
one. -/
theorem mem_snapshotLive_free (h : Sound capacity ra) (id : AllocationId)
    (gen : AllocationGeneration) (r : RegionInfo) :
    r ∈ (ra.free id gen).2.snapshotLive ↔ r ∈ ra.snapshotLive ∧ handleOf r ≠ (id, gen) := by
  have hafter : Inv (ra.free id gen).2 := (perform_sound h (.free id gen) trivial).inv
  rcases free_cases h.inv id gen with ⟨f, _, hnot, heq⟩ | ⟨o, f, ra', ho, heq, heff⟩
  · rw [heq]
    constructor
    · exact fun hr => ⟨hr, fun hh => hnot r (h.holds_iff.mpr ⟨hr, hh⟩)⟩
    · exact fun hr => hr.1
  · rw [heq] at hafter ⊢
    rw [hafter.mem_snapshotLive, heff.live, h.inv.mem_snapshotLive]
    constructor
    · rintro (⟨hnone, _⟩ | ⟨hlive, hout⟩)
      · cases hnone
      · refine ⟨hlive, fun hh => hout o rfl ?_⟩
        have hr := h.holds_iff.mpr ⟨h.inv.mem_snapshotLive.mpr hlive, hh⟩
        rw [hr.unique ho]
    · rintro ⟨hlive, hne⟩
      refine Or.inr ⟨hlive, fun o' ho' hoff => hne ?_⟩
      cases ho'
      obtain ⟨_, holive, _⟩ := ho.liveAt h.inv
      rw [hoff] at hlive
      rw [hlive.unique holive]
      exact (h.holds_iff.mp ho).2

theorem freeAll_reached (h : Reached capacity ra) (hs : List Handle) :
    Reached capacity (ra.freeAll hs) := by
  refine (guarded_of_forall_mem (g := FreshId) ?_).run_inv h
    (fun _ c hr hc => perform_reached hr c hc)
  intro c hc s
  obtain ⟨_, _, rfl⟩ := List.mem_map.mp hc
  trivial

/-- **After a run of frees** the live regions are those whose handle is not
in it, in whatever order and however often it names them. -/
theorem mem_snapshotLive_freeAll (h : Reached capacity ra) (hs : List Handle) (r : RegionInfo) :
    r ∈ (ra.freeAll hs).snapshotLive ↔ r ∈ ra.snapshotLive ∧ handleOf r ∉ hs := by
  induction hs generalizing ra with
  | nil => simp [freeAll]
  | cons hd hs ih =>
      have hstep := perform_reached h (.free hd.1 hd.2) trivial
      show r ∈ ((ra.perform (.free hd.1 hd.2)).2.freeAll hs).snapshotLive ↔ _
      rw [ih hstep, perform, mem_snapshotLive_free h.sound, List.mem_cons, not_or, and_assoc]

/-- Two runs of frees that name the same handles end in the same layout. -/
theorem freeAll_sameLayout (h : Reached capacity ra) {hs hs' : List Handle}
    (hsame : ∀ x, x ∈ hs ↔ x ∈ hs') : SameLayout (ra.freeAll hs) (ra.freeAll hs') := by
  refine sameLayout_of_live (freeAll_reached h hs).consistent (freeAll_reached h hs').consistent
    (fun i => ?_)
  simp only [liveIntervals, List.mem_map, mem_snapshotLive_freeAll h, hsame]

/-- A grant that is freed again leaves the layout as it was. -/
theorem allocate_free_sameLayout (h : Reached capacity ra) {req : AllocRequest}
    {live : RegionInfo} (hid : ra.isLive req.allocId = false)
    (hok : (ra.allocate req).1 = .ok live) :
    Accepted ((ra.allocate req).2.free req.allocId req.allocGeneration).1 ∧
      SameLayout ((ra.allocate req).2.free req.allocId req.allocGeneration).2 ra := by
  have hreach := perform_reached h (.allocate req) hid
  rcases allocate_cases h.sound.inv req with ⟨f, heq⟩ | ⟨live', ra', heq, hplaced⟩
  · rw [heq] at hok
    cases hok
  rw [perform, heq] at hreach
  rw [heq]
  obtain ⟨_, off, aligned, hmade⟩ := hplaced.made
  have hlook : ra'.lookup req.allocId = some live' := by
    rw [hplaced.effect.lookup_eq h.sound.inv, if_pos rfl]
  have hholds : ra'.Holds req.allocId req.allocGeneration live' := ⟨hlook, by rw [hmade]; rfl⟩
  constructor
  · rcases free_cases hreach.sound.inv req.allocId req.allocGeneration with
      ⟨_, _, hnot, _⟩ | ⟨_, f, _, _, hfree, _⟩
    · exact absurd hholds (hnot _)
    · exact ⟨f, by rw [hfree]⟩
  · have hfreed := perform_reached hreach (.free req.allocId req.allocGeneration) trivial
    refine sameLayout_of_live hfreed.consistent h.consistent (fun i => ?_)
    simp only [liveIntervals, List.mem_map, mem_snapshotLive_free hreach.sound]
    -- what is live after the grant and is not the granted region was live before
    have hback : ∀ r, (r ∈ ra'.snapshotLive ∧ handleOf r ≠ (req.allocId, req.allocGeneration)) ↔
        r ∈ ra.snapshotLive := by
      intro r
      rw [hreach.sound.inv.mem_snapshotLive, hplaced.effect.live, h.sound.inv.mem_snapshotLive]
      constructor
      · rintro ⟨⟨hnew, _⟩ | ⟨hlive, _⟩, hne⟩
        · cases hnew
          exact absurd (hreach.sound.holds_iff.mp hholds).2 hne
        · exact hlive
      · intro hlive
        refine ⟨Or.inr ⟨hlive, fun o ho => by cases ho⟩, fun hh => ?_⟩
        have : ra.isLive req.allocId = true :=
          isLive_iff.mpr ⟨_, r, hlive, congrArg Prod.fst hh⟩
        rw [hid] at this
        cases this
    simp only [hback]

/-- Freeing everything, in any order, leaves one free region. -/
theorem freeAll_drained (h : Reached capacity ra) (hcap : 0 < capacity.toNat) {hs : List Handle}
    (hall : ∀ r ∈ ra.snapshotLive, handleOf r ∈ hs) :
    (ra.freeAll hs).snapshotLive = [] ∧ (ra.freeAll hs).freeIntervals = [(0, capacity)] := by
  have hnone : ∀ r, r ∉ (ra.freeAll hs).snapshotLive := by
    intro r hr
    obtain ⟨hlive, hout⟩ := (mem_snapshotLive_freeAll h hs r).mp hr
    exact hout (hall r hlive)
  have hempty : (ra.freeAll hs).snapshotLive = [] := List.eq_nil_iff_forall_not_mem.mpr hnone
  have hnew : Consistent capacity (new capacity) := run_consistent hcap []
  have hsame : SameLayout (ra.freeAll hs) (new capacity) := by
    refine sameLayout_of_live (freeAll_reached h hs).consistent hnew (fun i => ?_)
    rw [liveIntervals, hempty]
    exact Iff.rfl
  exact ⟨hempty, hsame.free⟩

end Frees

/-! ## The layout law -/

/-- **Layout is a function of the live set**, for every capacity and any two
histories. For disciplined callers, hence, frees commute, a grant followed
by its free restores the layout, and a drained arena is one free region. -/
theorem layout_determined (capacity : UInt64) (hcap : capacity > 0) (actions : List Action) :
    let ra := run act (new capacity) actions
    (∀ actions',
      (∀ i, i ∈ ra.liveIntervals ↔ i ∈ (run act (new capacity) actions').liveIntervals) →
      SameLayout ra (run act (new capacity) actions')) ∧
    (Guarded act FreshAction (new capacity) actions →
      (∀ hs hs' : List Handle, (∀ x, x ∈ hs ↔ x ∈ hs') →
        SameLayout (ra.freeAll hs) (ra.freeAll hs') ∧
        ∀ r, r ∈ (ra.freeAll hs).snapshotLive ↔ r ∈ ra.snapshotLive ∧ handleOf r ∉ hs) ∧
      (∀ req live, ra.isLive req.allocId = false → (ra.allocate req).1 = .ok live →
        Accepted ((ra.allocate req).2.free req.allocId req.allocGeneration).1 ∧
        SameLayout ((ra.allocate req).2.free req.allocId req.allocGeneration).2 ra) ∧
      (∀ hs : List Handle, (∀ r ∈ ra.snapshotLive, handleOf r ∈ hs) →
        (ra.freeAll hs).snapshotLive = [] ∧ (ra.freeAll hs).freeIntervals = [(0, capacity)])) := by
  intro ra
  have hpos := UInt64.lt_iff_toNat_lt.mp hcap
  constructor
  · intro actions' hlive
    exact sameLayout_of_live (run_consistent hpos actions) (run_consistent hpos actions') hlive
  intro hfresh
  have h : Reached capacity ra := run_reached hpos hfresh
  refine ⟨?_, ?_, ?_⟩
  · intro hs hs' hsame
    exact ⟨freeAll_sameLayout h hsame, mem_snapshotLive_freeAll h hs⟩
  · intro req live hid hok
    exact allocate_free_sameLayout h hid hok
  · intro hs hall
    exact freeAll_drained h hpos hall

/-- The sample calls with a look at the cached figures in between. -/
def sampleActions : List Action :=
  sampleCalls.map .call ++ [.largestFreeRegion, .call (.unpin ⟨1⟩ ⟨2⟩)]

theorem sampleActions_drained :
    Guarded act FreshAction (new 100) sampleActions ∧
    (run act (new 100) sampleActions).liveIntervals = [(64, 20)] ∧
    ((run act (new 100) sampleActions).freeAll [(⟨1⟩, ⟨2⟩)]).freeIntervals = [(0, 100)] := by
  have hfresh : Guarded act FreshAction (new 100) sampleActions := by decide +kernel
  refine ⟨hfresh, by decide +kernel, ?_⟩
  exact (((layout_determined 100 (by decide) sampleActions).2 hfresh).2.2 _ (by decide +kernel)).2

end GpuMemoryService.RegionAllocator
