/-
GpuMemoryService.RegionOperations — what each call of the allocator does,
as an effect on the live regions.

One case lemma per operation: a rejected call returns the allocator it was
given, and an accepted one is an `Effect` together with the facts about
the region it returns. Nothing after this module unfolds an operation.
-/
import GpuMemoryService.RegionInvariant

namespace GpuMemoryService.RegionAllocator

open Lib

/-! ## `allocate` -/

section Allocate

variable {ra : RegionAllocator}

theorem regions_putFreeIf (ra : RegionAllocator) (k size : UInt64) (p : Provenance)
    (hf : size > 0 → ra.regions.find? k = none) :
    (ra.putFreeIf k size p).regions
      = if size > 0 then ra.regions.insert k (ra.freshFree k size p) else ra.regions := by
  unfold putFreeIf
  by_cases hc : size > 0
  · rw [if_pos hc, if_pos hc, putFree, OrdMap.emplace_of_none _ (hf hc)]
  · rw [if_neg hc, if_neg hc]

theorem freeSlots_putFreeIf (ra : RegionAllocator) (k size : UInt64) (p : Provenance) :
    (ra.putFreeIf k size p).freeSlots
      = if size > 0 then indexFree ra.freeSlots k size else ra.freeSlots := by
  unfold putFreeIf
  split <;> rfl

/-- Putting free space in keeps the capacity, the counters and the index. -/
theorem fields_putFreeIf (ra : RegionAllocator) (k size : UInt64) (p : Provenance) :
    (ra.putFreeIf k size p).capacity = ra.capacity ∧
    (ra.putFreeIf k size p).liveBytes = ra.liveBytes ∧
    (ra.putFreeIf k size p).liveCount = ra.liveCount ∧
    (ra.putFreeIf k size p).allocOffset = ra.allocOffset := by
  unfold putFreeIf
  split <;> exact ⟨rfl, rfl, rfl, rfl⟩

/-- What is granted: a region of the requested class, exactly as large as
the request rounded up to its alignment, inside one free region. -/
structure Placed (ra : RegionAllocator) (req : AllocRequest) (live : RegionInfo)
    (ra' : RegionAllocator) : Prop where
  effect : Effect ra ra' req.allocId none (some live)
  made : ∃ ra₀ : RegionAllocator, ∃ off aligned, live = ra₀.liveRegion req off aligned
  size : live.size.toNat = roundUp req.bytes.toNat req.alignment.toNat
  bytes_pos : 0 < req.bytes.toNat
  inside : ∃ k r, ra.regions.find? k = some r ∧ r.live = false ∧
    k.toNat ≤ live.offset.toNat ∧
    live.offset.toNat + live.size.toNat ≤ k.toNat + r.size.toNat

/-- The hole `place` opens in the slot's region. -/
theorem holeIn_slot (hinv : Inv ra) {aligned front off : UInt64} {slot : FreeSlot}
    {r : RegionInfo} (hf : ra.regions.find? slot.offset = some r) (hfree : r.live = false)
    (hsize : r.size = slot.size) (hoff : off.toNat = slot.offset.toNat + front.toNat)
    (hroom : front.toNat + aligned.toNat ≤ slot.size.toNat) (hpos : 0 < aligned.toNat)
    (ra₁ ra₂ : RegionAllocator) (p : Provenance) :
    HoleIn slot.offset r off.toNat aligned.toNat (ra₁.freshFree slot.offset front p)
      (off + aligned) (ra₂.freshFree (off + aligned) (slot.size - front - aligned) p)
      (front > 0) (slot.size - front - aligned > 0) := by
  have hcap := ra.capacity.toNat_lt
  have hend := hinv.end_le hf
  rw [hsize] at hend
  have hkt : (off + aligned).toNat = off.toNat + aligned.toNat := toNat_add_of_lt (by omega)
  have htail : (slot.size - front - aligned).toNat
      = slot.size.toNat - front.toNat - aligned.toNat := by
    have h1 := toNat_sub_of_ge (a := slot.size) (b := front) (by omega)
    rw [toNat_sub_of_ge (by omega), h1]
  refine ⟨hfree, hpos, by omega, by rw [hsize]; omega, rfl, rfl, ?_, ?_, rfl, hkt, rfl, ?_, ?_⟩
  · simp only [freshFree]; omega
  · simp only [freshFree, gt_iff_lt, UInt64.lt_iff_toNat_lt]; rfl
  · simp only [freshFree, hsize]; omega
  · simp only [freshFree, gt_iff_lt, UInt64.lt_iff_toNat_lt]; rfl

/-- `place` computes the slot's region with a hole filled by the live one;
besides that it only moves the counters and the index. -/
theorem place_eq (req : AllocRequest) (hinv : Inv ra) {aligned front off : UInt64}
    {slot : FreeSlot} {r : RegionInfo} (hf : ra.regions.find? slot.offset = some r)
    (hfree : r.live = false) (hsize : r.size = slot.size) (hdef : off = slot.offset + front)
    (hoff : off.toNat = slot.offset.toNat + front.toNat)
    (hroom : front.toNat + aligned.toNat ≤ slot.size.toNat) (hpos : 0 < aligned.toNat) :
    ∃ (ra₀ ra₁ ra₂ ra' : RegionAllocator) (p : Provenance),
      ra.place req aligned slot front = (ra₀.liveRegion req off aligned, ra') ∧
      ra'.regions = (carved ra.regions slot.offset (ra₁.freshFree slot.offset front p)
        (off + aligned) (ra₂.freshFree (off + aligned) (slot.size - front - aligned) p)
        (front > 0) (slot.size - front - aligned > 0)).insert off
          (ra₀.liveRegion req off aligned) ∧
      ra'.freeSlots = carvedSlots ra.freeSlots slot.offset r
        (ra₁.freshFree slot.offset front p) (off + aligned)
        (ra₂.freshFree (off + aligned) (slot.size - front - aligned) p)
        (front > 0) (slot.size - front - aligned > 0) ∧
      ra'.capacity = ra.capacity ∧ ra'.liveBytes = ra.liveBytes + aligned ∧
      ra'.liveCount = ra.liveCount + 1 ∧
      ra'.allocOffset = ra.allocOffset.insert req.allocId off := by
  have hcap := ra.capacity.toNat_lt
  have hend := hinv.end_le hf
  rw [hsize] at hend
  have hkt : (off + aligned).toNat = off.toNat + aligned.toNat := toNat_add_of_lt (by omega)
  have hslots : ra.freeSlots.erase slot = unindexFree ra.freeSlots slot.offset r.size := by
    rw [unindexFree, hsize]
  simp only [place, ← hdef, hslots]
  generalize ((ra.regions.find? slot.offset).getD {}).provenance = p
  -- the slot's region out, its front part back in
  generalize htaken : ({ ra with
    regions := ra.regions.erase slot.offset
    freeSlots := unindexFree ra.freeSlots slot.offset r.size } : RegionAllocator) = taken
  have htregions : taken.regions = ra.regions.erase slot.offset := by rw [← htaken]
  have htslots : taken.freeSlots = unindexFree ra.freeSlots slot.offset r.size := by rw [← htaken]
  have hfront := regions_putFreeIf taken slot.offset front p
    (fun _ => by rw [htregions]; exact OrdMap.find?_erase_self _ _)
  have hfslots := freeSlots_putFreeIf taken slot.offset front p
  obtain ⟨hf1, hf2, hf3, hf4⟩ :=
    fields_putFreeIf taken slot.offset front p
  rw [htregions] at hfront
  rw [htslots] at hfslots
  generalize taken.putFreeIf slot.offset front p = fr at *
  -- the live region into the hole
  have hnone : fr.regions.find? off = none := by
    rw [hfront]
    exact find?_fronted hinv.layout hf
      (holeIn_slot hinv hf hfree hsize hoff hroom hpos taken taken p) le_rfl
      (by rw [hsize]; omega)
  rw [OrdMap.emplace_of_none _ hnone]
  generalize hplaced : ({ fr with
    nextRegionId := fr.nextRegionId + 1
    regions := fr.regions.insert off (fr.liveRegion req off aligned) } : RegionAllocator) = placed
  have hne : off ≠ off + aligned := fun hc => by
    have := congrArg UInt64.toNat hc
    omega
  have hplregions : placed.regions = fr.regions.insert off (fr.liveRegion req off aligned) := by
    rw [← hplaced]
  have hh := holeIn_slot hinv hf hfree hsize hoff hroom hpos taken placed p
  have htailR := regions_putFreeIf placed (off + aligned)
    (slot.size - front - aligned) p (fun hc => by
      rw [hplregions, OrdMap.find?_insert_ne _ _ hne.symm, hfront]
      exact find?_tail hinv.layout hf hh hc)
  have htailS := freeSlots_putFreeIf placed (off + aligned)
    (slot.size - front - aligned) p
  obtain ⟨ht1, ht2, ht3, ht4⟩ := fields_putFreeIf placed (off + aligned)
    (slot.size - front - aligned) p
  refine ⟨fr, taken, placed, _, p, rfl, ?_, ?_, ?_, ?_, ?_, ?_⟩
  · rw [htailR, hplregions, hfront]
    unfold carved fronted
    by_cases hc : slot.size - front - aligned > 0
    · rw [if_pos hc, if_pos hc, OrdMap.insert_comm _ _ _ hne]
    · rw [if_neg hc, if_neg hc]
  · rw [htailS, ← hplaced, hfslots]
    rfl
  · rw [ht1, ← hplaced, hf1, ← htaken]
  · rw [ht2, ← hplaced, hf2, ← htaken]
  · rw [ht3, ← hplaced, hf3, ← htaken]
  · rw [ht4, ← hplaced, hf4, ← htaken]

/-- Placing in a slot that passes the fit test. -/
theorem place_spec (hinv : Inv ra) {req : AllocRequest} {aligned : UInt64} {slot : FreeSlot}
    (hbytes : 0 < req.bytes.toNat) (ha : isPow2 req.alignment = true)
    (hval : aligned.toNat = roundUp req.bytes.toNat req.alignment.toNat)
    (hslot : slot ∈ ra.freeSlots) (hfits : fits req.alignment aligned slot = true) :
    ∃ live ra', ra.place req aligned slot (frontPad req.alignment slot) = (live, ra') ∧
      Placed ra req live ra' := by
  obtain ⟨r, hf, hfree, hsize⟩ := (hinv.layout.slots slot).mp hslot
  have hcap := ra.capacity.toNat_lt
  have hend := hinv.end_le hf
  rw [hsize] at hend
  obtain ⟨hpad, hroom⟩ := fits_spec ha (by omega) hfits
  have hpos : 0 < aligned.toNat := by
    rw [hval]; exact roundUp_pos (toNat_pos_of_isPow2 ha) hbytes
  have hoff : (slot.offset + frontPad req.alignment slot).toNat
      = slot.offset.toNat + (frontPad req.alignment slot).toNat := toNat_add_of_lt (by omega)
  obtain ⟨ra₀, ra₁, ra₂, ra', p, heq, hregions, hslots, hcapacity, hbytes', hcount, hindex⟩ :=
    place_eq req hinv hf hfree hsize rfl hoff hroom hpos
  generalize slot.offset + frontPad req.alignment slot = off at *
  have hh := holeIn_slot hinv hf hfree hsize hoff hroom hpos ra₁ ra₂ p
  have hlayout := hinv.layout
  refine ⟨_, ra', heq, ⟨⟨hcapacity, ?_, ?_, ?_, ?_, ?_, ?_, ?_, ?_⟩, ⟨ra₀, off, aligned, rfl⟩,
    hval, hbytes, slot.offset, r, hf, hfree, ?_, ?_⟩⟩
  · rw [hregions, hslots]
    exact layout_filled hlayout hf hh rfl rfl rfl rfl
  · refine liveAt_insert hregions rfl rfl (fun k r' _ hlive => ?_) (fun r' hlive => ?_)
    · rw [liveEq_carved hlayout hf hh k r' hlive]
      simp [LiveAt, hlive]
    · exact absurd hlive.1 (not_live_in_hole hlayout hf hh rfl hlive.2)
  · intro i
    rw [hindex, OrdMap.find?_insert]
    by_cases hi : i = req.allocId <;> simp [hi, liveRegion]
  · rw [hbytes']
    simp [liveRegion]
  · rw [hcount]
    simp
  · intro o ho
    cases ho
  · intro n hn
    cases hn
    refine ⟨rfl, rfl, ha, ?_⟩
    show req.alignment.toNat ∣ off.toNat
    rw [hoff, hpad]
    exact roundUp_dvd _ _
  · intro n r' hn hlive
    cases hn
    exact absurd hlive.1 (not_live_in_hole hlayout hf hh rfl hlive.2)
  · show slot.offset.toNat ≤ off.toNat
    omega
  · show off.toNat + aligned.toNat ≤ slot.offset.toNat + r.size.toNat
    rw [hsize]
    omega

theorem allocate_cases (hinv : Inv ra) (req : AllocRequest) :
    (∃ f, ra.allocate req = (.error f, ra)) ∨
    ∃ live ra', ra.allocate req = (.ok live, ra') ∧ Placed ra req live ra' := by
  unfold allocate
  by_cases hbytes : (req.bytes == 0) = true
  · exact Or.inl ⟨_, if_pos hbytes⟩
  rw [if_neg hbytes]
  by_cases halign : (req.alignment == 0 || !isPow2 req.alignment) = true
  · exact Or.inl ⟨_, if_pos halign⟩
  rw [if_neg halign]
  by_cases hcap : req.bytes > ra.capacity
  · exact Or.inl ⟨_, if_pos hcap⟩
  rw [if_neg hcap]
  by_cases hover : (alignUp req.bytes req.alignment == 0 ||
      decide (alignUp req.bytes req.alignment < req.bytes)) = true
  · exact Or.inl ⟨_, if_pos hover⟩
  rw [if_neg hover]
  by_cases hfull : alignUp req.bytes req.alignment > ra.capacity
  · exact Or.inl ⟨_, if_pos hfull⟩
  rw [if_neg hfull]
  have hpow : isPow2 req.alignment = true := by
    by_contra hc
    exact halign (by simp [hc])
  have hpos : 0 < req.bytes.toNat := toNat_pos_iff.mpr (by simpa using hbytes)
  cases hfound : (ra.freeSlots.lowerBound ⟨alignUp req.bytes req.alignment, 0⟩).find?
      (fun e => fits req.alignment (alignUp req.bytes req.alignment) e.1) with
  | none =>
      dsimp only
      split
      · exact Or.inl ⟨_, rfl⟩
      · exact Or.inl ⟨_, rfl⟩
  | some e =>
      obtain ⟨slot, u⟩ := e
      have hfits := List.find?_some hfound
      have hslot : slot ∈ ra.freeSlots := OrdMap.mem_iff_find?.mpr
        ⟨u, (OrdMap.mem_lowerBound.mp (List.mem_of_find?_eq_some hfound)).1⟩
      have hval : (alignUp req.bytes req.alignment).toNat
          = roundUp req.bytes.toNat req.alignment.toNat := by
        rcases alignUp_cases req.bytes hpow with ⟨_, hval⟩ | ⟨_, hzero⟩
        · exact hval
        · exact absurd (by simp [hzero]) hover
      obtain ⟨live, ra', hplace, hplaced⟩ := place_spec hinv hpos hpow hval hslot hfits
      refine Or.inr ⟨live, ra', ?_, hplaced⟩
      simp only [hplace]

end Allocate

/-! ## Handles -/

/-- `r` is the live region of `id`, and `gen` is its generation. -/
def Holds (ra : RegionAllocator) (id : AllocationId) (gen : AllocationGeneration)
    (r : RegionInfo) : Prop :=
  ra.lookup id = some r ∧ r.allocGeneration = gen

section Handles

variable {ra : RegionAllocator} {id : AllocationId} {gen : AllocationGeneration}

/-- The lookup of the handle operations finds exactly the live handles;
the `not live` failure is unreachable. -/
theorem locate_cases (hinv : Inv ra) (id : AllocationId) (gen : AllocationGeneration)
    (unknown notLive stale : String) :
    (ra.lookup id = none ∧
      ra.locate id gen unknown notLive stale = .error ⟨.staleGeneration, unknown⟩) ∨
    (∃ r, ra.lookup id = some r ∧ r.allocGeneration ≠ gen ∧
      ra.locate id gen unknown notLive stale = .error ⟨.staleGeneration, stale⟩) ∨
    ∃ r, ra.Holds id gen r ∧ ra.locate id gen unknown notLive stale = .ok r := by
  unfold locate Holds lookup
  cases hoff : ra.allocOffset.find? id with
  | none => exact Or.inl ⟨rfl, rfl⟩
  | some off =>
      obtain ⟨r, ⟨hf, hlive⟩, _⟩ := hinv.index hoff
      have hfilter : (ra.regions.find? off).filter (·.live) = some r := by simp [hf, hlive]
      simp only [hf, hlive, Bool.not_true, Bool.false_eq_true, if_false]
      by_cases hgen : r.allocGeneration = gen
      · exact Or.inr (Or.inr ⟨r, ⟨by simpa [hf] using hfilter, hgen⟩, by simp [hgen]⟩)
      · exact Or.inr (Or.inl ⟨r, by simpa [hf] using hfilter, hgen, by simp [hgen]⟩)

theorem Holds.unique {r r' : RegionInfo} (h : ra.Holds id gen r) (h' : ra.Holds id gen r') :
    r = r' := by
  have := h.1.symm.trans h'.1
  simpa using this

/-- No region is held by the handle. -/
theorem not_holds_of_lookup {r : RegionInfo}
    (h : ra.lookup id = none ∨ ∃ r, ra.lookup id = some r ∧ r.allocGeneration ≠ gen) :
    ¬ ra.Holds id gen r := by
  rintro ⟨hl, hgen⟩
  rcases h with hnone | ⟨r', hl', hne⟩
  · rw [hnone] at hl; cases hl
  · rw [hl'] at hl
    cases hl
    exact hne hgen

/-- The region a handle operation finds is filed at the offset it reads. -/
theorem Holds.liveAt (hinv : Inv ra) {r : RegionInfo} (h : ra.Holds id gen r) :
    ra.offsetOf id = r.offset ∧ ra.LiveAt r.offset r ∧ r.allocId = id :=
  ⟨hinv.offsetOf_eq h.1, (hinv.lookup_some h.1).2⟩

theorem locate_of_holds (hinv : Inv ra) {r : RegionInfo} (h : ra.Holds id gen r)
    (unknown notLive stale : String) : ra.locate id gen unknown notLive stale = .ok r := by
  rcases locate_cases hinv id gen unknown notLive stale with ⟨hn, _⟩ | ⟨r', hl, hne, _⟩ | ⟨r', h', heq⟩
  · exact absurd h (not_holds_of_lookup (Or.inl hn))
  · exact absurd h (not_holds_of_lookup (Or.inr ⟨r', hl, hne⟩))
  · rw [heq, h.unique h']

theorem locate_of_not_holds (hinv : Inv ra) (h : ∀ r, ¬ ra.Holds id gen r)
    (unknown notLive stale : String) :
    ∃ f, f.reason = .staleGeneration ∧ ra.locate id gen unknown notLive stale = .error f := by
  rcases locate_cases hinv id gen unknown notLive stale with ⟨_, heq⟩ | ⟨_, _, _, heq⟩ | ⟨r', h', _⟩
  · exact ⟨_, rfl, heq⟩
  · exact ⟨_, rfl, heq⟩
  · exact absurd h' (h r')

end Handles

/-! ## `free` -/

theorem free_cases {ra : RegionAllocator} (hinv : Inv ra) (id : AllocationId)
    (gen : AllocationGeneration) :
    (∃ f, f.reason = .staleGeneration ∧ (∀ r, ¬ ra.Holds id gen r) ∧
      ra.free id gen = (.error f, ra)) ∨
    ∃ r f ra', ra.Holds id gen r ∧ ra.free id gen = (.ok f, ra') ∧
      Effect ra ra' id (some r) none := by
  by_cases hheld : ∃ r, ra.Holds id gen r
  · obtain ⟨r, hr⟩ := hheld
    obtain ⟨hofs, hlive, hid⟩ := hr.liveAt hinv
    have hspec := canonicalizeFree_spec
      { ra with
        regions := ra.regions.erase r.offset
        allocOffset := ra.allocOffset.erase id
        liveBytes := ra.liveBytes - r.size
        liveCount := ra.liveCount - 1 } r.offset r.size
      (hinv.layout.eraseLive hlive.1 hlive.2) (fun b hb => hb.1.2) (hinv.size_pos hlive)
      (hinv.end_le hlive.1) (fun b h1 h2 hb => hb.2 (mem_bytesAt.mpr ⟨h1, h2⟩))
    obtain ⟨f, ra', heq, hsame, hlay⟩ := hspec
    refine Or.inr ⟨r, f, ra', hr, ?_, hsame.capacity, ?_, ?_, ?_, ?_, ?_, ?_, ?_, ?_⟩
    · simp only [free, locate_of_holds hinv hr, hofs]
      exact heq
    · refine hlay.congr_set (fun b => ?_)
      have hend := hinv.end_le hlive.1
      simp only [Set.mem_union, Set.mem_sdiff, Set.mem_Ico, mem_bytesAt]
      omega
    · intro k r'
      unfold LiveAt
      constructor
      · rintro ⟨hf, hl⟩
        have hf' := (hsame.live k r' hl).mp hf
        obtain ⟨hk, hold⟩ := OrdMap.find?_erase_some_iff.mp hf'
        exact Or.inr ⟨⟨hold, hl⟩, fun o ho => by cases ho; exact hk⟩
      · rintro (⟨hc, _⟩ | ⟨⟨hf, hl⟩, hout⟩)
        · cases hc
        · refine ⟨(hsame.live k r' hl).mpr ?_, hl⟩
          simp only [OrdMap.find?_erase, if_neg (hout r rfl)]
          exact hf
    · intro i
      rw [hsame.allocOffset, OrdMap.find?_erase]
      by_cases hi : i = id <;> simp [hi]
    · rw [hsame.liveBytes]
      simp
    · rw [hsame.liveCount]
      simp
    · intro o ho
      cases ho
      exact ⟨hlive, hid⟩
    · intro n hn
      cases hn
    · intro n r' hn
      cases hn
  · have hnot : ∀ r, ¬ ra.Holds id gen r := fun r h => hheld ⟨r, h⟩
    obtain ⟨f, hreason, heq⟩ := locate_of_not_holds hinv hnot "unknown or already-freed allocation"
      "allocation region is not live" "stale allocation generation on free"
    exact Or.inl ⟨f, hreason, hnot, by simp only [free, heq]⟩

/-! ## `relocate` -/

/-- A target a relocation accepts: aligned to a power of two, nonempty,
inside the arena, and clear of every live region, its own included. -/
structure Admissible (ra : RegionAllocator) (newOffset newSize newAlignment : UInt64) : Prop where
  pow2 : isPow2 newAlignment = true
  size_pos : 0 < newSize.toNat
  dvd : newAlignment.toNat ∣ newOffset.toNat
  inside : newOffset.toNat + newSize.toNat ≤ ra.capacity.toNat
  clear : ∀ k r, ra.LiveAt k r →
    k.toNat + r.size.toNat ≤ newOffset.toNat ∨ newOffset.toNat + newSize.toNat ≤ k.toNat

section Relocate

variable {ra : RegionAllocator}

/-- The overlap check looks at one region before the target and at those
starting inside it, which is enough. -/
theorem overlapsLive_iff (hinv : Inv ra) {lo hi : UInt64} :
    ra.overlapsLive lo hi = true ↔ ∃ k r, ra.LiveAt k r ∧
      ((k.toNat < lo.toNat ∧ lo.toNat < k.toNat + r.size.toNat) ∨
       (lo.toNat ≤ k.toNat ∧ k.toNat < hi.toNat)) := by
  have hcap := ra.capacity.toNat_lt
  have hadd : ∀ {k r}, ra.regions.find? k = some r →
      (k + r.size).toNat = k.toNat + r.size.toNat := fun hf => by
    have := hinv.end_le hf
    exact toNat_add_of_lt (by omega)
  unfold overlapsLive
  rw [Bool.or_eq_true, List.any_eq_true]
  constructor
  · rintro (hleft | ⟨e, he, hlive⟩)
    · cases hlast : (ra.regions.below lo).getLast? with
      | none => rw [hlast] at hleft; cases hleft
      | some e =>
          obtain ⟨k, r⟩ := e
          rw [hlast] at hleft
          obtain ⟨hf, hlt, _⟩ := OrdMap.getLast?_below hlast
          simp only [Bool.and_eq_true, decide_eq_true_eq, gt_iff_lt, UInt64.lt_iff_toNat_lt,
            hadd hf] at hleft
          exact ⟨k, r, ⟨hf, hleft.1⟩, Or.inl ⟨UInt64.lt_iff_toNat_lt.mp hlt, hleft.2⟩⟩
    · obtain ⟨hf, hge, hlt⟩ := OrdMap.mem_takeWhile_lowerBound.mp he
      exact ⟨e.1, e.2, ⟨hf, hlive⟩,
        Or.inr ⟨UInt64.le_iff_toNat_le.mp hge, UInt64.lt_iff_toNat_lt.mp hlt⟩⟩
  · rintro ⟨k, r, ⟨hf, hlive⟩, ⟨hlt, hreach⟩ | ⟨hge, hlt⟩⟩
    · left
      cases hlast : (ra.regions.below lo).getLast? with
      | none =>
          have := UInt64.le_iff_toNat_le.mp (OrdMap.getLast?_below_none hlast k r hf)
          omega
      | some e =>
          obtain ⟨k', r'⟩ := e
          obtain ⟨hf', hlt', hmax⟩ := OrdMap.getLast?_below hlast
          simp only at hf' hlt' hmax
          -- a region after this one and still below `lo` would start inside it
          have hle := UInt64.le_iff_toNat_le.mp (hmax k r hf (UInt64.lt_iff_toNat_lt.mpr hlt))
          have hltN := UInt64.lt_iff_toNat_lt.mp hlt'
          have heq : k = k' := hinv.layout.eq_of_inside hf hf' hle (by omega)
          subst heq
          rw [hf] at hf'
          cases hf'
          simp only [hlive, Bool.true_and, decide_eq_true_eq, gt_iff_lt, UInt64.lt_iff_toNat_lt,
            hadd hf]
          exact hreach
    · exact Or.inr ⟨(k, r), OrdMap.mem_takeWhile_lowerBound.mpr ⟨hf,
        UInt64.le_iff_toNat_le.mpr hge, UInt64.lt_iff_toNat_lt.mpr hlt⟩, hlive⟩

/-- The allocator once the old region has become free space and the target
is a hole. -/
structure Vacated (ra : RegionAllocator) (id : AllocationId) (old : RegionInfo) (o n : UInt64)
    (ra₁ : RegionAllocator) : Prop where
  layout : Layout ra₁.regions ra₁.freeSlots
    (Set.Ico 0 ra.capacity.toNat \ Set.Ico o.toNat (o.toNat + n.toNat))
  live : ∀ k r, r.live = true →
    (ra₁.regions.find? k = some r ↔ ra.regions.find? k = some r ∧ k ≠ old.offset)
  allocOffset : ra₁.allocOffset = ra.allocOffset.erase id
  capacity : ra₁.capacity = ra.capacity
  liveBytes : ra₁.liveBytes = ra.liveBytes
  liveCount : ra₁.liveCount = ra.liveCount

/-- Taking the old region out, carving the target and closing the old bytes. -/
theorem carve_vacated (hinv : Inv ra) {id : AllocationId} {gen : AllocationGeneration}
    {old : RegionInfo} (hold : ra.Holds id gen old) {o n a : UInt64}
    (hadm : ra.Admissible o n a) :
    ∃ f ra₁, (({ ra with
        regions := ra.regions.erase old.offset
        allocOffset := ra.allocOffset.erase id } : RegionAllocator).carve o (o + n)).canonicalizeFree
          old.offset old.size = (.ok f, ra₁) ∧ Vacated ra id old o n ra₁ := by
  obtain ⟨_, hlive, _⟩ := hold.liveAt hinv
  obtain ⟨_, hpos, _, hin, hclear⟩ := hadm
  have hcap := ra.capacity.toNat_lt
  have hend := hinv.end_le hlive.1
  have hsize := hinv.size_pos hlive
  have hown := hclear _ _ hlive
  have hhi : (o + n).toNat = o.toNat + n.toNat := toNat_add_of_lt (by omega)
  -- the old region out: its bytes are a hole
  let removed : RegionAllocator :=
    { ra with regions := ra.regions.erase old.offset, allocOffset := ra.allocOffset.erase id }
  have hlay : Layout removed.regions removed.freeSlots
      (Set.Ico 0 ra.capacity.toNat \ bytesAt old.offset old) :=
    hinv.layout.eraseLive hlive.1 hlive.2
  have hS : ∀ b ∈ Set.Ico 0 ra.capacity.toNat \ bytesAt old.offset old,
      b < removed.capacity.toNat := fun b hb => hb.1.2
  -- the target meets free regions only, so it lies inside one of them
  obtain ⟨k, r, hf, hfree, hk, hkend⟩ := hlay.part.inside_one toNat_strictMono.injective hlay.merged
    (a := o.toNat) (n := n.toNat) hpos
    (fun b h1 h2 => by simp only [Set.mem_sdiff, Set.mem_Ico, mem_bytesAt]; omega)
    (fun k r hf h1 h2 => by
      cases hl : r.live with
      | false => rfl
      | true =>
          have hf' : ra.regions.find? k = some r := (OrdMap.find?_erase_some_iff.mp hf).2
          have := hclear k r ⟨hf', hl⟩
          simp only [sizeNat] at h2
          omega)
  simp only [sizeNat] at hkend
  have hlt : o < o + n := UInt64.lt_iff_toNat_lt.mpr (by omega)
  have hh := holeIn_target hlay hS hf hfree hlt hk (by omega)
  have hcarve := carve_eq hlay hS hf hfree hlt hk (by omega)
  have hlayC := layout_carved hlay hf hh
  have hliveC := liveEq_carved hlay hf hh
  have hspan : o.toNat + ((o + n).toNat - o.toNat) = o.toNat + n.toNat := by omega
  rw [hspan] at hlayC
  -- the old bytes filled with free space; the target is still a hole
  obtain ⟨f, ra₁, heq, hsame, hlayF⟩ := canonicalizeFree_spec (removed.carve o (o + n))
    old.offset old.size
    (S := (Set.Ico 0 ra.capacity.toNat \ bytesAt old.offset old) \
      Set.Ico o.toNat (o.toNat + n.toNat))
    (by rw [hcarve]; exact hlayC) (by rw [hcarve]; exact fun b hb => hb.1.1.2) hsize
    (by rw [hcarve]; exact hend) (fun b h1 h2 hb => hb.1.2 (mem_bytesAt.mpr ⟨h1, h2⟩))
  rw [hcarve] at hsame
  refine ⟨f, ra₁, heq, ?_, ?_, hsame.allocOffset, hsame.capacity, hsame.liveBytes,
    hsame.liveCount⟩
  · refine hlayF.congr_set (fun b => ?_)
    simp only [Set.mem_union, Set.mem_sdiff, Set.mem_Ico, mem_bytesAt]
    omega
  · intro k r hl
    rw [hsame.live k r hl, hliveC k r hl]
    simp only [removed, OrdMap.find?_erase]
    by_cases hk : k = old.offset <;> simp [hk]

/-- Nothing starts at the target. -/
theorem Vacated.find?_target {id : AllocationId} {old : RegionInfo} {o n : UInt64}
    {ra₁ : RegionAllocator} (hv : Vacated ra id old o n ra₁) (hpos : 0 < n.toNat) :
    ra₁.regions.find? o = none := by
  refine hv.layout.find?_hole ?_
  simp only [Set.mem_sdiff, Set.mem_Ico]
  omega

/-- The target filled with the moved region. -/
theorem Vacated.layout_moved {id : AllocationId} {gen : AllocationGeneration} {old : RegionInfo}
    {o n a : UInt64} {ra₁ : RegionAllocator} (hv : Vacated ra id old o n ra₁)
    (hlive : old.live = true) (hpos : 0 < n.toNat)
    (hin : o.toNat + n.toNat ≤ ra.capacity.toNat) :
    Layout (ra₁.regions.insert o (movedRegion old gen o n a)) ra₁.freeSlots
      (Set.Ico 0 ra.capacity.toNat) := by
  refine (hv.layout.insertLive (k := o) (r := movedRegion old gen o n a) rfl hlive hpos
    ?_).congr_set (fun b => ?_)
  · intro b hb
    simp only [mem_bytesAt, movedRegion] at hb
    simp only [Set.mem_sdiff, Set.mem_Ico]
    omega
  · simp only [Set.mem_union, Set.mem_sdiff, Set.mem_Ico, mem_bytesAt, movedRegion]
    omega

/-- Putting the moved region into the hole. -/
theorem Vacated.effect (hinv : Inv ra) {id : AllocationId} {gen : AllocationGeneration}
    {old : RegionInfo} (hold : ra.Holds id gen old) {o n a : UInt64}
    (hadm : ra.Admissible o n a) {ra₁ : RegionAllocator} (hv : Vacated ra id old o n ra₁) :
    Effect ra
      { ra₁ with
        regions := ra₁.regions.emplace o (movedRegion old gen o n a)
        allocOffset := ra₁.allocOffset.insert id o
        liveBytes :=
          if n ≥ old.size then ra₁.liveBytes + (n - old.size) else ra₁.liveBytes - (old.size - n)
        summaryDirty := true }
      id (some old) (some (movedRegion old gen o n a)) := by
  obtain ⟨_, hlive, hid⟩ := hold.liveAt hinv
  obtain ⟨hpow, hpos, hdvd, hin, hclear⟩ := hadm
  have hnone := hv.find?_target hpos
  refine ⟨hv.capacity, ?_, ?_, ?_, ?_, ?_, ?_, ?_, ?_⟩
  · simp only [OrdMap.emplace_of_none _ hnone]
    exact hv.layout_moved hlive.2 hpos hin
  · refine liveAt_insert (OrdMap.emplace_of_none _ hnone) hlive.2 rfl (fun k r _ hl => ?_)
      (fun r hl => ?_)
    · rw [hv.live k r hl]
      simp [LiveAt, hl]
    · have hlen := hinv.size_pos hl
      have hout := hclear o r hl
      omega
  · intro i
    rw [OrdMap.find?_insert, hv.allocOffset]
    by_cases hi : i = id
    · simp [hi, movedRegion]
    · simp [hi, OrdMap.find?_erase]
  · simp only [hv.liveBytes, Option.elim, movedRegion]
    exact add_sub_exchange _ _ _
  · simp only [hv.liveCount]
    rfl
  · intro o' ho'
    cases ho'
    exact ⟨hlive, hid⟩
  · intro n' hn'
    cases hn'
    exact ⟨hlive.2, hid, hpow, hdvd⟩
  · intro n' r' hn' hl'
    cases hn'
    have := hclear _ r' hl'
    have h2 := hinv.size_pos hl'
    simp only [movedRegion] at this h2
    omega

/-- The checks of `relocate` on a live handle, in their order. -/
structure PassesChecks (ra : RegionAllocator) (old : RegionInfo) (o n a : UInt64) : Prop where
  alignment : ¬ (a == 0 || !isPow2 a) = true
  aligned : ¬ (n == 0 || o % a != 0) = true
  bounds : ¬ (decide (o > ra.capacity) || decide (n > ra.capacity - o)) = true
  self : ¬ (decide (o < old.offset + old.size) && decide (old.offset < o + n)) = true
  overlap : ¬ ra.overlapsLive o (o + n) = true

/-- The checks pass exactly for an admissible target. -/
theorem passesChecks_iff (hinv : Inv ra) {id : AllocationId} {gen : AllocationGeneration}
    {old : RegionInfo} (hold : ra.Holds id gen old) {o n a : UInt64} :
    ra.PassesChecks old o n a ↔ ra.Admissible o n a := by
  obtain ⟨_, hlive, _⟩ := hold.liveAt hinv
  have hcap := ra.capacity.toNat_lt
  have hend := hinv.end_le hlive.1
  have hoend : (old.offset + old.size).toNat = old.offset.toNat + old.size.toNat :=
    toNat_add_of_lt (by omega)
  constructor
  · intro ⟨h1, h2, h3, _, h5⟩
    have hpow : isPow2 a = true := by
      by_contra hc
      exact h1 (by simp [hc])
    simp only [Bool.or_eq_true, beq_iff_eq, bne_iff_ne, not_or, not_not] at h2
    have hin : o.toNat + n.toNat ≤ ra.capacity.toNat := by
      simp only [Bool.or_eq_true, decide_eq_true_eq, gt_iff_lt, UInt64.lt_iff_toNat_lt, not_or,
        Nat.not_lt] at h3
      have hsub := toNat_sub_of_ge h3.1
      omega
    have hhi : (o + n).toNat = o.toNat + n.toNat := toNat_add_of_lt (by omega)
    refine ⟨hpow, toNat_pos_iff.mpr h2.1, ?_, hin, fun k r hl => ?_⟩
    · refine Nat.dvd_of_mod_eq_zero ?_
      rw [← UInt64.toNat_mod, h2.2]
      rfl
    · by_contra hc
      refine h5 ((overlapsLive_iff hinv).mpr ⟨k, r, hl, ?_⟩)
      omega
  · intro hadm
    have hin := hadm.inside
    have hhi : (o + n).toNat = o.toNat + n.toNat := toNat_add_of_lt (by omega)
    refine ⟨?_, ?_, ?_, ?_, ?_⟩
    · have hne := toNat_pos_iff.mp (toNat_pos_of_isPow2 hadm.pow2)
      simp [hadm.pow2, hne]
    · have hn0 := toNat_pos_iff.mp hadm.size_pos
      have hmod : o % a = 0 := UInt64.toNat_inj.mp (by
        rw [UInt64.toNat_mod]; exact Nat.mod_eq_zero_of_dvd hadm.dvd)
      simp [hn0, hmod]
    · have hsub := toNat_sub_of_ge (a := ra.capacity) (b := o) (by omega)
      simp only [Bool.or_eq_true, decide_eq_true_eq, gt_iff_lt, UInt64.lt_iff_toNat_lt, hsub]
      omega
    · have hclear := hadm.clear _ _ hlive
      simp only [Bool.and_eq_true, decide_eq_true_eq, UInt64.lt_iff_toNat_lt, hoend, hhi]
      omega
    · intro h5
      obtain ⟨k, r, hl, hover⟩ := (overlapsLive_iff hinv).mp h5
      have hclear := hadm.clear k r hl
      have hsize := hinv.size_pos hl
      omega

/-- A relocation is accepted exactly for a live handle and an admissible
target. -/
theorem relocate_cases (hinv : Inv ra) (id : AllocationId) (gen : AllocationGeneration)
    (o n a : UInt64) :
    (∃ f, ¬ ((∃ old, ra.Holds id gen old) ∧ ra.Admissible o n a) ∧
      ra.relocate id gen o n a = (.error f, ra)) ∨
    ∃ old ra', ra.Holds id gen old ∧ ra.Admissible o n a ∧
      ra.relocate id gen o n a = (.ok (movedRegion old gen o n a), ra') ∧
      Effect ra ra' id (some old) (some (movedRegion old gen o n a)) := by
  by_cases hheld : ∃ old, ra.Holds id gen old
  swap
  · have hnot : ∀ r, ¬ ra.Holds id gen r := fun r h => hheld ⟨r, h⟩
    obtain ⟨f, _, heq⟩ := locate_of_not_holds hinv hnot "unknown allocation"
      "allocation region is not live" "stale generation on relocate"
    exact Or.inl ⟨f, fun h => hheld h.1, by simp only [relocate, heq]⟩
  obtain ⟨old, hold⟩ := hheld
  obtain ⟨hofs, _, _⟩ := hold.liveAt hinv
  simp only [relocate, locate_of_holds hinv hold, hofs]
  by_cases hpass : ra.PassesChecks old o n a
  · have hadm := (passesChecks_iff hinv hold).mp hpass
    obtain ⟨f, ra₁, heq, hv⟩ := carve_vacated hinv hold hadm
    refine Or.inr ⟨old, _, hold, hadm, ?_, hv.effect hinv hold hadm⟩
    simp only [if_neg hpass.alignment, if_neg hpass.aligned, if_neg hpass.bounds,
      if_neg hpass.self, if_neg hpass.overlap, heq]
  · have hnot : ¬ ((∃ old, ra.Holds id gen old) ∧ ra.Admissible o n a) :=
      fun h => hpass ((passesChecks_iff hinv hold).mpr h.2)
    left
    by_cases h1 : (a == 0 || !isPow2 a) = true
    · exact ⟨_, hnot, by rw [if_pos h1]⟩
    by_cases h2 : (n == 0 || o % a != 0) = true
    · exact ⟨_, hnot, by rw [if_neg h1, if_pos h2]⟩
    by_cases h3 : (decide (o > ra.capacity) || decide (n > ra.capacity - o)) = true
    · exact ⟨_, hnot, by rw [if_neg h1, if_neg h2, if_pos h3]⟩
    by_cases h4 : (decide (o < old.offset + old.size) && decide (old.offset < o + n)) = true
    · exact ⟨_, hnot, by rw [if_neg h1, if_neg h2, if_neg h3, if_pos h4]⟩
    by_cases h5 : ra.overlapsLive o (o + n) = true
    · exact ⟨_, hnot, by rw [if_neg h1, if_neg h2, if_neg h3, if_neg h4, if_pos h5]⟩
    exact absurd ⟨h1, h2, h3, h4, h5⟩ hpass

end Relocate

/-! ## `pin` and `unpin` -/

section Pins

variable {ra : RegionAllocator} {id : AllocationId} {gen : AllocationGeneration}

/-- Rewriting a live region in place, at its offset and size. -/
theorem replace_effect (hinv : Inv ra) {r r' : RegionInfo} (hr : ra.Holds id gen r)
    (hlive : r'.live = true) (hoff : r'.offset = r.offset) (hsize : r'.size = r.size)
    (hid : r'.allocId = r.allocId) (halign : r'.alignment = r.alignment) :
    Effect ra { ra with regions := ra.regions.insert (ra.offsetOf id) r' } id
      (some r) (some r') := by
  obtain ⟨hofs, hlr, hrid⟩ := hr.liveAt hinv
  rw [hofs]
  have hend := hinv.end_le hlr.1
  refine ⟨rfl, ?_, ?_, ?_, ?_, rfl, ?_, ?_, ?_⟩
  · have hins := (hinv.layout.eraseLive hlr.1 hlr.2).insertLive (k := r.offset) (r := r') hoff hlive
      (by rw [hsize]; exact hinv.size_pos hlr)
      (fun b hb hmem => by
        simp only [mem_bytesAt, hsize] at hb
        exact hmem.2 (mem_bytesAt.mpr hb))
    rw [OrdMap.insert_erase] at hins
    refine hins.congr_set (fun b => ?_)
    simp only [Set.mem_union, Set.mem_sdiff, Set.mem_Ico, mem_bytesAt, hsize]
    omega
  · refine liveAt_insert rfl hlive hoff (fun k r'' hk hl => ?_) (fun _ _ => ⟨r, rfl, rfl⟩)
    simp [LiveAt, hl, hk]
  · intro i
    by_cases hi : i = id
    · simp [hi, hoff, (hinv.lookup_some hr.1).1]
    · simp [hi]
  · simp only [Option.elim, hsize]
  · intro o ho
    cases ho
    exact ⟨hlr, hrid⟩
  · intro n hn
    cases hn
    refine ⟨hlive, hid.trans hrid, ?_⟩
    rw [halign, hoff]
    exact hinv.aligned hlr
  · intro n r'' hn hl
    cases hn
    rw [hoff] at hl
    rw [hlr.unique hl]

/-- The region after a pin. -/
def pinnedRegion (r : RegionInfo) : RegionInfo :=
  { r with movability := .pinned, pinCount := r.pinCount + 1 }

/-- The region after an unpin. -/
def unpinnedRegion (r : RegionInfo) : RegionInfo :=
  { r with
    pinCount := r.pinCount - 1
    movability := if r.pinCount - 1 == 0 then .movable else r.movability }

theorem pin_cases (hinv : Inv ra) (id : AllocationId) (gen : AllocationGeneration) :
    (∃ f, f.reason = .staleGeneration ∧ (∀ r, ¬ ra.Holds id gen r) ∧
      ra.pin id gen = (.error f, ra)) ∨
    ∃ r ra', ra.Holds id gen r ∧ ra.pin id gen = (.ok (pinnedRegion r), ra') ∧
      Effect ra ra' id (some r) (some (pinnedRegion r)) := by
  by_cases hheld : ∃ r, ra.Holds id gen r
  · obtain ⟨r, hr⟩ := hheld
    refine Or.inr ⟨r, _, hr, ?_, replace_effect hinv hr (hr.liveAt hinv).2.1.2 rfl rfl rfl rfl⟩
    simp only [pin, locate_of_holds hinv hr]
    rfl
  · have hnot : ∀ r, ¬ ra.Holds id gen r := fun r h => hheld ⟨r, h⟩
    obtain ⟨f, hreason, heq⟩ := locate_of_not_holds hinv hnot "unknown allocation"
      "allocation not live" "stale generation on pin"
    exact Or.inl ⟨f, hreason, hnot, by simp only [pin, heq]⟩

theorem unpin_cases (hinv : Inv ra) (id : AllocationId) (gen : AllocationGeneration) :
    (∃ f, (∀ r, ra.Holds id gen r → r.pinCount = 0) ∧ ra.unpin id gen = (.error f, ra)) ∨
    ∃ r ra', ra.Holds id gen r ∧ r.pinCount ≠ 0 ∧
      ra.unpin id gen = (.ok (unpinnedRegion r), ra') ∧
      Effect ra ra' id (some r) (some (unpinnedRegion r)) := by
  by_cases hheld : ∃ r, ra.Holds id gen r
  · obtain ⟨r, hr⟩ := hheld
    by_cases hzero : r.pinCount = 0
    · refine Or.inl ⟨⟨.invalidRequest, "unpin of non-pinned allocation"⟩, fun r' hr' => ?_, ?_⟩
      · rw [← hr.unique hr']; exact hzero
      · simp only [unpin, locate_of_holds hinv hr, hzero, beq_self_eq_true, if_true]
    · refine Or.inr ⟨r, _, hr, hzero, ?_,
        replace_effect hinv hr (hr.liveAt hinv).2.1.2 rfl rfl rfl rfl⟩
      have hne : ¬ (r.pinCount == 0) = true := by simpa using hzero
      simp only [unpin, locate_of_holds hinv hr, if_neg hne]
      rfl
  · have hnot : ∀ r, ¬ ra.Holds id gen r := fun r h => hheld ⟨r, h⟩
    obtain ⟨f, _, heq⟩ := locate_of_not_holds hinv hnot "unknown allocation"
      "allocation not live" "stale generation on unpin"
    exact Or.inl ⟨f, fun r hr => absurd hr (hnot r), by simp only [unpin, heq]⟩

end Pins

/-! ## The summary cache -/

section Cache

variable (ra : RegionAllocator)

@[simp] theorem ensureSummary_capacity : ra.ensureSummary.capacity = ra.capacity := by
  unfold ensureSummary; split <;> rfl

@[simp] theorem ensureSummary_regions : ra.ensureSummary.regions = ra.regions := by
  unfold ensureSummary; split <;> rfl

@[simp] theorem ensureSummary_allocOffset : ra.ensureSummary.allocOffset = ra.allocOffset := by
  unfold ensureSummary; split <;> rfl

@[simp] theorem ensureSummary_freeSlots : ra.ensureSummary.freeSlots = ra.freeSlots := by
  unfold ensureSummary; split <;> rfl

@[simp] theorem ensureSummary_liveBytes : ra.ensureSummary.liveBytes = ra.liveBytes := by
  unfold ensureSummary; split <;> rfl

@[simp] theorem ensureSummary_liveCount : ra.ensureSummary.liveCount = ra.liveCount := by
  unfold ensureSummary; split <;> rfl

@[simp] theorem lookup_ensureSummary (id : AllocationId) :
    ra.ensureSummary.lookup id = ra.lookup id := by
  simp [lookup]

variable {ra}

/-- Refreshing the cache changes nothing the invariant speaks of. -/
theorem Inv.ensureSummary (h : Inv ra) : Inv ra.ensureSummary where
  layout := by simpa using h.layout
  aligned := fun {k r} hl => h.aligned (by simpa [LiveAt] using hl)
  index := by
    intro id off hf
    obtain ⟨r, hl, hid⟩ := h.index (by simpa using hf)
    exact ⟨r, by simpa [LiveAt] using hl, hid⟩
  count := by simpa using h.count
  bytes := by simpa using h.bytes

end Cache

end GpuMemoryService.RegionAllocator
