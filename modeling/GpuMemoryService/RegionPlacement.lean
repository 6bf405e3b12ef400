/-
GpuMemoryService.RegionPlacement — what the best-fit search finds.

`allocate` works in 64-bit words: `align_up` returns 0 when it wraps, the
front pad is a wrapping difference, and the search starts at a lower
bound of the size index. `allocate_bestFit` says what this amounts to in
exact arithmetic, for every capacity and every power of two: a request is
granted exactly when some free region has room for it, in the least such
region by (size, offset), and each failure reason is a comparison of
exact numbers.
-/
import GpuMemoryService.RegionActions

namespace GpuMemoryService.RegionAllocator

open Lib

/-- In exact arithmetic: `n` bytes at the first multiple of `a` in
`[off, off + size)` stay inside it. -/
def Room (a n off size : Nat) : Prop := roundUp off a + n ≤ off + size

theorem slot_le_iff {s t : FreeSlot} :
    s ≤ t ↔ s.size < t.size ∨ (s.size = t.size ∧ s.offset ≤ t.offset) :=
  Prod.Lex.toLex_le_toLex

/-! ## The fit test -/

section Fit

variable {a aligned : UInt64} {slot : FreeSlot}

theorem two_pow_dvd_of_isPow2 (ha : isPow2 a = true) : a.toNat ∣ 2 ^ 64 := by
  obtain ⟨k, hk, hpow⟩ := exists_pow_of_isPow2 ha
  rw [hpow]
  exact Nat.pow_dvd_pow 2 (Nat.le_of_lt hk)

/-- `align_up` wraps exactly when the exact result needs more than 64 bits. -/
theorem toNat_alignUp (v : UInt64) (ha : isPow2 a = true) :
    (alignUp v a).toNat =
      if 2 ^ 64 ≤ roundUp v.toNat a.toNat then 0 else roundUp v.toNat a.toNat := by
  have hwrap := le_roundUp_iff (n := v.toNat) (toNat_pos_of_isPow2 ha) (two_pow_dvd_of_isPow2 ha)
  rcases alignUp_cases v ha with ⟨hlt, hval⟩ | ⟨hge, hzero⟩
  · rw [if_neg (by omega), hval]
  · rw [if_pos (hwrap.mpr hge), hzero]
    rfl

/-- For a slot inside the arena the fit test is exact. -/
theorem fits_iff (ha : isPow2 a = true)
    (hend : slot.offset.toNat + slot.size.toNat < 2 ^ 64) :
    fits a aligned slot = true ↔
      Room a.toNat aligned.toNat slot.offset.toNat slot.size.toNat := by
  unfold Room
  constructor
  · intro hfits
    obtain ⟨hpad, hroom⟩ := fits_spec ha hend hfits
    omega
  · intro hroom
    have hle := le_roundUp slot.offset.toNat (toNat_pos_of_isPow2 ha)
    have hval := toNat_alignUp slot.offset ha
    rw [if_neg (by omega)] at hval
    have hpad : (frontPad a slot).toNat = roundUp slot.offset.toNat a.toNat - slot.offset.toNat := by
      rw [frontPad, toNat_sub_of_ge (by omega), hval]
    have hsub := toNat_sub_of_ge (a := slot.size) (b := frontPad a slot) (by omega)
    simp only [fits, Bool.not_eq_true', Bool.or_eq_false_iff, decide_eq_false_iff_not, gt_iff_lt,
      UInt64.lt_iff_toNat_lt, Nat.not_lt, hsub]
    omega

/-- A slot with room is not below the bound the search starts at. -/
theorem Room.bound_le (ha : isPow2 a = true)
    (h : Room a.toNat aligned.toNat slot.offset.toNat slot.size.toNat) :
    (⟨aligned, 0⟩ : FreeSlot) ≤ slot := by
  have hle := le_roundUp slot.offset.toNat (toNat_pos_of_isPow2 ha)
  unfold Room at h
  rw [slot_le_iff]
  rcases Nat.lt_or_ge aligned.toNat slot.size.toNat with hlt | hge
  · exact Or.inl (UInt64.lt_iff_toNat_lt.mpr hlt)
  · refine Or.inr ⟨UInt64.toNat_inj.mp (by dsimp only; omega), ?_⟩
    exact UInt64.le_iff_toNat_le.mpr (Nat.zero_le _)

end Fit

/-! ## The search -/

section Search

variable {ra : RegionAllocator} {req : AllocRequest}

/-- The reason a request that finds no room is refused with. -/
def refusal (ra : RegionAllocator) (req : AllocRequest) : RejectReason :=
  let n := roundUp req.bytes.toNat req.alignment.toNat
  if req.bytes ≤ ra.capacity ∧ 2 ^ 64 ≤ n then .sizeOverflow
  else if n ≤ ra.freeBytes.toNat then .insufficientContiguousCapacity
  else .insufficientTotalCapacity

theorem Inv.toNat_freeBytes (hinv : Inv ra) :
    ra.freeBytes.toNat = ra.capacity.toNat - ra.liveBytes.toNat :=
  toNat_sub_of_ge hinv.liveBytes_le

theorem Inv.slot_end_le (hinv : Inv ra) {s : FreeSlot} (hs : s ∈ ra.freeSlots) :
    s.offset.toNat + s.size.toNat ≤ ra.capacity.toNat := by
  obtain ⟨r, hf, _, hsize⟩ := (hinv.layout.slots s).mp hs
  rw [← hsize]
  exact hinv.end_le hf

theorem Inv.no_room (hinv : Inv ra) {a n : Nat} (ha : 0 < a) (hbig : ra.capacity.toNat < n) :
    ∀ s ∈ ra.freeSlots, ¬ Room a n s.offset.toNat s.size.toNat := by
  intro s hs hroom
  have := hinv.slot_end_le hs
  have := le_roundUp s.offset.toNat ha
  unfold Room at hroom
  omega

/-- What a search that found `slot` has placed. -/
structure BestFit (ra : RegionAllocator) (req : AllocRequest) (slot : FreeSlot)
    (live : RegionInfo) : Prop where
  free : slot ∈ ra.freeSlots
  room : Room req.alignment.toNat (roundUp req.bytes.toNat req.alignment.toNat)
    slot.offset.toNat slot.size.toNat
  least : ∀ s ∈ ra.freeSlots, Room req.alignment.toNat
    (roundUp req.bytes.toNat req.alignment.toNat) s.offset.toNat s.size.toNat → slot ≤ s
  offset : live.offset.toNat = roundUp slot.offset.toNat req.alignment.toNat

/-- A search that ends without a slot has missed none. -/
theorem search_none (hinv : Inv ra) (hpow : isPow2 req.alignment = true) {aligned : UInt64}
    (hfound : (ra.freeSlots.lowerBound ⟨aligned, 0⟩).find?
      (fun e => fits req.alignment aligned e.1) = none) :
    ∀ s ∈ ra.freeSlots, ¬ Room req.alignment.toNat aligned.toNat s.offset.toNat s.size.toNat := by
  intro s hs hroom
  have hcap := ra.capacity.toNat_lt
  have hend := hinv.slot_end_le hs
  obtain ⟨u, hu⟩ := OrdMap.mem_iff_find?.mp hs
  have hmem : (s, u) ∈ ra.freeSlots.lowerBound ⟨aligned, 0⟩ :=
    OrdMap.mem_lowerBound.mpr ⟨hu, hroom.bound_le hpow⟩
  have hfits : fits req.alignment aligned s = true := (fits_iff hpow (by omega)).mpr hroom
  exact List.find?_eq_none.mp hfound _ hmem hfits

/-- The slot a search ends at is the least with room, and `place` puts the
region at its first multiple of the alignment. -/
theorem search_some (hinv : Inv ra) (hbytes : 0 < req.bytes.toNat)
    (hpow : isPow2 req.alignment = true) {aligned : UInt64} {slot : FreeSlot} {u : Unit}
    (hval : aligned.toNat = roundUp req.bytes.toNat req.alignment.toNat)
    (hfound : (ra.freeSlots.lowerBound ⟨aligned, 0⟩).find?
      (fun e => fits req.alignment aligned e.1) = some (slot, u)) :
    ∃ live ra', ra.place req aligned slot (frontPad req.alignment slot) = (live, ra') ∧
      Placed ra req live ra' ∧ BestFit ra req slot live := by
  have hcap := ra.capacity.toNat_lt
  obtain ⟨hfind, hfits, hleast⟩ := OrdMap.first_lowerBound hfound
  dsimp only at hfind hfits hleast
  have hslot : slot ∈ ra.freeSlots := OrdMap.mem_iff_find?.mpr ⟨u, hfind⟩
  have hend := hinv.slot_end_le hslot
  obtain ⟨hpad, hroom⟩ := fits_spec hpow (by omega) hfits
  obtain ⟨live, ra', hplace, hplaced⟩ := place_spec hinv hbytes hpow hval hslot hfits
  refine ⟨live, ra', hplace, hplaced, hslot, ?_, ?_, ?_⟩
  · rw [← hval]
    exact (fits_iff hpow (by omega)).mp hfits
  · intro s hs hsroom
    rw [← hval] at hsroom
    have hsend := hinv.slot_end_le hs
    obtain ⟨u', hu'⟩ := OrdMap.mem_iff_find?.mp hs
    exact hleast s u' hu' (hsroom.bound_le hpow) ((fits_iff hpow (by omega)).mpr hsroom)
  · have hlive : live.offset = slot.offset + frontPad req.alignment slot := by
      rw [place] at hplace
      rw [← (Prod.mk.inj hplace).1]
      rfl
    rw [hlive, toNat_add_of_lt (by omega), hpad]

/-- **The search is exact**: it places in the least free slot with room, or
no slot has room and the reason says why. -/
theorem allocate_search (hinv : Inv ra) (hbytes : 0 < req.bytes.toNat)
    (hpow : isPow2 req.alignment = true) :
    (∃ slot live ra', ra.allocate req = (.ok live, ra') ∧ Placed ra req live ra' ∧
      BestFit ra req slot live) ∨
    ∃ f, ra.allocate req = (.error f, ra) ∧ f.reason = refusal ra req ∧
      ∀ s ∈ ra.freeSlots, ¬ Room req.alignment.toNat
        (roundUp req.bytes.toNat req.alignment.toNat) s.offset.toNat s.size.toNat := by
  have hapos := toNat_pos_of_isPow2 hpow
  have hcap := ra.capacity.toNat_lt
  have hle := le_roundUp req.bytes.toNat hapos
  have hfree := hinv.toNat_freeBytes
  have hval := toNat_alignUp req.bytes hpow
  have hzero : ¬ (req.bytes == 0) = true := by simpa using toNat_pos_iff.mp hbytes
  have halign : ¬ (req.alignment == 0 || !isPow2 req.alignment) = true := by
    simp [hpow, toNat_pos_iff.mp hapos]
  unfold allocate refusal
  rw [if_neg hzero, if_neg halign]
  by_cases hbig : req.bytes > ra.capacity
  · have hgt := UInt64.lt_iff_toNat_lt.mp hbig
    have hover : ¬ (req.bytes ≤ ra.capacity ∧
        2 ^ 64 ≤ roundUp req.bytes.toNat req.alignment.toNat) := by
      rw [UInt64.le_iff_toNat_le]; omega
    have htotal : ¬ roundUp req.bytes.toNat req.alignment.toNat ≤ ra.freeBytes.toNat := by omega
    refine Or.inr ⟨_, if_pos hbig, ?_, hinv.no_room hapos (by omega)⟩
    simp only [if_neg hover, if_neg htotal]
  have hfit : req.bytes ≤ ra.capacity := UInt64.le_iff_toNat_le.mpr (by
    rw [gt_iff_lt, UInt64.lt_iff_toNat_lt] at hbig; omega)
  rw [if_neg hbig]
  by_cases hwrap : 2 ^ 64 ≤ roundUp req.bytes.toNat req.alignment.toNat
  · rw [if_pos hwrap] at hval
    have hwrapped : alignUp req.bytes req.alignment = 0 := UInt64.toNat_inj.mp hval
    refine Or.inr ⟨_, if_pos (by simp [hwrapped]), ?_, hinv.no_room hapos (by omega)⟩
    simp only [if_pos (And.intro hfit hwrap)]
  rw [if_neg hwrap] at hval
  have hover : ¬ (alignUp req.bytes req.alignment == 0 ||
      decide (alignUp req.bytes req.alignment < req.bytes)) = true := by
    have hne := toNat_pos_iff.mp (show 0 < (alignUp req.bytes req.alignment).toNat by omega)
    simp only [Bool.or_eq_true, beq_iff_eq, decide_eq_true_eq, UInt64.lt_iff_toNat_lt, hne,
      false_or]
    omega
  rw [if_neg hover]
  simp only [if_neg (fun h : req.bytes ≤ ra.capacity ∧ _ => hwrap h.2)]
  by_cases hfull : alignUp req.bytes req.alignment > ra.capacity
  · have hgt := UInt64.lt_iff_toNat_lt.mp hfull
    refine Or.inr ⟨_, if_pos hfull, ?_, hinv.no_room hapos (by omega)⟩
    rw [if_neg (by omega)]
  rw [if_neg hfull]
  cases hfound : (ra.freeSlots.lowerBound ⟨alignUp req.bytes req.alignment, 0⟩).find?
      (fun e => fits req.alignment (alignUp req.bytes req.alignment) e.1) with
  | none =>
      have hnone := search_none hinv hpow hfound
      rw [hval] at hnone
      right
      dsimp only
      by_cases htotal : ra.freeBytes < alignUp req.bytes req.alignment
      · have := UInt64.lt_iff_toNat_lt.mp htotal
        exact ⟨_, if_pos htotal, by rw [if_neg (by omega)], hnone⟩
      · refine ⟨_, if_neg htotal, ?_, hnone⟩
        rw [UInt64.lt_iff_toNat_lt] at htotal
        rw [if_pos (by omega)]
  | some e =>
      obtain ⟨slot, u⟩ := e
      obtain ⟨live, ra', hplace, hplaced, hbest⟩ := search_some hinv hbytes hpow hval hfound
      exact Or.inl ⟨slot, live, ra', by simp only [hplace], hplaced, hbest⟩

end Search

/-! ## Completeness and best fit -/

theorem isPow2_of_pow {a : UInt64} {k : Nat} (h : a.toNat = 2 ^ k) : isPow2 a = true := by
  have hpos : 0 < a.toNat := by rw [h]; exact Nat.two_pow_pos k
  have hpred : (a - 1).toNat = 2 ^ k - 1 := by
    rw [toNat_sub_of_ge (b := 1) hpos, h]
    rfl
  have hand : a &&& (a - 1) = 0 := UInt64.toNat_inj.mp (by
    rw [UInt64.toNat_and, hpred, h, Nat.and_two_pow_sub_one_eq_mod, Nat.mod_self]
    rfl)
  simp [isPow2, toNat_pos_iff.mp hpos, hand]

/-- The free regions, in exact arithmetic, that a request has room in. -/
def Candidate (ra : RegionAllocator) (req : AllocRequest) (r : RegionInfo) : Prop :=
  r ∈ ra.snapshotFree ∧
    Room req.alignment.toNat (roundUp req.bytes.toNat req.alignment.toNat)
      r.offset.toNat r.size.toNat

theorem Inv.candidate_iff {ra : RegionAllocator} (hinv : Inv ra) {req : AllocRequest}
    {s : FreeSlot} :
    (s ∈ ra.freeSlots ∧ Room req.alignment.toNat
      (roundUp req.bytes.toNat req.alignment.toNat) s.offset.toNat s.size.toNat) ↔
    ∃ r, ra.Candidate req r ∧ s = ⟨r.size, r.offset⟩ := by
  rw [hinv.layout.slots s]
  constructor
  · rintro ⟨⟨r, hf, hfree, hsize⟩, hroom⟩
    have hoff := hinv.layout.keyed hf
    have hmem : r ∈ ra.snapshotFree := hinv.mem_snapshotFree.mpr ⟨by rw [hoff]; exact hf, hfree⟩
    exact ⟨r, ⟨hmem, by rw [hoff, hsize]; exact hroom⟩, by rw [hoff, hsize]⟩
  · rintro ⟨r, ⟨hmem, hroom⟩, rfl⟩
    obtain ⟨hf, hfree⟩ := hinv.mem_snapshotFree.mp hmem
    exact ⟨⟨r, hf, hfree, rfl⟩, hroom⟩

/-- **Allocation is complete and best-fit**, on every reachable allocator,
for every capacity, size and power of two: it succeeds exactly when some
free region has room, in the one least by (size, offset), at its first
multiple of the alignment; the reason of a failure is decided by exact
comparisons. -/
theorem allocate_complete (capacity : UInt64) (hcap : capacity > 0) (actions : List Action)
    (req : AllocRequest) (hbytes : req.bytes > 0) (hpow : ∃ j, req.alignment.toNat = 2 ^ j) :
    let ra := run act (new capacity) actions
    let n := roundUp req.bytes.toNat req.alignment.toNat
    (Accepted (ra.allocate req).1 ↔ ∃ r, ra.Candidate req r) ∧
    (∀ live, (ra.allocate req).1 = .ok live →
      (ra.allocate req).2.lookup req.allocId = some live ∧ live.size.toNat = n ∧
      ∃ r, ra.Candidate req r ∧ live.offset.toNat = roundUp r.offset.toNat req.alignment.toNat ∧
        ∀ r', ra.Candidate req r' →
          r.size < r'.size ∨ (r.size = r'.size ∧ r.offset ≤ r'.offset)) ∧
    (∀ f, (ra.allocate req).1 = .error f →
      f.reason =
        if req.bytes ≤ capacity ∧ 2 ^ 64 ≤ n then .sizeOverflow
        else if n ≤ ra.freeBytes.toNat then .insufficientContiguousCapacity
        else .insufficientTotalCapacity) := by
  intro ra n
  obtain ⟨hinv, hcapacity⟩ : Inv ra ∧ ra.capacity = capacity :=
    run_act_inv (UInt64.lt_iff_toNat_lt.mp hcap) actions
  obtain ⟨j, hj⟩ := hpow
  have hpos : 0 < req.bytes.toNat := UInt64.lt_iff_toNat_lt.mp hbytes
  rcases allocate_search hinv hpos (isPow2_of_pow hj) with
    ⟨slot, live, ra', heq, hplaced, hbest⟩ | ⟨f, heq, hreason, hnone⟩
  · obtain ⟨r, hr, hslot⟩ := hinv.candidate_iff.mp ⟨hbest.free, hbest.room⟩
    rw [heq]
    refine ⟨iff_of_true ⟨live, rfl⟩ ⟨r, hr⟩, ?_, fun f hf => by cases hf⟩
    intro live' hlive'
    cases hlive'
    refine ⟨?_, hplaced.size, r, hr, by rw [hbest.offset, hslot], fun r' hr' => ?_⟩
    · rw [hplaced.effect.lookup_eq hinv, if_pos rfl]
    · obtain ⟨hmem, hroom⟩ := hinv.candidate_iff.mpr ⟨r', hr', rfl⟩
      have hle := slot_le_iff.mp (hbest.least _ hmem hroom)
      rwa [hslot] at hle
  · rw [heq]
    refine ⟨iff_of_false (fun ⟨live, h⟩ => by cases h) (fun ⟨r, hr⟩ => ?_),
      fun live h => (by cases h), fun f' hf' => ?_⟩
    · obtain ⟨hmem, hroom⟩ := hinv.candidate_iff.mpr ⟨r, hr, rfl⟩
      exact hnone _ hmem hroom
    · cases hf'
      rw [hreason, refusal, hcapacity]

/-- A full-size arena whose last 19 bytes are free: rounding their offset
up to 32 wraps. -/
def lastBytesFree : List Action :=
  [.call (.allocate
     { bytes := 18446744073709551596, alignment := 4, allocId := ⟨1⟩, allocGeneration := ⟨1⟩ }),
   .freeRegionCount]

theorem lastBytesFree_allocates :
    (∃ r, (run act (new 18446744073709551615) lastBytesFree).Candidate
      { bytes := 5, alignment := 8 } r) ∧
    ¬ (∃ r, (run act (new 18446744073709551615) lastBytesFree).Candidate
      { bytes := 1, alignment := 32 } r) := by
  have hroom := (allocate_complete 18446744073709551615 (by decide) lastBytesFree
    { bytes := 5, alignment := 8 } (by decide) ⟨3, by decide⟩).1
  have hnone := (allocate_complete 18446744073709551615 (by decide) lastBytesFree
    { bytes := 1, alignment := 32 } (by decide) ⟨5, by decide⟩).1
  rw [← hroom, ← hnone]
  decide +kernel

end GpuMemoryService.RegionAllocator
