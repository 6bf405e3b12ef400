/-
GpuMemoryService.GovernorPinPairs — a pin and its unpin.

Neither `pin` nor `unpin` stores the movability it replaces. A pin makes
the record and the region PINNED and moves the bytes of the region from
the movable to the pinned ones of the domain; the unpin that reaches 0
makes both MOVABLE and moves the bytes back, and an unpin that does not
reach 0 moves nothing. So the pair leads back where it started for an
unpinned movable allocation only, and there only if neither of the two
counters saturates or wraps on the way (`pinPair_restores_iff`).
-/
import GpuMemoryService.GovernorClasses
import GpuMemoryService.GovernorPins

namespace GpuMemoryService.MemoryGovernor

open Lib

/-! ## Movable records -/

/-- A movable record is neither pinned nor in the life cycle of one. -/
def MovableIdle (rec : AllocationRecord) : Prop :=
  rec.movability = .movable → rec.pinCount = 0 ∧ rec.lifecycle = .resident

section MovableIdle

variable {g g' : MemoryGovernor}

theorem movableIdle_granted (req : AllocationRequest) (id : AllocationId) (r : RegionInfo) :
    MovableIdle (grantedRecord req id r) := by
  intro hmov
  simp only [grantedRecord, grantedMovability] at hmov ⊢
  cases hpin : req.requiresPin with
  | true => simp [hpin] at hmov
  | false => simp

theorem movableIdle_unpinned (rec : AllocationRecord) {region : RegionInfo}
    (hclass : region.movability = .pinned) :
    MovableIdle (unpinnedRecord rec (RegionAllocator.unpinnedRegion region)) := by
  intro hmov
  simp only [unpinnedRecord, RegionAllocator.unpinnedRegion] at hmov ⊢
  by_cases hzero : region.pinCount - 1 = 0
  · simp [hzero]
  · simp [hzero, hclass] at hmov

/-- **One step** keeps movable records idle. -/
theorem Step.movableIdle (h : Inv g) (hheld : g.arena.PinsHeld)
    (hidle : ∀ id rec, g.records.find? id = some rec → MovableIdle rec) {c : Call} {reply : Reply}
    (hs : Step g c reply g') : ∀ id rec, g'.records.find? id = some rec → MovableIdle rec := by
  cases hs with
  | quiet hq _ _ =>
      rw [hq.records]
      exact hidle
  | granted hready hp =>
      refine ((granted_update h hready hp).forall_records hidle).mpr (fun r hr => ?_)
      cases hr
      exact movableIdle_granted _ _ _
  | released _ hcur _ _ _ he =>
      exact ((released_update h hcur he).forall_records hidle).mpr (fun r hr => by cases hr)
  | pinned hcur he =>
      refine ((pinned_update h hcur he).forall_records hidle).mpr (fun r hr => ?_)
      cases hr
      intro hmov
      cases hmov
  | unpinned hcur hpins he =>
      refine ((unpinned_update h hcur he).forall_records hidle).mpr (fun r hr => ?_)
      cases hr
      exact movableIdle_unpinned _ (hheld _ _ (he.old_live rfl).1 hpins)
  | moved hcur hpins _ he =>
      refine ((moved_update h hcur he).forall_records hidle).mpr (fun r hr => ?_)
      cases hr
      exact fun _ => ⟨hpins, rfl⟩
  | restored s =>
      intro id rec hf
      exact absurd hf (by simp [restore])

/-- **Every reachable governor**. -/
theorem run_movableIdle (domain : MemoryDomain) (hasBackend : Bool) (calls : List Call)
    {id : AllocationId} {rec : AllocationRecord}
    (hf : (run perform (new domain hasBackend) calls).records.find? id = some rec) :
    MovableIdle rec := by
  have h : ∀ id rec, (run perform (new domain hasBackend) calls).records.find? id = some rec →
      MovableIdle rec := by
    refine (reachable_induction (P := fun g => g.arena.PinsHeld ∧
      ∀ id rec, g.records.find? id = some rec → MovableIdle rec) ?_ (fun g c hinv hg => ?_) calls).2
    · exact ⟨run_pinsHeld domain hasBackend [], fun id rec hf => absurd hf (by simp [new])⟩
    · have hs := perform_step hinv c
      exact ⟨hs.pinsHeld hg.1, hs.movableIdle hinv hg.1 hg.2⟩
  exact h id rec hf

end MovableIdle

/-! ## The pair -/

/-- `g'` has the record, the region and the two counters of `g` back. -/
structure Restored (g g' : MemoryGovernor) (id : AllocationId) : Prop where
  record : (g'.records.find? id).map (fun r => (r.movability, r.pinCount, r.lifecycle)) =
    (g.records.find? id).map (fun r => (r.movability, r.pinCount, r.lifecycle))
  region : g'.arena.lookup id = g.arena.lookup id
  movable : g'.domain.currentMovable = g.domain.currentMovable
  pinned : g'.domain.currentPinned = g.domain.currentPinned

section Counters

/-- What a saturating subtraction took can be added back unless it
saturated. -/
theorem sub_add_eq_iff {a b : UInt64} : sub a b + b = a ↔ b ≤ a := by
  unfold sub
  split
  · rename_i hge
    simpa using hge
  · rename_i hlt
    simp only [UInt64.zero_add]
    constructor
    · intro heq
      exact le_of_eq heq
    · intro hle
      exact absurd hle hlt

/-- What was added can be taken back by a saturating subtraction unless the
addition wrapped. -/
theorem sub_of_add_eq_iff {a b : UInt64} :
    sub (a + b) b = a ↔ a.toNat + b.toNat < 2 ^ 64 := by
  have ha := a.toNat_lt
  have hb := b.toNat_lt
  have hadd := UInt64.toNat_add a b
  have hiff : a + b ≥ b ↔ a.toNat + b.toNat < 2 ^ 64 := by
    rw [ge_iff_le, UInt64.le_iff_toNat_le, hadd]
    omega
  unfold sub
  by_cases hfit : a.toNat + b.toNat < 2 ^ 64
  · rw [if_pos (hiff.mpr hfit)]
    exact iff_of_true (by simp) hfit
  · rw [if_neg (fun h => hfit (hiff.mp h))]
    refine iff_of_false (fun hzero => hfit ?_) hfit
    rw [← hzero, UInt64.toNat_zero, Nat.zero_add]
    exact hb

theorem sub_zero (a : UInt64) : sub a 0 = a := by
  simp [sub]

end Counters

section Pair

variable {g : MemoryGovernor} {id : AllocationId} {gen : AllocationGeneration}
  {rec : AllocationRecord} {region : RegionInfo}

/-- `g'` is `g` after a pin of the current handle and the unpin right after
it. -/
structure AfterPair (g g' : MemoryGovernor) (id : AllocationId) (rec : AllocationRecord)
    (region : RegionInfo) : Prop where
  record : g'.records.find? id = some (unpinnedRecord
    (pinnedRecord rec (RegionAllocator.pinnedRegion region).pinCount)
    (RegionAllocator.unpinnedRegion (RegionAllocator.pinnedRegion region)))
  lookup : g'.arena.lookup id =
    some (RegionAllocator.unpinnedRegion (RegionAllocator.pinnedRegion region))
  movable : g'.domain.currentMovable =
    if region.pinCount = 0 then sub g.domain.currentMovable rec.regionSize + rec.regionSize
    else sub g.domain.currentMovable rec.regionSize
  pinned : g'.domain.currentPinned =
    if region.pinCount = 0 then sub (g.domain.currentPinned + rec.regionSize) rec.regionSize
    else g.domain.currentPinned + rec.regionSize

theorem Current.pin_unpin (h : Inv g) (hcur : g.Current id gen rec region)
    (hfits : region.pinCount + 1 ≠ 0) :
    ∃ g', (g.pin id gen).2.unpin id gen = (.ok (), g') ∧ AfterPair g g' id rec region := by
  obtain ⟨arena, heq, heff⟩ := hcur.pin h
  have hupdate := pinned_update h hcur heff
  have hcur' := hupdate.current
  have hgen : (pinnedRecord rec (RegionAllocator.pinnedRegion region).pinCount).generation = gen :=
    hcur.generation
  rw [hgen] at hcur'
  rw [heq]
  rcases hcur'.unpin (hupdate.inv h) with ⟨hzero, _⟩ | ⟨_, arena', heq', heff'⟩
  · exact absurd hzero hfits
  have hupdate' := unpinned_update (hupdate.inv h) hcur' heff'
  have hback : (RegionAllocator.unpinnedRegion (RegionAllocator.pinnedRegion region)).pinCount
      = region.pinCount := by
    simp [RegionAllocator.unpinnedRegion, RegionAllocator.pinnedRegion]
  refine ⟨_, heq', ?_, ?_, ?_, ?_⟩
  · rw [hupdate'.records, if_pos rfl]
  · rw [hupdate'.lookup, if_pos rfl]
  · simp only [recordUnpin, hback, beq_iff_eq]
    split <;> rfl
  · simp only [recordUnpin, hback, beq_iff_eq]
    split <;> simp only [recordPin, pinnedRecord, sub_zero]

/-- The pair gives the region back exactly if it had no pin and was movable,
or had one and was pinned. -/
theorem unpinnedRegion_pinnedRegion (region : RegionInfo) :
    RegionAllocator.unpinnedRegion (RegionAllocator.pinnedRegion region) =
      { region with movability := if region.pinCount = 0 then .movable else .pinned } := by
  simp [RegionAllocator.unpinnedRegion, RegionAllocator.pinnedRegion]

/-- The pair around an unpinned allocation. -/
theorem AfterPair.restored_iff {g' : MemoryGovernor} (hafter : AfterPair g g' id rec region)
    (hcur : g.Current id gen rec region) (hidle : MovableIdle rec)
    (hsame : rec.pinCount = region.pinCount) (hzero : region.pinCount = 0) :
    Restored g g' id ↔ rec.movability = .movable ∧ rec.regionSize ≤ g.domain.currentMovable ∧
      g.domain.currentPinned.toNat + rec.regionSize.toNat < 2 ^ 64 := by
  have hmovable := hafter.movable
  have hpinned := hafter.pinned
  rw [if_pos hzero] at hmovable hpinned
  constructor
  · intro hback
    have hfields := hback.record
    rw [hafter.record, hcur.found, unpinnedRegion_pinnedRegion, hzero] at hfields
    simp only [Option.map_some, unpinnedRecord, if_true, Option.some.injEq, Prod.mk.injEq] at hfields
    refine ⟨hfields.1.symm, ?_, ?_⟩
    · rw [← sub_add_eq_iff, ← hmovable, hback.movable]
    · rw [← sub_of_add_eq_iff, ← hpinned, hback.pinned]
  · rintro ⟨hmov, hle, hfit⟩
    obtain ⟨_, hlife⟩ := hidle hmov
    constructor
    · rw [hafter.record, hcur.found, unpinnedRegion_pinnedRegion, hzero]
      simp [unpinnedRecord, hmov, hlife, hsame, hzero]
    · have hclass : region.movability = .movable := by rw [← hcur.agrees.movability, hmov]
      rw [hafter.lookup, hcur.lookup, unpinnedRegion_pinnedRegion, if_pos hzero, ← hclass]
    · rw [hmovable, sub_add_eq_iff]
      exact hle
    · rw [hpinned, sub_of_add_eq_iff]
      exact hfit

/-- The pair around a pinned allocation counts its bytes as pinned once
more. -/
theorem AfterPair.not_restored {g' : MemoryGovernor} (hafter : AfterPair g g' id rec region)
    (hsize : 0 < rec.regionSize.toNat) (hpins : region.pinCount ≠ 0) : ¬ Restored g g' id := by
  intro hback
  have hadd := hback.pinned
  rw [hafter.pinned, if_neg hpins] at hadd
  have hnat := congrArg UInt64.toNat hadd
  rw [UInt64.toNat_add] at hnat
  have hlt := rec.regionSize.toNat_lt
  have hlt' := g.domain.currentPinned.toNat_lt
  omega

/-- A pin is accepted with the current generation only. -/
theorem generation_of_pin_accepted (hf : g.records.find? id = some rec)
    (hok : Accepted (g.pin id gen).1) : rec.generation = gen := by
  by_contra hne
  obtain ⟨_, hpin⟩ := hok
  have hstale : g.locate id gen "stale generation on pin"
      = .error ⟨.staleGeneration, "stale generation on pin"⟩ := by
    simp [MemoryGovernor.locate, hf, hne]
  simp only [MemoryGovernor.pin, hstale] at hpin
  cases hpin

/-- **A pin and its unpin restore the state, when.** In every reachable state
and for every live allocation requested without `requires_pin`, with a
count below 2^32 - 1: the unpin after an accepted pin is accepted and gives
record, region and counters back exactly if the allocation is movable and
unpinned, its size is counted as movable, and the pinned bytes have room
for it in 64 bits. -/
theorem pinPair_restores_iff (domain : MemoryDomain) (hasBackend : Bool) (calls : List Call)
    (id : AllocationId) (gen : AllocationGeneration) (rec : AllocationRecord) (a : Account)
    (hf : (run perform (new domain hasBackend) calls).records.find? id = some rec)
    (ha : account id (trace perform (new domain hasBackend) calls) = some a)
    (hreq : a.request.requiresPin = false)
    (hok : Accepted ((run perform (new domain hasBackend) calls).pin id gen).1)
    (hfits : rec.pinCount.toNat < 2 ^ 32 - 1) :
    let g := run perform (new domain hasBackend) calls
    (Accepted ((g.pin id gen).2.unpin id gen).1 ∧ Restored g ((g.pin id gen).2.unpin id gen).2 id) ↔
      (rec.movability = .movable ∧ rec.pinCount = 0 ∧ rec.regionSize ≤ g.domain.currentMovable ∧
        g.domain.currentPinned.toNat + rec.regionSize.toNat < 2 ^ 64) := by
  intro g
  have hinv : Inv g := run_inv (inv_new domain hasBackend) calls
  have hidle : MovableIdle rec := run_movableIdle domain hasBackend calls hf
  obtain ⟨_, harena, region, hcur⟩ := hinv.current hf
  obtain ⟨a', ha', _, hfol⟩ := (run_tracks domain hasBackend calls).current hcur
  rw [ha] at ha'
  cases ha'
  have hsame : rec.pinCount = region.pinCount := by
    rw [hfol.recordPins, if_neg (by simp [hreq])]
  rw [generation_of_pin_accepted hf hok] at hcur
  have hroom : region.pinCount + 1 ≠ 0 := by
    intro hzero
    have hnat := congrArg UInt32.toNat hzero
    rw [UInt32.toNat_add, ← hsame, UInt32.toNat_one, UInt32.toNat_zero] at hnat
    omega
  obtain ⟨g', hunpin, hafter⟩ := hcur.pin_unpin hinv hroom
  rw [hunpin, and_iff_right ⟨(), rfl⟩, hsame]
  by_cases hzero : region.pinCount = 0
  · rw [hafter.restored_iff hcur hidle hsame hzero]
    simp [hzero]
  · have hsize : 0 < rec.regionSize.toNat := by
      rw [hcur.agrees.size]
      exact harena.size_pos (harena.lookup_some hcur.lookup).2.1
    exact iff_of_false (hafter.not_restored hsize hzero) (fun hc => hzero hc.2.1)

/-- One allocation of 8 bytes. -/
def oneOfEight (movability : Movability) : List Call :=
  [.initializeArena (.ok 4096), .request { bytes := 8, movability := movability }]

/-- A movable allocation is given back as it was. -/
theorem pinPair_restores_movable :
    let g := run perform (new { managedCapacity := 1024 } true) (oneOfEight .movable)
    Accepted ((g.pin ⟨1⟩ ⟨1⟩).2.unpin ⟨1⟩ ⟨1⟩).1 ∧
      Restored g ((g.pin ⟨1⟩ ⟨1⟩).2.unpin ⟨1⟩ ⟨1⟩).2 ⟨1⟩ := by
  intro g
  obtain ⟨rec, hf, hfields⟩ : ∃ rec, g.records.find? ⟨1⟩ = some rec ∧
      (rec.movability, rec.pinCount, rec.regionSize) = (.movable, 0, 8) :=
    Option.map_eq_some_iff.mp (by decide +kernel : (g.records.find? ⟨1⟩).map
      (fun rec => (rec.movability, rec.pinCount, rec.regionSize)) = some (.movable, 0, 8))
  obtain ⟨a, ha, hreq⟩ : ∃ a, account ⟨1⟩ (trace perform (new { managedCapacity := 1024 } true)
      (oneOfEight .movable)) = some a ∧ a.request.requiresPin = false :=
    Option.map_eq_some_iff.mp (by decide +kernel : (account ⟨1⟩ (trace perform
      (new { managedCapacity := 1024 } true) (oneOfEight .movable))).map
        (·.request.requiresPin) = some false)
  simp only [Prod.mk.injEq] at hfields
  obtain ⟨hmov, hpins, hsize⟩ := hfields
  refine (pinPair_restores_iff { managedCapacity := 1024 } true (oneOfEight .movable) ⟨1⟩ ⟨1⟩ rec a
    hf ha hreq ⟨(), by decide +kernel⟩ (by rw [hpins]; decide)).mpr ⟨hmov, hpins, ?_, ?_⟩
  · rw [hsize]
    decide +kernel
  · rw [hsize]
    decide +kernel

/-- A nonmovable allocation is movable afterwards, and the bytes of one that
was pinned before are counted twice. -/
theorem pinPair_lost :
    let g := run perform (new { managedCapacity := 1024 } true) (oneOfEight .nonmovable)
    let h := run perform (new { managedCapacity := 1024 } true)
      (oneOfEight .movable ++ [.pin ⟨1⟩ ⟨1⟩])
    let after (g : MemoryGovernor) := ((g.pin ⟨1⟩ ⟨1⟩).2.unpin ⟨1⟩ ⟨1⟩).2
    ((g.records.find? ⟨1⟩).map (·.movability) = some .nonmovable ∧
      ((after g).records.find? ⟨1⟩).map (·.movability) = some .movable ∧
      ¬ Restored g (after g) ⟨1⟩) ∧
    (h.domain.currentPinned = 8 ∧ (after h).domain.currentPinned = 16 ∧
      ¬ Restored h (after h) ⟨1⟩) := by
  intro g h after
  have hbefore : (g.records.find? ⟨1⟩).map (·.movability) = some .nonmovable := by decide +kernel
  have hafter : ((after g).records.find? ⟨1⟩).map (·.movability) = some .movable := by
    decide +kernel
  have hbytes : h.domain.currentPinned = 8 ∧ (after h).domain.currentPinned = 16 := by
    decide +kernel
  refine ⟨⟨hbefore, hafter, fun hback => ?_⟩, hbytes.1, hbytes.2, fun hback => ?_⟩
  · have hfields := congrArg (Option.map (·.1)) hback.record
    simp only [Option.map_map] at hfields
    exact absurd (hafter.symm.trans (hfields.trans hbefore)) (by decide)
  · have hsum := hback.pinned
    rw [hbytes.1, hbytes.2] at hsum
    exact absurd hsum (by decide)

end Pair

end GpuMemoryService.MemoryGovernor
