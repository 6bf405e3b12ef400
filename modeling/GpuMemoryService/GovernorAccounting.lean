/-
GpuMemoryService.GovernorAccounting — the committed and resident bytes of
the domain.

The domain counts granted bytes a third time, beside the records and the
arena, and adjusts the counters at request and release only. They agree
with the arena throughout exactly the runs in which no accepted request
draws an id still in use and no accepted relocation changes a size
(`accounted_iff`); while they do, the saturating subtraction at release is
an exact one.
-/
import GpuMemoryService.GovernorMoves

namespace GpuMemoryService.MemoryGovernor

open Lib

/-- The bytes of all live records. -/
def recordedBytes (g : MemoryGovernor) : Nat :=
  g.records.weigh (fun _ rec => rec.regionSize.toNat)

/-- The three counts of live bytes are one, and no release of a live record
saturates. -/
structure Accounted (g : MemoryGovernor) : Prop where
  committed : g.domain.currentCommitted = g.arena.liveBytes
  resident : g.domain.currentResident = g.arena.liveBytes
  recorded : g.arena.liveBytes.toNat = g.recordedBytes
  release : ∀ id rec, g.records.find? id = some rec →
    g.domain.currentCommitted ≥ rec.regionSize ∧ g.domain.currentResident ≥ rec.regionSize

/-- An accepted request draws an id no live record has, and a relocation
that passes the checks of `apply_relocation` keeps the size. -/
def KeepsBooks (g : MemoryGovernor) : Call → Prop
  | .request req => Accepted (g.request req).1 → g.records.find? ⟨g.nextAllocId⟩ = none
  | .applyRelocation id gen o n => ∀ rec, g.Relocatable id gen o n rec → n = rec.regionSize
  | _ => True

section Accounting

variable {g g' : MemoryGovernor}

/-- The last clause follows from the others. -/
theorem accounted_of (hc : g.domain.currentCommitted = g.arena.liveBytes)
    (hr : g.domain.currentResident = g.arena.liveBytes)
    (hrec : g.arena.liveBytes.toNat = g.recordedBytes) : Accounted g where
  committed := hc
  resident := hr
  recorded := hrec
  release := by
    intro id rec hf
    have hle : rec.regionSize ≤ g.arena.liveBytes := by
      rw [UInt64.le_iff_toNat_le, hrec]
      exact OrdMap.weigh_entry_le (fun _ r => r.regionSize.toNat) hf
    rw [hc, hr]
    exact ⟨hle, hle⟩

/-- A subtraction that does not saturate undoes an addition. -/
theorem sub_eq_of_add {a b c : UInt64} (hge : a ≥ b) (heq : c + b = a) : sub a b = c := by
  unfold sub
  rw [if_pos hge, ← heq, UInt64.add_sub_cancel]

/-- A rewritten record keeps the books exactly if it keeps its size. -/
theorem accounted_rewritten (hacc : Accounted g) {id : AllocationId} {gen : AllocationGeneration}
    {rec rec' : AllocationRecord} {region region' : RegionInfo}
    (hcur : g.Current id gen rec region)
    (he : g.arena.Effect g'.arena id (some region) (some region'))
    (hrecords : g'.records = g.records.insert id rec') (hag : Agrees rec' region')
    (hc : g'.domain.currentCommitted = g.domain.currentCommitted)
    (hr : g'.domain.currentResident = g.domain.currentResident) :
    Accounted g' ↔ region'.size = region.size := by
  have hbytes : g'.arena.liveBytes + region.size = g.arena.liveBytes + region'.size := he.bytes
  constructor
  · intro hacc'
    rw [← hacc'.committed, hc, hacc.committed] at hbytes
    exact ((UInt64.add_right_inj _).mp hbytes).symm
  · intro hsize
    rw [hsize] at hbytes
    have hlive : g'.arena.liveBytes = g.arena.liveBytes := (UInt64.add_left_inj _).mp hbytes
    refine accounted_of (by rw [hc, hlive, hacc.committed]) (by rw [hr, hlive, hacc.resident]) ?_
    have hweigh := OrdMap.weigh_update (fun _ r => r.regionSize.toNat) rec' hcur.found
    rw [hag.size, hcur.agrees.size, hsize] at hweigh
    have hsum := hacc.recorded
    unfold recordedBytes at hsum ⊢
    rw [hlive, hrecords]
    omega

/-- A grant keeps the books exactly if its id was free. -/
theorem accounted_granted (h : Inv g) (hacc : Accounted g) {req : AllocationRequest}
    {live : RegionInfo} {arena : RegionAllocator} (hready : g.initialized = true)
    (hp : g.arena.Placed (arenaRequest req ⟨g.nextAllocId⟩) live arena) :
    Accounted (g.nextId.2.grant req ⟨g.nextAllocId⟩ live arena) ↔
      g.records.find? ⟨g.nextAllocId⟩ = none := by
  have harena := h.arena (h.pos_of_ready hready)
  have hbytes : arena.liveBytes + 0 = g.arena.liveBytes + live.size := hp.effect.bytes
  have hexact : arena.liveBytes.toNat + 0 = g.arena.liveBytes.toNat + live.size.toNat :=
    hp.effect.toNat_liveBytes harena
  have hsum := hacc.recorded
  unfold recordedBytes at hsum
  cases hf : g.records.find? ⟨g.nextAllocId⟩ with
  | none =>
      refine iff_of_true (accounted_of ?_ ?_ ?_) rfl
      · rw [UInt64.add_zero] at hbytes
        show (chargeDomain _ _ _).currentCommitted = arena.liveBytes
        rw [(chargeDomain_fields _ _ _).2.1, hbytes]
        exact congrArg (· + live.size) hacc.committed
      · rw [UInt64.add_zero] at hbytes
        show (chargeDomain _ _ _).currentResident = arena.liveBytes
        rw [(chargeDomain_fields _ _ _).2.2, hbytes]
        exact congrArg (· + live.size) hacc.resident
      · show arena.liveBytes.toNat = (g.records.insert _ _).weigh _
        rw [OrdMap.weigh_insert _ _ hf]
        simp only [grantedRecord]
        omega
  | some rec =>
      refine iff_of_false (fun hacc' => ?_) (fun hc => by cases hc)
      -- the old record is overwritten, its region stays live and counted
      obtain ⟨_, _, region, hcur⟩ := h.current hf
      have hpos := harena.size_pos (harena.lookup_some hcur.lookup).2.1
      have hsum' : arena.liveBytes.toNat = (g.records.insert _ _).weigh _ := hacc'.recorded
      have hweigh := OrdMap.weigh_update (fun _ r => r.regionSize.toNat)
        (grantedRecord req ⟨g.nextAllocId⟩ live) hf
      rw [← hsum', hcur.agrees.size] at hweigh
      simp only [grantedRecord] at hweigh
      omega

theorem accounted_released (h : Inv g) (hacc : Accounted g) {id : AllocationId}
    {gen : AllocationGeneration} {rec : AllocationRecord} {region : RegionInfo}
    {arena : RegionAllocator} (hcur : g.Current id gen rec region)
    (he : g.arena.Effect arena id (some region) none) : Accounted (g.retire id rec arena) := by
  obtain ⟨_, harena, _⟩ := h.current hcur.found
  have hbytes : arena.liveBytes + region.size = g.arena.liveBytes + 0 := he.bytes
  have hexact : arena.liveBytes.toNat + region.size.toNat = g.arena.liveBytes.toNat + 0 :=
    he.toNat_liveBytes harena
  rw [UInt64.add_zero, ← hcur.agrees.size] at hbytes
  obtain ⟨hcommitted, hresident⟩ := hacc.release id rec hcur.found
  refine accounted_of ?_ ?_ ?_
  · show (dischargeDomain _ _).currentCommitted = arena.liveBytes
    rw [(dischargeDomain_fields _ _).2.1]
    exact sub_eq_of_add hcommitted (by rw [hacc.committed]; exact hbytes)
  · show (dischargeDomain _ _).currentResident = arena.liveBytes
    rw [(dischargeDomain_fields _ _).2.2]
    exact sub_eq_of_add hresident (by rw [hacc.resident]; exact hbytes)
  · show arena.liveBytes.toNat = (g.records.erase id).weigh _
    have hweigh := OrdMap.weigh_erase (fun _ r => r.regionSize.toNat) hcur.found
    have hsum := hacc.recorded
    unfold recordedBytes at hsum
    rw [hcur.agrees.size] at hweigh
    omega

theorem Quiet.accounted (hacc : Accounted g) (hq : Quiet g g') : Accounted g' := by
  have hlive : g'.arena.liveBytes = g.arena.liveBytes := by
    rcases hq.arena with ha | ha <;> simp [ha]
  refine accounted_of ?_ ?_ ?_
  · rw [hq.committed, hlive, hacc.committed]
  · rw [hq.resident, hlive, hacc.resident]
  · rw [recordedBytes, hq.records, hlive]
    exact hacc.recorded

/-- **One call** keeps the books exactly if it meets `KeepsBooks`. -/
theorem perform_accounted (h : Inv g) (hacc : Accounted g) (c : Call) :
    Accounted (g.perform c).2 ↔ KeepsBooks g c := by
  have hs := perform_step h c
  generalize hreply : (g.perform c).1 = reply at hs
  generalize (g.perform c).2 = g' at hs
  cases hs with
  | quiet hq hm _ =>
      refine iff_of_true (hq.accounted hacc) ?_
      cases c with
      | request req =>
          rintro ⟨handle, hok⟩
          rw [← hreply] at hm
          simp [perform, hok, mutates] at hm
      | applyRelocation id gen o n =>
          rw [← hreply] at hm
          exact fun rec hr => absurd hr (not_relocatable h hm rec)
      | _ => trivial
  | @granted req live arena hready hp =>
      rw [accounted_granted h hacc hready hp]
      refine ⟨fun hfree _ => hfree, fun hfree => hfree ⟨_, Reply.handle.inj hreply⟩⟩
  | released hc hcur _ _ _ he =>
      refine iff_of_true (accounted_released h hacc hcur he) ?_
      rcases hc with rfl | ⟨_, _, rfl⟩ <;> trivial
  | pinned hcur he =>
      refine iff_of_true ?_ trivial
      exact Iff.mpr (accounted_rewritten hacc hcur he rfl (agrees_pinned hcur.agrees) rfl rfl) rfl
  | unpinned hcur _ he =>
      refine iff_of_true ?_ trivial
      refine Iff.mpr (accounted_rewritten hacc hcur he rfl (agrees_unpinned hcur.agrees) ?_ ?_) rfl
      · simp only [recordUnpin]
        split <;> rfl
      · simp only [recordUnpin]
        split <;> rfl
  | moved hcur hpins hadm he =>
      refine Iff.trans (accounted_rewritten hacc hcur he rfl (agrees_moved hcur.agrees) rfl rfl) ?_
      rw [KeepsBooks, hcur.forall_relocatable hpins hadm, hcur.agrees.size]
      rfl
  | restored s => exact iff_of_true (accounted_of rfl rfl rfl) trivial

/-- **Committed bytes are accounted for** throughout exactly the runs in
which every accepted request draws an id no live record has and every
relocation that passes the checks of `apply_relocation` keeps the size. -/
theorem accounted_iff (domain : MemoryDomain) (hasBackend : Bool) (calls : List Call)
    (hcommitted : domain.currentCommitted = 0) (hresident : domain.currentResident = 0) :
    Throughout perform (fun _ g => Accounted g) (new domain hasBackend) calls ↔
      Guarded perform KeepsBooks (new domain hasBackend) calls := by
  rw [guarded_iff_concat]
  refine @throughout_iff _ _ _ perform (fun _ g => Accounted g) (fun _ g c => KeepsBooks g c)
    (new domain hasBackend) calls ?_ (fun pre c hacc => ?_)
  · exact accounted_of hcommitted hresident rfl
  · rw [run_concat]
    exact perform_accounted (run_inv (inv_new domain hasBackend) pre) hacc c

/-- An allocation that is pinned, unpinned and released. -/
def balancedRun : List Call :=
  [.initializeArena (.ok 4096), .request { bytes := 100 }, .pin ⟨1⟩ ⟨1⟩, .unpin ⟨1⟩ ⟨1⟩,
   .release ⟨1⟩ ⟨1⟩]

theorem balancedRun_accounted :
    Throughout perform (fun _ g => Accounted g) (new { managedCapacity := 1024 } true)
      balancedRun :=
  (accounted_iff { managedCapacity := 1024 } true balancedRun rfl rfl).mpr
    ⟨trivial, fun _ => rfl, trivial, trivial, trivial, trivial⟩

/-- An allocation of 100 bytes moved into 200. -/
def growingMove : List Call :=
  [.initializeArena (.ok 4096), .request { bytes := 100 }, .applyRelocation ⟨1⟩ ⟨1⟩ 512 200]

theorem growingMove_unaccounted :
    let g := run perform (new { managedCapacity := 1024 } true) growingMove
    ¬ Accounted g ∧ g.domain.currentCommitted = 100 ∧ g.arena.liveBytes = 200 ∧
      g.recordedBytes = 200 := by
  intro g
  have hcommitted : g.domain.currentCommitted = 100 := by decide +kernel
  have hlive : g.arena.liveBytes = 200 := by decide +kernel
  refine ⟨fun hacc => ?_, hcommitted, hlive, by decide +kernel⟩
  have heq := hacc.committed
  rw [hcommitted, hlive] at heq
  cases heq

end Accounting

end GpuMemoryService.MemoryGovernor
