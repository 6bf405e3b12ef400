/-
GpuMemoryService.GovernorSaving — which runs of a governor leave a state
that can be saved and loaded again.

The governor and the decoder bound their data independently. What the
decoder asks of the layout, the governor always keeps: a live record lies
aligned inside the arena, apart from all others. The rest are limits and
checks the governor does not make when it changes its state: the number of
records, the length of strings, declared enumerators, one id in one list,
and a region that holds the bytes requested. `Loadable` collects them and
`storable_iff` shows that a snapshot of a state within the invariant round
trips exactly if they hold. `loadable_iff` reads off, call by call, when
they stay true.
-/
import GpuMemoryService.GovernorInvariant
import GpuMemoryService.SnapshotValidation

namespace GpuMemoryService.MemoryGovernor

open Lib Persist

section Filed

variable {g g' : MemoryGovernor}

/-- Every record of the map is filed under its own id. -/
def FiledBy (m : OrdMap AllocationId AllocationRecord) : Prop :=
  ∀ i r, m.find? i = some r → r.id = i

theorem FiledBy.insert {m : OrdMap AllocationId AllocationRecord} (h : FiledBy m)
    {id : AllocationId} {rec : AllocationRecord} (hid : rec.id = id) :
    FiledBy (m.insert id rec) := by
  intro i r hf
  rcases OrdMap.find?_insert_some_iff.mp hf with ⟨hi, hr⟩ | ⟨_, hold⟩
  · rw [hr, hid, hi]
  · exact h i r hold

theorem FiledBy.foldl {m : OrdMap AllocationId AllocationRecord} (h : FiledBy m)
    (rs : List AllocationRecord) : FiledBy (rs.foldl (fun m r => m.insert r.id r) m) := by
  induction rs generalizing m with
  | nil => exact h
  | cons r rs ih => exact ih (h.insert rfl)

theorem FiledBy.map_id {m : OrdMap AllocationId AllocationRecord} (h : FiledBy m) :
    (m.entries.map (·.2)).map (·.id) = m.entries.map (·.1) := by
  rw [List.map_map]
  exact List.map_congr_left (fun e he => h _ _ (OrdMap.find?_eq_some_iff.mpr he))

/-- The ids of two lists of records differ exactly if no id is in both
maps. -/
theorem FiledBy.nodup_iff {m m' : OrdMap AllocationId AllocationRecord} (h : FiledBy m)
    (h' : FiledBy m') : ((m.entries.map (·.2) ++ m'.entries.map (·.2)).map (·.id)).Nodup ↔
      ∀ i r, m.find? i = some r → m'.find? i = none := by
  rw [List.map_append, h.map_id, h'.map_id, List.nodup_append]
  constructor
  · intro hnodup i r hf
    cases hf' : m'.find? i with
    | none => rfl
    | some q =>
        exact absurd rfl (hnodup.2.2 i (OrdMap.mem_keys.mpr ⟨r, hf⟩) i
          (OrdMap.mem_keys.mpr ⟨q, hf'⟩))
  · intro hapart
    refine ⟨OrdMap.nodup_keys _, OrdMap.nodup_keys _, fun i hi j hj hij => ?_⟩
    obtain ⟨r, hf⟩ := OrdMap.mem_keys.mp hi
    obtain ⟨q, hf'⟩ := OrdMap.mem_keys.mp hj
    rw [← hij, hapart i r hf] at hf'
    cases hf'

/-- A restore files the recovered records first, then the retired ones. -/
theorem retired_restore (g : MemoryGovernor) (s : PersistSnapshot) :
    (g.restore s).2.retired = s.retired.foldl (fun m r => m.insert r.id r)
      ((s.records.map recoveredRecord).foldl (fun m r => m.insert r.id r) OrdMap.empty) := by
  rw [List.foldl_map]
  rfl

theorem filedBy_restore (g : MemoryGovernor) (s : PersistSnapshot) :
    FiledBy (g.restore s).2.retired := by
  have hempty : FiledBy OrdMap.empty := fun i r hf => by simp at hf
  rw [retired_restore]
  exact (hempty.foldl _).foldl _

theorem Step.filed (h : Inv g) (hfiled : FiledBy g.retired) {c : Call} {reply : Reply}
    (hs : Step g c reply g') : FiledBy g'.retired := by
  cases hs with
  | quiet hq _ _ =>
      rw [hq.retired]
      exact hfiled
  | released _ hcur _ _ _ _ =>
      have hid := h.record_id hcur.found
      exact hfiled.insert hid
  | restored s => exact filedBy_restore g s
  | _ => exact hfiled

theorem run_filed (domain : MemoryDomain) (hasBackend : Bool) (calls : List Call) :
    FiledBy (run perform (new domain hasBackend) calls).retired := by
  induction calls using List.reverseRecOn with
  | nil => exact fun i r hf => by simp [new] at hf
  | append_singleton calls c ih =>
      have h := run_inv (inv_new domain hasBackend) calls
      rw [run_concat]
      exact (perform_step h c).filed h ih

end Filed

/-! ## States that can be loaded -/

/-- A record the decoder takes. -/
structure Stored (managed : UInt64) (r : AllocationRecord) : Prop where
  fits : RecordFits r
  wellFormed : WellFormed managed r

/-- What the decoder asks and the governor does not always keep. -/
structure Loadable (g : MemoryGovernor) : Prop where
  watermarks : g.domain.watermarks.valid = true
  records_le : g.records.size ≤ 0x100000
  retired_le : g.retired.size ≤ 0x100000
  live : ∀ i r, g.records.find? i = some r → Stored g.domain.managedCapacity r
  gone : ∀ i r, g.retired.find? i = some r → Stored g.domain.managedCapacity r
  apart : ∀ i r, g.records.find? i = some r → g.retired.find? i = none

section Storable

variable {g g' : MemoryGovernor}

/-- Records of different ids have regions apart. -/
theorem Inv.disjoint_regions (h : Inv g) {i j : AllocationId} {r q : AllocationRecord}
    (hr : g.records.find? i = some r) (hq : g.records.find? j = some q) (hne : i ≠ j) :
    Disjoint (region r) (region q) := by
  obtain ⟨_, harena, regionR, hcurR⟩ := h.current hr
  obtain ⟨_, _, regionQ, hcurQ⟩ := h.current hq
  obtain ⟨_, hliveR, hidR⟩ := harena.lookup_some hcurR.lookup
  obtain ⟨_, hliveQ, hidQ⟩ := harena.lookup_some hcurQ.lookup
  rw [Set.disjoint_left]
  intro b hb hb'
  rw [region, hcurR.agrees.offset, hcurR.agrees.size] at hb
  rw [region, hcurQ.agrees.offset, hcurQ.agrees.size] at hb'
  have hstart := harena.layout.part.same_start hliveR.1 hliveQ.1
    (RegionAllocator.mem_bytesAt.mpr hb) (RegionAllocator.mem_bytesAt.mpr hb')
  rw [← UInt64.toNat_inj.mp hstart] at hliveQ
  exact hne (by rw [← hidR, ← hidQ, hliveR.unique hliveQ])

theorem storable_iff (h : Inv g) (hfiled : FiledBy g.retired) :
    Storable g.snapshot ↔ Loadable g := by
  have hrecords : ∀ r, r ∈ g.snapshot.records ↔ ∃ i, g.records.find? i = some r :=
    fun r => OrdMap.mem_values
  have hretired : ∀ r, r ∈ g.snapshot.retired ↔ ∃ i, g.retired.find? i = some r :=
    fun r => OrdMap.mem_values
  have hlive : FiledBy g.records := fun i r hf => h.record_id hf
  have hids : ((g.snapshot.records ++ g.snapshot.retired).map (·.id)).Nodup ↔ _ :=
    hlive.nodup_iff hfiled
  constructor
  · intro hs
    refine ⟨hs.readable.watermarks, ?_, ?_, fun i r hf => ?_, fun i r hf => ?_,
      hids.mp hs.sound.ids⟩
    · have hle := hs.readable.records_le
      rwa [snapshot, List.length_map] at hle
    · have hle := hs.readable.retired_le
      rwa [snapshot, List.length_map] at hle
    · have hmem := (hrecords r).mpr ⟨i, hf⟩
      exact ⟨hs.strings r (List.mem_append_left _ hmem), hs.sound.records r hmem⟩
    · have hmem := (hretired r).mpr ⟨i, hf⟩
      exact ⟨hs.strings r (List.mem_append_right _ hmem), hs.sound.retired r hmem⟩
  · intro hl
    refine ⟨⟨rfl, rfl, hl.watermarks, ?_, ?_⟩, fun r hr => ?_, fun r hr => ?_, fun r hr => ?_,
      hids.mpr hl.apart, ?_⟩
    · rw [snapshot, List.length_map]
      exact hl.records_le
    · rw [snapshot, List.length_map]
      exact hl.retired_le
    · rcases List.mem_append.mp hr with hr | hr
      · obtain ⟨i, hf⟩ := (hrecords r).mp hr
        exact (hl.live i r hf).fits
      · obtain ⟨i, hf⟩ := (hretired r).mp hr
        exact (hl.gone i r hf).fits
    · obtain ⟨i, hf⟩ := (hrecords r).mp hr
      exact (hl.live i r hf).wellFormed
    · obtain ⟨i, hf⟩ := (hretired r).mp hr
      exact (hl.gone i r hf).wellFormed
    · refine List.pairwise_map.mpr (g.records.sorted.imp_of_mem (fun ha hb hlt => ?_))
      exact h.disjoint_regions (OrdMap.find?_eq_some_iff.mpr ha) (OrdMap.find?_eq_some_iff.mpr hb)
        (ne_of_lt hlt)

end Storable

/-! ## One call -/

/-- The record of a granted request can be stored. -/
structure StorableRequest (req : AllocationRequest) : Prop where
  owner : StrFits req.owner
  backingRef : StrFits req.backingRef
  memClass : Declared req.memClass
  reclaimability : Declared req.reclaimability
  movability : Declared (grantedMovability req)
  provenance : Declared req.provenance

/-- An accepted request has a record that can be stored, draws an id no
retired record has, and finds room among the live records; an accepted
release finds room among the retired ones; a relocation that passes the
checks of `apply_relocation` leaves the region as large as the request and
a generation other than 0. -/
def StaysLoadable (g : MemoryGovernor) : Call → Prop
  | .request req => Accepted (g.request req).1 →
      StorableRequest req ∧ g.retired.find? ⟨g.nextAllocId⟩ = none ∧
        (g.records.find? ⟨g.nextAllocId⟩ = none → g.records.size < 0x100000)
  | .release id gen => Accepted (g.release id gen).1 → g.retired.size < 0x100000
  | .releaseForWorker id gen workerBoot sourceBoot =>
      Accepted (g.releaseForWorker id gen workerBoot sourceBoot).1 → g.retired.size < 0x100000
  | .applyRelocation id gen o n => ∀ rec, g.Relocatable id gen o n rec →
      rec.requestedBytes.toNat ≤ n.toNat ∧ gen.next.value ≠ 0
  | _ => True

section Steps

variable {g g' : MemoryGovernor}

theorem SameBooks.watermarks {d d' : MemoryDomain} (h : SameBooks d d') :
    d'.watermarks = d.watermarks := by
  have heq := congrArg MemoryDomain.watermarks h
  exact heq

theorem chargeDomain_watermarks (d : MemoryDomain) (m : Movability) (n : UInt64) :
    (chargeDomain d m n).watermarks = d.watermarks := by
  unfold chargeDomain
  dsimp only
  split
  · rfl
  · split <;> rfl

theorem dischargeDomain_watermarks (d : MemoryDomain) (rel : AllocationRecord) :
    (dischargeDomain d rel).watermarks = d.watermarks := by
  unfold dischargeDomain
  dsimp only
  split
  · rfl
  · split <;> rfl

/-- A change at one live id keeps the state loadable exactly if the new
record can be stored, there is room for it and no retired record has its
id. -/
theorem loadable_insert (hl : Loadable g) {id : AllocationId} {rec : AllocationRecord}
    (hrecords : g'.records = g.records.insert id rec) (hretired : g'.retired = g.retired)
    (hmanaged : g'.domain.managedCapacity = g.domain.managedCapacity)
    (hwatermarks : g'.domain.watermarks = g.domain.watermarks) :
    Loadable g' ↔ Stored g.domain.managedCapacity rec ∧ g.retired.find? id = none ∧
      (g.records.insert id rec).size ≤ 0x100000 := by
  constructor
  · intro hl'
    have hself : g'.records.find? id = some rec := by
      rw [hrecords, OrdMap.find?_insert_self]
    refine ⟨?_, ?_, ?_⟩
    · rw [← hmanaged]
      exact hl'.live id rec hself
    · rw [← hretired]
      exact hl'.apart id rec hself
    · rw [← hrecords]
      exact hl'.records_le
  · rintro ⟨hstored, hfree, hsize⟩
    refine ⟨by rw [hwatermarks]; exact hl.watermarks, by rw [hrecords]; exact hsize,
      by rw [hretired]; exact hl.retired_le, fun i r hf => ?_, fun i r hf => ?_, fun i r hf => ?_⟩
    · rw [hmanaged]
      rw [hrecords] at hf
      rcases OrdMap.find?_insert_some_iff.mp hf with ⟨_, hr⟩ | ⟨_, hold⟩
      · rw [hr]
        exact hstored
      · exact hl.live i r hold
    · rw [hmanaged]
      rw [hretired] at hf
      exact hl.gone i r hf
    · rw [hretired]
      rw [hrecords] at hf
      rcases OrdMap.find?_insert_some_iff.mp hf with ⟨hi, _⟩ | ⟨_, hold⟩
      · rw [hi]
        exact hfree
      · exact hl.apart i r hold

/-- Rewriting a live record keeps the state loadable exactly if the new
record can be stored. -/
theorem loadable_rewritten (hl : Loadable g) {id : AllocationId} {rec rec' : AllocationRecord}
    (hfound : g.records.find? id = some rec)
    (hrecords : g'.records = g.records.insert id rec') (hretired : g'.retired = g.retired)
    (hmanaged : g'.domain.managedCapacity = g.domain.managedCapacity)
    (hwatermarks : g'.domain.watermarks = g.domain.watermarks) :
    Loadable g' ↔ Stored g.domain.managedCapacity rec' := by
  rw [loadable_insert hl hrecords hretired hmanaged hwatermarks,
    OrdMap.size_insert_of_some rec' hfound]
  constructor
  · exact fun h => h.1
  · exact fun h => ⟨h, hl.apart id rec hfound, hl.records_le⟩

theorem stored_granted (h : Inv g) {req : AllocationRequest} {live : RegionInfo}
    {arena : RegionAllocator} (hready : g.initialized = true)
    (hp : g.arena.Placed (arenaRequest req ⟨g.nextAllocId⟩) live arena) :
    Stored g.domain.managedCapacity (grantedRecord req ⟨g.nextAllocId⟩ live) ↔
      StorableRequest req := by
  have harena := h.arena (h.pos_of_ready hready)
  have hlive := hp.effect.liveAt_new rfl
  have hinv := hp.effect.inv harena
  obtain ⟨_, _, hpow, hdvd⟩ := hp.effect.new_ok rfl
  have hag := agrees_granted hp
  have hend := hinv.end_le hlive.1
  rw [hp.effect.capacity, h.capacity] at hend
  have halign : req.alignment = live.alignment := hag.alignment
  rw [← halign] at hpow hdvd
  have hcovers : req.bytes.toNat ≤ live.size.toNat := by
    rw [hp.size]
    exact le_roundUp _ (RegionAllocator.toNat_pos_of_isPow2 hpow)
  constructor
  · rintro ⟨hfits, hwf⟩
    exact ⟨hfits.1, hfits.2, hwf.memClass, hwf.reclaimability, hwf.movability, hwf.provenance⟩
  · intro hreq
    have hresidency : Declared ResidencyState.resident := by decide
    have hlifecycle : Declared (grantedRecord req ⟨g.nextAllocId⟩ live).lifecycle := by
      show Declared (if req.requiresPin then LifecycleState.pinned else .resident)
      split <;> decide
    have hgen : (1 : UInt64) ≠ 0 := by decide
    exact ⟨⟨hreq.owner, hreq.backingRef⟩, hp.bytes_pos, hpow, hcovers, hend, hdvd, hreq.memClass,
      hreq.reclaimability, hreq.movability, hresidency, hlifecycle, hreq.provenance, hgen⟩

theorem loadable_granted (h : Inv g) (hl : Loadable g) {req : AllocationRequest}
    {live : RegionInfo} {arena : RegionAllocator} (hready : g.initialized = true)
    (hp : g.arena.Placed (arenaRequest req ⟨g.nextAllocId⟩) live arena) :
    Loadable (g.nextId.2.grant req ⟨g.nextAllocId⟩ live arena) ↔
      StorableRequest req ∧ g.retired.find? ⟨g.nextAllocId⟩ = none ∧
        (g.records.find? ⟨g.nextAllocId⟩ = none → g.records.size < 0x100000) := by
  have hinsert : Loadable (g.nextId.2.grant req ⟨g.nextAllocId⟩ live arena) ↔ _ :=
    loadable_insert hl rfl rfl (chargeDomain_fields _ _ _).1 (chargeDomain_watermarks _ _ _)
  rw [hinsert, stored_granted h hready hp]
  refine and_congr_right (fun _ => and_congr_right (fun _ => ?_))
  cases hf : g.records.find? ⟨g.nextAllocId⟩ with
  | none =>
      rw [OrdMap.size_insert_of_none _ hf]
      exact ⟨fun hle _ => Nat.lt_of_succ_le hle, fun hlt => Nat.succ_le_of_lt (hlt rfl)⟩
  | some rec =>
      rw [OrdMap.size_insert_of_some _ hf]
      simp [hl.records_le]

/-- Pin count and state of a record may change, to declared enumerators. -/
theorem Stored.relabel {managed : UInt64} {rec : AllocationRecord} (h : Stored managed rec)
    (pinCount : UInt32) {movability : Movability} {residency : ResidencyState}
    {lifecycle : LifecycleState} (hmovability : Declared movability)
    (hresidency : Declared residency) (hlifecycle : Declared lifecycle) :
    Stored managed { rec with pinCount, movability, residency, lifecycle } := by
  obtain ⟨hfits, hwf⟩ := h
  exact ⟨hfits, hwf.requested, hwf.alignment, hwf.covers, hwf.inside, hwf.aligned, hwf.memClass,
    hwf.reclaimability, hmovability, hresidency, hlifecycle, hwf.provenance, hwf.generation⟩

/-- The record of a released allocation can be stored as the live one. -/
theorem Stored.released {managed : UInt64} {rec : AllocationRecord} (h : Stored managed rec) :
    Stored managed (releasedRecord rec) := by
  have hresidency : Declared ResidencyState.nonresident := by decide
  have hlifecycle : Declared LifecycleState.released := by decide
  exact h.relabel rec.pinCount h.wellFormed.movability hresidency hlifecycle

/-- A release keeps the state loadable exactly if there is room among the
retired records. -/
theorem loadable_released (hl : Loadable g) {id : AllocationId} {rec : AllocationRecord}
    {arena : RegionAllocator} (hfound : g.records.find? id = some rec) :
    Loadable (g.retire id rec arena) ↔ g.retired.size < 0x100000 := by
  have hsize : (g.retired.insert id (releasedRecord rec)).size = g.retired.size + 1 :=
    OrdMap.size_insert_of_none _ (hl.apart id rec hfound)
  have hmanaged := (dischargeDomain_fields g.domain (releasedRecord rec)).1
  constructor
  · intro hl'
    have hle : (g.retired.insert id (releasedRecord rec)).size ≤ 0x100000 := hl'.retired_le
    omega
  · intro hroom
    refine ⟨?_, ?_, ?_, fun i r hf => ?_, fun i r hf => ?_, fun i r hf => ?_⟩
    · show (dischargeDomain g.domain (releasedRecord rec)).watermarks.valid = true
      rw [dischargeDomain_watermarks]
      exact hl.watermarks
    · exact le_trans (OrdMap.size_erase_le g.records id) hl.records_le
    · show (g.retired.insert id (releasedRecord rec)).size ≤ 0x100000
      omega
    · have hlive := hl.live i r (OrdMap.find?_erase_some_iff.mp hf).2
      show Stored (dischargeDomain g.domain (releasedRecord rec)).managedCapacity r
      rw [hmanaged]
      exact hlive
    · show Stored (dischargeDomain g.domain (releasedRecord rec)).managedCapacity r
      rw [hmanaged]
      rcases OrdMap.find?_insert_some_iff.mp hf with ⟨_, hr⟩ | ⟨_, hold⟩
      · rw [hr]
        exact (hl.live id rec hfound).released
      · exact hl.gone i r hold
    · obtain ⟨hi, hold⟩ := OrdMap.find?_erase_some_iff.mp hf
      show (g.retired.insert id (releasedRecord rec)).find? i = none
      rw [OrdMap.find?_insert_ne _ _ hi]
      exact hl.apart i r hold

theorem Stored.pinned {managed : UInt64} {rec : AllocationRecord} (h : Stored managed rec)
    (pinCount : UInt32) : Stored managed (pinnedRecord rec pinCount) := by
  have hmovability : Declared Movability.pinned := by decide
  have hlifecycle : Declared LifecycleState.pinned := by decide
  exact h.relabel pinCount hmovability h.wellFormed.residency hlifecycle

theorem Stored.unpinned {managed : UInt64} {rec : AllocationRecord} {region : RegionInfo}
    (h : Stored managed rec) (hag : Agrees rec region) :
    Stored managed (unpinnedRecord rec (RegionAllocator.unpinnedRegion region)) := by
  have hmovability : Declared (RegionAllocator.unpinnedRegion region).movability := by
    unfold RegionAllocator.unpinnedRegion
    dsimp only
    split
    · decide
    · rw [← hag.movability]
      exact h.wellFormed.movability
  have hlifecycle :
      Declared (unpinnedRecord rec (RegionAllocator.unpinnedRegion region)).lifecycle := by
    unfold unpinnedRecord
    dsimp only
    split <;> decide
  exact h.relabel _ hmovability h.wellFormed.residency hlifecycle

/-- A relocated record can be stored exactly if the target holds the bytes
requested and the generation has not run out. -/
theorem Stored.moved (h : Inv g) {rec : AllocationRecord} {region : RegionInfo}
    {gen : AllocationGeneration} {o n : UInt64} (hs : Stored g.domain.managedCapacity rec)
    (hadm : g.arena.Admissible o n rec.alignment) :
    Stored g.domain.managedCapacity
        (relocatedRecord rec (RegionAllocator.movedRegion region gen o n rec.alignment)) ↔
      rec.requestedBytes.toNat ≤ n.toNat ∧ gen.next.value ≠ 0 := by
  obtain ⟨hfits, hwf⟩ := hs
  have hinside := hadm.inside
  rw [h.capacity] at hinside
  constructor
  · rintro ⟨_, hwf'⟩
    exact ⟨hwf'.covers, hwf'.generation⟩
  · rintro ⟨hcovers, hgen⟩
    have hlifecycle : Declared LifecycleState.resident := by decide
    exact ⟨hfits, hwf.requested, hwf.alignment, hcovers, hinside, hadm.dvd, hwf.memClass,
      hwf.reclaimability, hwf.movability, hwf.residency, hlifecycle, hwf.provenance, hgen⟩

theorem Quiet.loadable (hl : Loadable g) (hq : Quiet g g')
    (hwatermarks : g'.domain.watermarks = g.domain.watermarks) : Loadable g' := by
  refine ⟨by rw [hwatermarks]; exact hl.watermarks, by rw [hq.records]; exact hl.records_le,
    by rw [hq.retired]; exact hl.retired_le, ?_, ?_, ?_⟩
  · rw [hq.records, hq.managed]
    exact hl.live
  · rw [hq.retired, hq.managed]
    exact hl.gone
  · rw [hq.records, hq.retired]
    exact hl.apart

/-- **One call** other than a restore keeps the state loadable exactly if it
meets `StaysLoadable`. -/
theorem perform_loadable (h : Inv g) (hl : Loadable g) {c : Call} (hc : ∀ s, c ≠ .restore s) :
    Loadable (g.perform c).2 ↔ StaysLoadable g c := by
  have hs := perform_step h c
  have hbooks : mutates c (g.perform c).1 = false → SameBooks g.domain (g.perform c).2.domain :=
    perform_books
  generalize hreply : (g.perform c).1 = reply at hs hbooks
  generalize (g.perform c).2 = g' at hs hbooks
  cases hs with
  | quiet hq hm _ =>
      refine iff_of_true (hq.loadable hl (hbooks hm).watermarks) ?_
      rw [← hreply] at hm
      cases c with
      | request req =>
          rintro ⟨handle, hok⟩
          simp [perform, hok, mutates] at hm
      | release id gen =>
          rintro ⟨rec, hok⟩
          simp [perform, hok, mutates] at hm
      | releaseForWorker id gen w s =>
          rintro ⟨rec, hok⟩
          simp [perform, hok, mutates] at hm
      | applyRelocation id gen o n => exact fun rec hr => absurd hr (not_relocatable h hm rec)
      | _ => trivial
  | @granted req live arena hready hp =>
      rw [loadable_granted h hl hready hp]
      exact ⟨fun hgood _ => hgood, fun hgood => hgood ⟨_, Reply.handle.inj hreply⟩⟩
  | released hrel hcur _ _ _ _ =>
      rw [loadable_released hl hcur.found]
      rcases hrel with rfl | ⟨w, s, rfl⟩
      · exact ⟨fun hroom _ => hroom, fun hroom => hroom ⟨_, Reply.record.inj hreply⟩⟩
      · exact ⟨fun hroom _ => hroom, fun hroom => hroom ⟨_, Reply.record.inj hreply⟩⟩
  | pinned hcur _ =>
      refine iff_of_true (Iff.mpr (loadable_rewritten hl hcur.found rfl rfl rfl rfl) ?_) trivial
      exact (hl.live _ _ hcur.found).pinned _
  | unpinned hcur _ _ =>
      refine iff_of_true (Iff.mpr (loadable_rewritten hl hcur.found rfl rfl ?_ ?_) ?_) trivial
      · simp only [recordUnpin]
        split <;> rfl
      · simp only [recordUnpin]
        split <;> rfl
      · exact (hl.live _ _ hcur.found).unpinned hcur.agrees
  | moved hcur hpins hadm _ =>
      refine Iff.trans (loadable_rewritten hl hcur.found rfl rfl rfl rfl) ?_
      rw [(hl.live _ _ hcur.found).moved h hadm, StaysLoadable,
        hcur.forall_relocatable hpins hadm]
  | restored s => exact absurd rfl (hc s)

end Steps

/-! ## Runs -/

/-- **Every saved state can be loaded** throughout exactly the runs whose
calls all meet `StaysLoadable`. -/
theorem loadable_iff (domain : MemoryDomain) (hasBackend : Bool) (calls : List Call)
    (hwatermarks : domain.watermarks.valid = true)
    (hcalls : ∀ c ∈ calls, ∀ s, c ≠ .restore s) :
    Throughout perform (fun _ g => decode (encode g.snapshot) = .ok g.snapshot)
        (new domain hasBackend) calls ↔
      Guarded perform StaysLoadable (new domain hasBackend) calls := by
  have hsaved : ∀ pre, decode (encode (run perform (new domain hasBackend) pre).snapshot)
        = .ok (run perform (new domain hasBackend) pre).snapshot ↔
      Loadable (run perform (new domain hasBackend) pre) := fun pre =>
    decode_encode_iff.trans
      (storable_iff (run_inv (inv_new domain hasBackend) pre) (run_filed domain hasBackend pre))
  have hguard : Guarded perform (fun _ c => ∀ s, c ≠ Call.restore s) (new domain hasBackend) calls :=
    guarded_of_forall_mem (fun c hc _ => hcalls c hc)
  rw [guarded_iff_concat]
  refine hguard.throughout_iff (G := fun _ g c => StaysLoadable g c) ?_ (fun pre c hl hc => ?_)
  · refine (hsaved []).mpr ⟨hwatermarks, Nat.zero_le _, Nat.zero_le _, ?_, ?_, ?_⟩
    · exact fun i r hf => by simp [new, run] at hf
    · exact fun i r hf => by simp [new, run] at hf
    · exact fun i r hf => by simp [new, run] at hf
  · rw [hsaved, run_concat]
    exact perform_loadable (run_inv (inv_new domain hasBackend) pre) ((hsaved pre).mp hl) hc

/-- An allocation that is pinned, unpinned, moved and released. -/
def wholeLife : List Call :=
  [.initializeArena (.ok 4096), .request { bytes := 100 }, .pin ⟨1⟩ ⟨1⟩, .unpin ⟨1⟩ ⟨1⟩,
   .applyRelocation ⟨1⟩ ⟨1⟩ 512 128, .release ⟨1⟩ ⟨2⟩]

theorem wholeLife_loadable :
    Throughout perform (fun _ g => decode (encode g.snapshot) = .ok g.snapshot)
      (new { managedCapacity := 1024 } true) wholeLife := by
  refine (loadable_iff { managedCapacity := 1024 } true wholeLife (by decide +kernel) ?_).mpr ?_
  · intro c hc s
    simp only [wholeLife, List.mem_cons, List.not_mem_nil, or_false] at hc
    rcases hc with rfl | rfl | rfl | rfl | rfl | rfl <;> exact nofun
  · refine ⟨trivial, fun _ => ⟨?_, by decide +kernel, fun _ => by decide +kernel⟩, trivial, trivial,
      fun rec hr => ⟨?_, by decide⟩, fun _ => by decide +kernel, trivial⟩
    · exact ⟨Nat.zero_le _, Nat.zero_le _, by decide, by decide, by decide, by decide⟩
    · have hbytes : rec.requestedBytes = 100 := by
        have hmap := congrArg (Option.map AllocationRecord.requestedBytes) hr.found
        exact (Option.some.inj (hmap.symm.trans (by decide +kernel)))
      rw [hbytes]
      decide

/-- An allocation of 100 bytes moved into 50. -/
def shrinkingMove : List Call :=
  [.initializeArena (.ok 4096), .request { bytes := 100 }, .applyRelocation ⟨1⟩ ⟨1⟩ 512 50]

theorem shrinkingMove_not_loadable :
    let g := run perform (new { managedCapacity := 1024 } true) shrinkingMove
    g.domain.watermarks.valid = true ∧ decode (encode g.snapshot) ≠ .ok g.snapshot := by
  intro g
  refine ⟨by decide +kernel, fun hdecode => ?_⟩
  have hsound := (decode_encode_iff.mp hdecode).sound
  have hvalid : ∀ r ∈ g.snapshot.records, validateRecord r g.domain.managedCapacity = true :=
    fun r hr => validateRecord_iff.mpr (hsound.records r hr)
  revert hvalid
  decide +kernel

end GpuMemoryService.MemoryGovernor
