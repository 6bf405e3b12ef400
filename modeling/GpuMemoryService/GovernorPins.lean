/-
GpuMemoryService.GovernorPins — what a pin protects, and what pinning
counts.

A pin is counted twice, in the region and in the record, as a 32-bit word
that is incremented without a limit check. While the outstanding pins of an
allocation fit the word, a pinned allocation is neither released nor moved,
and neither reclaim nor compaction selects it (`outstanding_pins_protect`);
at 2^32 outstanding pins the count is 0 again and the allocation is
released under its holders (`wrapped_pins_release`).

A request with `requires_pin` starts with one pin in the record and none in
the region. The region is what a pin or unpin goes by, so the required pin
is lost at the first further pin, and cannot be undone before
(`pins_unwind_iff`).
-/
import GpuMemoryService.GovernorAgreement
import GpuMemoryService.GovernorHandles

namespace GpuMemoryService.MemoryGovernor

open Lib

/-! ## What the selections can contain -/

section Selections

variable {g : MemoryGovernor}

/-- A reclaim candidate has a live record that no exclusion holds of. -/
theorem Inv.mem_reclaimCandidates (h : Inv g) {max : UInt64} {id : AllocationId}
    (hid : id ∈ g.reclaimCandidates max) :
    ∃ rec, g.records.find? id = some rec ∧ excluded rec = false := by
  unfold reclaimCandidates at hid
  obtain ⟨cand, hcand, rfl⟩ := List.mem_map.mp (List.mem_of_mem_take hid)
  rw [List.mem_insertionSort] at hcand
  obtain ⟨rec, hrec, hsome⟩ := List.mem_filterMap.mp hcand
  obtain ⟨⟨key, rec'⟩, hmem, rfl⟩ := List.mem_map.mp hrec
  have hf : g.records.find? key = some rec' := OrdMap.find?_eq_some_iff.mpr hmem
  unfold candidate at hsome
  split at hsome
  · cases hsome
  · rename_i hexcl
    split at hsome
    · cases hsome
    · cases hsome
      refine ⟨rec', ?_, by simpa using hexcl⟩
      show g.records.find? rec'.id = some rec'
      rw [h.record_id hf]
      exact hf

/-- The free region `f` takes `m`: it is not next to it, and has room for it
behind the padding the planner computes. -/
structure Takes (m f : RegionInfo) : Prop where
  left : f.offset + f.size ≠ m.offset
  right : f.offset ≠ m.offset + m.size
  padded : ¬ (if Detail.alignUp f.offset m.alignment ≥ f.offset
    then Detail.alignUp f.offset m.alignment - f.offset else 0) > f.size
  room : ¬ m.size > f.size - (if Detail.alignUp f.offset m.alignment ≥ f.offset
    then Detail.alignUp f.offset m.alignment - f.offset else 0)

/-- The step that moves `m` into `f`. -/
def stepInto (m f : RegionInfo) : CompactionStep :=
  ⟨m.allocId, m.allocGeneration, m.offset, m.size, Detail.alignUp f.offset m.alignment, m.size,
    .movable⟩

/-- The steps of a plan under way move regions of `live` that may be moved
into regions of `free`. -/
def Planning.From (live free : List RegionInfo) (st : Planning) : Prop :=
  ∀ step ∈ st.plan.steps, ∃ m ∈ live, ∃ f ∈ free,
    movableRegion m = true ∧ Takes m f ∧ step = stepInto m f

theorem Planning.From.tryTarget {live free : List RegionInfo} {st : Planning} (h : st.From live free)
    {m f : RegionInfo} (hm : m ∈ live) (hf : f ∈ free) (hmov : movableRegion m = true)
    (lft rgt : UInt64) : (tryTarget m lft rgt st f).From live free := by
  unfold MemoryGovernor.tryTarget
  split
  · exact h
  rename_i hapart
  split
  · exact h
  extract_lets
  split
  · exact h
  rename_i hroom
  split
  · intro step hstep
    obtain rfl := List.mem_singleton.mp hstep
    simp only [Bool.or_eq_true, beq_iff_eq, not_or] at hapart
    simp only [Bool.or_eq_true, decide_eq_true_eq, not_or] at hroom
    exact ⟨m, hm, f, hf, hmov, ⟨hapart.1, hapart.2, hroom.1, hroom.2⟩, rfl⟩
  · exact h

theorem Planning.From.tryRegion {live free : List RegionInfo} {st : Planning} (h : st.From live free)
    {m : RegionInfo} (hm : m ∈ live) : (tryRegion free st m).From live free := by
  unfold MemoryGovernor.tryRegion
  split
  · rename_i hmov
    exact List.foldlRecOn free _ h (fun st' h' f hf => h'.tryTarget hm hf hmov _ _)
  · exact h

/-- Every step of a plan moves a live region that may be moved into a free
region that takes it. -/
theorem planCompaction_steps {step : CompactionStep} (hs : step ∈ g.planCompaction.1.steps) :
    ∃ m ∈ g.arena.snapshotLive, ∃ f ∈ g.arena.snapshotFree,
      movableRegion m = true ∧ Takes m f ∧ step = stepInto m f := by
  have hfrom : (g.arena.snapshotLive.foldl (MemoryGovernor.tryRegion g.arena.snapshotFree)
      { bestGain := minusOne
        plan :=
          { largestFreeBefore := g.arena.ensureSummary.largestFree
            largestFreeAfter := g.arena.ensureSummary.largestFree } }).From
      g.arena.snapshotLive g.arena.snapshotFree := by
    refine List.foldlRecOn g.arena.snapshotLive _ (fun step hstep => ?_)
      (fun st h m hm => h.tryRegion hm)
    simp at hstep
  exact hfrom step hs

end Selections

/-! ## Pinned allocations are protected -/

/-- The allocation is neither released nor moved, and neither reclaim nor
compaction selects it. -/
structure PinSafe (g : MemoryGovernor) (id : AllocationId) : Prop where
  release : ∀ gen, (g.perform (.release id gen)).1.rejected = true
  releaseForWorker : ∀ gen w s, (g.perform (.releaseForWorker id gen w s)).1.rejected = true
  applyRelocation : ∀ gen o n, (g.perform (.applyRelocation id gen o n)).1.rejected = true
  reclaim : ∀ max, id ∉ g.reclaimCandidates max
  plan : ∀ step ∈ g.planCompaction.1.steps, step.id ≠ id

section Protection

variable {g : MemoryGovernor} {id : AllocationId} {rec : AllocationRecord}

theorem releaseForWorker_pinned (hf : g.records.find? id = some rec) (hpos : rec.pinCount > 0)
    (gen : AllocationGeneration) (w : WorkerBootId) (s : SourceBootId) :
    ∃ f, g.releaseForWorker id gen w s = (.error f, g) := by
  simp only [MemoryGovernor.releaseForWorker, hf]
  split
  · exact ⟨_, rfl⟩
  split
  · exact ⟨_, rfl⟩
  split
  · exact ⟨_, rfl⟩
  exact ⟨_, rfl⟩

theorem applyRelocation_pinned (hf : g.records.find? id = some rec) (hpos : rec.pinCount > 0)
    (gen : AllocationGeneration) (o n : UInt64) :
    ∃ f, g.applyRelocation id gen o n = (.error f, g) := by
  simp only [MemoryGovernor.applyRelocation, MemoryGovernor.locate, hf]
  by_cases hgen : rec.generation = gen
  · simp [hgen, hpos]
  · simp [hgen]

/-- An unpinned resident allocation is released. -/
theorem Current.release_accepted (h : Inv g) {gen : AllocationGeneration} {region : RegionInfo}
    (hcur : g.Current id gen rec region) (hpins : rec.pinCount = 0)
    (hres : rec.residency = .resident) :
    (g.perform (.release id gen)).1.rejected = false := by
  have hset : ∀ {tag : GenTag}, ({} : TypedGeneration tag).isSet = false := by
    intro tag
    cases tag <;> rfl
  obtain ⟨arena, heq, _⟩ := hcur.releaseForWorker h (w := {}) (s := {}) (by simp [hset])
    (by simp [hset]) (by simp [hpins]) (by simp [hres])
  simp only [perform, MemoryGovernor.release, heq]
  rfl

/-- A nonzero count in record and region protects the allocation. -/
theorem pinSafe_of_pinned (h : Inv g) (hidx : g.arena.Indexed) {gen : AllocationGeneration}
    {region : RegionInfo} (hcur : g.Current id gen rec region) (hrec : rec.pinCount > 0)
    (hregion : region.pinCount > 0) : PinSafe g id where
  release := by
    intro ge
    obtain ⟨f, heq⟩ := releaseForWorker_pinned hcur.found hrec ge {} {}
    simp [perform, MemoryGovernor.release, heq, Reply.rejected]
  releaseForWorker := by
    intro ge w s
    obtain ⟨f, heq⟩ := releaseForWorker_pinned hcur.found hrec ge w s
    simp [perform, heq, Reply.rejected]
  applyRelocation := by
    intro ge o n
    obtain ⟨f, heq⟩ := applyRelocation_pinned hcur.found hrec ge o n
    simp [perform, heq, Reply.rejected]
  reclaim := by
    intro max hmem
    obtain ⟨rec', hf, hexcl⟩ := h.mem_reclaimCandidates hmem
    rw [hcur.found] at hf
    cases hf
    simp [excluded, hrec] at hexcl
  plan := by
    intro step hstep hid
    obtain ⟨m, hm, _, _, hmov, _, rfl⟩ := planCompaction_steps hstep
    obtain ⟨_, harena, _⟩ := h.current hcur.found
    -- the region under this id is the indexed one, and it is pinned
    have hlive := harena.mem_snapshotLive.mp hm
    have hlookup : g.arena.lookup m.allocId = some m :=
      RegionAllocator.lookup_eq_some_iff.mpr ⟨m.offset, hidx hlive, hlive⟩
    rw [show m.allocId = id from hid, hcur.lookup] at hlookup
    cases hlookup
    simp [movableRegion, hregion] at hmov

end Protection

/-! ## Outstanding pins -/

/-- A pin of a current handle does not overflow the 32-bit count. -/
def PinFits (g : MemoryGovernor) : Call → Prop
  | .pin id gen => ∀ rec ∈ g.records.find? id, rec.generation = gen → rec.pinCount + 1 ≠ 0
  | _ => True

/-- No account has more pins outstanding than the count can hold. -/
def Outstanding (t : List Event) : Prop :=
  ∀ id a, account id t = some a → a.pins - a.unpins < 2 ^ 32

section Outstanding

variable {g g' : MemoryGovernor} {t : List Event}

/-- While the pins fit, the count of the region is the outstanding pins. -/
theorem Follows.toNat_regionPins {id : AllocationId} {a : Account} {rec : AllocationRecord}
    {r : RegionInfo} (h : Follows id a rec r) (hlt : a.pins - a.unpins < 2 ^ 32) :
    r.pinCount.toNat = a.pins - a.unpins := by
  rw [h.regionPins, UInt32.toNat_ofNat']
  exact Nat.mod_eq_of_lt hlt

theorem Outstanding.enter_map (h : Outstanding t) {id i : AllocationId} {a : Account}
    {f : Account → Account} (ha : (if i = id then (account id t).map f else account id t) = some a)
    (hf : ∀ x, account id t = some x → i = id → (f x).pins - (f x).unpins < 2 ^ 32) :
    a.pins - a.unpins < 2 ^ 32 := by
  obtain ⟨x, hx, rfl | ⟨hi, rfl⟩⟩ := enter_map_cases ha
  · exact h id a hx
  · exact hf x hx hi

/-- **One step** keeps the outstanding pins within the count. -/
theorem Step.outstanding (ht : Tracks g t) (ho : Outstanding t) {c : Call} {reply : Reply}
    (hs : Step g c reply g') (hfit : PinFits g c) : Outstanding (t ++ [(c, reply)]) := by
  intro id a ha
  rw [account_concat] at ha
  cases hs with
  | quiet _ hm _ =>
      rw [enter_of_not_mutates hm] at ha
      exact ho id a ha
  | granted hready hp =>
      simp only [enter] at ha
      split at ha
      · cases ha
        exact Nat.two_pow_pos 32
      · exact ho id a ha
  | released hc _ _ _ _ _ =>
      rw [enter_release hc] at ha
      exact ho.enter_map ha (fun x hx _ => ho id x hx)
  | @pinned i gen rec region arena hcur he =>
      refine ho.enter_map ha (fun x hx hi => ?_)
      subst hi
      obtain ⟨a', ha', _, hfol⟩ := ht.current hcur
      rw [hx] at ha'
      cases ha'
      have hlt := ho i x hx
      show x.pins + 1 - x.unpins < 2 ^ 32
      -- the record would have to hold the largest count for the sum to reach 2^32
      by_contra hge
      have hfull : region.pinCount + 1 = 0 := by
        have hmax : region.pinCount.toNat = 2 ^ 32 - 1 := by
          have := hfol.toNat_regionPins hlt
          omega
        apply UInt32.toNat_inj.mp
        rw [UInt32.toNat_add, hmax]
        rfl
      have hrec : rec.pinCount = region.pinCount := by
        rw [hfol.recordPins, if_neg]
        intro hc
        omega
      exact hfit rec hcur.found hcur.generation (by rw [hrec]; exact hfull)
  | unpinned _ _ _ =>
      refine ho.enter_map ha (fun x hx _ => ?_)
      show x.pins - (x.unpins + 1) < 2 ^ 32
      have := ho id x hx
      omega
  | moved _ _ _ _ => exact ho.enter_map ha (fun x hx _ => ho id x hx)
  | restored s => cases ha

theorem run_outstanding {domain : MemoryDomain} {hasBackend : Bool} {calls : List Call}
    (hfit : Guarded perform PinFits (new domain hasBackend) calls) :
    Outstanding (trace perform (new domain hasBackend) calls) := by
  have hall := hfit.trace_inv (P := fun t g => (Inv g ∧ Tracks g t) ∧ Outstanding t)
    ⟨⟨inv_new domain hasBackend, tracks_new domain hasBackend⟩, fun id a ha => by cases ha⟩
    (fun t g c hg hc =>
      have hs := perform_step hg.1.1 c
      ⟨⟨hs.inv hg.1.1, hs.tracks hg.1.1 hg.1.2⟩, hs.outstanding hg.1.2 hg.2 hc⟩)
  exact hall.2

/-- **Outstanding pins protect.** In every run in which no pin overflows the
count of its allocation and no accepted request draws an id still in use, an
allocation with more accepted pins than accepted unpins is neither released
nor moved nor selected. -/
theorem outstanding_pins_protect (domain : MemoryDomain) (hasBackend : Bool) (calls : List Call)
    (hfit : Guarded perform PinFits (new domain hasBackend) calls)
    (hfresh : Guarded perform FreshGrant (new domain hasBackend) calls) :
    ∀ id a, account id (trace perform (new domain hasBackend) calls) = some a →
      a.released = false → a.unpins < a.pins →
      PinSafe (run perform (new domain hasBackend) calls) id := by
  intro id a ha hrel hpins
  have hinv := run_inv (inv_new domain hasBackend) calls
  have htracks := run_tracks domain hasBackend calls
  obtain ⟨rec, hf⟩ := (htracks id).known ha hrel
  obtain ⟨_, _, region, hcur⟩ := hinv.current hf
  obtain ⟨a', ha', _, hfol⟩ := htracks.current hcur
  rw [ha] at ha'
  cases ha'
  have hcount := hfol.toNat_regionPins (run_outstanding hfit id a ha)
  have hregion : region.pinCount > 0 := by
    rw [gt_iff_lt, UInt32.lt_iff_toNat_lt, hcount, UInt32.toNat_zero]
    omega
  have hrec : rec.pinCount = region.pinCount := by
    rw [hfol.recordPins, if_neg]
    intro hc
    omega
  exact pinSafe_of_pinned hinv (run_indexed_of_grants hfresh) hcur (by rw [hrec]; exact hregion)
    hregion

/-- A pin, a second one, and one of the two undone. -/
def pinnedTwice : List Call :=
  [.initializeArena (.ok 4096),
   .request { bytes := 8, reclaimability := .bestEffort },
   .pin ⟨1⟩ ⟨1⟩, .pin ⟨1⟩ ⟨1⟩, .unpin ⟨1⟩ ⟨1⟩]

theorem pinnedTwice_pinSafe :
    PinSafe (run perform (new { managedCapacity := 1024 } true) pinnedTwice) ⟨1⟩ := by
  have haccount : account ⟨1⟩ (trace perform (new { managedCapacity := 1024 } true) pinnedTwice)
      = some
        { request := { bytes := 8, reclaimability := .bestEffort }
          granted := ⟨⟨1⟩, .first, 0, 8, 1⟩
          pins := 2
          unpins := 1 } := by decide +kernel
  refine outstanding_pins_protect { managedCapacity := 1024 } true pinnedTwice ?_ ?_ ⟨1⟩ _
    haccount rfl (by decide)
  · refine ⟨trivial, trivial, ?_, ?_, trivial, trivial⟩
    · show ∀ rec ∈ _, _
      decide +kernel
    · show ∀ rec ∈ _, _
      decide +kernel
  · exact ⟨trivial, fun _ => rfl, trivial, trivial, trivial, trivial⟩

/-- A pin with the current handle is accepted and leaves the handle current. -/
theorem Current.perform_pin (h : Inv g) {id : AllocationId} {gen : AllocationGeneration}
    {rec : AllocationRecord} {region : RegionInfo} (hcur : g.Current id gen rec region) :
    (g.perform (.pin id gen)).1 = .done (.ok ()) ∧
      ∃ rec', (g.perform (.pin id gen)).2.Current id gen rec'
        (RegionAllocator.pinnedRegion region) := by
  obtain ⟨arena, heq, heff⟩ := hcur.pin h
  have hnew := (pinned_update h hcur heff).current
  have hgen : (pinnedRecord rec (RegionAllocator.pinnedRegion region).pinCount).generation = gen :=
    hcur.generation
  rw [hgen] at hnew
  simp only [perform, heq]
  exact ⟨trivial, _, hnew⟩

/-- `n` further pins with the current handle are all accepted. -/
theorem pin_run (h : Inv g) (ht : Tracks g t) {id : AllocationId} {gen : AllocationGeneration}
    {rec : AllocationRecord} {region : RegionInfo} (hcur : g.Current id gen rec region)
    {a : Account} (ha : account id t = some a) (n : Nat) :
    let pins := List.replicate n (Call.pin id gen)
    Inv (run perform g pins) ∧ Tracks (run perform g pins) (t ++ trace perform g pins) ∧
      (∃ rec' region', (run perform g pins).Current id gen rec' region') ∧
      account id (t ++ trace perform g pins) = some { a with pins := a.pins + n } := by
  refine @replicate_inv _ _ _ perform g (.pin id gen)
    (fun n t' g' => Inv g' ∧ Tracks g' (t ++ t') ∧
      (∃ rec' region', g'.Current id gen rec' region') ∧
      account id (t ++ t') = some { a with pins := a.pins + n }) ?_ ?_ n
  · exact ⟨h, by simpa using ht, ⟨rec, region, hcur⟩, by simpa using ha⟩
  · intro n t' g' ⟨hinv, htracks, ⟨rec', region', hcur'⟩, hacc⟩
    have hstep := perform_step hinv (.pin id gen)
    obtain ⟨hreply, rec'', hcur''⟩ := hcur'.perform_pin hinv
    rw [← List.append_assoc]
    refine ⟨hstep.inv hinv, hstep.tracks hinv htracks, ⟨rec'', _, hcur''⟩, ?_⟩
    rw [account_concat, hacc, hreply]
    simp [enter, Nat.add_assoc]

/-- One allocation, pinned `n` times. -/
def pinRun (n : Nat) : List Call :=
  [.initializeArena (.ok 4096), .request { bytes := 8 }] ++ List.replicate n (.pin ⟨1⟩ ⟨1⟩)

/-- When the count has come round to 0, the pinned allocation is released. -/
theorem pinRun_release {n : Nat} (hpos : 0 < n) (hzero : UInt32.ofNat n = 0) :
    ∃ a, account ⟨1⟩ (trace perform (new { managedCapacity := 1024 } true) (pinRun n)) = some a ∧
      a.released = false ∧ a.request.requiresPin = false ∧ a.unpins < a.pins ∧
      ((run perform (new { managedCapacity := 1024 } true) (pinRun n)).perform
        (.release ⟨1⟩ ⟨1⟩)).1.rejected = false := by
  let start := new { managedCapacity := 1024 } true
  let opened : List Call := [.initializeArena (.ok 4096), .request { bytes := 8 }]
  have hinv := run_inv (inv_new { managedCapacity := 1024 } true) opened
  have htracks := run_tracks { managedCapacity := 1024 } true opened
  have hacc : account ⟨1⟩ (trace perform start opened)
      = some { request := { bytes := 8 }, granted := ⟨⟨1⟩, .first, 0, 8, 1⟩ } := by decide +kernel
  obtain ⟨rec, hf⟩ := (htracks ⟨1⟩).known hacc rfl
  obtain ⟨_, _, region, hcur⟩ := hinv.current hf
  obtain ⟨a, ha, _, hfol⟩ := htracks.current hcur
  have hgen : rec.generation = ⟨1⟩ := by
    rw [hacc] at ha
    cases ha
    exact hfol.generation
  rw [hgen] at hcur
  obtain ⟨hinv', htracks', ⟨rec', region', hcur'⟩, hacc'⟩ := pin_run hinv htracks hcur hacc n
  obtain ⟨a', ha', hrel, hfol'⟩ := htracks'.current hcur'
  rw [hacc'] at ha'
  cases ha'
  have hcount : rec'.pinCount = 0 := by
    rw [hfol'.recordPins, if_neg (by simp), hfol'.regionPins]
    simpa using hzero
  rw [pinRun, trace_append, run_append]
  refine ⟨_, hacc', rfl, rfl, ?_, ?_⟩
  · simpa using hpos
  · exact hcur'.release_accepted hinv' hcount hfol'.residency

/-- With 2^32 pins outstanding the allocation is released. -/
theorem wrapped_pins_release :
    ∃ a, account ⟨1⟩ (trace perform (new { managedCapacity := 1024 } true) (pinRun (2 ^ 32)))
        = some a ∧
      a.released = false ∧ a.request.requiresPin = false ∧ a.unpins < a.pins ∧
      ((run perform (new { managedCapacity := 1024 } true) (pinRun (2 ^ 32))).perform
        (.release ⟨1⟩ ⟨1⟩)).1.rejected = false :=
  pinRun_release (Nat.two_pow_pos 32) (by decide)

end Outstanding

/-! ## Pins can be unwound -/

/-- Every call of the list is accepted. -/
def AcceptsAll (g : MemoryGovernor) (calls : List Call) : Prop :=
  ∀ e ∈ trace perform g calls, e.2.rejected = false

/-- The counts of record and region are those of the account, the required
pin included, and undoing them one by one ends in a release. -/
structure PinsExact (g : MemoryGovernor) (id : AllocationId) (rec : AllocationRecord)
    (a : Account) : Prop where
  same : ∃ region, g.arena.lookup id = some region ∧ rec.pinCount = region.pinCount
  counted : rec.pinCount.toNat + a.unpins
    = (if a.request.requiresPin = true then 1 else 0) + a.pins
  unwinds : g.AcceptsAll
    (List.replicate rec.pinCount.toNat (.unpin id rec.generation) ++ [.release id rec.generation])
  exhausted : ((run perform g (List.replicate rec.pinCount.toNat (.unpin id rec.generation))).perform
    (.unpin id rec.generation)).1.rejected = true

section Unwinding

variable {g : MemoryGovernor} {t : List Event} {id : AllocationId} {gen : AllocationGeneration}
  {rec : AllocationRecord} {region : RegionInfo}

theorem Current.perform_unpin (h : Inv g) (hcur : g.Current id gen rec region)
    (hpins : region.pinCount ≠ 0) :
    (g.perform (.unpin id gen)).1 = .done (.ok ()) ∧
      ∃ rec', (g.perform (.unpin id gen)).2.Current id gen rec'
        (RegionAllocator.unpinnedRegion region) := by
  rcases hcur.unpin h with ⟨hzero, _⟩ | ⟨_, arena, heq, heff⟩
  · exact absurd hzero hpins
  have hnew := (unpinned_update h hcur heff).current
  have hgen : (unpinnedRecord rec (RegionAllocator.unpinnedRegion region)).generation = gen :=
    hcur.generation
  rw [hgen] at hnew
  simp only [perform, heq]
  exact ⟨trivial, _, hnew⟩

theorem Current.unpin_rejected (h : Inv g) (hcur : g.Current id gen rec region)
    (hzero : region.pinCount = 0) : (g.perform (.unpin id gen)).1.rejected = true := by
  rcases hcur.unpin h with ⟨_, f, heq⟩ | ⟨hpins, _⟩
  · simp [perform, heq, Reply.rejected]
  · exact absurd hzero hpins

/-- As many unpins as the region counts are all accepted. -/
theorem unpin_run (h : Inv g) (ht : Tracks g t) (hcur : g.Current id gen rec region)
    {a : Account} (ha : account id t = some a) (n : Nat) :
    let unpins := List.replicate n (Call.unpin id gen)
    n ≤ region.pinCount.toNat →
      Inv (run perform g unpins) ∧ Tracks (run perform g unpins) (t ++ trace perform g unpins) ∧
      (∃ rec' region', (run perform g unpins).Current id gen rec' region' ∧
        region'.pinCount.toNat = region.pinCount.toNat - n) ∧
      account id (t ++ trace perform g unpins) = some { a with unpins := a.unpins + n } ∧
      g.AcceptsAll unpins := by
  refine @replicate_inv _ _ _ perform g (.unpin id gen)
    (fun n t' g' => n ≤ region.pinCount.toNat → Inv g' ∧ Tracks g' (t ++ t') ∧
      (∃ rec' region', g'.Current id gen rec' region' ∧
        region'.pinCount.toNat = region.pinCount.toNat - n) ∧
      account id (t ++ t') = some { a with unpins := a.unpins + n } ∧
      ∀ e ∈ t', e.2.rejected = false) ?_ ?_ n
  · intro _
    exact ⟨h, by simpa using ht, ⟨rec, region, hcur, rfl⟩, by simpa using ha, by simp⟩
  · intro n t' g' ih hn
    obtain ⟨hinv, htracks, ⟨rec', region', hcur', hcount⟩, hacc, haccepts⟩ := ih (by omega)
    have hone : (1 : UInt32) ≤ region'.pinCount := by
      rw [UInt32.le_iff_toNat_le, UInt32.toNat_one]
      omega
    have hpos : region'.pinCount ≠ 0 := by
      intro hzero
      rw [hzero] at hone
      exact absurd hone (by decide)
    have hstep := perform_step hinv (.unpin id gen)
    obtain ⟨hreply, rec'', hcur''⟩ := hcur'.perform_unpin hinv hpos
    rw [← List.append_assoc]
    refine ⟨hstep.inv hinv, hstep.tracks hinv htracks, ⟨rec'', _, hcur'', ?_⟩, ?_, ?_⟩
    · show (region'.pinCount - 1).toNat = _
      rw [UInt32.toNat_sub_of_le _ _ hone, UInt32.toNat_one]
      omega
    · rw [account_concat, hacc, hreply]
      simp [enter, Nat.add_assoc]
    · intro e he
      rcases List.mem_append.mp he with he | he
      · exact haccepts e he
      · rw [List.mem_singleton.mp he, hreply]
        rfl

/-- Without a required pin the counts agree and unwind. -/
theorem pinsExact_of_not_required (h : Inv g) (ht : Tracks g t)
    (hcur : g.Current id rec.generation rec region) {a : Account} (ha : account id t = some a)
    (hfol : Follows id a rec region) (hlt : a.pins < 2 ^ 32)
    (hreq : a.request.requiresPin = false) : PinsExact g id rec a := by
  have hsame : rec.pinCount = region.pinCount := by
    rw [hfol.recordPins, if_neg (by simp [hreq])]
  have hcount : region.pinCount.toNat = a.pins - a.unpins := hfol.toNat_regionPins (by omega)
  have hle := hfol.unpins_le
  obtain ⟨hinv', htracks', ⟨rec', region', hcur', hcount'⟩, hacc', haccepts⟩ :=
    unpin_run h ht hcur ha rec.pinCount.toNat (by rw [hsame])
  have hzero : region'.pinCount = 0 := by
    apply UInt32.toNat_inj.mp
    rw [hcount', hsame, Nat.sub_self]
    rfl
  obtain ⟨a', ha', _, hfol'⟩ := htracks'.current hcur'
  rw [hacc'] at ha'
  cases ha'
  refine ⟨⟨region, hcur.lookup, hsame⟩, ?_, ?_, hcur'.unpin_rejected hinv' hzero⟩
  · rw [hsame, hcount, if_neg (by simp [hreq])]
    omega
  · intro e he
    rw [trace_concat] at he
    rcases List.mem_append.mp he with he | he
    · exact haccepts e he
    · rw [List.mem_singleton.mp he]
      refine hcur'.release_accepted hinv' ?_ hfol'.residency
      rw [hfol'.recordPins, if_neg (by simp [hreq]), hzero]

/-- With a required pin either the two counts differ or the pin is lost. -/
theorem not_pinsExact_of_required (hcur : g.Current id gen rec region) {a : Account}
    (hfol : Follows id a rec region) (hlt : a.pins < 2 ^ 32)
    (hreq : a.request.requiresPin = true) : ¬ PinsExact g id rec a := by
  intro hexact
  obtain ⟨region', hlookup, hsame⟩ := hexact.same
  rw [hcur.lookup] at hlookup
  cases hlookup
  have hcount : region.pinCount.toNat = a.pins - a.unpins := hfol.toNat_regionPins (by omega)
  by_cases hpins : a.pins = 0
  · have hone : rec.pinCount = 1 := by rw [hfol.recordPins, if_pos ⟨hreq, hpins⟩]
    rw [← hsame, hone, UInt32.toNat_one] at hcount
    omega
  · have hcounted := hexact.counted
    have hle := hfol.unpins_le
    rw [hsame, hcount, if_pos hreq] at hcounted
    omega

/-- **Pins are exact without a required pin, and only then.** In every
reachable state and for every live record, with fewer than 2^32 - 1 pins of
the allocation. -/
theorem pins_unwind_iff (domain : MemoryDomain) (hasBackend : Bool) (calls : List Call)
    (id : AllocationId) (rec : AllocationRecord)
    (hf : (run perform (new domain hasBackend) calls).records.find? id = some rec) :
    ∃ a, account id (trace perform (new domain hasBackend) calls) = some a ∧
      a.released = false ∧
      (a.pins < 2 ^ 32 - 1 →
        (PinsExact (run perform (new domain hasBackend) calls) id rec a ↔
          a.request.requiresPin = false)) := by
  have hinv := run_inv (inv_new domain hasBackend) calls
  have htracks := run_tracks domain hasBackend calls
  obtain ⟨_, _, region, hcur⟩ := hinv.current hf
  obtain ⟨a, ha, hrel, hfol⟩ := htracks.current hcur
  refine ⟨a, ha, hrel, fun hlt => ⟨fun hexact => ?_, fun hreq => ?_⟩⟩
  · by_contra hreq
    exact not_pinsExact_of_required hcur hfol (by omega) (by simpa using hreq) hexact
  · exact pinsExact_of_not_required hinv htracks hcur ha hfol (by omega) hreq

theorem pinnedTwice_unwinds :
    ∃ rec a, (run perform (new { managedCapacity := 1024 } true) pinnedTwice).records.find? ⟨1⟩
        = some rec ∧
      account ⟨1⟩ (trace perform (new { managedCapacity := 1024 } true) pinnedTwice) = some a ∧
      PinsExact (run perform (new { managedCapacity := 1024 } true) pinnedTwice) ⟨1⟩ rec a := by
  obtain ⟨rec, hf⟩ : ∃ rec, (run perform (new { managedCapacity := 1024 } true)
      pinnedTwice).records.find? ⟨1⟩ = some rec := Option.isSome_iff_exists.mp (by decide +kernel)
  obtain ⟨a, ha, _, hiff⟩ := pins_unwind_iff { managedCapacity := 1024 } true pinnedTwice ⟨1⟩ rec hf
  have hpins : (account ⟨1⟩ (trace perform (new { managedCapacity := 1024 } true)
      pinnedTwice)).map (fun a => (a.pins, a.request.requiresPin)) = some (2, false) := by
    decide +kernel
  rw [ha] at hpins
  simp only [Option.map_some, Option.some.injEq, Prod.mk.injEq] at hpins
  exact ⟨rec, a, hf, ha, (hiff (by omega)).mpr hpins.2⟩

/-- A request with a required pin, and nothing else. -/
def requiredPin : List Call :=
  [.initializeArena (.ok 4096), .request { bytes := 8, requiresPin := true }]

/-- The required pin stands in the record only; it cannot be undone, and the
allocation cannot be released. -/
theorem requiredPin_stuck :
    let g := run perform (new { managedCapacity := 1024 } true) requiredPin
    ∃ rec region a, g.records.find? ⟨1⟩ = some rec ∧ g.arena.lookup ⟨1⟩ = some region ∧
      account ⟨1⟩ (trace perform (new { managedCapacity := 1024 } true) requiredPin) = some a ∧
      a.pins = 0 ∧ rec.pinCount = 1 ∧ region.pinCount = 0 ∧ ¬ PinsExact g ⟨1⟩ rec a ∧
      (g.perform (.unpin ⟨1⟩ ⟨1⟩)).1.rejected = true ∧
      (g.perform (.release ⟨1⟩ ⟨1⟩)).1.rejected = true := by
  intro g
  obtain ⟨rec, hf, hrec⟩ : ∃ rec, g.records.find? ⟨1⟩ = some rec ∧ rec.pinCount = 1 :=
    Option.map_eq_some_iff.mp
      (by decide +kernel : (g.records.find? ⟨1⟩).map (·.pinCount) = some 1)
  obtain ⟨region, hl, hregion⟩ : ∃ r, g.arena.lookup ⟨1⟩ = some r ∧ r.pinCount = 0 :=
    Option.map_eq_some_iff.mp
      (by decide +kernel : (g.arena.lookup ⟨1⟩).map (·.pinCount) = some 0)
  obtain ⟨a, ha, hpins⟩ : ∃ a, account ⟨1⟩ (trace perform (new { managedCapacity := 1024 } true)
      requiredPin) = some a ∧ a.pins = 0 :=
    Option.map_eq_some_iff.mp (by decide +kernel : (account ⟨1⟩ (trace perform
      (new { managedCapacity := 1024 } true) requiredPin)).map (·.pins) = some 0)
  refine ⟨rec, region, a, hf, hl, ha, hpins, hrec, hregion, fun hexact => ?_, by decide +kernel,
    by decide +kernel⟩
  obtain ⟨region', hl', hsame⟩ := hexact.same
  rw [hl] at hl'
  cases hl'
  rw [hrec, hregion] at hsame
  cases hsame

end Unwinding

end GpuMemoryService.MemoryGovernor
