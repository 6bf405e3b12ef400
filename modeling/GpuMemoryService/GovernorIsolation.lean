/-
GpuMemoryService.GovernorIsolation — clients that share a governor.

Every public operation runs under one mutex, so threads that use a governor
produce one sequence of calls, in an order nobody controls. A client holds
the handle of one allocation: `slot` is what the governor and the arena
know about it (its record, its region, its retired record), and `isOwn`
marks the calls that name it.

* `isolated`: however others request, release, pin, move and query in
  between, the calls that name an allocation are answered as if they were
  the only ones, until it is itself relocated, its id is drawn again, or a
  snapshot is restored.
* `orders_agree`: for releases, pins, unpins and queries of any number of
  allocations the order between different allocations does not matter at
  all. Each gets the same answers, and the records, the history, the live
  regions, the free space and the next summary are the same. (The domain's
  own counters are left out: they saturate, and can depend on the order
  once they are wrong.)
-/
import GpuMemoryService.Lib.Isolation
import GpuMemoryService.GovernorAgreement
import GpuMemoryService.GovernorClasses
import GpuMemoryService.GovernorQueries
import GpuMemoryService.RegionCanonical

namespace GpuMemoryService.MemoryGovernor

open Lib

/-! ## The slot of one allocation -/

/-- What is known about one allocation. -/
structure Slot where
  record : Option AllocationRecord
  region : Option RegionInfo
  retired : Option AllocationRecord

def slot (id : AllocationId) (g : MemoryGovernor) : Slot :=
  ⟨g.records.find? id, g.arena.lookup id, g.retired.find? id⟩

/-- The allocation a call names, relocations apart. -/
def Call.target? : Call → Option AllocationId
  | .release id _ => some id
  | .releaseForWorker id _ _ _ => some id
  | .pin id _ => some id
  | .unpin id _ => some id
  | .get id _ => some id
  | .regionSize id => some id
  | _ => none

/-- The call names the allocation. -/
def isOwn (id : AllocationId) (c : Call) : Bool := c.target? == some id

/-- The call does not move the allocation, draw its id or replace the
books; a refused one may try. -/
def Spares (id : AllocationId) (g : MemoryGovernor) : Call → Prop
  | .request req => Accepted (g.request req).1 → ⟨g.nextAllocId⟩ ≠ id
  | .applyRelocation id' gen o n => Accepted (g.applyRelocation id' gen o n).1 → id' ≠ id
  | .restore _ => False
  | _ => True

section Slots

variable {g g' : MemoryGovernor} {id : AllocationId}

theorem isOwn_iff {c : Call} : isOwn id c = true ↔ c.target? = some id := by simp [isOwn]

theorem IsRelease.target {gen : AllocationGeneration} {c : Call} (h : IsRelease id gen c) :
    c.target? = some id := by
  rcases h with rfl | ⟨_, _, rfl⟩ <;> rfl

/-- A call that changes one allocation leaves the slots of the others. -/
theorem Update.slot {id' : AllocationId} {rec : Option AllocationRecord}
    {region : Option RegionInfo} (u : Update g g' id' rec region) (hne : id ≠ id')
    (hretired : g'.retired.find? id = g.retired.find? id) : slot id g' = slot id g := by
  rw [MemoryGovernor.slot, MemoryGovernor.slot, u.records, u.lookup, if_neg hne, if_neg hne, hretired]

/-- **Calls of others** leave a slot as it is. -/
theorem slot_keeps (h : Inv g) {c : Call} (hother : isOwn id c = false) (hspares : Spares id g c) :
    slot id (g.perform c).2 = slot id g := by
  have hs := perform_step h c
  have hne : ∀ id', c.target? = some id' → id ≠ id' := by
    rintro id' htarget rfl
    rw [isOwn_iff.mpr htarget] at hother
    cases hother
  generalize hreply : (g.perform c).1 = reply at hs
  generalize (g.perform c).2 = g' at hs
  cases hs with
  | quiet hq _ _ => rw [slot, slot, hq.records, hq.lookup, hq.retired]
  | granted hready hp =>
      have haccepted : Accepted (g.request _).1 := ⟨_, Reply.handle.inj hreply⟩
      exact (granted_update h hready hp).slot (hspares haccepted).symm rfl
  | released hc hcur _ _ _ he =>
      have hid := hne _ hc.target
      refine (released_update h hcur he).slot hid ?_
      simp [retire, OrdMap.find?_insert, hid]
  | pinned hcur he => exact (pinned_update h hcur he).slot (hne _ rfl) rfl
  | unpinned hcur _ he => exact (unpinned_update h hcur he).slot (hne _ rfl) rfl
  | moved hcur _ _ he =>
      have haccepted : Accepted (g.applyRelocation _ _ _ _).1 := ⟨_, Reply.handle.inj hreply⟩
      exact (moved_update h hcur he).slot (hspares haccepted).symm rfl
  | restored s => exact hspares.elim

theorem Update.slot_self {rec : Option AllocationRecord} {region : Option RegionInfo}
    (u : Update g g' id rec region) : MemoryGovernor.slot id g' = ⟨rec, region, g'.retired.find? id⟩ := by
  rw [MemoryGovernor.slot, u.records, u.lookup, if_pos rfl, if_pos rfl]

/-- The record, the region and the retired record, from equal slots. -/
theorem slot_fields (hslot : slot id g = slot id g') :
    g.records.find? id = g'.records.find? id ∧ g.arena.lookup id = g'.arena.lookup id ∧
      g.retired.find? id = g'.retired.find? id := by
  simpa [slot] using hslot

theorem Current.transfer {gen : AllocationGeneration} {rec : AllocationRecord} {region : RegionInfo}
    (hcur : g.Current id gen rec region) (hslot : MemoryGovernor.slot id g = MemoryGovernor.slot id g') :
    g'.Current id gen rec region := by
  obtain ⟨hrec, hregion, _⟩ := slot_fields hslot
  exact ⟨hrec ▸ hcur.found, hcur.generation, hregion ▸ hcur.lookup, hcur.agrees⟩

/-- The handle is not current, and the lookup says so in both, or it is. -/
theorem locate_alike (h : Inv g) (hslot : slot id g = slot id g') (gen : AllocationGeneration)
    (stale : String) :
    (∃ f, g.locate id gen stale = .error f ∧ g'.locate id gen stale = .error f) ∨
      ∃ rec region, g.Current id gen rec region ∧ g'.Current id gen rec region := by
  have hlocate : g'.locate id gen stale = g.locate id gen stale := by
    unfold locate
    rw [(slot_fields hslot).1]
  rcases locate_cases g id gen stale with ⟨f, _, _, heq⟩ | ⟨rec, hf, rfl, _⟩
  · exact Or.inl ⟨f, heq, hlocate.trans heq⟩
  · obtain ⟨_, _, region, hcur⟩ := h.current hf
    exact Or.inr ⟨rec, region, hcur, hcur.transfer hslot⟩

theorem pin_alike (h : Inv g) (h' : Inv g') (hslot : slot id g = slot id g')
    (gen : AllocationGeneration) :
    (g.pin id gen).1 = (g'.pin id gen).1 ∧ slot id (g.pin id gen).2 = slot id (g'.pin id gen).2 := by
  rcases locate_alike h hslot gen "stale generation on pin" with
    ⟨f, heq, heq'⟩ | ⟨rec, region, hcur, hcur'⟩
  · simp only [pin, heq, heq']
    exact ⟨trivial, hslot⟩
  · obtain ⟨arena, heq, heff⟩ := hcur.pin h
    obtain ⟨arena', heq', heff'⟩ := hcur'.pin h'
    rw [heq, heq', (pinned_update h hcur heff).slot_self, (pinned_update h' hcur' heff').slot_self]
    refine ⟨rfl, ?_⟩
    show Slot.mk _ _ (g.retired.find? id) = Slot.mk _ _ (g'.retired.find? id)
    rw [(slot_fields hslot).2.2]

theorem unpin_of_zero (h : Inv g) {gen : AllocationGeneration} {rec : AllocationRecord}
    {region : RegionInfo} (hcur : g.Current id gen rec region) (hzero : region.pinCount = 0) :
    g.unpin id gen = (.error ⟨.invalidRequest, "unpin of non-pinned allocation"⟩, g) := by
  obtain ⟨_, harena, _⟩ := h.current hcur.found
  simp only [unpin, hcur.locate, RegionAllocator.unpin,
    RegionAllocator.locate_of_holds harena hcur.holds, hzero, beq_self_eq_true, if_true]

theorem unpin_alike (h : Inv g) (h' : Inv g') (hslot : slot id g = slot id g')
    (gen : AllocationGeneration) :
    (g.unpin id gen).1 = (g'.unpin id gen).1 ∧
      slot id (g.unpin id gen).2 = slot id (g'.unpin id gen).2 := by
  rcases locate_alike h hslot gen "stale generation on unpin" with
    ⟨f, heq, heq'⟩ | ⟨rec, region, hcur, hcur'⟩
  · simp only [unpin, heq, heq']
    exact ⟨trivial, hslot⟩
  by_cases hzero : region.pinCount = 0
  · rw [unpin_of_zero h hcur hzero, unpin_of_zero h' hcur' hzero]
    exact ⟨rfl, hslot⟩
  rcases hcur.unpin h with ⟨hz, _⟩ | ⟨_, arena, heq, heff⟩
  · exact absurd hz hzero
  rcases hcur'.unpin h' with ⟨hz, _⟩ | ⟨_, arena', heq', heff'⟩
  · exact absurd hz hzero
  rw [heq, heq', (unpinned_update h hcur heff).slot_self, (unpinned_update h' hcur' heff').slot_self]
  refine ⟨rfl, ?_⟩
  show Slot.mk _ _ (g.retired.find? id) = Slot.mk _ _ (g'.retired.find? id)
  rw [(slot_fields hslot).2.2]

theorem get_alike (h : Inv g) (h' : Inv g') (hslot : slot id g = slot id g')
    (gen : AllocationGeneration) : g.get id gen = g'.get id gen := by
  rcases locate_alike h hslot gen "stale allocation generation on query" with
    ⟨f, heq, heq'⟩ | ⟨rec, region, hcur, hcur'⟩
  · simp only [get, heq, heq']
  · obtain ⟨_, harena, _⟩ := h.current hcur.found
    obtain ⟨_, harena', _⟩ := h'.current hcur'.found
    simp only [get, hcur.locate, hcur'.locate, RegionAllocator.get,
      RegionAllocator.locate_of_holds harena hcur.holds,
      RegionAllocator.locate_of_holds harena' hcur'.holds]

theorem regionSize_alike (hslot : slot id g = slot id g') : g.regionSize id = g'.regionSize id := by
  obtain ⟨hrec, _, hret⟩ := slot_fields hslot
  rw [regionSize, regionSize, hrec, hret]

/-- The checks of a release on its record, in the order of the source. -/
theorem releaseForWorker_alike (h : Inv g) (h' : Inv g') (hslot : slot id g = slot id g')
    (gen : AllocationGeneration) (w : WorkerBootId) (s : SourceBootId) :
    (g.releaseForWorker id gen w s).1 = (g'.releaseForWorker id gen w s).1 ∧
      slot id (g.releaseForWorker id gen w s).2 = slot id (g'.releaseForWorker id gen w s).2 := by
  obtain ⟨hrec, _, hret⟩ := slot_fields hslot
  cases hf : g.records.find? id with
  | none =>
      have hf' : g'.records.find? id = none := hrec ▸ hf
      simp only [releaseForWorker, hf, hf', hret]
      split
      · split
        · exact ⟨rfl, hslot⟩
        · exact ⟨rfl, hslot⟩
      · exact ⟨rfl, hslot⟩
  | some rec =>
      have hf' : g'.records.find? id = some rec := hrec ▸ hf
      by_cases hgen : rec.generation = gen
      swap
      · have hne : (rec.generation != gen) = true := by simp [hgen]
        simp only [releaseForWorker, hf, hf', if_pos hne]
        exact ⟨trivial, hslot⟩
      have heq : ¬ (rec.generation != gen) = true := by simp [hgen]
      obtain ⟨_, _, region, hcur⟩ := h.current hf
      rw [hgen] at hcur
      have hcur' := hcur.transfer hslot
      by_cases hworker : (w.isSet && w != rec.workerBoot) = true
      · simp only [releaseForWorker, hf, hf', if_neg heq, if_pos hworker]
        exact ⟨trivial, hslot⟩
      by_cases hsource : (s.isSet && s != rec.sourceBoot) = true
      · simp only [releaseForWorker, hf, hf', if_neg heq, if_neg hworker, if_pos hsource]
        exact ⟨trivial, hslot⟩
      by_cases hpins : rec.pinCount > 0
      · simp only [releaseForWorker, hf, hf', if_neg heq, if_neg hworker, if_neg hsource, if_pos hpins]
        exact ⟨trivial, hslot⟩
      by_cases hactive : (rec.residency == .active) = true
      · simp only [releaseForWorker, hf, hf', if_neg heq, if_neg hworker, if_neg hsource,
          if_neg hpins, if_pos hactive]
        exact ⟨trivial, hslot⟩
      obtain ⟨arena, hok, heff⟩ := hcur.releaseForWorker h hworker hsource hpins hactive
      obtain ⟨arena', hok', heff'⟩ := hcur'.releaseForWorker h' hworker hsource hpins hactive
      rw [hok, hok', (released_update h hcur heff).slot_self,
        (released_update h' hcur' heff').slot_self]
      simp [retire]

/-- **Own calls** are answered, and change the slot, by the slot alone. -/
theorem slot_alike (h : Inv g) (h' : Inv g') {c : Call} (hown : isOwn id c = true)
    (hslot : slot id g = slot id g') :
    (g.perform c).1 = (g'.perform c).1 ∧ slot id (g.perform c).2 = slot id (g'.perform c).2 := by
  have htarget := isOwn_iff.mp hown
  cases c with
  | release id' gen =>
      cases htarget
      obtain ⟨hreply, hafter⟩ := releaseForWorker_alike h h' hslot gen {} {}
      exact ⟨congrArg Reply.record hreply, hafter⟩
  | releaseForWorker id' gen w s =>
      cases htarget
      obtain ⟨hreply, hafter⟩ := releaseForWorker_alike h h' hslot gen w s
      exact ⟨congrArg Reply.record hreply, hafter⟩
  | pin id' gen =>
      cases htarget
      obtain ⟨hreply, hafter⟩ := pin_alike h h' hslot gen
      exact ⟨congrArg Reply.done hreply, hafter⟩
  | unpin id' gen =>
      cases htarget
      obtain ⟨hreply, hafter⟩ := unpin_alike h h' hslot gen
      exact ⟨congrArg Reply.done hreply, hafter⟩
  | get id' gen =>
      cases htarget
      exact ⟨congrArg Reply.record (get_alike h h' hslot gen), hslot⟩
  | regionSize id' =>
      cases htarget
      exact ⟨congrArg Reply.size (regionSize_alike hslot), hslot⟩
  | _ => cases htarget

/-- The governor keeps the allocations apart. -/
theorem isolates (id : AllocationId) : Isolates perform Inv (Spares id) (slot id) (isOwn id) where
  inv := fun _ c h => (perform_step h c).inv h
  keeps := fun _ _ h hother hspares => slot_keeps h hother hspares
  alike := fun _ _ _ h h' hown hslot => slot_alike h h' hown hslot

end Slots

/-- **Isolation.** From any reachable state, the calls that name an
allocation are answered as if they were the only ones, and leave it as
they alone would. -/
theorem isolated (domain : MemoryDomain) (hasBackend : Bool) (before : List Call)
    (id : AllocationId) (calls : List Call)
    (h : Guarded perform (Spares id) (run perform (new domain hasBackend) before) calls) :
    let g := run perform (new domain hasBackend) before
    (trace perform g calls).filter (fun e => isOwn id e.1) =
        trace perform g (calls.filter (isOwn id)) ∧
      slot id (run perform g calls) = slot id (run perform g (calls.filter (isOwn id))) := by
  intro g
  have hinv : Inv g := run_inv (inv_new domain hasBackend) before
  exact (isolates id).alone hinv hinv rfl h

/-! ## Orders of handle calls -/

/-- The governors hold the same, domain counters and the ids of free
regions apart. -/
structure Matches (g g' : MemoryGovernor) : Prop where
  records : g.records = g'.records
  retired : g.retired = g'.retired
  history : g.historyCount = g'.historyCount
  live : g.arena.snapshotLive = g'.arena.snapshotLive
  free : g.arena.freeSlots = g'.arena.freeSlots
  summary : g.summary.1 = g'.summary.1

/-- Every call names an allocation, and moves none. -/
def HandleCalls (cs : List Call) : Prop := ∀ c ∈ cs, c.target?.isSome = true

section Orders

variable {g g' : MemoryGovernor}

theorem spares_of_target {c : Call} (h : c.target?.isSome = true) (id : AllocationId)
    (g : MemoryGovernor) : Spares id g c := by
  cases c <;> first | exact trivial | cases h

/-- The fields of the domain a summary reads. -/
def figures (g : MemoryGovernor) :
    UInt64 × WatermarkConfig × Provenance × PressureState × GpuMemoryDomainGeneration :=
  (g.domain.managedCapacity, g.domain.watermarks, g.domain.provenance, g.domain.pressure,
    g.domain.domainGeneration)

/-- The event is an accepted release. -/
def retires : Call × Reply → Bool
  | (.release _ _, .record (.ok _)) => true
  | (.releaseForWorker _ _ _ _, .record (.ok _)) => true
  | _ => false

theorem retire_figures (id : AllocationId) (r : AllocationRecord) (arena : RegionAllocator) :
    (g.retire id r arena).figures = g.figures := by
  simp only [figures, retire, dischargeDomain]
  split
  · rfl
  · split <;> rfl

/-- A release counts in the history if it is accepted. -/
theorem releaseForWorker_history (id : AllocationId) (gen : AllocationGeneration) (w : WorkerBootId)
    (s : SourceBootId) :
    (g.releaseForWorker id gen w s).2.figures = g.figures ∧
      (g.releaseForWorker id gen w s).2.historyCount = g.historyCount +
        (if Accepted (g.releaseForWorker id gen w s).1 then 1 else 0) := by
  have hrefused : ∀ f : Failure, g.historyCount = g.historyCount +
      (if Accepted (Except.error f : Result AllocationRecord) then 1 else 0) := by
    intro f
    simp [Accepted]
  unfold releaseForWorker
  split
  · split
    · split
      · exact ⟨rfl, hrefused _⟩
      · exact ⟨rfl, hrefused _⟩
    · exact ⟨rfl, hrefused _⟩
  split
  · exact ⟨rfl, hrefused _⟩
  split
  · exact ⟨rfl, hrefused _⟩
  split
  · exact ⟨rfl, hrefused _⟩
  split
  · exact ⟨rfl, hrefused _⟩
  split
  · exact ⟨rfl, hrefused _⟩
  split
  · exact ⟨rfl, hrefused _⟩
  · exact ⟨retire_figures _ _ _, by simp [retire, Accepted]⟩

theorem pin_history (id : AllocationId) (gen : AllocationGeneration) :
    (g.pin id gen).2.figures = g.figures ∧ (g.pin id gen).2.historyCount = g.historyCount := by
  unfold pin
  split
  · exact ⟨rfl, rfl⟩
  · split <;> exact ⟨rfl, rfl⟩

theorem unpin_history (id : AllocationId) (gen : AllocationGeneration) :
    (g.unpin id gen).2.figures = g.figures ∧ (g.unpin id gen).2.historyCount = g.historyCount := by
  unfold unpin
  split
  · exact ⟨rfl, rfl⟩
  split
  · exact ⟨rfl, rfl⟩
  · refine ⟨?_, rfl⟩
    simp only [figures, recordUnpin]
    split <;> rfl

theorem retires_release {c : Call} {id : AllocationId} {gen : AllocationGeneration}
    (hc : IsRelease id gen c) (r : Result AllocationRecord) :
    retires (c, .record r) = decide (Accepted r) := by
  rcases hc with rfl | ⟨_, _, rfl⟩ <;> cases r <;> simp [retires, Accepted]

/-- **One handle call**: the history grows by accepted releases. -/
theorem handle_history {c : Call} (hc : c.target?.isSome = true) :
    (g.perform c).2.figures = g.figures ∧
      (g.perform c).2.historyCount =
        g.historyCount + (if retires (c, (g.perform c).1) = true then 1 else 0) := by
  cases c with
  | release id gen =>
      have hbooks := g.releaseForWorker_history id gen {} {}
      have hret := retires_release (c := .release id gen) (Or.inl rfl) (g.release id gen).1
      refine ⟨hbooks.1, hbooks.2.trans ?_⟩
      simp only [perform, hret, decide_eq_true_eq]
      rfl
  | releaseForWorker id gen w s =>
      have hbooks := g.releaseForWorker_history id gen w s
      have hret := retires_release (c := .releaseForWorker id gen w s) (Or.inr ⟨w, s, rfl⟩)
        (g.releaseForWorker id gen w s).1
      refine ⟨hbooks.1, hbooks.2.trans ?_⟩
      simp only [perform, hret, decide_eq_true_eq]
  | pin id gen => exact ⟨(g.pin_history id gen).1, by simp [perform, retires, g.pin_history id gen]⟩
  | unpin id gen =>
      exact ⟨(g.unpin_history id gen).1, by simp [perform, retires, g.unpin_history id gen]⟩
  | get id gen => exact ⟨rfl, by simp [perform, retires]⟩
  | regionSize id => exact ⟨rfl, by simp [perform, retires]⟩
  | _ => cases hc

/-- A run of handle calls counts its accepted releases. -/
theorem run_history {cs : List Call} (hcs : HandleCalls cs) :
    (run perform g cs).figures = g.figures ∧
      (run perform g cs).historyCount =
        g.historyCount + UInt64.ofNat ((trace perform g cs).countP retires) := by
  induction cs generalizing g with
  | nil => exact ⟨rfl, by simp⟩
  | cons c cs ih =>
      obtain ⟨hfig, hcount⟩ := handle_history (g := g) (hcs c (by simp))
      obtain ⟨hfig', hcount'⟩ := ih (g := (g.perform c).2) (fun d hd => hcs d (by simp [hd]))
      refine ⟨hfig'.trans hfig, ?_⟩
      rw [run, hcount', hcount, trace, List.countP_cons, Nat.add_comm, UInt64.ofNat_add,
        UInt64.add_assoc]
      split <;> simp

/-- Without records, handle calls change nothing. -/
theorem run_without_records (hnone : g.records = .empty) {cs : List Call} (hcs : HandleCalls cs) :
    run perform g cs = g := by
  induction cs with
  | nil => rfl
  | cons c cs ih =>
      have hfind : ∀ id, g.records.find? id = none := fun id => by rw [hnone]; rfl
      have hstep : (g.perform c).2 = g := by
        have hc := hcs c (by simp)
        cases c with
        | release id gen =>
            simp only [perform, release, releaseForWorker, hfind]
            split
            · split <;> rfl
            · rfl
        | releaseForWorker id gen w s =>
            simp only [perform, releaseForWorker, hfind]
            split
            · split <;> rfl
            · rfl
        | pin id gen => simp [perform, pin, locate, hfind]
        | unpin id gen => simp [perform, unpin, locate, hfind]
        | get id gen => rfl
        | regionSize id => rfl
        | _ => cases hc
      rw [run, hstep]
      exact ih (fun d hd => hcs d (by simp [hd]))

/-- Where every live region is indexed, equal lookups give equal live
regions. -/
theorem live_of_lookups (hinv : g.arena.Inv) (hinv' : g'.arena.Inv) (hidx : g.arena.Indexed)
    (hlookup : ∀ id, g.arena.lookup id = g'.arena.lookup id) {k : UInt64} {r : RegionInfo}
    (hl : g.arena.LiveAt k r) : g'.arena.LiveAt k r := by
  have hfound : g'.arena.lookup r.allocId = some r := by
    rw [← hlookup]
    exact RegionAllocator.lookup_eq_some_iff.mpr ⟨k, hidx hl, hl⟩
  have hoff : r.offset = k := hinv.layout.keyed hl.1
  rw [← hoff]
  exact (hinv'.lookup_some hfound).2.1

theorem snapshotLive_eq (ra : RegionAllocator) :
    ra.snapshotLive = (ra.regions.restrict (·.live)).entries.map (·.2) := by
  rw [RegionAllocator.snapshotLive, OrdMap.restrict, List.filter_map]
  rfl

theorem ensureSummary_twice (ra : RegionAllocator) :
    ra.ensureSummary.ensureSummary = ra.ensureSummary := by
  cases hd : ra.summaryDirty <;> simp [RegionAllocator.ensureSummary, hd]

/-- The summary is a function of the figures it is made of. -/
theorem summary_of_figures (hfigures : g.figures = g'.figures)
    (hfree : g.arena.freeBytes = g'.arena.freeBytes)
    (hbytes : g.arena.liveBytes = g'.arena.liveBytes)
    (hreclaim : g.reclaimableBytes = g'.reclaimableBytes)
    (hmovable : g.arena.movableBytes = g'.arena.movableBytes)
    (hpinned : g.arena.pinnedBytes = g'.arena.pinnedBytes)
    (hlargest : g.arena.largestFreeRegion = g'.arena.largestFreeRegion)
    (hregions : g.arena.freeRegionCount = g'.arena.freeRegionCount)
    (hcount : g.arena.liveCount = g'.arena.liveCount) : g.summary.1 = g'.summary.1 := by
  have hfields : g.domain.managedCapacity = g'.domain.managedCapacity ∧
      g.domain.watermarks = g'.domain.watermarks ∧ g.domain.provenance = g'.domain.provenance ∧
      g.domain.pressure = g'.domain.pressure ∧
      g.domain.domainGeneration = g'.domain.domainGeneration := by
    simpa only [figures, Prod.mk.injEq] using hfigures
  obtain ⟨hmanaged, hmarks, hprov, hprior, hgen⟩ := hfields
  have hfresh : ∀ ra : RegionAllocator, ra.ensureSummary.freeBytes = ra.freeBytes := fun ra => by
    simp [RegionAllocator.freeBytes]
  have hcached : g.arena.ensureSummary.largestFree = g'.arena.ensureSummary.largestFree := hlargest
  have hfrag : g.arena.externalFragmentation = g'.arena.externalFragmentation := by
    simp only [RegionAllocator.externalFragmentation, hfresh, hfree, hcached]
  have hfrag' : g.arena.ensureSummary.externalFragmentation =
      g'.arena.ensureSummary.externalFragmentation := by
    simp only [RegionAllocator.externalFragmentation, ensureSummary_twice, hfresh, hfree, hcached]
  simp only [summary, pressure, RegionAllocator.ensureSummary_liveBytes, hfresh, hmanaged, hmarks,
    hprov, hprior, hgen, hfree, hbytes, hreclaim, hmovable, hpinned, hlargest, hregions, hcount,
    hcached, hfrag, hfrag']

/-- Equal slots, history and figures make a match. -/
theorem matches_of_slots (h : Inv g) (h' : Inv g') (hpos : 0 < g.domain.managedCapacity.toNat)
    (hidx : g.arena.Indexed) (hidx' : g'.arena.Indexed) (hc : RegionAllocator.Cached g.arena)
    (hc' : RegionAllocator.Cached g'.arena) (hslots : ∀ id, slot id g = slot id g')
    (hfigures : g.figures = g'.figures) (hhistory : g.historyCount = g'.historyCount) :
    Matches g g' := by
  have hmanaged : g.domain.managedCapacity = g'.domain.managedCapacity := congrArg (·.1) hfigures
  have hinv := h.arena hpos
  have hinv' := h'.arena (hmanaged ▸ hpos)
  have hcap : g.arena.capacity = g'.arena.capacity := by rw [h.capacity, h'.capacity, hmanaged]
  have hlookup : ∀ id, g.arena.lookup id = g'.arena.lookup id := fun id =>
    (slot_fields (hslots id)).2.1
  have hrecords : g.records = g'.records :=
    OrdMap.ext_find? (fun id => (slot_fields (hslots id)).1)
  have hretired : g.retired = g'.retired :=
    OrdMap.ext_find? (fun id => (slot_fields (hslots id)).2.2)
  have hrestrict : g.arena.regions.restrict (·.live) = g'.arena.regions.restrict (·.live) := by
    refine OrdMap.ext_find? (fun k => Option.ext (fun r => ?_))
    rw [OrdMap.find?_restrict, OrdMap.find?_restrict]
    exact ⟨live_of_lookups hinv hinv' hidx hlookup,
      live_of_lookups hinv' hinv hidx' (fun id => (hlookup id).symm)⟩
  have hlive : g.arena.snapshotLive = g'.arena.snapshotLive := by
    rw [snapshotLive_eq, snapshotLive_eq, hrestrict]
  have hfree : g.arena.freeSlots = g'.arena.freeSlots := by
    refine RegionAllocator.freeSlots_of_live hinv hinv' hcap (fun i => ?_)
    rw [RegionAllocator.liveIntervals, RegionAllocator.liveIntervals, hlive]
  -- a weight of live regions is the same in both
  have hweigh : ∀ {f : UInt64 → RegionInfo → Nat}, (∀ k r, r.live = false → f k r = 0) →
      g.arena.regions.weigh f = g'.arena.regions.weigh f := by
    intro f hzero
    rw [← OrdMap.weigh_restrict (p := (·.live)) hzero, hrestrict, OrdMap.weigh_restrict hzero]
  have hbytes : g.arena.liveBytes = g'.arena.liveBytes := by
    rw [← UInt64.toNat_inj, hinv.bytes, hinv'.bytes]
    exact hweigh (fun k r hl => by simp [RegionAllocator.liveSize, hl])
  have hcount : g.arena.liveCount = g'.arena.liveCount := by
    rw [← UInt64.toNat_inj, hinv.count, hinv'.count]
    exact hweigh (fun k r hl => by simp [RegionAllocator.liveOne, hl])
  have hclass : ∀ m, g.arena.bytesWith m = g'.arena.bytesWith m := by
    intro m
    rw [← UInt64.toNat_inj, hinv.toNat_bytesWith, hinv'.toNat_bytesWith]
    exact hweigh (fun k r hl => by simp [RegionAllocator.classSize, hl])
  have hlargest : g.arena.largestFreeRegion = g'.arena.largestFreeRegion := by
    rw [hc.largestFreeRegion, hc'.largestFreeRegion, hfree]
  have hfreeBytes : g.arena.freeBytes = g'.arena.freeBytes := by
    rw [RegionAllocator.freeBytes, RegionAllocator.freeBytes, hcap, hbytes]
  have hregions : g.arena.freeRegionCount = g'.arena.freeRegionCount := by
    rw [hc.freeRegionCount, hc'.freeRegionCount, hfree]
  have hreclaim : g.reclaimableBytes = g'.reclaimableBytes := by
    rw [reclaimableBytes, reclaimableBytes, hrecords]
  exact ⟨hrecords, hretired, hhistory, hlive, hfree, summary_of_figures hfigures hfreeBytes hbytes
    hreclaim (hclass .movable) (hclass .pinned) hlargest hregions hcount⟩

/-- Lists of keyed entries with the same entries under each key are
permutations of each other. -/
theorem perm_of_isOwn {l l' : List (Call × Reply)} (hl : ∀ e ∈ l, e.1.target?.isSome = true)
    (hl' : ∀ e ∈ l', e.1.target?.isSome = true)
    (h : ∀ id, l.filter (fun e => isOwn id e.1) = l'.filter (fun e => isOwn id e.1)) :
    l.Perm l' := by
  classical
  refine List.perm_iff_count.mpr (fun e => ?_)
  cases htarget : e.1.target? with
  | none =>
      have hnot : e ∉ l ∧ e ∉ l' :=
        ⟨fun he => by simpa [htarget] using hl e he, fun he => by simpa [htarget] using hl' e he⟩
      rw [List.count_eq_zero.mpr hnot.1, List.count_eq_zero.mpr hnot.2]
  | some id =>
      have hown : isOwn id e.1 = true := isOwn_iff.mpr htarget
      have hcount : ∀ k : List (Call × Reply), (k.filter (fun e => isOwn id e.1)).count e = k.count e :=
        fun k => List.count_filter (p := fun e : Call × Reply => isOwn id e.1) hown
      rw [← hcount l, h id, hcount l']

theorem trace_calls (g : MemoryGovernor) (cs : List Call) : (trace perform g cs).map (·.1) = cs := by
  induction cs generalizing g with
  | nil => rfl
  | cons c cs ih => rw [trace, List.map_cons, ih]

theorem trace_target {cs : List Call} (hcs : HandleCalls cs) :
    ∀ e ∈ trace perform g cs, e.1.target?.isSome = true := by
  intro e he
  refine hcs e.1 ?_
  rw [← trace_calls g cs]
  exact List.mem_map_of_mem he

end Orders

/-- **The order between allocations does not matter.** Two lists of handle
calls that have the same calls for each allocation, in the same order, are
answered alike and leave the same governor, from any reachable state. -/
theorem orders_agree (domain : MemoryDomain) (hasBackend : Bool) (before cs ds : List Call)
    (hfresh : Guarded perform FreshGrant (new domain hasBackend) before)
    (hcs : HandleCalls cs) (hds : HandleCalls ds)
    (hsame : ∀ id, cs.filter (isOwn id) = ds.filter (isOwn id)) :
    let g := run perform (new domain hasBackend) before
    (∀ id, (trace perform g cs).filter (fun e => isOwn id e.1) =
        (trace perform g ds).filter (fun e => isOwn id e.1)) ∧
      Matches (run perform g cs) (run perform g ds) := by
  intro g
  have hinv : Inv g := run_inv (inv_new domain hasBackend) before
  have hguard : ∀ {es : List Call}, HandleCalls es → ∀ id, Guarded perform (Spares id) g es :=
    fun hes id => guarded_of_forall_mem (fun c hc g' => spares_of_target (hes c hc) id g')
  have hboth : ∀ id, (trace perform g cs).filter (fun e => isOwn id e.1) =
      (trace perform g ds).filter (fun e => isOwn id e.1) ∧
        slot id (run perform g cs) = slot id (run perform g ds) :=
    fun id => (isolates id).same hinv (hguard hcs id) (hguard hds id) (hsame id)
  refine ⟨fun id => (hboth id).1, ?_⟩
  obtain ⟨hfigures, hhistory⟩ := run_history (g := g) hcs
  obtain ⟨hfigures', hhistory'⟩ := run_history (g := g) hds
  rcases Nat.eq_zero_or_pos g.domain.managedCapacity.toNat with hzero | hpos
  · have hnone := (hinv.idle hzero).2
    rw [run_without_records hnone hcs, run_without_records hnone hds]
    exact ⟨rfl, rfl, rfl, rfl, rfl, rfl⟩
  have hrun : ∀ es, run perform g es = run perform (new domain hasBackend) (before ++ es) :=
    fun es => (run_append _ _ _).symm
  have hindexed : ∀ {es : List Call}, HandleCalls es → (run perform g es).arena.Indexed := by
    intro es hes
    rw [hrun]
    refine run_indexed_of_grants (guarded_append.mpr ⟨hfresh, guarded_of_forall_mem ?_⟩)
    intro c hc g'
    have htarget := hes c hc
    cases c <;> first | exact trivial | cases htarget
  have hcached : ∀ es, RegionAllocator.Cached (run perform g es).arena := fun es => by
    rw [hrun]
    exact run_cached domain hasBackend _
  have hcount : (trace perform g cs).countP retires = (trace perform g ds).countP retires :=
    (perm_of_isOwn (trace_target hcs) (trace_target hds) (fun id => (hboth id).1)).countP_eq _
  have hmanaged : (run perform g cs).domain.managedCapacity = g.domain.managedCapacity :=
    congrArg (·.1) hfigures
  exact matches_of_slots (run_inv hinv cs) (run_inv hinv ds) (hmanaged ▸ hpos) (hindexed hcs)
    (hindexed hds) (hcached cs) (hcached ds) (fun id => (hboth id).2)
    (hfigures.trans hfigures'.symm) (by rw [hhistory, hhistory', hcount])

/-- Three allocations for the two clients below. -/
def threeClients : List Call :=
  [.initializeArena (.ok 4096),
   .request { bytes := 100 },
   .request { bytes := 100 },
   .request { bytes := 100 }]

/-- A client that pins and unpins the first allocation while another
releases, requests and moves. -/
def sharedRun : List Call :=
  [.pin ⟨1⟩ ⟨1⟩, .release ⟨2⟩ ⟨1⟩, .release ⟨1⟩ ⟨1⟩, .request { bytes := 20 },
   .applyRelocation ⟨3⟩ ⟨1⟩ 512 100, .applyRelocation ⟨1⟩ ⟨1⟩ 640 100, .unpin ⟨1⟩ ⟨1⟩, .summary,
   .release ⟨1⟩ ⟨1⟩]

theorem isolated_sharedRun :
    let g := run perform (new { managedCapacity := 1024 } true) threeClients
    (trace perform g sharedRun).filter (fun e => isOwn ⟨1⟩ e.1) =
      trace perform g [.pin ⟨1⟩ ⟨1⟩, .release ⟨1⟩ ⟨1⟩, .unpin ⟨1⟩ ⟨1⟩, .release ⟨1⟩ ⟨1⟩] := by
  have hspares : Guarded perform (Spares ⟨1⟩)
      (run perform (new { managedCapacity := 1024 } true) threeClients) sharedRun :=
    ⟨trivial, trivial, trivial, fun _ => by decide +kernel, fun _ => by decide,
      fun haccepted => absurd haccepted (by decide +kernel), trivial, trivial, trivial, trivial⟩
  exact (isolated { managedCapacity := 1024 } true threeClients ⟨1⟩ sharedRun hspares).1

theorem orders_agree_threeClients :
    let g := run perform (new { managedCapacity := 1024 } true) threeClients
    Matches
      (run perform g [.release ⟨1⟩ ⟨1⟩, .pin ⟨2⟩ ⟨1⟩, .release ⟨3⟩ ⟨1⟩, .unpin ⟨2⟩ ⟨1⟩, .release ⟨2⟩ ⟨1⟩])
      (run perform g [.pin ⟨2⟩ ⟨1⟩, .unpin ⟨2⟩ ⟨1⟩, .release ⟨2⟩ ⟨1⟩, .release ⟨3⟩ ⟨1⟩, .release ⟨1⟩ ⟨1⟩]) := by
  refine (orders_agree { managedCapacity := 1024 } true threeClients _ _
    ⟨trivial, fun _ => rfl, fun _ => rfl, fun _ => rfl, trivial⟩ (by simp [HandleCalls, Call.target?])
    (by simp [HandleCalls, Call.target?]) (fun id => ?_)).2
  by_cases h1 : id = ⟨1⟩
  · subst h1
    rfl
  by_cases h2 : id = ⟨2⟩
  · subst h2
    rfl
  by_cases h3 : id = ⟨3⟩
  · subst h3
    rfl
  simp [isOwn, Call.target?, Ne.symm h1, Ne.symm h2, Ne.symm h3]

end GpuMemoryService.MemoryGovernor
