/-
GpuMemoryService.GovernorCompaction — a compaction driver among other
clients.

A move takes three calls of the driver: it asks for a plan, copies the
bytes itself, and reports the move. The governor locks each call and not
the three together, `plan_compaction` changes nothing, and requests and
releases of other clients may come between them.

`target_clear`: whatever comes in between, a byte of the target that
belongs to a live allocation when the copy is made was granted after the
plan. Planning keeps nothing free, so such a byte is possible
(`requestAfterPlan_overwritten`); what has been checked again when the
driver reports the move is that the target is free at that moment.

A plan is only considered when no `align_up` of it wraps past 2^64
(`AlignsInside`): there the planner puts the target at 0 instead of passing
over the free region. No arena of up to 2^63 bytes is large enough for it
(`alignsInside_of_capacity`).
-/
import GpuMemoryService.GovernorPins
import GpuMemoryService.RegionPlacement
import GpuMemoryService.RegionOwnership

namespace GpuMemoryService

open Lib MemoryGovernor

/-! ## Planned targets -/

/-- Byte `b` is in the target of the step. -/
def CompactionStep.Target (st : CompactionStep) (b : Nat) : Prop :=
  st.newOffset.toNat ≤ b ∧ b < st.newOffset.toNat + st.newSize.toNat

namespace MemoryGovernor

/-- No free region is aligned past the end of the address space. -/
def AlignsInside (g : MemoryGovernor) : Prop :=
  ∀ m ∈ g.arena.snapshotLive, ∀ f ∈ g.arena.snapshotFree,
    f.offset ≤ Detail.alignUp f.offset m.alignment

/-- Without managed memory there is no live region. -/
def Bare (g : MemoryGovernor) : Prop :=
  g.domain.managedCapacity.toNat = 0 → ∀ k r, ¬ g.arena.LiveAt k r

section Planned

variable {g g' : MemoryGovernor}

theorem Step.bare (h : Inv g) (hb : Bare g) {c : Call} {reply : Reply} (hs : Step g c reply g') :
    Bare g' := by
  have hupdate : ∀ {id : AllocationId} {rec : Option AllocationRecord} {region : Option RegionInfo},
      Update g g' id rec region → Bare g' := by
    intro _ _ _ u hzero
    have hpos := u.pos
    rw [← u.managed] at hpos
    omega
  cases hs with
  | quiet hq _ _ =>
      intro hzero k r
      rw [hq.managed] at hzero
      have hlive : g'.arena.LiveAt k r ↔ g.arena.LiveAt k r := by
        rcases hq.arena with ha | ha <;> simp [RegionAllocator.LiveAt, ha]
      rw [hlive]
      exact hb hzero k r
  | granted hready hp => exact hupdate (granted_update h hready hp)
  | released _ hcur _ _ _ he => exact hupdate (released_update h hcur he)
  | pinned hcur he => exact hupdate (pinned_update h hcur he)
  | unpinned hcur _ he => exact hupdate (unpinned_update h hcur he)
  | moved hcur _ _ he => exact hupdate (moved_update h hcur he)
  | restored s => exact fun _ _ _ => RegionAllocator.not_liveAt_new _

theorem run_bare (domain : MemoryDomain) (hasBackend : Bool) (calls : List Call) :
    Inv (run perform (new domain hasBackend) calls) ∧
      Bare (run perform (new domain hasBackend) calls) := by
  refine ⟨run_inv (inv_new domain hasBackend) calls, ?_⟩
  refine reachable_induction (P := Bare) ?_ ?_ calls
  · exact fun _ _ _ => RegionAllocator.not_liveAt_new _
  · exact fun g c hinv hbare => (perform_step hinv c).bare hinv hbare

/-- A governor with a live region has managed memory. -/
theorem Bare.pos (hb : Bare g) {m : RegionInfo} (hm : m ∈ g.arena.snapshotLive) :
    0 < g.domain.managedCapacity.toNat := by
  refine Nat.pos_of_ne_zero (fun hzero => ?_)
  obtain ⟨⟨k, hmem⟩, hlive⟩ : (∃ k, (k, m) ∈ g.arena.regions.entries) ∧ m.live = true := by
    simpa [RegionAllocator.snapshotLive] using hm
  exact hb hzero k m ⟨OrdMap.find?_eq_some_iff.mpr hmem, hlive⟩

/-- What a free region takes lies inside it, unless the alignment wraps. -/
theorem Takes.inside {m f : RegionInfo} (ht : Takes m f)
    (hnf : f.offset ≤ Detail.alignUp f.offset m.alignment) :
    f.offset.toNat ≤ (Detail.alignUp f.offset m.alignment).toNat ∧
      (Detail.alignUp f.offset m.alignment).toNat + m.size.toNat ≤
        f.offset.toNat + f.size.toNat := by
  have hpadded := ht.padded
  have hroom := ht.room
  rw [if_pos hnf] at hpadded hroom
  have hpad := toNat_sub_of_ge (a := Detail.alignUp f.offset m.alignment) (b := f.offset)
    (UInt64.le_iff_toNat_le.mp hnf)
  simp only [gt_iff_lt, UInt64.lt_iff_toNat_lt, Nat.not_lt, hpad] at hpadded
  have hrest := toNat_sub_of_ge (a := f.size)
    (b := Detail.alignUp f.offset m.alignment - f.offset) (by rw [hpad]; exact hpadded)
  simp only [gt_iff_lt, UInt64.lt_iff_toNat_lt, Nat.not_lt, hrest, hpad] at hroom
  have hnfN := UInt64.le_iff_toNat_le.mp hnf
  omega

/-- The target of a planned step is free. -/
theorem planned_unowned (h : Inv g) (hb : Bare g) (hw : AlignsInside g) {st : CompactionStep}
    (hst : st ∈ g.planCompaction.1.steps) {b : Nat} (hb' : st.Target b) : g.arena.owner b = none := by
  obtain ⟨m, hm, f, hf, _, htakes, rfl⟩ := planCompaction_steps hst
  have hinv := h.arena (hb.pos hm)
  obtain ⟨hfound, hfree⟩ := hinv.mem_snapshotFree.mp hf
  obtain ⟨hlo, hhi⟩ := htakes.inside (hw m hm f hf)
  refine Option.eq_none_iff_forall_ne_some.mpr (fun x hown => ?_)
  obtain ⟨k, r, hl, hbr, _⟩ := hinv.owner_eq_some_iff.mp hown
  have hbf : b ∈ RegionAllocator.bytesAt f.offset f := by
    rw [RegionAllocator.mem_bytesAt]
    simp only [CompactionStep.Target, stepInto] at hb'
    omega
  -- a byte of a live region is in no free region
  have hk := hinv.layout.part.shared RegionAllocator.toNat_strictMono.injective hl.1 hfound hbr hbf
  rw [hk, RegionAllocator.LiveAt, hfound] at hl
  obtain ⟨hr, hlive⟩ := hl
  cases hr
  rw [hfree] at hlive
  cases hlive

/-- The planner aligns as the allocator does. -/
theorem detail_alignUp_eq {a : UInt64} (hpow : isPow2 a = true) (o : UInt64) :
    Detail.alignUp o a = RegionAllocator.alignUp o a := by
  have hne : a ≠ 0 := by
    rintro hzero
    rw [hzero] at hpow
    cases hpow
  simp [Detail.alignUp, RegionAllocator.alignUp, hpow, hne]

theorem alignsInside_of_capacity (h : Inv g) (hsmall : g.domain.managedCapacity.toNat ≤ 2 ^ 63)
    (hpos : 0 < g.domain.managedCapacity.toNat) : AlignsInside g := by
  intro m hm f hf
  have hinv := h.arena hpos
  obtain ⟨hpow, _⟩ := hinv.aligned (hinv.mem_snapshotLive.mp hm)
  have hend := hinv.end_le (hinv.mem_snapshotFree.mp hf).1
  rw [h.capacity] at hend
  obtain ⟨k, hk, hval⟩ := RegionAllocator.exists_pow_of_isPow2 hpow
  have ha : m.alignment.toNat ≤ 2 ^ 63 := by
    rw [hval]
    exact Nat.pow_le_pow_right (by decide) (by omega)
  have hposa := RegionAllocator.toNat_pos_of_isPow2 hpow
  have hwrap := le_roundUp_iff (n := f.offset.toNat) hposa
    (RegionAllocator.two_pow_dvd_of_isPow2 hpow)
  rw [detail_alignUp_eq hpow, UInt64.le_iff_toNat_le, RegionAllocator.toNat_alignUp f.offset hpow,
    if_neg (by omega)]
  exact le_roundUp _ hposa

end Planned

end MemoryGovernor

/-! ## The driver -/

/-- Where the driver is with its move. -/
inductive Stage where
  | idle
  | planned (st : CompactionStep)
  | copied (st : CompactionStep)
deriving DecidableEq

structure Compactor where
  governor : MemoryGovernor
  stage : Stage := .idle

namespace Compactor

/-- What other clients call meanwhile. -/
inductive Client where
  | request (req : AllocationRequest)
  | release (id : AllocationId) (gen : AllocationGeneration)
  | releaseForWorker (id : AllocationId) (gen : AllocationGeneration) (workerBoot : WorkerBootId)
      (sourceBoot : SourceBootId)

def Client.call : Client → MemoryGovernor.Call
  | .request req => .request req
  | .release id gen => .release id gen
  | .releaseForWorker id gen workerBoot sourceBoot => .releaseForWorker id gen workerBoot sourceBoot

inductive Event where
  | client (c : Client)
  | plan
  | copy
  | apply

/-- A step of the driver out of turn does nothing. -/
def step (s : Compactor) : Event → Option Reply × Compactor
  | .client c =>
      let (reply, g) := s.governor.perform c.call
      (some reply, { s with governor := g })
  | .plan =>
      let (p, g) := s.governor.planCompaction
      (some (.plan p), ⟨g, p.steps.head?.elim .idle .planned⟩)
  | .copy =>
      match s.stage with
      | .planned st => (none, { s with stage := .copied st })
      | _ => (none, s)
  | .apply =>
      match s.stage with
      | .copied st =>
          let (r, g) := s.governor.applyRelocation st.id st.generation st.newOffset st.newSize
          (some (.handle r), ⟨g, .idle⟩)
      | _ => (none, s)

/-- The ids granted to other clients since the latest plan. -/
def grantedSince (t : List (Event × Option Reply)) : List AllocationId :=
  t.foldl
    (fun ids x =>
      match x with
      | (.plan, _) => []
      | (.client _, some (.handle (.ok h))) => h.id :: ids
      | _ => ids)
    []

section Driver

variable {s : Compactor} {t : List (Event × Option Reply)}

theorem grantedSince_concat (x : Event × Option Reply) :
    grantedSince (t ++ [x]) =
      match x with
      | (.plan, _) => []
      | (.client _, some (.handle (.ok h))) => h.id :: grantedSince t
      | _ => grantedSince t := by
  unfold grantedSince
  rw [List.foldl_append]
  rfl

/-- Whoever owns a byte of a planned target was granted it after the plan. -/
def Fresh (t : List (Event × Option Reply)) (s : Compactor) : Prop :=
  ∀ st, s.stage = .planned st → ∀ b, st.Target b → ∀ id gen,
    s.governor.arena.owner b = some (id, gen) → id ∈ grantedSince t

/-- What holds all along. -/
structure Sane (t : List (Event × Option Reply)) (s : Compactor) : Prop where
  inv : Inv s.governor
  bare : Bare s.governor
  fresh : Fresh t s

theorem owner_ensureSummary (ra : RegionAllocator) (b : Nat) :
    ra.ensureSummary.owner b = ra.owner b := by
  simp [RegionAllocator.owner]

/-- A call of another client owns no byte anew but those of its grant. -/
theorem client_owner {g g' : MemoryGovernor} (h : Inv g) (c : Client) {reply : Reply}
    (hs : Step g c.call reply g') {b : Nat} {id : AllocationId} {gen : AllocationGeneration}
    (hown : g'.arena.owner b = some (id, gen)) :
    g.arena.owner b = some (id, gen) ∨ ∃ hd, reply = .handle (.ok hd) ∧ hd.id = id := by
  generalize hcall : c.call = call at hs
  cases hs with
  | quiet hq _ _ =>
      left
      rcases hq.arena with ha | ha
      · rwa [ha] at hown
      · rwa [ha, owner_ensureSummary] at hown
  | granted hready hp =>
      have hinv := h.arena (h.pos_of_ready hready)
      rcases (hp.effect.owner_iff hinv).mp hown with ⟨n, hn, _, heq⟩ | ⟨hold, _⟩
      · right
        refine ⟨_, rfl, ?_⟩
        cases hn
        rw [(Prod.mk.inj heq).1]
        exact (hp.effect.new_ok rfl).2.1.symm
      · exact Or.inl hold
  | released _ hcur _ _ _ he =>
      obtain ⟨_, hinv, _⟩ := h.current hcur.found
      rcases (he.owner_iff hinv).mp hown with ⟨n, hn, _⟩ | ⟨hold, _⟩
      · cases hn
      · exact Or.inl hold
  | pinned => cases c <;> cases hcall
  | unpinned => cases c <;> cases hcall
  | moved => cases c <;> cases hcall
  | restored => cases c <;> cases hcall

/-- **One step**, with plans that do not wrap. -/
theorem sane_step (h : Sane t s) (e : Event) (hw : e = .plan → AlignsInside s.governor) :
    Sane (t ++ [(e, (s.step e).1)]) (s.step e).2 := by
  cases e with
  | client c =>
      have hs := perform_step h.inv c.call
      refine ⟨hs.inv h.inv, hs.bare h.inv h.bare, fun st hst b hb id gen hown => ?_⟩
      rcases client_owner h.inv c hs hown with hold | ⟨hd, hreply, rfl⟩
      · have hmem := h.fresh st hst b hb id gen hold
        rw [grantedSince_concat]
        split
        · rename_i heq
          cases heq
        · exact List.mem_cons_of_mem _ hmem
        · exact hmem
      · rw [grantedSince_concat, show (s.step (.client c)).1 = _ from congrArg some hreply]
        exact List.mem_cons_self
  | plan =>
      have hs := perform_step h.inv .planCompaction
      refine ⟨hs.inv h.inv, hs.bare h.inv h.bare, fun st hst b hb id gen hown => ?_⟩
      have hmem : st ∈ s.governor.planCompaction.1.steps := by
        refine List.mem_of_mem_head? (?_ : st ∈ s.governor.planCompaction.1.steps.head?)
        simp only [step] at hst
        cases hhead : s.governor.planCompaction.1.steps.head? with
        | none => rw [hhead] at hst; cases hst
        | some st' => rw [hhead] at hst; cases hst; rfl
      have hfree := planned_unowned h.inv h.bare (hw rfl) hmem hb
      have harena : (s.step .plan).2.governor.arena = s.governor.arena.ensureSummary := rfl
      rw [harena, owner_ensureSummary, hfree] at hown
      cases hown
  | copy =>
      simp only [step]
      split
      · exact ⟨h.inv, h.bare, fun st hst => by cases hst⟩
      · refine ⟨h.inv, h.bare, fun st hst b hb id gen hown => ?_⟩
        rw [grantedSince_concat]
        exact h.fresh st hst b hb id gen hown
  | apply =>
      simp only [step]
      split
      · rename_i st _
        have hs := perform_step h.inv (.applyRelocation st.id st.generation st.newOffset st.newSize)
        exact ⟨hs.inv h.inv, hs.bare h.inv h.bare, fun st hst => by cases hst⟩
      · refine ⟨h.inv, h.bare, fun st hst b hb id gen hown => ?_⟩
        rw [grantedSince_concat]
        exact h.fresh st hst b hb id gen hown

/-- A move is accepted only onto bytes that are free at that moment. -/
theorem accepted_unowned {g : MemoryGovernor} (h : Inv g) {st : CompactionStep}
    (hok : Accepted (g.applyRelocation st.id st.generation st.newOffset st.newSize).1) {b : Nat}
    (hb : st.Target b) : g.arena.owner b = none := by
  have hs := perform_step h (.applyRelocation st.id st.generation st.newOffset st.newSize)
  obtain ⟨hd, hreply⟩ := hok
  rw [show (g.perform (.applyRelocation st.id st.generation st.newOffset st.newSize)).1
    = .handle (.ok hd) from congrArg Reply.handle hreply] at hs
  generalize (g.perform (.applyRelocation st.id st.generation st.newOffset st.newSize)).2 = g' at hs
  cases hs with
  | quiet _ hm _ => cases hm
  | moved hcur _ hadm _ =>
      obtain ⟨_, hinv, _⟩ := h.current hcur.found
      refine Option.eq_none_iff_forall_ne_some.mpr (fun x hown => ?_)
      obtain ⟨k, r, hl, hbr, _⟩ := hinv.owner_eq_some_iff.mp hown
      rw [RegionAllocator.mem_bytesAt] at hbr
      have hclear := hadm.clear k r hl
      unfold CompactionStep.Target at hb
      omega

/-- **What the copy can hit.** When the driver is about to copy, every byte
of the target is free or belongs to an allocation granted since the plan;
and its move is accepted only if every byte of the target is free then. -/
theorem target_clear (domain : MemoryDomain) (hasBackend : Bool) (calls : List Call)
    (events : List Event)
    (hw : Guarded step (fun s e => e = .plan → AlignsInside s.governor)
      ⟨run perform (new domain hasBackend) calls, .idle⟩ events) :
    let s := run step ⟨run perform (new domain hasBackend) calls, .idle⟩ events
    let t := trace step ⟨run perform (new domain hasBackend) calls, .idle⟩ events
    (∀ st, s.stage = .planned st → ∀ b, st.Target b → ∀ id gen,
      s.governor.arena.owner b = some (id, gen) → id ∈ grantedSince t) ∧
    (∀ st, s.stage = .copied st →
      Accepted (s.governor.applyRelocation st.id st.generation st.newOffset st.newSize).1 →
      ∀ b, st.Target b → s.governor.arena.owner b = none) := by
  have hstart := run_bare domain hasBackend calls
  have hsane : Sane (trace step ⟨run perform (new domain hasBackend) calls, .idle⟩ events)
      (run step ⟨run perform (new domain hasBackend) calls, .idle⟩ events) :=
    hw.trace_inv (P := Sane) ⟨hstart.1, hstart.2, fun st hst => by cases hst⟩
      (fun _ _ e h hg => sane_step h e hg)
  exact ⟨hsane.fresh, fun st _ hok b hb => accepted_unowned hsane.inv hok hb⟩

end Driver

/-- Four allocations fill 1024 bytes; the first is released. -/
def firstReleased : MemoryGovernor :=
  run perform (new { managedCapacity := 1024 } true)
    [.initializeArena (.ok 4096),
     .request { bytes := 256 }, .request { bytes := 256, movability := .nonmovable },
     .request { bytes := 256 }, .request { bytes := 256, movability := .nonmovable },
     .release ⟨1⟩ ⟨1⟩]

/-- The move of allocation 3 to the front. -/
def moveToFront : CompactionStep := ⟨⟨3⟩, ⟨1⟩, 512, 256, 0, 256, .movable⟩

/-- A release between plan and copy leaves the target free. -/
theorem target_clear_afterRelease :
    let events : List Event := [.plan, .client (.release ⟨4⟩ ⟨1⟩)]
    (run step ⟨firstReleased, .idle⟩ events).stage = .planned moveToFront ∧
    ∀ b, moveToFront.Target b → ∀ id gen,
      (run step ⟨firstReleased, .idle⟩ events).governor.arena.owner b = some (id, gen) →
        id ∈ grantedSince (trace step ⟨firstReleased, .idle⟩ events) := by
  intro events
  have hstage : (run step ⟨firstReleased, .idle⟩ events).stage = .planned moveToFront := by
    decide +kernel
  have haligns : AlignsInside firstReleased :=
    alignsInside_of_capacity (run_inv (inv_new _ _) _) (by decide +kernel) (by decide +kernel)
  exact ⟨hstage, (target_clear _ _ _ events
    ⟨fun _ => haligns, fun h => (by cases h), trivial⟩).1 moveToFront hstage⟩

/-- A request between plan and copy is given the target. -/
theorem requestAfterPlan_overwritten :
    let s := run step ⟨firstReleased, .idle⟩ [.plan, .client (.request { bytes := 256 })]
    s.stage = .planned moveToFront ∧ moveToFront.Target 0 ∧
      s.governor.arena.owner 0 = some (⟨5⟩, ⟨1⟩) ∧ (⟨5⟩ : AllocationId) ≠ moveToFront.id := by
  refine ⟨by decide +kernel, ⟨?_, ?_⟩, by decide +kernel, by decide⟩
  · decide
  · decide

end Compactor

end GpuMemoryService
