/-
GpuMemoryService.GovernorContents — what clients keep in governed memory.

The governor hands out offsets into one physical arena and never touches
its bytes. Clients write and read through handles that `get` accepts, and a
compaction driver asks for a plan, copies the bytes and reports the move,
without other calls in between (`compact`). `Device` is the governor with
the bytes of the arena.

`reads_last_write`: an allocation is a private buffer. Whatever other
clients request, release, pin and write, and whatever the driver moves in
between, a read through the current handle returns the byte that was last
written to that place of the same allocation.

The driver's moves are made in arenas of up to 2^63 bytes, where the
alignment arithmetic of the planner does not wrap, and a request is granted
an id that no live allocation has.
-/
import GpuMemoryService.Lib.Buffers
import GpuMemoryService.GovernorPlans
import GpuMemoryService.GovernorSaving

namespace GpuMemoryService

open Lib MemoryGovernor

/-! ## The device -/

/-- The governor and the bytes of its arena, by offset. -/
structure Device where
  governor : MemoryGovernor
  memory : Nat → UInt8

namespace Device

inductive Access where
  | call (c : Call)
  | write (id : AllocationId) (gen : AllocationGeneration) (k : Nat) (v : UInt8)
  | read (id : AllocationId) (gen : AllocationGeneration) (k : Nat)
  | compact

inductive Answer where
  | reply (r : Reply)
  | written (done : Bool)
  | byte (v : Option UInt8)
  | plan (p : CompactionPlan)

/-- The span of a record in the arena. -/
def spanOf (r : AllocationRecord) : Span := ⟨r.offset.toNat, r.regionSize.toNat⟩

/-- The place of byte `k` of the allocation, if the handle is accepted and
the byte is inside. -/
def place? (g : MemoryGovernor) (id : AllocationId) (gen : AllocationGeneration) (k : Nat) :
    Option Nat :=
  match g.get id gen with
  | .error _ => none
  | .ok r => if k < (spanOf r).len then some ((spanOf r).start + k) else none

/-- The copy of a planned step. -/
def copyStep (memory : Nat → UInt8) (st : CompactionStep) : Nat → UInt8 :=
  copySpan memory ⟨st.oldOffset.toNat, st.oldSize.toNat⟩ ⟨st.newOffset.toNat, st.newSize.toNat⟩

/-- A plan, the copy of its step and the report of the move, in one go. -/
def compact (d : Device) : Answer × Device :=
  let (p, g) := d.governor.planCompaction
  match p.steps.head? with
  | none => (.plan p, { d with governor := g })
  | some st =>
      (.plan p,
        { governor := (g.applyRelocation st.id st.generation st.newOffset st.newSize).2
          memory := copyStep d.memory st })

def step (d : Device) : Access → Answer × Device
  | .call c => (.reply (d.governor.perform c).1, { d with governor := (d.governor.perform c).2 })
  | .write id gen k v =>
      match place? d.governor id gen k with
      | none => (.written false, d)
      | some b => (.written true, { d with memory := Function.update d.memory b v })
  | .read id gen k => (.byte ((place? d.governor id gen k).map d.memory), d)
  | .compact => d.compact

/-! ## What was written -/

/-- Enter one access into what was last written where. -/
def enter (buf : AllocationId → Nat → Option UInt8) :
    Access × Answer → AllocationId → Nat → Option UInt8
  | (.call (.request _), .reply (.handle (.ok h))) => Function.update buf h.id (fun _ => none)
  | (.write id _ k v, .written true) => Function.update buf id (Function.update (buf id) k (some v))
  | _ => buf

/-- The byte last written to place `k` of allocation `id` since it was
granted. -/
def lastWritten (t : List (Access × Answer)) : AllocationId → Nat → Option UInt8 :=
  t.foldl enter (fun _ _ => none)

theorem lastWritten_concat (t : List (Access × Answer)) (e : Access × Answer) :
    lastWritten (t ++ [e]) = enter (lastWritten t) e := by
  simp only [lastWritten, List.foldl_append, List.foldl_cons, List.foldl_nil]

/-- Accesses the result is about: a granted id is new, moves are made by the
driver only, and the driver works in arenas of up to 2^63 bytes. -/
def Sound (d : Device) : Access → Prop
  | .call c => FreshGrant d.governor c ∧ ∀ id gen o n, c ≠ .applyRelocation id gen o n
  | .compact => d.governor.domain.managedCapacity.toNat ≤ 2 ^ 63
  | _ => True

/-! ## Placement -/

/-- The spans of the live allocations. -/
def placement (g : MemoryGovernor) (id : AllocationId) : Option Span :=
  (g.records.find? id).map spanOf

theorem placement_some {g : MemoryGovernor} {id : AllocationId} {s : Span} :
    placement g id = some s ↔ ∃ r, g.records.find? id = some r ∧ spanOf r = s :=
  Option.map_eq_some_iff

section

variable {g g' : MemoryGovernor}

theorem apart_of_disjoint {r q : AllocationRecord}
    (h : Disjoint (Persist.region r) (Persist.region q)) : (spanOf r).Apart (spanOf q) :=
  fun _ hb hb' => Set.disjoint_left.mp h hb hb'

theorem placed (h : Inv g) : Placed (placement g) := by
  intro i j s t hs ht hne
  obtain ⟨r, hr, rfl⟩ := placement_some.mp hs
  obtain ⟨q, hq, rfl⟩ := placement_some.mp ht
  exact apart_of_disjoint (h.disjoint_regions hr hq hne)

/-- What the driver and its clients rely on in every reachable state. -/
structure Ready (g : MemoryGovernor) : Prop where
  inv : Inv g
  indexed : g.arena.Indexed
  bare : Bare g
  pins : g.arena.PinsHeld
  idle : ∀ id rec, g.records.find? id = some rec → MovableIdle rec

theorem Ready.perform (h : Ready g) {c : Call} (hfresh : FreshGrant g c) : Ready (g.perform c).2 := by
  have hs := perform_step h.inv c
  exact ⟨hs.inv h.inv, hs.indexed h.inv h.indexed (fun req a heq hreply => hfresh.draws heq hreply),
    hs.bare h.inv h.bare, hs.pinsHeld h.pins, hs.movableIdle h.inv h.pins h.idle⟩

theorem ready_new (domain : MemoryDomain) (hasBackend : Bool) : Ready (new domain hasBackend) where
  inv := inv_new domain hasBackend
  indexed := RegionAllocator.indexed_new domain.managedCapacity
  bare := (run_bare domain hasBackend []).2
  pins := run_pinsHeld domain hasBackend []
  idle := fun _ _ hf => run_movableIdle domain hasBackend [] hf

/-- A call that changes one allocation changes its span only. -/
theorem placement_update {id : AllocationId} {rec : Option AllocationRecord}
    {region : Option RegionInfo} (u : Update g g' id rec region) :
    (∀ j, j ≠ id → placement g' j = placement g j) ∧ placement g' id = rec.map spanOf := by
  refine ⟨fun j hj => ?_, ?_⟩
  · rw [placement, placement, u.records, if_neg hj]
  · rw [placement, u.records, if_pos rfl]

variable {memory : Nat → UInt8} {buf : AllocationId → Nat → Option UInt8}

/-- An allocation that keeps its span keeps its contents. -/
theorem holds_keep (h : Holds memory (placement g) buf) {id : AllocationId}
    {rec rec' : AllocationRecord} {region : Option RegionInfo}
    (u : Update g g' id (some rec') region) (hfound : g.records.find? id = some rec)
    (hspan : spanOf rec' = spanOf rec) : Holds memory (placement g') buf := by
  obtain ⟨hother, hself⟩ := placement_update u
  refine h.change id hother (fun _ _ => rfl) (fun s hs => h id s ?_)
  rw [hself, Option.map_some, hspan] at hs
  rw [placement, hfound]
  exact hs

theorem enter_quiet {c : Call} {r : Reply} (hm : mutates c r = false) :
    enter buf (.call c, .reply r) = buf := by
  unfold enter
  split
  · simp_all [mutates]
  · simp_all
  · rfl

/-- **One call** of a client keeps what was written. -/
theorem holds_call (h : Inv g) (hholds : Holds memory (placement g) buf) {c : Call} {r : Reply}
    (hs : Step g c r g') (hmove : ∀ id gen o n, c ≠ .applyRelocation id gen o n) :
    Holds memory (placement g') (enter buf (.call c, .reply r)) := by
  cases hs with
  | quiet hq hm _ =>
      rw [enter_quiet hm]
      intro id s hs
      rw [placement, hq.records] at hs
      exact hholds id s hs
  | @granted req live arena hready hp =>
      obtain ⟨hother, hself⟩ := placement_update (granted_update h hready hp)
      refine hholds.change ⟨g.nextAllocId⟩ hother (fun j hj => ?_) (fun s _ k v hv => ?_)
      · simp only [enter, Function.update_of_ne hj]
      · simp [enter] at hv
  | @released c id gen rec region arena hc hcur _ _ _ he =>
      have henter : enter buf (.call c, .reply (.record (.ok (releasedRecord rec)))) = buf := by
        rcases hc with rfl | ⟨_, _, rfl⟩ <;> rfl
      obtain ⟨hother, hself⟩ := placement_update (released_update h hcur he)
      rw [henter]
      refine hholds.change id hother (fun _ _ => rfl) (fun s hs => ?_)
      rw [hself] at hs
      cases hs
  | pinned hcur he => exact holds_keep hholds (pinned_update h hcur he) hcur.found rfl
  | unpinned hcur _ he => exact holds_keep hholds (unpinned_update h hcur he) hcur.found rfl
  | moved _ _ _ _ => exact absurd rfl (hmove _ _ _ _)
  | restored s =>
      intro id s' hs
      simp [placement, restore] at hs

/-- A planned target is apart from every other allocation. -/
theorem target_apart (h : Inv g) {st : CompactionStep} {rec : AllocationRecord}
    {region : RegionInfo} (hp : Promises g st rec region) {j : AllocationId} {s : Span}
    (hs : placement g j = some s) :
    (Span.mk st.newOffset.toNat st.newSize.toNat).Apart s := by
  obtain ⟨q, hq, rfl⟩ := placement_some.mp hs
  obtain ⟨_, harena, r, hcur⟩ := h.current hq
  obtain ⟨_, hlive, _⟩ := harena.lookup_some hcur.lookup
  obtain ⟨f, hf, hlo, hhi⟩ := hp.target
  have hapart := free_apart_live harena hf hlive
  intro b hb hb'
  simp only [Span.Has, spanOf, hcur.agrees.offset, hcur.agrees.size] at hb hb'
  omega

/-- **One move of the driver** keeps what was written. -/
theorem holds_compact (h : Ready g) (hcap : g.domain.managedCapacity.toNat ≤ 2 ^ 63)
    (hholds : Holds memory (placement g) buf) {st : CompactionStep}
    (hst : st ∈ g.planCompaction.1.steps) :
    Holds (copyStep memory st)
      (placement (g.planCompaction.2.applyRelocation st.id st.generation st.newOffset st.newSize).2)
      buf := by
  obtain ⟨m, f, hmove, rfl⟩ := planned_move hst
  have hpos := h.bare.pos hmove.live
  have hw := alignsInside_of_capacity h.inv hcap hpos
  obtain ⟨rec, hp⟩ := hmove.promises h.inv h.indexed h.idle hpos hw
  have hinv : Inv g.planCompaction.2 := (perform_step h.inv .planCompaction).inv h.inv
  obtain ⟨arena, hmade, heff⟩ := hmove.planned.made hinv hpos hw.planned hp.planned
  have hupdate := moved_update hinv hp.planned.current heff
  obtain ⟨hother, hself⟩ := placement_update hupdate
  have heq : g.planCompaction.2.applyRelocation (stepInto m f).id (stepInto m f).generation
      (stepInto m f).newOffset (stepInto m f).newSize = _ := hmade
  have hfrom : placement g.planCompaction.2 (stepInto m f).id =
      some ⟨m.offset.toNat, m.size.toNat⟩ := by
    rw [placement, hp.planned.current.found, Option.map_some, spanOf, ← hp.oldOffset,
      ← hp.oldSize]
    rfl
  rw [heq]
  exact hholds.move hfrom rfl (fun j u _ hu => target_apart hinv hp.planned hu) hother hself

theorem find_of_get {id : AllocationId} {gen : AllocationGeneration} {r : AllocationRecord}
    (h : g.get id gen = .ok r) : g.records.find? id = some r := by
  unfold MemoryGovernor.get at h
  rcases locate_cases g id gen "stale allocation generation on query" with
    ⟨f, _, _, heq⟩ | ⟨rec, hf, _, heq⟩
  · rw [heq] at h
    cases h
  · rw [heq] at h
    cases hget : g.arena.get id gen with
    | error f =>
        simp only [hget] at h
        cases h
    | ok _ =>
        simp only [hget] at h
        cases h
        exact hf

/-- An accepted access is inside the span of its allocation. -/
theorem place_some {id : AllocationId} {gen : AllocationGeneration} {k b : Nat}
    (h : place? g id gen k = some b) :
    ∃ s, placement g id = some s ∧ k < s.len ∧ b = s.start + k := by
  unfold place? at h
  split at h
  · cases h
  · next r hget =>
      split at h
      · next hk =>
          cases h
          exact ⟨_, placement_some.mpr ⟨r, find_of_get hget, rfl⟩, hk, rfl⟩
      · cases h

theorem place_of_get {id : AllocationId} {gen : AllocationGeneration} {r : AllocationRecord}
    (h : g.get id gen = .ok r) {k : Nat} (hk : k < (spanOf r).len) :
    place? g id gen k = some ((spanOf r).start + k) := by
  rw [place?, h]
  exact if_pos hk

/-- **One access** keeps the governor ready and what was written. -/
theorem step_holds {d : Device} {a : Access} (hready : Ready d.governor)
    (hholds : Holds d.memory (placement d.governor) buf) (hsound : Sound d a) :
    Ready (d.step a).2.governor ∧
      Holds (d.step a).2.memory (placement (d.step a).2.governor) (enter buf (a, (d.step a).1)) := by
  cases a with
  | call c =>
      exact ⟨hready.perform hsound.1,
        holds_call hready.inv hholds (perform_step hready.inv c) hsound.2⟩
  | write id gen k v =>
      cases hplace : place? d.governor id gen k with
      | none =>
          simp only [step, hplace, enter]
          exact ⟨hready, hholds⟩
      | some b =>
          obtain ⟨s, hs, hk, rfl⟩ := place_some hplace
          simp only [step, hplace, enter]
          exact ⟨hready, hholds.write (placed hready.inv) hs hk v⟩
  | read id gen k => exact ⟨hready, hholds⟩
  | compact =>
      have hplanned : Ready d.governor.planCompaction.2 :=
        hready.perform (c := .planCompaction) trivial
      cases hhead : d.governor.planCompaction.1.steps.head? with
      | none =>
          simp only [step, compact, hhead, enter]
          refine ⟨hplanned, ?_⟩
          rw [planCompaction_snd]
          exact hholds
      | some st =>
          simp only [step, compact, hhead, enter]
          exact ⟨hplanned.perform
              (c := .applyRelocation st.id st.generation st.newOffset st.newSize) trivial,
            holds_compact hready hsound hholds (List.mem_of_head? hhead)⟩

/-- **Reads.** After any sound run a read through the current handle returns
the byte last written to that place of the same allocation. -/
theorem reads_last_write (domain : MemoryDomain) (hasBackend : Bool) (bytes : Nat → UInt8)
    (accesses : List Access)
    (h : Guarded step Sound ⟨new domain hasBackend, bytes⟩ accesses) {id : AllocationId}
    {gen : AllocationGeneration} {k : Nat} {v : UInt8}
    (hcurrent : Accepted ((run step ⟨new domain hasBackend, bytes⟩ accesses).governor.get id gen))
    (hwritten : lastWritten (trace step ⟨new domain hasBackend, bytes⟩ accesses) id k = some v) :
    ((run step ⟨new domain hasBackend, bytes⟩ accesses).step (.read id gen k)).1 =
      .byte (some v) := by
  have hinv := h.trace_inv
    (P := fun t d => Ready d.governor ∧ Holds d.memory (placement d.governor) (lastWritten t))
    ⟨ready_new domain hasBackend, fun _ _ _ _ _ hv => by cases hv⟩
    (fun t d a hd hsound => by
      rw [lastWritten_concat]
      exact step_holds hd.1 hd.2 hsound)
  obtain ⟨r, hget⟩ := hcurrent
  obtain ⟨hk, hmem⟩ := hinv.2 id _ (placement_some.mpr ⟨r, find_of_get hget, rfl⟩) k v hwritten
  rw [step, place_of_get hget hk, Option.map_some, hmem]

/-- The first allocation is written and moved, and a third one takes and
writes the place it leaves. -/
def movedAndReused : List Access :=
  movableFirst.map .call ++
    [.write ⟨1⟩ ⟨1⟩ 7 9, .compact, .call (.request { bytes := 50 }), .write ⟨3⟩ ⟨1⟩ 7 4]

theorem reads_last_write_movedAndReused :
    let d := run step ⟨new { managedCapacity := 1024 } true, fun _ => 0⟩ movedAndReused
    d.governor.records.entries.map (fun e => (e.1.value, e.2.offset)) = [(1, 200), (2, 100), (3, 0)] ∧
      (d.step (.read ⟨1⟩ ⟨2⟩ 7)).1 = .byte (some 9) := by
  have hsound : Guarded step Sound ⟨new { managedCapacity := 1024 } true, fun _ => 0⟩
      movedAndReused :=
    ⟨⟨trivial, nofun⟩, ⟨fun _ => rfl, nofun⟩, ⟨fun _ => rfl, nofun⟩, trivial, by
      simp only [Sound]
      decide +kernel, ⟨fun _ => by decide +kernel, nofun⟩, trivial, trivial⟩
  exact ⟨by decide +kernel, reads_last_write { managedCapacity := 1024 } true (fun _ => 0)
    movedAndReused hsound (by decide +kernel) (by decide +kernel)⟩

end

end Device

end GpuMemoryService
