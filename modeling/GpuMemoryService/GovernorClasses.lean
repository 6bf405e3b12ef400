/-
GpuMemoryService.GovernorClasses — the movable and pinned bytes of the
domain.

The domain counts the bytes of its movable and of its pinned allocations
by deltas, and the arena recomputes both sums from its regions. Request,
release, unpin and a relocation that keeps the size adjust the deltas as
the sums change: a region with a pin count above 0 is of class `pinned`,
so the unpin that reaches 0 moves its bytes from one class to the other.
A pin always moves bytes out of the movable ones and into the pinned ones,
which is right for a movable allocation only. `classified_iff` states
exactly which pins keep the counters.
-/
import GpuMemoryService.GovernorAccounting

namespace GpuMemoryService.RegionAllocator

open Lib

/-! ## Bytes of one class -/

/-- What a region adds to the bytes of class `m`. -/
def ofClass (m : Movability) (r : RegionInfo) : UInt64 := if r.movability == m then r.size else 0

/-- Weight of a region in the bytes of class `m`. -/
def classSize (m : Movability) (_ : UInt64) (r : RegionInfo) : Nat :=
  if r.live && r.movability == m then r.size.toNat else 0

theorem foldl_classSize (m : Movability) (es : List (UInt64 × RegionInfo)) (s : UInt64) :
    es.foldl (fun s e => if e.2.live && e.2.movability == m then s + e.2.size else s) s
      = s + UInt64.ofNat ((es.map (fun e => classSize m e.1 e.2)).sum) := by
  induction es generalizing s with
  | nil => simp
  | cons e es ih =>
      rw [List.foldl_cons, ih, List.map_cons, List.sum_cons, UInt64.ofNat_add, ← UInt64.add_assoc]
      unfold classSize
      split <;> simp

/-- The running sum is the exact one, modulo the word size. -/
theorem bytesWith_eq (ra : RegionAllocator) (m : Movability) :
    ra.bytesWith m = UInt64.ofNat (ra.regions.weigh (classSize m)) := by
  rw [bytesWith, foldl_classSize, UInt64.zero_add]
  rfl

section Classes

variable {ra ra' : RegionAllocator}

/-- The running sum never wraps: live regions of one class fit the arena. -/
theorem Inv.toNat_bytesWith (h : Inv ra) (m : Movability) :
    (ra.bytesWith m).toNat = ra.regions.weigh (classSize m) := by
  rw [bytesWith_eq, UInt64.toNat_ofNat']
  refine Nat.mod_eq_of_lt (weigh_lt_of_layout h.layout (fun k r _ => ?_))
  unfold classSize
  split <;> omega

/-- A live region is counted in its class. -/
theorem Inv.size_le_bytesWith (h : Inv ra) {k : UInt64} {r : RegionInfo} (hl : ra.LiveAt k r) :
    ra.bytesWith r.movability ≥ r.size := by
  have hle := OrdMap.weigh_entry_le (classSize r.movability) hl.1
  show r.size ≤ _
  rw [UInt64.le_iff_toNat_le, h.toNat_bytesWith]
  simpa [classSize, hl.2] using hle

/-- The bytes of a class lose the old region and gain the new one. -/
theorem Effect.bytesWith (hinv : Inv ra) {id : AllocationId} {old new : Option RegionInfo}
    (he : Effect ra ra' id old new) (m : Movability) :
    ra'.bytesWith m + old.elim 0 (ofClass m) = ra.bytesWith m + new.elim 0 (ofClass m) := by
  have hw := he.weigh hinv (f := classSize m) (fun k r hl => by simp [classSize, hl])
  have hold : old.elim 0 (ofClass m)
      = UInt64.ofNat (old.elim 0 (fun o => classSize m o.offset o)) := by
    cases hold : old with
    | none => rfl
    | some o =>
        simp only [Option.elim, ofClass, classSize, (he.old_live hold).1.2, Bool.true_and]
        split <;> simp
  have hnew : new.elim 0 (ofClass m)
      = UInt64.ofNat (new.elim 0 (fun n => classSize m n.offset n)) := by
    cases hnew : new with
    | none => rfl
    | some n =>
        simp only [Option.elim, ofClass, classSize, (he.new_ok hnew).1, Bool.true_and]
        split <;> simp
  rw [hold, hnew, bytesWith_eq, bytesWith_eq, ← UInt64.ofNat_add, ← UInt64.ofNat_add, hw]

/-- A region with pins is of class `pinned`. -/
def PinsHeld (ra : RegionAllocator) : Prop :=
  ∀ k r, ra.LiveAt k r → r.pinCount ≠ 0 → r.movability = .pinned

theorem Effect.pinsHeld (h : PinsHeld ra) {id : AllocationId} {old new : Option RegionInfo}
    (he : Effect ra ra' id old new)
    (hnew : ∀ n, new = some n → n.pinCount ≠ 0 → n.movability = .pinned) : PinsHeld ra' := by
  intro k r hl
  rcases (he.live k r).mp hl with ⟨hn, _⟩ | ⟨hl, _⟩
  · exact hnew r hn
  · exact h k r hl

end Classes

end GpuMemoryService.RegionAllocator

namespace GpuMemoryService.MemoryGovernor

open Lib

/-! ## The two counters -/

/-- The counters of the domain are the sums of the arena. -/
structure Classified (g : MemoryGovernor) : Prop where
  movable : g.domain.currentMovable = g.arena.movableBytes
  pinned : g.domain.currentPinned = g.arena.pinnedBytes

/-- A relocation that passes the checks of `apply_relocation` keeps the
size. -/
def KeepsSize (g : MemoryGovernor) : Call → Prop
  | .applyRelocation id gen o n => ∀ rec, g.Relocatable id gen o n rec → n = rec.regionSize
  | _ => True

/-- A pin finds the record of a movable allocation, or of one that is
neither movable nor pinned while no bytes are counted as movable. -/
def PinsMovable (g : MemoryGovernor) : Call → Prop
  | .pin id gen => ∀ rec, g.records.find? id = some rec → rec.generation = gen →
      rec.movability = .movable ∨ (rec.movability ≠ .pinned ∧ g.domain.currentMovable = 0)
  | _ => True

section Counters

variable {g g' : MemoryGovernor}

theorem Quiet.bytesWith (hq : Quiet g g') (m : Movability) :
    g'.arena.bytesWith m = g.arena.bytesWith m := by
  rcases hq.arena with ha | ha <;> simp [ha, RegionAllocator.bytesWith]

theorem SameBooks.classified (hcl : Classified g) (hb : SameBooks g.domain g'.domain)
    (hq : Quiet g g') : Classified g' where
  movable := by
    have hm := congrArg MemoryDomain.currentMovable hb
    rw [RegionAllocator.movableBytes, hq.bytesWith]
    exact hm.trans hcl.movable
  pinned := by
    have hp := congrArg MemoryDomain.currentPinned hb
    rw [RegionAllocator.pinnedBytes, hq.bytesWith]
    exact hp.trans hcl.pinned

theorem chargeDomain_classes (d : MemoryDomain) (m : Movability) (n : UInt64) :
    (chargeDomain d m n).currentMovable = d.currentMovable + (if m == .movable then n else 0) ∧
      (chargeDomain d m n).currentPinned = d.currentPinned + (if m == .pinned then n else 0) := by
  unfold chargeDomain
  cases m <;> simp

theorem dischargeDomain_classes (d : MemoryDomain) (rel : AllocationRecord) :
    (dischargeDomain d rel).currentMovable
        = (if rel.movability == .movable then sub d.currentMovable rel.regionSize
          else d.currentMovable) ∧
      (dischargeDomain d rel).currentPinned
        = (if rel.movability == .pinned then sub d.currentPinned rel.regionSize
          else d.currentPinned) := by
  unfold dischargeDomain
  cases rel.movability <;> simp

/-- A grant adds to the class it is granted with. -/
theorem classified_granted (h : Inv g) (hcl : Classified g) {req : AllocationRequest}
    {live : RegionInfo} {arena : RegionAllocator} (hready : g.initialized = true)
    (hp : g.arena.Placed (arenaRequest req ⟨g.nextAllocId⟩) live arena) :
    Classified (g.nextId.2.grant req ⟨g.nextAllocId⟩ live arena) := by
  have hbytes := hp.effect.bytesWith (h.arena (h.pos_of_ready hready))
  have hclass : live.movability = grantedMovability req := (agrees_granted hp).movability.symm
  simp only [Option.elim, UInt64.add_zero, RegionAllocator.ofClass, hclass] at hbytes
  refine ⟨?_, ?_⟩
  · show (chargeDomain _ _ _).currentMovable = arena.bytesWith .movable
    rw [(chargeDomain_classes _ _ _).1, hbytes]
    exact congrArg (· + _) hcl.movable
  · show (chargeDomain _ _ _).currentPinned = arena.bytesWith .pinned
    rw [(chargeDomain_classes _ _ _).2, hbytes]
    exact congrArg (· + _) hcl.pinned

/-- A subtraction at the class of a live region undoes its addition. -/
theorem sub_bytesWith (h : Inv g) {id : AllocationId} {gen : AllocationGeneration}
    {rec : AllocationRecord} {region : RegionInfo} (hcur : g.Current id gen rec region)
    {count count' : UInt64} (hcount : count = g.arena.bytesWith region.movability)
    (heq : count' + region.size = g.arena.bytesWith region.movability) :
    sub count rec.regionSize = count' := by
  obtain ⟨_, harena, _⟩ := h.current hcur.found
  have hge := harena.size_le_bytesWith (harena.lookup_some hcur.lookup).2.1
  rw [hcur.agrees.size, hcount]
  exact sub_eq_of_add hge heq

/-- What a release takes from the counter of class `m`. -/
theorem discharged_bytesWith (h : Inv g) {id : AllocationId} {gen : AllocationGeneration}
    {rec : AllocationRecord} {region : RegionInfo} {arena : RegionAllocator}
    (hcur : g.Current id gen rec region) (he : g.arena.Effect arena id (some region) none)
    {m : Movability} {count : UInt64} (hcount : count = g.arena.bytesWith m) :
    (if rec.movability == m then sub count rec.regionSize else count) = arena.bytesWith m := by
  obtain ⟨_, harena, _⟩ := h.current hcur.found
  have hbytes := he.bytesWith harena m
  simp only [Option.elim, UInt64.add_zero, RegionAllocator.ofClass] at hbytes
  rw [hcur.agrees.movability]
  by_cases hm : region.movability = m
  · subst hm
    simp only [beq_self_eq_true, if_true] at hbytes ⊢
    exact sub_bytesWith h hcur hcount hbytes
  · have hne : ¬ (region.movability == m) = true := by simpa using hm
    rw [if_neg hne, UInt64.add_zero] at hbytes
    rw [if_neg hne, hbytes, hcount]

theorem classified_released (h : Inv g) (hcl : Classified g) {id : AllocationId}
    {gen : AllocationGeneration} {rec : AllocationRecord} {region : RegionInfo}
    {arena : RegionAllocator} (hcur : g.Current id gen rec region)
    (he : g.arena.Effect arena id (some region) none) : Classified (g.retire id rec arena) where
  movable := by
    show (dischargeDomain _ _).currentMovable = arena.bytesWith .movable
    rw [(dischargeDomain_classes _ _).1]
    exact discharged_bytesWith h hcur he hcl.movable
  pinned := by
    show (dischargeDomain _ _).currentPinned = arena.bytesWith .pinned
    rw [(dischargeDomain_classes _ _).2]
    exact discharged_bytesWith h hcur he hcl.pinned

/-- A positive amount saturates a counter to itself only at 0. -/
theorem sub_eq_self_iff {a b : UInt64} (hb : b ≠ 0) : sub a b = a ↔ a = 0 := by
  unfold sub
  split
  · rename_i hge
    have hne : ¬ a - b = a := by
      intro heq
      have hcancel := UInt64.sub_add_cancel a b
      rw [heq] at hcancel
      exact hb (by simpa using hcancel)
    refine iff_of_false hne (fun h0 => hb ?_)
    rw [h0] at hge
    exact UInt64.le_zero_iff.mp hge
  · exact eq_comm

/-- A pin keeps the counters exactly if what it pins was movable, or of
neither class while the movable counter is at 0. -/
theorem classified_pinned (h : Inv g) (hcl : Classified g) {id : AllocationId}
    {gen : AllocationGeneration} {rec : AllocationRecord} {region : RegionInfo}
    {arena : RegionAllocator} (hcur : g.Current id gen rec region)
    (he : g.arena.Effect arena id (some region) (some (RegionAllocator.pinnedRegion region))) :
    Classified (g.recordPin id rec (RegionAllocator.pinnedRegion region) arena) ↔
      rec.movability = .movable ∨ (rec.movability ≠ .pinned ∧ g.domain.currentMovable = 0) := by
  obtain ⟨_, harena, _⟩ := h.current hcur.found
  have hlive := (harena.lookup_some hcur.lookup).2.1
  have hsize : region.size ≠ 0 := toNat_pos_iff.mp (harena.size_pos hlive)
  have hge := harena.size_le_bytesWith hlive
  have hmov := he.bytesWith harena .movable
  have hpin := he.bytesWith harena .pinned
  simp only [Option.elim, RegionAllocator.ofClass, RegionAllocator.pinnedRegion, beq_self_eq_true,
    if_true] at hmov hpin
  -- what the counters have to be, whatever the class was before
  have hcounters : Classified (g.recordPin id rec (RegionAllocator.pinnedRegion region) arena) ↔
      sub (g.arena.bytesWith .movable) region.size = arena.bytesWith .movable ∧
        g.arena.bytesWith .pinned + region.size = arena.bytesWith .pinned := by
    have hzero : sub g.domain.currentPinned 0 = g.domain.currentPinned := by simp [sub]
    have hm : g.domain.currentMovable = g.arena.bytesWith .movable := hcl.movable
    have hp : g.domain.currentPinned = g.arena.bytesWith .pinned := hcl.pinned
    rw [← hm, ← hp, ← hcur.agrees.size, ← hzero]
    exact ⟨fun hc => ⟨hc.movable, hc.pinned⟩, fun hc => ⟨hc.1, hc.2⟩⟩
  rw [hcounters, hcur.agrees.movability, hcl.movable, RegionAllocator.movableBytes]
  cases hm : region.movability with
  | movable =>
      rw [hm] at hmov hpin hge
      simp at hmov hpin
      exact iff_of_true ⟨sub_eq_of_add hge hmov, hpin.symm⟩ (Or.inl rfl)
  | pinned =>
      rw [hm] at hpin
      simp at hpin
      refine iff_of_false (fun hc => ?_) (by simp)
      rw [hpin] at hc
      exact hsize (by simpa using hc.2)
  | nonmovable =>
      rw [hm] at hmov hpin
      simp at hmov hpin
      rw [hmov, hpin, sub_eq_self_iff hsize]
      simp
  | undeclared byte high =>
      rw [hm] at hmov hpin
      simp at hmov hpin
      rw [hmov, hpin, sub_eq_self_iff hsize]
      simp

/-- An unpin moves the bytes back when it takes the last pin. -/
theorem classified_unpinned (h : Inv g) (hcl : Classified g) (hheld : g.arena.PinsHeld)
    {id : AllocationId} {gen : AllocationGeneration} {rec : AllocationRecord} {region : RegionInfo}
    {arena : RegionAllocator} (hcur : g.Current id gen rec region) (hpins : region.pinCount ≠ 0)
    (he : g.arena.Effect arena id (some region) (some (RegionAllocator.unpinnedRegion region))) :
    Classified (g.recordUnpin id rec (RegionAllocator.unpinnedRegion region) arena) := by
  obtain ⟨_, harena, _⟩ := h.current hcur.found
  have hlive := (harena.lookup_some hcur.lookup).2.1
  have hge := harena.size_le_bytesWith hlive
  have hclass := hheld _ _ hlive hpins
  have hmov := he.bytesWith harena .movable
  have hpin := he.bytesWith harena .pinned
  rw [hclass] at hge
  simp only [Option.elim, RegionAllocator.ofClass, RegionAllocator.unpinnedRegion, hclass]
    at hmov hpin
  by_cases hlast : region.pinCount - 1 = 0
  · simp [hlast] at hmov hpin
    refine ⟨?_, ?_⟩
    · simp [recordUnpin, RegionAllocator.unpinnedRegion, hlast, RegionAllocator.movableBytes, hmov,
        hcl.movable, hcur.agrees.size]
    · simp only [recordUnpin, RegionAllocator.unpinnedRegion, hlast, beq_self_eq_true, if_true,
        hcur.agrees.size, hcl.pinned]
      exact sub_eq_of_add hge hpin
  · simp [hlast] at hmov hpin
    refine ⟨?_, ?_⟩
    · simp [recordUnpin, RegionAllocator.unpinnedRegion, hlast, RegionAllocator.movableBytes, hmov,
        hcl.movable]
    · simp [recordUnpin, RegionAllocator.unpinnedRegion, hlast, RegionAllocator.pinnedBytes, hpin,
        hcl.pinned]

/-- A relocation that keeps the size leaves both sums. -/
theorem classified_moved (h : Inv g) (hcl : Classified g) {id : AllocationId}
    {gen : AllocationGeneration} {o n : UInt64} {rec : AllocationRecord} {region : RegionInfo}
    {arena : RegionAllocator} (hcur : g.Current id gen rec region) (hsize : n = rec.regionSize)
    (he : g.arena.Effect arena id (some region)
      (some (RegionAllocator.movedRegion region gen o n rec.alignment))) :
    Classified (g.recordMove id rec
      (RegionAllocator.movedRegion region gen o n rec.alignment) arena) := by
  obtain ⟨_, harena, _⟩ := h.current hcur.found
  have hsame : ∀ m, arena.bytesWith m = g.arena.bytesWith m := by
    intro m
    have hbytes := he.bytesWith harena m
    rw [hcur.agrees.size] at hsize
    simp only [Option.elim, RegionAllocator.ofClass, RegionAllocator.movedRegion, hsize] at hbytes
    exact (UInt64.add_left_inj _).mp hbytes
  exact ⟨hcl.movable.trans (hsame .movable).symm, hcl.pinned.trans (hsame .pinned).symm⟩

/-! ## Runs -/

/-- **One call** keeps pinned regions in the pinned class. -/
theorem Step.pinsHeld (hheld : g.arena.PinsHeld) {c : Call} {reply : Reply}
    (hs : Step g c reply g') : g'.arena.PinsHeld := by
  cases hs with
  | quiet hq _ _ =>
      intro k r hl
      rcases hq.arena with ha | ha
      · exact hheld k r (by rw [← ha]; exact hl)
      · exact hheld k r (by simpa [ha, RegionAllocator.LiveAt] using hl)
  | granted _ hp =>
      refine hp.effect.pinsHeld hheld (fun n hn hpins => ?_)
      obtain ⟨_, _, _, rfl⟩ := hp.made
      cases hn
      exact absurd rfl hpins
  | released _ _ _ _ _ he => exact he.pinsHeld hheld (fun n hn => by cases hn)
  | pinned _ he =>
      refine he.pinsHeld hheld (fun n hn _ => ?_)
      cases hn
      rfl
  | @unpinned _ _ _ region _ hcur hpins he =>
      have hlive := (he.old_live rfl).1
      refine he.pinsHeld hheld (fun n hn hleft => ?_)
      cases hn
      have hne : ¬ (region.pinCount - 1 == 0) = true := by
        simpa [RegionAllocator.unpinnedRegion] using hleft
      simp only [RegionAllocator.unpinnedRegion, if_neg hne]
      exact hheld _ _ hlive hpins
  | moved _ _ _ he =>
      have hlive := (he.old_live rfl).1
      refine he.pinsHeld hheld (fun n hn hpins => ?_)
      cases hn
      have hclass := hheld _ _ hlive hpins
      exact hclass
  | restored s => exact fun k r hl => absurd hl (RegionAllocator.not_liveAt_new _)

theorem run_pinsHeld (domain : MemoryDomain) (hasBackend : Bool) (calls : List Call) :
    (run perform (new domain hasBackend) calls).arena.PinsHeld := by
  refine reachable_induction (P := fun g => g.arena.PinsHeld) ?_ ?_ calls
  · exact fun k r hl => absurd hl (RegionAllocator.not_liveAt_new _)
  · exact fun g c hinv hheld => (perform_step hinv c).pinsHeld hheld

/-- **One call** that changes no size keeps the counters exactly if it
meets `PinsMovable`. -/
theorem perform_classified (h : Inv g) (hheld : g.arena.PinsHeld) (hcl : Classified g) {c : Call}
    (hsize : KeepsSize g c) : Classified (g.perform c).2 ↔ PinsMovable g c := by
  have hs := perform_step h c
  have hbooks : mutates c (g.perform c).1 = false → SameBooks g.domain (g.perform c).2.domain :=
    perform_books
  generalize hreply : (g.perform c).1 = reply at hs hbooks
  generalize (g.perform c).2 = g' at hs hbooks
  cases hs with
  | quiet hq hm _ =>
      refine iff_of_true ((hbooks hm).classified hcl hq) ?_
      cases c with
      | pin id gen =>
          intro rec hf hgen
          obtain ⟨_, _, region, hcur⟩ := h.current hf
          obtain ⟨arena, heq, _⟩ := hcur.pin h
          rw [← hreply, ← hgen] at hm
          simp [perform, heq, mutates] at hm
      | _ => trivial
  | granted hready hp => exact iff_of_true (classified_granted h hcl hready hp) trivial
  | released hc hcur _ _ _ he =>
      refine iff_of_true (classified_released h hcl hcur he) ?_
      rcases hc with rfl | ⟨_, _, rfl⟩ <;> trivial
  | pinned hcur he =>
      rw [classified_pinned h hcl hcur he]
      constructor
      · intro hclass rec' hf _
        rw [hcur.found] at hf
        cases hf
        exact hclass
      · intro hall
        exact hall _ hcur.found hcur.generation
  | unpinned hcur hpins he =>
      exact iff_of_true (classified_unpinned h hcl hheld hcur hpins he) trivial
  | moved hcur hpins hadm he =>
      have hkeeps := (hcur.forall_relocatable hpins hadm).mp hsize
      exact iff_of_true (classified_moved h hcl hcur hkeeps he) trivial
  | restored s => exact iff_of_true ⟨rfl, rfl⟩ trivial

/-- **Movable and pinned bytes are accounted for** throughout exactly the
runs, among those in which no relocation changes a size, whose pins all
meet `PinsMovable`. -/
theorem classified_iff (domain : MemoryDomain) (hasBackend : Bool) (calls : List Call)
    (hmovable : domain.currentMovable = 0) (hpinned : domain.currentPinned = 0)
    (hsize : Guarded perform KeepsSize (new domain hasBackend) calls) :
    Throughout perform (fun _ g => Classified g) (new domain hasBackend) calls ↔
      Guarded perform PinsMovable (new domain hasBackend) calls := by
  rw [guarded_iff_concat]
  refine @Guarded.throughout_iff _ _ _ perform KeepsSize (fun _ g => Classified g)
    (fun _ g c => PinsMovable g c) (new domain hasBackend) calls hsize ?_
    (fun pre c hcl hkeeps => ?_)
  · exact ⟨hmovable, hpinned⟩
  · rw [run_concat]
    exact perform_classified (run_inv (inv_new domain hasBackend) pre)
      (run_pinsHeld domain hasBackend pre) hcl hkeeps

/-- A movable allocation is pinned beside one that was requested pinned,
then unpinned and released. -/
def mixedRun : List Call :=
  [.initializeArena (.ok 4096), .request { bytes := 100 },
   .request { bytes := 50, requiresPin := true }, .pin ⟨1⟩ ⟨1⟩, .unpin ⟨1⟩ ⟨1⟩, .release ⟨1⟩ ⟨1⟩]

theorem mixedRun_classified :
    Throughout perform (fun _ g => Classified g) (new { managedCapacity := 1024 } true)
      mixedRun := by
  refine (classified_iff { managedCapacity := 1024 } true mixedRun rfl rfl ?_).mpr ?_
  · exact ⟨trivial, trivial, trivial, trivial, trivial, trivial, trivial⟩
  · refine ⟨trivial, trivial, trivial, fun rec hf _ => Or.inl ?_, trivial, trivial, trivial⟩
    have hrec : rec.movability = .movable := by
      have hmap := congrArg (Option.map AllocationRecord.movability) hf
      exact (Option.some.inj (hmap.symm.trans (by decide +kernel)))
    exact hrec

/-- One allocation pinned twice. -/
def doublePin : List Call :=
  [.initializeArena (.ok 4096), .request { bytes := 100 }, .pin ⟨1⟩ ⟨1⟩, .pin ⟨1⟩ ⟨1⟩]

theorem doublePin_unclassified :
    Guarded perform KeepsSize (new { managedCapacity := 1024 } true) doublePin ∧
      let g := run perform (new { managedCapacity := 1024 } true) doublePin
      ¬ Classified g ∧ g.domain.currentPinned = 200 ∧ g.arena.pinnedBytes = 100 := by
  refine ⟨⟨trivial, trivial, trivial, trivial, trivial⟩, ?_⟩
  intro g
  have hcounter : g.domain.currentPinned = 200 := by decide +kernel
  have hsum : g.arena.pinnedBytes = 100 := by decide +kernel
  refine ⟨fun hcl => ?_, hcounter, hsum⟩
  have heq := hcl.pinned
  rw [hcounter, hsum] at heq
  cases heq

end Counters

end GpuMemoryService.MemoryGovernor
