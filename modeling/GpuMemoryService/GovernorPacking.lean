/-
GpuMemoryService.GovernorPacking — following the plans until nothing is gained.

A plan is a single move, and `plan_compaction` never makes it: its callers
do, with `apply_relocation`, and plan again if they want more. `packing` is
a caller that goes on as long as the plan predicts a larger free region.
Predicted gains are real, so that region grows with every move, and it is
never larger than the free bytes, which no move changes. So following the
plans ends, after at most as many moves as there are free bytes outside the
largest free region, and no call is refused (`packing_settles`).

As in every loop with fuel, the argument is a dichotomy: the fuel was
enough, or every unit of it was a move (`Reached.packs`).
-/
import GpuMemoryService.GovernorFragmentation

namespace GpuMemoryService

open Lib

namespace RegionAllocator

/-- The largest free region is part of the free bytes. -/
theorem Inv.largest_le_free {ra : RegionAllocator} (hinv : Inv ra) (hc : Cached ra) :
    ra.largestFreeRegion.toNat ≤ ra.freeBytes.toNat := by
  rw [hc.largestFreeRegion, hinv.toNat_freeBytes]
  rcases largestSlot_cases ra.freeSlots with ⟨hzero, _⟩ | ⟨s, hs, hsize, _⟩
  · rw [hzero]
    exact Nat.zero_le _
  · obtain ⟨f, hf, rfl⟩ := hinv.mem_freeSlots.mp hs
    obtain ⟨hfound, hfree⟩ := hinv.mem_snapshotFree.mp hf
    have hsizes := OrdMap.weigh_erase (fun _ r => sizeNat r) hfound
    have hlive := OrdMap.weigh_erase liveSize hfound
    have hrest : (ra.regions.erase f.offset).weigh liveSize
        ≤ (ra.regions.erase f.offset).weigh (fun _ r => sizeNat r) := by
      refine OrdMap.weigh_le_weigh (fun k r _ => ?_)
      unfold liveSize sizeNat
      split <;> omega
    have hzero : liveSize f.offset f = 0 := by simp [liveSize, hfree]
    rw [hinv.weigh_sizes] at hsizes
    rw [← hinv.bytes, hzero] at hlive
    have hlen : sizeNat f = f.size.toNat := rfl
    rw [hlen] at hsizes
    rw [hsize]
    show f.size.toNat ≤ _
    omega

end RegionAllocator

namespace MemoryGovernor

/-! ## A caller -/

/-- The call that makes a step. -/
def making (st : CompactionStep) : Call :=
  .applyRelocation st.id st.generation st.newOffset st.newSize

/-- The planned step, if it is predicted to gain. -/
def gainingStep? (g : MemoryGovernor) : Option CompactionStep :=
  let plan := g.planCompaction.1
  if plan.largestFreeBefore < plan.largestFreeAfter then plan.steps.head? else none

/-- The calls of a caller that makes at most `fuel` moves. -/
def packing : ℕ → MemoryGovernor → List Call
  | 0, _ => []
  | fuel + 1, g =>
      match g.gainingStep? with
      | none => []
      | some st =>
          let round := [.planCompaction, making st]
          round ++ packing fuel (run perform g round)

/-! ## One round -/

section Round

variable {g : MemoryGovernor}

/-- What a round leaves: the same allocations with the same sizes, and as
many free bytes. -/
structure Packed (g g' : MemoryGovernor) : Prop where
  managed : g'.domain.managedCapacity = g.domain.managedCapacity
  sizes : ∀ id, (g'.records.find? id).map (·.regionSize) = (g.records.find? id).map (·.regionSize)
  free : g'.arena.freeBytes = g.arena.freeBytes

theorem Packed.refl (g : MemoryGovernor) : Packed g g := ⟨rfl, fun _ => rfl, rfl⟩

theorem Packed.trans {g' g'' : MemoryGovernor} (h : Packed g g') (h' : Packed g' g'') :
    Packed g g'' :=
  ⟨h'.managed.trans h.managed, fun id => (h'.sizes id).trans (h.sizes id), h'.free.trans h.free⟩

/-- With a plan that is the best of the moves, the gaining step is that
move if it is predicted above the largest free region. -/
theorem gainingStep?_eq {γ : Type} {k : Gains γ} {v : RegionInfo × RegionInfo → Nat}
    (hplan : g.planCompaction.1 =
      explained (found k g.arena.largestFreeRegion g.arena.snapshotFree (g.moves.argmax v)).plan) :
    g.gainingStep? = (g.moves.argmax v).bind (fun mv =>
      if g.arena.largestFreeRegion <
          prediction g.arena.largestFreeRegion g.arena.snapshotFree mv.1 mv.2
      then some (stepInto mv.1 mv.2) else none) := by
  unfold gainingStep?
  rw [hplan]
  cases g.moves.argmax v with
  | none => simp [explained, found]
  | some mv => rfl

/-- A gaining step is a move whose prediction is above the largest free
region. -/
theorem gaining_move {st : CompactionStep} (h : g.gainingStep? = some st) :
    ∃ mv ∈ g.moves, st = stepInto mv.1 mv.2 ∧ g.arena.largestFreeRegion <
      prediction g.arena.largestFreeRegion g.arena.snapshotFree mv.1 mv.2 := by
  have hplan := planBy_eq_argmax
    (ranks_doubles g.arena.largestFreeRegion g.arena.snapshotFree g.moves)
  rw [← planCompaction_eq] at hplan
  rw [gainingStep?_eq hplan] at h
  obtain ⟨mv, hbest, hst⟩ := Option.bind_eq_some_iff.mp h
  obtain ⟨hgain, heq⟩ := Option.ite_none_right_eq_some.mp hst
  exact ⟨mv, List.argmax_mem hbest, (Option.some.inj heq).symm, hgain⟩

/-- A move into a region of the same size. -/
theorem packed_moved (h : Inv g) {id : AllocationId} {gen : AllocationGeneration}
    {rec : AllocationRecord} {region : RegionInfo} {o : UInt64} {arena : RegionAllocator}
    (hcur : g.Current id gen rec region)
    (heff : g.arena.Effect arena id (some region)
      (some (RegionAllocator.movedRegion region gen o region.size rec.alignment))) :
    Packed g (g.recordMove id rec
      (RegionAllocator.movedRegion region gen o region.size rec.alignment) arena) where
  managed := rfl
  sizes := by
    intro i
    rw [(moved_update h hcur heff).records]
    split
    · rename_i hi
      rw [hi, hcur.found]
      exact congrArg some hcur.agrees.size.symm
    · rfl
  free := by
    have hbytes : arena.liveBytes + region.size = g.arena.liveBytes + region.size := heff.bytes
    have hlive : arena.liveBytes = g.arena.liveBytes := (UInt64.add_left_inj _).mp hbytes
    show arena.capacity - arena.liveBytes = g.arena.capacity - g.arena.liveBytes
    rw [heff.capacity, hlive]

theorem packed_planned (g : MemoryGovernor) : Packed g g.planCompaction.2 where
  managed := rfl
  sizes := fun _ => rfl
  free := by
    rw [planCompaction_snd, RegionAllocator.freeBytes, RegionAllocator.freeBytes,
      RegionAllocator.ensureSummary_capacity, RegionAllocator.ensureSummary_liveBytes]

/-- **A round gains**: its calls are accepted, and the largest free region
is larger afterwards. -/
theorem Compactable.round (h : Compactable g) {st : CompactionStep}
    (hst : g.gainingStep? = some st) :
    g.AcceptsAll [.planCompaction, making st] ∧
      Packed g (run perform g [.planCompaction, making st]) ∧
      g.arena.largestFreeRegion.toNat
        < (run perform g [.planCompaction, making st]).arena.largestFreeRegion.toNat := by
  obtain ⟨mv, hmem, rfl, hgain⟩ := gaining_move hst
  have hmove : g.Move mv.1 mv.2 := mem_moves.mp hmem
  have hafter := h.largestAfter_eq_prediction hmem hgain
  obtain ⟨rec, hp⟩ := hmove.planned.promises h.planned.inv h.planned.indexed h.planned.idle
    h.planned.pos h.planned.aligns
  obtain ⟨arena, hmade, heff⟩ := hmove.planned.made h.planned.inv h.planned.pos h.planned.aligns hp
  have hpacked := packed_moved h.planned.inv hp.current heff
  have hend : run perform g [.planCompaction, making (stepInto mv.1 mv.2)]
      = (g.planCompaction.2.applyRelocation mv.1.allocId mv.1.allocGeneration
          (Detail.alignUp mv.2.offset mv.1.alignment) mv.1.size).2 := rfl
  refine ⟨fun e he => ?_, ?_, ?_⟩
  · rcases List.mem_cons.mp he with rfl | he
    · rfl
    · rw [List.mem_singleton.mp he]
      show (Reply.handle (g.planCompaction.2.applyRelocation mv.1.allocId mv.1.allocGeneration
        (Detail.alignUp mv.2.offset mv.1.alignment) mv.1.size).1).rejected = false
      rw [hmade]
      rfl
  · rw [hend, hmade]
    exact (packed_planned g).trans hpacked
  · rw [← UInt64.lt_iff_toNat_lt]
    exact lt_of_lt_of_eq hgain hafter.symm

end Round

/-! ## All rounds -/

section Rounds

/-- The governors the caller meets: reached with new ids, of a capacity the
planner's alignment arithmetic copes with. -/
structure Reached (domain : MemoryDomain) (hasBackend : Bool) (g : MemoryGovernor) : Prop where
  calls : ∃ calls, g = run perform (new domain hasBackend) calls ∧
    Guarded perform FreshGrant (new domain hasBackend) calls
  capacity : g.domain.managedCapacity.toNat ≤ 2 ^ 63

variable {domain : MemoryDomain} {hasBackend : Bool} {g : MemoryGovernor}

/-- A governor with a move to consider manages memory. -/
theorem Reached.compactable_of_move (h : Reached domain hasBackend g)
    {mv : RegionInfo × RegionInfo} (hmv : mv ∈ g.moves) : Compactable g := by
  obtain ⟨calls, rfl, hfresh⟩ := h.calls
  obtain ⟨hinv, hbare⟩ := run_bare domain hasBackend calls
  have hpos := hbare.pos (mem_moves.mp hmv).live
  exact run_compactable hfresh hpos (alignsInside_of_capacity hinv h.capacity hpos)

theorem Reached.compactable (h : Reached domain hasBackend g) {st : CompactionStep}
    (hst : g.gainingStep? = some st) : Compactable g := by
  obtain ⟨mv, hmem, _⟩ := gaining_move hst
  exact h.compactable_of_move hmem

theorem Reached.round (h : Reached domain hasBackend g) {st : CompactionStep}
    (hst : g.gainingStep? = some st) :
    Reached domain hasBackend (run perform g [.planCompaction, making st]) := by
  obtain ⟨_, hpacked, _⟩ := (h.compactable hst).round hst
  obtain ⟨calls, rfl, hfresh⟩ := h.calls
  refine ⟨⟨calls ++ [.planCompaction, making st], (run_append _ _ _).symm, ?_⟩, ?_⟩
  · exact guarded_append.mpr ⟨hfresh, trivial, trivial, trivial⟩
  · rw [hpacked.managed]
    exact h.capacity

/-- The largest free region of a governor that manages memory. -/
theorem Reached.largest_le_free (h : Reached domain hasBackend g)
    (hpos : 0 < g.domain.managedCapacity.toNat) :
    g.arena.largestFreeRegion.toNat ≤ g.arena.freeBytes.toNat := by
  obtain ⟨calls, rfl, _⟩ := h.calls
  have hinv := run_inv (inv_new domain hasBackend) calls
  exact (hinv.arena hpos).largest_le_free (run_cached domain hasBackend calls)

/-- With all free bytes in one region there is nothing to gain. -/
theorem Reached.settled (h : Reached domain hasBackend g)
    (hall : g.arena.freeBytes.toNat ≤ g.arena.largestFreeRegion.toNat) :
    g.gainingStep? = none := by
  cases hst : g.gainingStep? with
  | none => rfl
  | some st =>
      obtain ⟨_, hpacked, hgain⟩ := (h.compactable hst).round hst
      have hle := (h.round hst).largest_le_free
        (by rw [hpacked.managed]; exact (h.compactable hst).pos)
      rw [hpacked.free] at hle
      omega

theorem packing_of_none (hnone : g.gainingStep? = none) : ∀ fuel, packing fuel g = []
  | 0 => rfl
  | fuel + 1 => by simp only [packing, hnone]

theorem packing_of_some {st : CompactionStep} (hst : g.gainingStep? = some st) (fuel : ℕ) :
    packing (fuel + 1) g = [.planCompaction, making st] ++
      packing fuel (run perform g [.planCompaction, making st]) := by
  simp only [packing, hst]

/-- What following the plans for at most `fuel` moves comes to. -/
structure Packs (domain : MemoryDomain) (hasBackend : Bool) (fuel : ℕ) (g : MemoryGovernor) :
    Prop where
  accepted : g.AcceptsAll (packing fuel g)
  packed : Packed g (run perform g (packing fuel g))
  reached : Reached domain hasBackend (run perform g (packing fuel g))
  grown : ∃ n, (packing fuel g).length = 2 * n ∧ g.arena.largestFreeRegion.toNat + n
    ≤ (run perform g (packing fuel g)).arena.largestFreeRegion.toNat
  settled : (run perform g (packing fuel g)).gainingStep? = none ∨
    g.arena.largestFreeRegion.toNat + fuel
      ≤ (run perform g (packing fuel g)).arena.largestFreeRegion.toNat

/-- **The fuel dichotomy.** No gaining step is left, or the largest free
region has grown with every unit of fuel. -/
theorem Reached.packs (fuel : ℕ) : ∀ {g : MemoryGovernor}, Reached domain hasBackend g →
    Packs domain hasBackend fuel g := by
  induction fuel with
  | zero =>
      intro g h
      exact ⟨fun _ he => (by cases he), Packed.refl g, h, ⟨0, rfl, Nat.le_refl _⟩,
        Or.inr (Nat.le_refl _)⟩
  | succ fuel ih =>
      intro g h
      cases hst : g.gainingStep? with
      | none =>
          constructor
          all_goals rw [packing_of_none hst]
          · exact fun _ he => (by cases he)
          · exact Packed.refl g
          · exact h
          · exact ⟨0, rfl, Nat.le_refl _⟩
          · exact Or.inl hst
      | some st =>
          have hcons := packing_of_some hst fuel
          obtain ⟨haccepted, hpacked, hgain⟩ := (h.compactable hst).round hst
          have hrest := ih (h.round hst)
          obtain ⟨n, hlength, hgrown⟩ := hrest.grown
          constructor
          all_goals rw [hcons]
          · intro e he
            rw [trace_append] at he
            exact (List.mem_append.mp he).elim (haccepted e) (hrest.accepted e)
          all_goals rw [run_append]
          · exact hpacked.trans hrest.packed
          · exact hrest.reached
          · refine ⟨n + 1, ?_, by omega⟩
            rw [List.length_append, hlength, List.length_cons, List.length_singleton]
            omega
          · exact hrest.settled.imp id (fun hle => by omega)

/-- With fuel for every free byte outside the largest region, no gaining
step is left: all free bytes would be in one region. -/
theorem Reached.settles (h : Reached domain hasBackend g) {fuel : ℕ}
    (hfuel : g.arena.freeBytes.toNat - g.arena.largestFreeRegion.toNat ≤ fuel) :
    (run perform g (packing fuel g)).gainingStep? = none := by
  have hpacks := h.packs fuel
  rcases hpacks.settled with hnone | hgrown
  · exact hnone
  · refine hpacks.reached.settled ?_
    rw [hpacks.packed.free]
    omega

/-- **Every move gains.** The calls come in rounds of two, and the largest
free region is larger after each round than before it. -/
theorem Reached.gains_each (fuel : ℕ) : ∀ {g : MemoryGovernor} {k : ℕ},
    Reached domain hasBackend g → 2 * k < (packing fuel g).length →
    (run perform g ((packing fuel g).take (2 * k))).arena.largestFreeRegion
      < (run perform g ((packing fuel g).take (2 * (k + 1)))).arena.largestFreeRegion := by
  induction fuel with
  | zero =>
      intro g k _ hk
      exact absurd hk (Nat.not_lt_zero _)
  | succ fuel ih =>
      intro g k h hk
      cases hst : g.gainingStep? with
      | none =>
          rw [packing_of_none hst] at hk
          exact absurd hk (Nat.not_lt_zero _)
      | some st =>
          rw [packing_of_some hst] at hk ⊢
          obtain ⟨_, _, hgain⟩ := (h.compactable hst).round hst
          cases k with
          | zero => exact UInt64.lt_iff_toNat_lt.mpr hgain
          | succ k =>
              have hrest : 2 * k <
                  (packing fuel (run perform g [.planCompaction, making st])).length := by
                simpa [Nat.mul_succ] using hk
              exact ih (h.round hst) hrest

/-- There are no more moves than free bytes outside the largest region. -/
theorem Reached.moves_le (h : Reached domain hasBackend g) (fuel : ℕ) :
    ∃ n ≤ g.arena.freeBytes.toNat - g.arena.largestFreeRegion.toNat,
      (packing fuel g).length = 2 * n ∧ g.arena.largestFreeRegion.toNat + n
        ≤ (run perform g (packing fuel g)).arena.largestFreeRegion.toNat := by
  have hpacks := h.packs fuel
  obtain ⟨n, hlength, hgrown⟩ := hpacks.grown
  refine ⟨n, ?_, hlength, hgrown⟩
  cases hst : g.gainingStep? with
  | none =>
      rw [packing_of_none hst, List.length_nil] at hlength
      omega
  | some st =>
      have hle := hpacks.reached.largest_le_free
        (by rw [hpacks.packed.managed]; exact (h.compactable hst).pos)
      rw [hpacks.packed.free] at hle
      omega

/-- Below 2^53 bytes, no gaining step is no gaining move. -/
theorem Compactable.settled_le (h : Compactable g)
    (hsmall : g.domain.managedCapacity.toNat < 2 ^ 53) (hnone : g.gainingStep? = none)
    {mv : RegionInfo × RegionInfo} (hmv : mv ∈ g.moves) :
    g.planCompaction.2.largestAfter (stepInto mv.1 mv.2) ≤ g.arena.largestFreeRegion := by
  have hplan := planBy_eq_argmax
    (ranks_integers g.arena.largestFreeRegion g.arena.snapshotFree g.moves)
  change g.planCompactionExact.1 = _ at hplan
  rw [← h.planCompaction_eq_exact hsmall] at hplan
  rw [gainingStep?_eq hplan] at hnone
  cases hbest : g.moves.argmax (exactGain g.arena.largestFreeRegion g.arena.snapshotFree) with
  | none =>
      rw [List.argmax_eq_none.mp hbest] at hmv
      cases hmv
  | some best =>
      rw [hbest, Option.bind_some] at hnone
      have hgain : ¬ g.arena.largestFreeRegion <
          prediction g.arena.largestFreeRegion g.arena.snapshotFree best.1 best.2 := by
        intro hlt
        rw [if_pos hlt] at hnone
        cases hnone
      have hmax := List.le_of_mem_argmax hmv hbest
      have hafter := h.largestAfter_le_prediction hmv
      unfold exactGain at hmax
      rw [UInt64.lt_iff_toNat_lt] at hgain
      rw [UInt64.le_iff_toNat_le]
      omega

end Rounds

/-- **Following the plans ends.** In every run in which no accepted request
draws an id in use: a caller that makes the planned step and plans again,
as long as the plan predicts a gain, is refused nothing, makes at most as
many moves as there are free bytes outside the largest free region, and
enlarges that region with every single one. No allocation changes its size and no byte
is lost or gained; and when the caller stops, no move the planner considers
would enlarge the largest free region further (below 2^53 bytes, where the
comparison of gains is exact). -/
theorem packing_settles (domain : MemoryDomain) (hasBackend : Bool) (calls : List Call)
    (hfresh : Guarded perform FreshGrant (new domain hasBackend) calls)
    (hcap : (run perform (new domain hasBackend) calls).domain.managedCapacity.toNat ≤ 2 ^ 63) :
    let g := run perform (new domain hasBackend) calls
    let slack := g.arena.freeBytes.toNat - g.arena.largestFreeRegion.toNat
    ∀ fuel, slack ≤ fuel →
      let g' := run perform g (packing fuel g)
      g.AcceptsAll (packing fuel g) ∧
        (∃ n ≤ slack, (packing fuel g).length = 2 * n ∧
          g.arena.largestFreeRegion.toNat + n ≤ g'.arena.largestFreeRegion.toNat ∧
          ∀ k < n, (run perform g ((packing fuel g).take (2 * k))).arena.largestFreeRegion
            < (run perform g ((packing fuel g).take (2 * (k + 1)))).arena.largestFreeRegion) ∧
        g'.arena.freeBytes = g.arena.freeBytes ∧
        (∀ id, (g'.records.find? id).map (·.regionSize)
          = (g.records.find? id).map (·.regionSize)) ∧
        g'.gainingStep? = none ∧
        (g.domain.managedCapacity.toNat < 2 ^ 53 → ∀ mv ∈ g'.moves,
          g'.planCompaction.2.largestAfter (stepInto mv.1 mv.2) ≤ g'.arena.largestFreeRegion) := by
  intro g slack fuel hfuel g'
  have hreached : Reached domain hasBackend g := ⟨⟨calls, rfl, hfresh⟩, hcap⟩
  have hpacks := hreached.packs fuel
  have hnone : g'.gainingStep? = none := hreached.settles hfuel
  obtain ⟨n, hn, hlength, hgrown⟩ := hreached.moves_le fuel
  have hgains := fun k (hk : k < n) => hreached.gains_each (k := k) fuel (by omega)
  refine ⟨hpacks.accepted, ⟨n, hn, hlength, hgrown, hgains⟩, hpacks.packed.free,
    hpacks.packed.sizes, hnone, fun hsmall mv hmv => ?_⟩
  have hmanaged : g'.domain.managedCapacity = g.domain.managedCapacity := hpacks.packed.managed
  rw [← hmanaged] at hsmall
  exact (hpacks.reached.compactable_of_move hmv).settled_le hsmall hnone hmv

/-- Holes of 64 bytes between allocations of 32, half of them movable. -/
def scattered : List Call :=
  [.initializeArena (.ok 4096),
   .request { bytes := 64 },
   .request { bytes := 32 },
   .request { bytes := 64 },
   .request { bytes := 32 },
   .request { bytes := 64 },
   .request { bytes := 32, movability := .nonmovable },
   .request { bytes := 64 },
   .request { bytes := 32, movability := .nonmovable },
   .release ⟨1⟩ ⟨1⟩, .release ⟨3⟩ ⟨1⟩, .release ⟨5⟩ ⟨1⟩, .release ⟨7⟩ ⟨1⟩]

theorem scattered_fresh :
    Guarded perform FreshGrant (new { managedCapacity := 384 } true) scattered :=
  ⟨trivial, fun _ => rfl, fun _ => rfl, fun _ => rfl, fun _ => rfl, fun _ => rfl, fun _ => rfl,
    fun _ => rfl, fun _ => rfl, trivial, trivial, trivial, trivial, trivial⟩

/-- Four moves bring the four holes together. -/
theorem scattered_settles :
    let g := run perform (new { managedCapacity := 384 } true) scattered
    let g' := run perform g (packing 192 g)
    g.arena.largestFreeRegion = 64 ∧ g.arena.freeBytes = 256 ∧ (packing 192 g).length = 8 ∧
      g'.arena.largestFreeRegion = 256 ∧ g.AcceptsAll (packing 192 g) ∧
      g'.arena.freeBytes = g.arena.freeBytes ∧ g'.gainingStep? = none := by
  intro g g'
  obtain ⟨haccepted, _, hfree, _, hnone, _⟩ := packing_settles { managedCapacity := 384 } true
    scattered scattered_fresh (by decide +kernel) 192 (by decide +kernel)
  refine ⟨?_, ?_, ?_, ?_, haccepted, hfree, hnone⟩
  all_goals decide +kernel

end MemoryGovernor

end GpuMemoryService
