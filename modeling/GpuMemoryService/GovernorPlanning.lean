/-
GpuMemoryService.GovernorPlanning — the search of the compaction planner.

The planner tries every move of a movable region into a free region that
takes it, predicts the largest free region after the move, and keeps the
first move with the best gain. Gains are doubles. `planBy` is the same loop
with the gains as a parameter: `planCompaction_eq` says that the source's
loop is its instance at doubles, and `planCompactionExact` is its instance
at integers.

Whatever the gains are, as long as they compare like some numbers
(`Ranks`), the loop computes an argmax over the list of moves
(`planBy_eq_argmax`). Both instances do (`ranks_doubles`,
`ranks_integers`).
-/
import GpuMemoryService.Lib.Binary64Integers
import GpuMemoryService.Lib.Folds
import GpuMemoryService.GovernorPlans

namespace GpuMemoryService.MemoryGovernor

open Lib

/-! ## The planning loop -/

/-- How gains are computed from the size after and before, and compared. -/
structure Gains (γ : Type) where
  gain : UInt64 → UInt64 → γ
  lt : γ → γ → Bool
  least : γ

/-- The gains of the source. -/
def doubles : Gains Binary64 where
  gain := fun after before => (Binary64.ofUInt64 after).sub (Binary64.ofUInt64 before)
  lt := Binary64.lt
  least := minusOne

/-- Gains without rounding. -/
def integers : Gains Int where
  gain := fun after before => (after.toNat : Int) - before.toNat
  lt := fun a b => decide (a < b)
  least := -1

/-- The running best of the planning loop. -/
structure PlanningBy (γ : Type) where
  bestGain : γ
  plan : CompactionPlan

/-- The plan with its rationale. -/
def explained (plan : CompactionPlan) : CompactionPlan :=
  { plan with
    rationale :=
      if plan.steps.isEmpty then
        "no safe compaction found (all movable allocations are pinned, active, or lack a free target)"
      else
        "deterministic single-move compaction: " ++ toString plan.bytesMoved ++ " bytes moved" }

section Loop

variable {γ : Type} (k : Gains γ)

/-- `tryTarget` with the gains `k`. -/
def tryTargetBy (m : RegionInfo) (lft rgt : UInt64) (st : PlanningBy γ) (f : RegionInfo) :
    PlanningBy γ :=
  if f.offset + f.size == m.offset || f.offset == m.offset + m.size then st
  else if f.size < m.size then st
  else
    let nf := Detail.alignUp f.offset m.alignment
    let front := if nf ≥ f.offset then nf - f.offset else 0
    if front > f.size || m.size > f.size - front then st
    else
      let tailFree := f.size - front - m.size
      let consolidated := lft + m.size + rgt
      let after := max st.plan.largestFreeBefore consolidated
      let after := if front > 0 then max after front else after
      let after := if tailFree > 0 then max after tailFree else after
      let gain := k.gain after st.plan.largestFreeBefore
      if k.lt st.bestGain gain then
        { bestGain := gain
          plan :=
            { st.plan with
              steps := [⟨m.allocId, m.allocGeneration, m.offset, m.size, nf, m.size, .movable⟩]
              bytesMoved := m.size
              largestFreeAfter := after } }
      else st

/-- `tryRegion` with the gains `k`. -/
def tryRegionBy (free : List RegionInfo) (st : PlanningBy γ) (m : RegionInfo) : PlanningBy γ :=
  if movableRegion m then
    let (lft, rgt) := freeNeighbours free m
    free.foldl (tryTargetBy k m lft rgt) st
  else st

/-- `planCompaction` with the gains `k`. -/
def planBy (g : MemoryGovernor) : CompactionPlan × MemoryGovernor :=
  let live := g.arena.snapshotLive
  let free := g.arena.snapshotFree
  let arena := g.arena.ensureSummary
  let start : PlanningBy γ :=
    { bestGain := k.least
      plan := { largestFreeBefore := arena.largestFree, largestFreeAfter := arena.largestFree } }
  (explained (live.foldl (tryRegionBy k free) start).plan, { g with arena := arena })

end Loop

/-- The plan with gains compared in integers. -/
def planCompactionExact (g : MemoryGovernor) : CompactionPlan × MemoryGovernor := planBy integers g

theorem minusOne_value : minusOne.value = .finite (-1) := by decide +kernel

/-- The state of the source's loop. -/
def PlanningBy.toPlanning (st : PlanningBy Binary64) : Planning := ⟨st.bestGain, st.plan⟩

theorem tryTargetBy_doubles (m : RegionInfo) (lft rgt : UInt64) (st : PlanningBy Binary64)
    (f : RegionInfo) :
    tryTarget m lft rgt st.toPlanning f = (tryTargetBy doubles m lft rgt st f).toPlanning := by
  unfold tryTarget tryTargetBy
  split
  · rfl
  split
  · rfl
  extract_lets nf front
  split
  · rfl
  rw [apply_ite PlanningBy.toPlanning]
  rfl

theorem tryRegionBy_doubles (free : List RegionInfo) (st : PlanningBy Binary64) (m : RegionInfo) :
    tryRegion free st.toPlanning m = (tryRegionBy doubles free st m).toPlanning := by
  unfold tryRegion tryRegionBy
  split
  · obtain ⟨lft, rgt⟩ := freeNeighbours free m
    exact List.foldl_hom PlanningBy.toPlanning (fun st f => tryTargetBy_doubles m lft rgt st f)
  · rfl

/-- **The source's plan** is the loop's with doubles as gains. -/
theorem planCompaction_eq (g : MemoryGovernor) : g.planCompaction = g.planBy doubles := by
  have hfold : ∀ (live : List RegionInfo) (st : PlanningBy Binary64),
      live.foldl (tryRegion g.arena.snapshotFree) st.toPlanning =
        (live.foldl (tryRegionBy doubles g.arena.snapshotFree) st).toPlanning :=
    fun _ _ => List.foldl_hom PlanningBy.toPlanning
      (fun st m => tryRegionBy_doubles g.arena.snapshotFree st m)
  unfold planCompaction planBy
  extract_lets live free arena start plan start'
  have hplan : plan = (live.foldl (tryRegionBy doubles free) start').plan :=
    congrArg Planning.plan (hfold live start')
  rw [hplan]
  rfl

/-! ## The moves in the order of the scan -/

instance (m f : RegionInfo) : Decidable (Takes m f) :=
  decidable_of_iff
    (f.offset + f.size ≠ m.offset ∧ f.offset ≠ m.offset + m.size ∧
      (¬ (if Detail.alignUp f.offset m.alignment ≥ f.offset
        then Detail.alignUp f.offset m.alignment - f.offset else 0) > f.size) ∧
      ¬ m.size > f.size - (if Detail.alignUp f.offset m.alignment ≥ f.offset
        then Detail.alignUp f.offset m.alignment - f.offset else 0))
    ⟨fun h => ⟨h.1, h.2.1, h.2.2.1, h.2.2.2⟩, fun h => ⟨h.left, h.right, h.padded, h.room⟩⟩

/-- The moves the planner considers, as pairs of the region to move and the
free region to move it into. -/
def moves (g : MemoryGovernor) : List (RegionInfo × RegionInfo) :=
  (g.arena.snapshotLive.filter movableRegion).flatMap (fun m =>
    (g.arena.snapshotFree.filter (fun f => decide (Takes m f))).map (fun f => (m, f)))

/-- The size of the free region the bytes of `m` become part of. -/
def joined (free : List RegionInfo) (m : RegionInfo) : UInt64 :=
  (freeNeighbours free m).1 + m.size + (freeNeighbours free m).2

/-- The size the planner predicts for the largest free region. -/
def prediction (before : UInt64) (free : List RegionInfo) (m f : RegionInfo) : UInt64 :=
  let nf := Detail.alignUp f.offset m.alignment
  let front := if nf ≥ f.offset then nf - f.offset else 0
  let tailFree := f.size - front - m.size
  let after := max before (joined free m)
  let after := if front > 0 then max after front else after
  if tailFree > 0 then max after tailFree else after

section Argmax

variable {γ : Type} (k : Gains γ)

/-- One move against the best so far. -/
def consider (free : List RegionInfo) (st : PlanningBy γ) (mv : RegionInfo × RegionInfo) :
    PlanningBy γ :=
  let after := prediction st.plan.largestFreeBefore free mv.1 mv.2
  let gain := k.gain after st.plan.largestFreeBefore
  if k.lt st.bestGain gain then
    { bestGain := gain
      plan :=
        { st.plan with
          steps := [stepInto mv.1 mv.2]
          bytesMoved := mv.1.size
          largestFreeAfter := after } }
  else st

theorem mem_moves {g : MemoryGovernor} {m f : RegionInfo} : (m, f) ∈ g.moves ↔ g.Move m f := by
  simp only [moves, List.mem_flatMap, List.mem_map, List.mem_filter, decide_eq_true_eq,
    Prod.mk.injEq]
  constructor
  · rintro ⟨m', ⟨hm, hmov⟩, f', ⟨hf, htakes⟩, rfl, rfl⟩
    exact ⟨hm, hf, hmov, htakes⟩
  · rintro ⟨hm, hf, hmov, htakes⟩
    exact ⟨m, ⟨hm, hmov⟩, f, ⟨hf, htakes⟩, rfl, rfl⟩

/-- The inner loop considers the free regions that take `m`. -/
theorem tryTargetBy_eq (free : List RegionInfo) (m : RegionInfo) (st : PlanningBy γ)
    (f : RegionInfo) :
    tryTargetBy k m (freeNeighbours free m).1 (freeNeighbours free m).2 st f =
      if Takes m f then consider k free st (m, f) else st := by
  unfold tryTargetBy
  split
  · rename_i htouch
    rw [if_neg (fun h => by simp [h.left, h.right] at htouch)]
  rename_i hapart
  simp only [Bool.or_eq_true, beq_iff_eq, not_or] at hapart
  extract_lets nf front
  split
  · rename_i hsmall
    have hnot : ¬ Takes m f := by
      intro h
      have hroom := h.room
      have hpadded := h.padded
      have hle : (f.size - front).toNat ≤ f.size.toNat := by
        rw [toNat_sub_of_ge (Nat.le_of_not_lt (fun hlt => hpadded (UInt64.lt_iff_toNat_lt.mpr hlt)))]
        exact Nat.sub_le _ _
      apply hroom
      rw [gt_iff_lt, UInt64.lt_iff_toNat_lt]
      exact lt_of_le_of_lt hle (UInt64.lt_iff_toNat_lt.mp hsmall)
    rw [if_neg hnot]
  split
  · rename_i hfull
    simp only [Bool.or_eq_true, decide_eq_true_eq] at hfull
    rw [if_neg (fun h => hfull.elim h.padded h.room)]
  · rename_i hfits
    simp only [Bool.or_eq_true, decide_eq_true_eq, not_or] at hfits
    have htakes : Takes m f := ⟨hapart.1, hapart.2, hfits.1, hfits.2⟩
    rw [if_pos htakes]
    rfl

/-- **The nested loops** run over the moves one after another. -/
theorem foldl_tryRegionBy (g : MemoryGovernor) (st : PlanningBy γ) :
    g.arena.snapshotLive.foldl (tryRegionBy k g.arena.snapshotFree) st =
      g.moves.foldl (consider k g.arena.snapshotFree) st := by
  simp only [moves, List.foldl_flatMap, List.foldl_map, List.foldl_filter, decide_eq_true_eq]
  congr 1
  funext st m
  unfold tryRegionBy
  split
  · have hinner : ∀ st f, tryTargetBy k m (freeNeighbours g.arena.snapshotFree m).1
        (freeNeighbours g.arena.snapshotFree m).2 st f =
          if Takes m f then consider k g.arena.snapshotFree st (m, f) else st :=
      fun st f => tryTargetBy_eq k _ m st f
    exact congrArg (fun step => List.foldl step st g.arena.snapshotFree)
      (funext (fun st => funext (fun f => hinner st f)))
  · rfl

/-- What the loop holds after it has found `mv` best. -/
def found (before : UInt64) (free : List RegionInfo) : Option (RegionInfo × RegionInfo) → PlanningBy γ
  | none => { bestGain := k.least, plan := { largestFreeBefore := before, largestFreeAfter := before } }
  | some mv =>
      { bestGain := k.gain (prediction before free mv.1 mv.2) before
        plan :=
          { steps := [stepInto mv.1 mv.2]
            bytesMoved := mv.1.size
            largestFreeBefore := before
            largestFreeAfter := prediction before free mv.1 mv.2 } }

theorem consider_found (before : UInt64) (free : List RegionInfo)
    (best : Option (RegionInfo × RegionInfo)) (a : RegionInfo × RegionInfo) :
    consider k free (found k before free best) a =
      if k.lt (found k before free best).bestGain (k.gain (prediction before free a.1 a.2) before)
      then found k before free (some a) else found k before free best := by
  cases best with
  | none => rfl
  | some b => rfl

/-- On the moves `l` the gains compare as the numbers `v` do, and the least
gain is below them all. -/
structure Ranks (before : UInt64) (free : List RegionInfo) (l : List (RegionInfo × RegionInfo))
    (v : RegionInfo × RegionInfo → Nat) : Prop where
  least : ∀ a ∈ l, k.lt k.least (k.gain (prediction before free a.1 a.2) before) = true
  lt : ∀ a ∈ l, ∀ b ∈ l, k.lt (k.gain (prediction before free a.1 a.2) before)
    (k.gain (prediction before free b.1 b.2) before) = decide (v a < v b)

variable {k}

/-- **The loop finds the first best move.** -/
theorem foldl_consider {before : UInt64} {free : List RegionInfo}
    {l : List (RegionInfo × RegionInfo)} {v : RegionInfo × RegionInfo → Nat}
    (hv : Ranks k before free l v) :
    l.foldl (consider k free) (found k before free none) = found k before free (l.argmax v) := by
  refine foldl_argmax (fun a ha => ?_) (fun b hb a ha => ?_)
  · rw [consider_found]
    exact if_pos (hv.least a ha)
  · have hcompare : k.lt (found k before free (some b)).bestGain
        (k.gain (prediction before free a.1 a.2) before) = decide (v b < v a) := hv.lt b hb a ha
    rw [consider_found, hcompare]
    by_cases hlt : v b < v a
    · simp [hlt]
    · simp [hlt]

/-- **The plan is an argmax** over the moves. -/
theorem planBy_eq_argmax {g : MemoryGovernor} {v : RegionInfo × RegionInfo → Nat}
    (hv : Ranks k g.arena.largestFreeRegion g.arena.snapshotFree g.moves v) :
    (g.planBy k).1 =
      explained (found k g.arena.largestFreeRegion g.arena.snapshotFree (g.moves.argmax v)).plan := by
  have hloop := foldl_tryRegionBy k g (found k g.arena.largestFreeRegion g.arena.snapshotFree none)
  rw [foldl_consider hv] at hloop
  exact congrArg (fun st => explained (PlanningBy.plan st)) hloop

end Argmax

/-! ## Gains as numbers -/

section Gains

variable {before : UInt64} {free : List RegionInfo} {m f : RegionInfo}

/-- No prediction is below the size before. -/
theorem le_prediction (before : UInt64) (free : List RegionInfo) (m f : RegionInfo) :
    before.toNat ≤ (prediction before free m f).toNat := by
  have hmax : ∀ {a b c : UInt64}, a.toNat ≤ b.toNat → a.toNat ≤ (max b c).toNat := by
    intro a b c h
    rw [toNat_max]
    omega
  unfold prediction
  extract_lets nf front tailFree after after'
  have h : before.toNat ≤ after.toNat := hmax le_rfl
  have h' : before.toNat ≤ after'.toNat := by
    dsimp only [after']
    split
    · exact hmax h
    · exact h
  split
  · exact hmax h'
  · exact h'

/-- The double of the gain. -/
def roundedGain (before : UInt64) (free : List RegionInfo) (mv : RegionInfo × RegionInfo) : Nat :=
  Binary64.nearest (Binary64.nearest (prediction before free mv.1 mv.2).toNat -
    Binary64.nearest before.toNat)

/-- The gain. -/
def exactGain (before : UInt64) (free : List RegionInfo) (mv : RegionInfo × RegionInfo) : Nat :=
  (prediction before free mv.1 mv.2).toNat - before.toNat

theorem ranks_doubles (before : UInt64) (free : List RegionInfo)
    (l : List (RegionInfo × RegionInfo)) :
    Ranks doubles before free l (roundedGain before free) := by
  have hvalue : ∀ a : RegionInfo × RegionInfo,
      (doubles.gain (prediction before free a.1 a.2) before).value =
        .finite (roundedGain before free a) :=
    fun a => Binary64.value_sub_ofUInt64 (le_prediction before free a.1 a.2)
  constructor
  · intro a _
    show Binary64.lt minusOne _ = true
    rw [Binary64.lt_finite minusOne_value (hvalue a), decide_eq_true_eq]
    have hpos : (0 : ℚ) ≤ (roundedGain before free a : ℚ) := Nat.cast_nonneg _
    linarith
  · intro a _ b _
    show Binary64.lt _ _ = _
    rw [Binary64.lt_finite (hvalue a) (hvalue b)]
    simp

theorem ranks_integers (before : UInt64) (free : List RegionInfo)
    (l : List (RegionInfo × RegionInfo)) :
    Ranks integers before free l (exactGain before free) := by
  have hle := fun a : RegionInfo × RegionInfo => le_prediction before free a.1 a.2
  constructor
  · intro a _
    have := hle a
    show decide _ = true
    rw [decide_eq_true_eq]
    show (-1 : Int) < _ - _
    omega
  · intro a _ b _
    have ha := hle a
    have hb := hle b
    show decide _ = decide _
    rw [decide_eq_decide]
    show (_ : Int) - _ < _ - _ ↔ _
    unfold exactGain
    omega

end Gains

end GpuMemoryService.MemoryGovernor
