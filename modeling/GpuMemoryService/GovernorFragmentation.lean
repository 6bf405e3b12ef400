/-
GpuMemoryService.GovernorFragmentation — what a planned move does to the
largest free region.

The planner predicts the larger of two sizes: the largest free region
before, and the region that the bytes of the moved allocation join
(`Move.predicted`). It leaves out that the free region moved into is used
up. In terms of gaps, the second size is always reached and the two bound
what there is afterwards (`Lib.Gaps`), so a prediction above the size before
is exact, and the best move there is (`best_move_exact`).

A prediction that is not above it may be wrong. A plan whose gain is 0 is
returned too: it is the first move considered, and it shrinks the largest
free region unless it joins as large a one or another one is as large
(`plan_keeps_iff`, `consumed_shrinks`).
-/
import GpuMemoryService.RegionGaps
import GpuMemoryService.GovernorPlanning
import GpuMemoryService.GovernorQueries

namespace GpuMemoryService.MemoryGovernor

open Lib

/-! ## Neighbours -/

section Neighbours

/-- The two neighbours are found independently. -/
theorem freeNeighbours_eq (free : List RegionInfo) (m : RegionInfo) :
    freeNeighbours free m =
      (free.foldl (fun lft f => if f.offset + f.size == m.offset then f.size else lft) 0,
       free.foldl (fun rgt f => if f.offset == m.offset + m.size then f.size else rgt) 0) := by
  unfold freeNeighbours
  generalize (0 : UInt64) = a
  suffices h : ∀ a b : UInt64, free.foldl
      (fun (x : UInt64 × UInt64) f =>
        (if f.offset + f.size == m.offset then f.size else x.1,
         if f.offset == m.offset + m.size then f.size else x.2)) (a, b) =
      (free.foldl (fun lft f => if f.offset + f.size == m.offset then f.size else lft) a,
       free.foldl (fun rgt f => if f.offset == m.offset + m.size then f.size else rgt) b) from h a a
  induction free with
  | nil => exact fun _ _ => rfl
  | cons f free ih => exact fun a b => ih _ _

variable {free : List RegionInfo} {m : RegionInfo}

theorem freeNeighbours_left (free : List RegionInfo) (m : RegionInfo) :
    ((freeNeighbours free m).1 = 0 ∧ ∀ f ∈ free, f.offset + f.size ≠ m.offset) ∨
      ∃ f ∈ free, f.offset + f.size = m.offset ∧ (freeNeighbours free m).1 = f.size := by
  rw [freeNeighbours_eq]
  rcases foldl_replace (fun f : RegionInfo => f.offset + f.size == m.offset) (·.size) 0 free with
    ⟨hz, hnone⟩ | ⟨f, hf, hp, hv⟩
  · exact Or.inl ⟨hz, fun f hf => by simpa using hnone f hf⟩
  · exact Or.inr ⟨f, hf, by simpa using hp, hv⟩

theorem freeNeighbours_right (free : List RegionInfo) (m : RegionInfo) :
    ((freeNeighbours free m).2 = 0 ∧ ∀ f ∈ free, f.offset ≠ m.offset + m.size) ∨
      ∃ f ∈ free, f.offset = m.offset + m.size ∧ (freeNeighbours free m).2 = f.size := by
  rw [freeNeighbours_eq]
  rcases foldl_replace (fun f : RegionInfo => f.offset == m.offset + m.size) (·.size) 0 free with
    ⟨hz, hnone⟩ | ⟨f, hf, hp, hv⟩
  · exact Or.inl ⟨hz, fun f hf => by simpa using hnone f hf⟩
  · exact Or.inr ⟨f, hf, by simpa using hp, hv⟩

end Neighbours

/-! ## Moves and gaps -/

section Layout

variable {ra : RegionAllocator} {m f : RegionInfo}

theorem toNat_end_of_free (hinv : ra.Inv) (hf : f ∈ ra.snapshotFree) :
    (f.offset + f.size).toNat = f.offset.toNat + f.size.toNat := by
  have hend := hinv.end_le (hinv.mem_snapshotFree.mp hf).1
  have hcap := ra.capacity.toNat_lt
  exact toNat_add_of_lt (by omega)

theorem toNat_end_of_live (hinv : ra.Inv) (hm : m ∈ ra.snapshotLive) :
    (m.offset + m.size).toNat = m.offset.toNat + m.size.toNat := by
  have hend := hinv.end_le (hinv.mem_snapshotLive.mp hm).1
  have hcap := ra.capacity.toNat_lt
  exact toNat_add_of_lt (by omega)

/-- The bytes of a live region are not free. -/
theorem taken_of_live (hinv : ra.Inv) (hm : m ∈ ra.snapshotLive) {b : Nat}
    (hlo : m.offset.toNat ≤ b) (hhi : b < m.offset.toNat + m.size.toNat) : b ∉ ra.freeSet :=
  fun hb => (hinv.mem_freeSet.mp hb).2 _ m (hinv.mem_snapshotLive.mp hm) ⟨hlo, hhi⟩

/-- The free bytes just before a live region are those of the left
neighbour. -/
theorem left_flank (hinv : ra.Inv) (hm : m ∈ ra.snapshotLive) :
    (freeNeighbours ra.snapshotFree m).1.toNat ≤ m.offset.toNat ∧
      Stretch ra.freeSet (m.offset.toNat - (freeNeighbours ra.snapshotFree m).1.toNat)
        (freeNeighbours ra.snapshotFree m).1.toNat ∧
      ∀ b, b + 1 = m.offset.toNat - (freeNeighbours ra.snapshotFree m).1.toNat →
        b ∉ ra.freeSet := by
  rcases freeNeighbours_left ra.snapshotFree m with ⟨hz, hnone⟩ | ⟨f, hf, hend, hsize⟩
  · rw [hz]
    refine ⟨Nat.zero_le _, fun b hlo hhi => absurd hhi (Nat.not_lt.mpr hlo), fun b hb hmem => ?_⟩
    -- the free region of that byte would have to end at the live one
    have hb' : b + 1 = m.offset.toNat := hb
    have hpos := hinv.size_pos (hinv.mem_snapshotLive.mp hm)
    obtain ⟨f, hf, hlo, hhi⟩ := hinv.region_of_free hmem
    have hend : f.offset.toNat + f.size.toNat = m.offset.toNat := by
      by_contra hne
      exact taken_of_live hinv hm le_rfl (by omega)
        ((hinv.gap_of_free hf).inside m.offset.toNat (by omega) (by omega))
    exact hnone f hf (UInt64.toNat_inj.mp (by rw [toNat_end_of_free hinv hf]; exact hend))
  · have hgap := hinv.gap_of_free hf
    have hend' : f.offset.toNat + f.size.toNat = m.offset.toNat := by
      rw [← toNat_end_of_free hinv hf, hend]
    have hstart : m.offset.toNat - f.size.toNat = f.offset.toNat := by omega
    rw [hsize, hstart]
    exact ⟨by omega, hgap.inside, hgap.left⟩

/-- The free bytes just behind it are those of the right neighbour. -/
theorem right_flank (hinv : ra.Inv) (hm : m ∈ ra.snapshotLive) :
    Stretch ra.freeSet (m.offset.toNat + m.size.toNat)
        (freeNeighbours ra.snapshotFree m).2.toNat ∧
      m.offset.toNat + m.size.toNat + (freeNeighbours ra.snapshotFree m).2.toNat ∉ ra.freeSet := by
  have hmend := toNat_end_of_live hinv hm
  rcases freeNeighbours_right ra.snapshotFree m with ⟨hz, hnone⟩ | ⟨f, hf, hstart, hsize⟩
  · rw [hz]
    refine ⟨fun b hlo hhi => absurd hhi (Nat.not_lt.mpr hlo), fun hmem => ?_⟩
    change m.offset.toNat + m.size.toNat ∈ ra.freeSet at hmem
    have hpos := hinv.size_pos (hinv.mem_snapshotLive.mp hm)
    obtain ⟨f, hf, hlo, hhi⟩ := hinv.region_of_free hmem
    have hstart : f.offset.toNat = m.offset.toNat + m.size.toNat := by
      by_contra hne
      exact taken_of_live hinv hm (b := m.offset.toNat + m.size.toNat - 1) (by omega) (by omega)
        ((hinv.gap_of_free hf).inside _ (by omega) (by omega))
    exact hnone f hf (UInt64.toNat_inj.mp (by rw [hmend]; exact hstart))
  · have hgap := hinv.gap_of_free hf
    have hstart' : f.offset.toNat = m.offset.toNat + m.size.toNat := by rw [hstart, hmend]
    rw [hsize, ← hstart']
    exact ⟨hgap.inside, hgap.right⟩

/-- A live region is flanked by the neighbours the planner finds. -/
theorem flanked (hinv : ra.Inv) (hm : m ∈ ra.snapshotLive) :
    Flanked ra.freeSet m.offset.toNat m.size.toNat
      (freeNeighbours ra.snapshotFree m).1.toNat (freeNeighbours ra.snapshotFree m).2.toNat := by
  obtain ⟨hle, hleft, hleftEnd⟩ := left_flank hinv hm
  obtain ⟨hright, hrightEnd⟩ := right_flank hinv hm
  exact
    { pos := hinv.size_pos (hinv.mem_snapshotLive.mp hm)
      taken := fun _ hlo hhi => taken_of_live hinv hm hlo hhi
      left_le := hle
      left := hleft
      leftEnd := hleftEnd
      right := hright
      rightEnd := hrightEnd }

/-- The joined region lies inside the arena, so its size does not wrap. -/
theorem joined_inside (hinv : ra.Inv) (hm : m ∈ ra.snapshotLive) :
    (joined ra.snapshotFree m).toNat =
        (freeNeighbours ra.snapshotFree m).1.toNat + m.size.toNat +
          (freeNeighbours ra.snapshotFree m).2.toNat ∧
      (joined ra.snapshotFree m).toNat ≤ ra.capacity.toNat := by
  have hflank := flanked hinv hm
  have hle := hflank.left_le
  have hpos := hflank.pos
  have hcap := ra.capacity.toNat_lt
  have hmend := hinv.end_le (hinv.mem_snapshotLive.mp hm).1
  have hlast : m.offset.toNat + m.size.toNat + (freeNeighbours ra.snapshotFree m).2.toNat - 1 <
      ra.capacity.toNat := by
    rcases hflank.gap.inside
        (m.offset.toNat + m.size.toNat + (freeNeighbours ra.snapshotFree m).2.toNat - 1)
        (by omega) (by omega) with hfree | hown
    · exact (hinv.mem_freeSet.mp hfree).1
    · omega
  unfold joined
  have hfirst := toNat_add_of_lt (a := (freeNeighbours ra.snapshotFree m).1) (b := m.size) (by omega)
  rw [toNat_add_of_lt (by omega), hfirst]
  omega

theorem toNat_joined (hinv : ra.Inv) (hm : m ∈ ra.snapshotLive) :
    (joined ra.snapshotFree m).toNat =
      (freeNeighbours ra.snapshotFree m).1.toNat + m.size.toNat +
        (freeNeighbours ra.snapshotFree m).2.toNat := (joined_inside hinv hm).1

end Layout

section Outcome

variable {g : MemoryGovernor} {m f : RegionInfo}

/-- The largest free region once the step has been made. -/
def largestAfter (g : MemoryGovernor) (st : CompactionStep) : UInt64 :=
  (g.applyRelocation st.id st.generation st.newOffset st.newSize).2.arena.largestFreeRegion

/-- A move takes its target from a gap that does not touch the region. -/
theorem Move.target (hinv : g.arena.Inv) (hw : AlignsInside g) (hmove : g.Move m f) :
    Target g.arena.freeSet m.offset.toNat m.size.toNat
      (Detail.alignUp f.offset m.alignment).toNat m.size.toNat f.offset.toNat f.size.toNat := by
  obtain ⟨hlo, hhi⟩ := hmove.takes.inside (hw m hmove.live f hmove.free)
  refine
    { gap := hinv.gap_of_free hmove.free
      pos := hinv.size_pos (hinv.mem_snapshotLive.mp hmove.live)
      lo := hlo
      hi := hhi
      left := fun heq => hmove.takes.left (UInt64.toNat_inj.mp ?_)
      right := fun heq => hmove.takes.right (UInt64.toNat_inj.mp ?_) }
  · rw [toNat_end_of_free hinv hmove.free]
    exact heq
  · rw [toNat_end_of_live hinv hmove.live]
    exact heq

/-- **The prediction**: what is left of the free region moved into never
counts. -/
theorem Move.predicted (hinv : g.arena.Inv) (hc : RegionAllocator.Cached g.arena)
    (hw : AlignsInside g) (hmove : g.Move m f) :
    (prediction g.arena.largestFreeRegion g.arena.snapshotFree m f).toNat =
      max g.arena.largestFreeRegion.toNat (joined g.arena.snapshotFree m).toNat := by
  have hnf := hw m hmove.live f hmove.free
  obtain ⟨hlo, hhi⟩ := hmove.takes.inside hnf
  have hpos := hinv.size_pos (hinv.mem_snapshotLive.mp hmove.live)
  have hlarge : f.size.toNat ≤ g.arena.largestFreeRegion.toNat :=
    (hinv.longest hc).bound _ _ (hinv.gap_of_free hmove.free).inside
  unfold prediction
  extract_lets nf front tailFree after after'
  change f.offset.toNat ≤ nf.toNat at hlo
  change nf.toNat + m.size.toNat ≤ _ at hhi
  have hfront : front.toNat = nf.toNat - f.offset.toNat := by
    dsimp only [front]
    rw [if_pos hnf]
    exact toNat_sub_of_ge (UInt64.le_iff_toNat_le.mp hnf)
  have htail : tailFree.toNat = f.size.toNat - front.toNat - m.size.toNat := by
    have hrest := toNat_sub_of_ge (a := f.size) (b := front) (by omega)
    dsimp only [tailFree]
    rw [toNat_sub_of_ge (by omega), hrest]
  have hafter : after.toNat =
      max g.arena.largestFreeRegion.toNat (joined g.arena.snapshotFree m).toNat := toNat_max _ _
  have hafter' : after'.toNat = after.toNat := by
    dsimp only [after']
    split
    · rw [toNat_max]
      omega
    · rfl
  split
  · rw [toNat_max]
    omega
  · omega

/-- Making a move moves the free bytes. -/
theorem Move.moved (h : Inv g) (hc : RegionAllocator.Cached g.arena)
    (hpos : 0 < g.domain.managedCapacity.toNat) (hw : AlignsInside g) (hmove : g.Move m f)
    {rec : AllocationRecord} (hp : Promises g (stepInto m f) rec m) :
    ∃ F, Moved g.arena.freeSet F m.offset.toNat m.size.toNat
        (Detail.alignUp f.offset m.alignment).toNat m.size.toNat ∧
      Longest F (g.largestAfter (stepInto m f)).toNat := by
  have hinv := h.arena hpos
  obtain ⟨arena, hmade, heff⟩ := hmove.made h hpos hw hp
  have hafter : g.largestAfter (stepInto m f) = arena.largestFreeRegion :=
    congrArg (fun r => r.2.arena.largestFreeRegion) hmade
  have hperform : (g.perform (.applyRelocation m.allocId m.allocGeneration
      (Detail.alignUp f.offset m.alignment) m.size)).2.arena = arena :=
    congrArg (fun r => r.2.arena) hmade
  have hcached : RegionAllocator.Cached arena := by
    rw [← hperform]
    exact (perform_arenaStep h _).isCached hc
  refine ⟨arena.freeSet, heff.moved hinv, ?_⟩
  rw [hafter]
  exact (heff.inv hinv).longest hcached

/-- A state in which every move that is considered can be made. -/
structure Compactable (g : MemoryGovernor) : Prop where
  inv : Inv g
  cached : RegionAllocator.Cached g.arena
  indexed : g.arena.Indexed
  idle : ∀ id rec, g.records.find? id = some rec → MovableIdle rec
  pos : 0 < g.domain.managedCapacity.toNat
  aligns : AlignsInside g

/-- Planning changes nothing that matters to the moves. -/
theorem Compactable.planned (h : Compactable g) : Compactable g.planCompaction.2 where
  inv := (perform_step h.inv .planCompaction).inv h.inv
  cached := RegionAllocator.cached_ensureSummary h.cached
  indexed := (perform_step h.inv .planCompaction).indexed h.inv h.indexed
    (fun _ _ heq => by cases heq)
  idle := h.idle
  pos := h.pos
  aligns := h.aligns.planned

theorem Compactable.largest (h : Compactable g) :
    Longest g.arena.freeSet g.arena.largestFreeRegion.toNat :=
  (h.inv.arena h.pos).longest h.cached

theorem Compactable.moved (h : Compactable g) (hmove : g.Move m f) :
    ∃ F, Moved g.arena.freeSet F m.offset.toNat m.size.toNat
        (Detail.alignUp f.offset m.alignment).toNat m.size.toNat ∧
      Longest F (g.largestAfter (stepInto m f)).toNat := by
  obtain ⟨rec, hp⟩ := hmove.promises h.inv h.indexed h.idle h.pos h.aligns
  exact hmove.moved h.inv h.cached h.pos h.aligns hp

/-- **The prediction bounds every move** that is considered. -/
theorem Compactable.largestAfter_le (h : Compactable g) (hmove : g.Move m f) :
    (g.largestAfter (stepInto m f)).toNat ≤
      max g.arena.largestFreeRegion.toNat (joined g.arena.snapshotFree m).toNat := by
  have hinv := h.inv.arena h.pos
  obtain ⟨F, hmoved, hlongest⟩ := h.moved hmove
  rw [toNat_joined hinv hmove.live]
  exact hmoved.longest_le (flanked hinv hmove.live) h.largest hlongest

/-- The joined region is free after the move. -/
theorem Compactable.joined_le (h : Compactable g) (hmove : g.Move m f) :
    (joined g.arena.snapshotFree m).toNat ≤ (g.largestAfter (stepInto m f)).toNat := by
  have hinv := h.inv.arena h.pos
  obtain ⟨F, hmoved, hlongest⟩ := h.moved hmove
  rw [toNat_joined hinv hmove.live]
  exact hmoved.joined_le (flanked hinv hmove.live) (hmove.target hinv h.aligns) hlongest

/-- The move leaves a free region as large as the largest before: the
joined one, or another one of that size than the one moved into. -/
def Keeps (g : MemoryGovernor) (m f : RegionInfo) : Prop :=
  g.arena.largestFreeRegion ≤ joined g.arena.snapshotFree m ∨
    ∃ f' ∈ g.arena.snapshotFree, f' ≠ f ∧ f'.size = g.arena.largestFreeRegion

/-- **When a move does not shrink the largest free region.** -/
theorem Compactable.keeps_iff (h : Compactable g) (hmove : g.Move m f) :
    g.arena.largestFreeRegion ≤ g.largestAfter (stepInto m f) ↔ Keeps g m f := by
  have hinv := h.inv.arena h.pos
  obtain ⟨F, hmoved, hlongest⟩ := h.moved hmove
  have hkeeps := hmoved.keeps_iff (flanked hinv hmove.live) (hmove.target hinv h.aligns) h.largest
    hlongest
  unfold Keeps
  rw [UInt64.le_iff_toNat_le, UInt64.le_iff_toNat_le, hkeeps, toNat_joined hinv hmove.live]
  refine or_congr Iff.rfl ?_
  constructor
  · rintro ⟨lo, hne, hgap⟩
    obtain ⟨f', hf', hlo, hsize⟩ := hinv.gap_iff.mp hgap
    refine ⟨f', hf', fun hsame => hne ?_, UInt64.toNat_inj.mp hsize⟩
    rw [← hlo, hsame]
  · rintro ⟨f', hf', hne, hsize⟩
    refine ⟨f'.offset.toNat, fun hoff => hne ?_, ?_⟩
    · -- the region at an offset is one
      have hfound := (hinv.mem_snapshotFree.mp hf').1
      rw [UInt64.toNat_inj.mp hoff, (hinv.mem_snapshotFree.mp hmove.free).1] at hfound
      cases hfound
      rfl
    · rw [← hsize]
      exact hinv.gap_of_free hf'

end Outcome

/-! ## Plans -/

section Plans

variable {g : MemoryGovernor}

theorem planned_snapshotFree (g : MemoryGovernor) :
    g.planCompaction.2.arena.snapshotFree = g.arena.snapshotFree := by
  simp [planCompaction_snd, RegionAllocator.snapshotFree]

theorem Compactable.planned_largest (h : Compactable g) :
    g.planCompaction.2.arena.largestFreeRegion = g.arena.largestFreeRegion := by
  rw [h.planned.cached.largestFreeRegion, h.cached.largestFreeRegion, planCompaction_snd,
    RegionAllocator.ensureSummary_freeSlots]

/-- In every run in which no accepted request draws an id in use. -/
theorem run_compactable {domain : MemoryDomain} {hasBackend : Bool} {calls : List Call}
    (hfresh : Guarded perform FreshGrant (new domain hasBackend) calls)
    (hpos : 0 < (run perform (new domain hasBackend) calls).domain.managedCapacity.toNat)
    (hw : AlignsInside (run perform (new domain hasBackend) calls)) :
    Compactable (run perform (new domain hasBackend) calls) where
  inv := run_inv (inv_new domain hasBackend) calls
  cached := run_cached domain hasBackend calls
  indexed := run_indexed_of_grants hfresh
  idle := fun _ _ hf => run_movableIdle domain hasBackend calls hf
  pos := hpos
  aligns := hw

/-- No move makes the largest free region larger than predicted. -/
theorem Compactable.largestAfter_le_prediction (h : Compactable g) {mv : RegionInfo × RegionInfo}
    (hmv : mv ∈ g.moves) :
    (g.planCompaction.2.largestAfter (stepInto mv.1 mv.2)).toNat ≤
      (prediction g.arena.largestFreeRegion g.arena.snapshotFree mv.1 mv.2).toNat := by
  have hmove : g.Move mv.1 mv.2 := mem_moves.mp hmv
  have hle := h.planned.largestAfter_le hmove.planned
  rw [h.planned_largest, planned_snapshotFree] at hle
  rw [hmove.predicted (h.inv.arena h.pos) h.cached h.aligns]
  exact hle

/-- A move predicted to enlarge the largest free region makes it as large as
predicted. -/
theorem Compactable.largestAfter_eq_prediction (h : Compactable g) {mv : RegionInfo × RegionInfo}
    (hmv : mv ∈ g.moves)
    (hgain : g.arena.largestFreeRegion <
      prediction g.arena.largestFreeRegion g.arena.snapshotFree mv.1 mv.2) :
    g.planCompaction.2.largestAfter (stepInto mv.1 mv.2) =
      prediction g.arena.largestFreeRegion g.arena.snapshotFree mv.1 mv.2 := by
  have hmove : g.Move mv.1 mv.2 := mem_moves.mp hmv
  have hle := h.largestAfter_le_prediction hmv
  have hjoined := h.planned.joined_le hmove.planned
  rw [planned_snapshotFree] at hjoined
  have hpredicted := hmove.predicted (h.inv.arena h.pos) h.cached h.aligns
  have hbefore := UInt64.lt_iff_toNat_lt.mp hgain
  apply UInt64.toNat_inj.mp
  omega

/-- **Predicted gains are real, and the best there are.** With gains
compared in integers, in every run in which no accepted request draws an id
in use: making a planned step that is predicted to enlarge the largest free
region makes it as large as predicted, and no move the planner considers
makes it larger. -/
theorem best_move_exact (domain : MemoryDomain) (hasBackend : Bool) (calls : List Call)
    (hfresh : Guarded perform FreshGrant (new domain hasBackend) calls)
    (hcap : (run perform (new domain hasBackend) calls).domain.managedCapacity.toNat ≤ 2 ^ 63) :
    let g := run perform (new domain hasBackend) calls
    let p := g.planCompactionExact
    ∀ st ∈ p.1.steps, p.1.largestFreeBefore < p.1.largestFreeAfter →
      p.2.largestAfter st = p.1.largestFreeAfter ∧
        ∀ mv ∈ g.moves, p.2.largestAfter (stepInto mv.1 mv.2) ≤ p.1.largestFreeAfter := by
  intro g p st hst hgain
  have hplan := planBy_eq_argmax
    (ranks_integers g.arena.largestFreeRegion g.arena.snapshotFree g.moves)
  change p.1 = _ at hplan
  rw [hplan] at hst hgain ⊢
  cases hbest : g.moves.argmax (exactGain g.arena.largestFreeRegion g.arena.snapshotFree) with
  | none =>
      rw [hbest] at hst
      cases hst
  | some mv =>
      rw [hbest] at hst hgain
      obtain rfl := List.mem_singleton.mp hst
      have hmem : mv ∈ g.moves := List.argmax_mem hbest
      obtain ⟨hinv, hbare⟩ := run_bare domain hasBackend calls
      have hpos : 0 < g.domain.managedCapacity.toNat := hbare.pos (mem_moves.mp hmem).live
      have hg : Compactable g :=
        run_compactable hfresh hpos (alignsInside_of_capacity hinv hcap hpos)
      refine ⟨hg.largestAfter_eq_prediction hmem hgain, fun mv' hmv' => ?_⟩
      have hmax := List.le_of_mem_argmax hmv' hbest
      have hlow := le_prediction g.arena.largestFreeRegion g.arena.snapshotFree mv'.1 mv'.2
      unfold exactGain at hmax
      rw [UInt64.le_iff_toNat_le]
      calc (p.2.largestAfter (stepInto mv'.1 mv'.2)).toNat
          ≤ (prediction g.arena.largestFreeRegion g.arena.snapshotFree mv'.1 mv'.2).toNat :=
            hg.largestAfter_le_prediction hmv'
        _ ≤ (prediction g.arena.largestFreeRegion g.arena.snapshotFree mv.1 mv.2).toNat := by
            have hbefore := UInt64.lt_iff_toNat_lt.mp hgain
            change g.arena.largestFreeRegion.toNat < (prediction _ _ mv.1 mv.2).toNat at hbefore
            omega

/-- **Below 2^53 bytes the doubles are exact**: the source's plan is the one
with gains compared in integers. -/
theorem Compactable.planCompaction_eq_exact (h : Compactable g)
    (hsmall : g.domain.managedCapacity.toNat < 2 ^ 53) :
    g.planCompaction = g.planCompactionExact := by
  have hinv := h.inv.arena h.pos
  have hcap := h.inv.capacity
  have hlargest : g.arena.largestFreeRegion.toNat ≤ g.domain.managedCapacity.toNat := by
    obtain ⟨lo, hlo⟩ := h.largest.attained
    by_contra hlt
    have := (hinv.mem_freeSet.mp (hlo (lo + g.arena.largestFreeRegion.toNat - 1) (by omega)
      (by omega))).1
    rw [hcap] at this
    omega
  have hgains : ∀ mv ∈ g.moves, roundedGain g.arena.largestFreeRegion g.arena.snapshotFree mv =
      exactGain g.arena.largestFreeRegion g.arena.snapshotFree mv := by
    intro mv hmv
    have hmove : g.Move mv.1 mv.2 := mem_moves.mp hmv
    have hjoined := (joined_inside hinv hmove.live).2
    rw [hcap] at hjoined
    have hbefore := Binary64.nearest_of_lt (n := g.arena.largestFreeRegion.toNat) (by omega)
    have hafter := Binary64.nearest_of_lt (n := max g.arena.largestFreeRegion.toNat
      (joined g.arena.snapshotFree mv.1).toNat) (by omega)
    rw [roundedGain, exactGain, hmove.predicted hinv h.cached h.aligns, hbefore, hafter]
    exact Binary64.nearest_of_lt (by omega)
  have hplan : (g.planBy doubles).1 = (g.planBy integers).1 := by
    rw [planBy_eq_argmax (ranks_doubles _ _ _), planBy_eq_argmax (ranks_integers _ _ _),
      argmax_congr hgains]
    cases g.moves.argmax (exactGain g.arena.largestFreeRegion g.arena.snapshotFree) with
    | none => rfl
    | some mv => rfl
  rw [planCompaction_eq, planCompactionExact]
  exact Prod.ext hplan rfl

/-- A movable allocation between two holes, and a third hole behind one
that may not be moved. -/
def holedRun : List Call :=
  [.initializeArena (.ok 4096),
   .request { bytes := 200 },
   .request { bytes := 56 },
   .request { bytes := 100 },
   .request { bytes := 56, movability := .nonmovable },
   .release ⟨1⟩ ⟨1⟩, .release ⟨3⟩ ⟨1⟩]

/-- The step that moves it into the third hole. -/
def intoThird : CompactionStep := ⟨⟨2⟩, ⟨1⟩, 200, 56, 412, 56, .movable⟩

theorem holedRun_fresh :
    Guarded perform FreshGrant (new { managedCapacity := 512 } true) holedRun :=
  ⟨trivial, fun _ => rfl, fun _ => rfl, fun _ => rfl, fun _ => rfl, trivial, trivial, trivial⟩

theorem best_move_exact_holedRun :
    let g := run perform (new { managedCapacity := 512 } true) holedRun
    let p := g.planCompactionExact
    intoThird ∈ p.1.steps ∧ p.1.largestFreeBefore = 200 ∧ p.1.largestFreeAfter = 356 ∧
      p.2.largestAfter intoThird = p.1.largestFreeAfter ∧
        ∀ mv ∈ g.moves, p.2.largestAfter (stepInto mv.1 mv.2) ≤ p.1.largestFreeAfter := by
  have hmem : intoThird ∈ (run perform (new { managedCapacity := 512 } true)
      holedRun).planCompactionExact.1.steps := by decide +kernel
  have hbefore : (run perform (new { managedCapacity := 512 } true)
      holedRun).planCompactionExact.1.largestFreeBefore = 200 := by decide +kernel
  have hafter : (run perform (new { managedCapacity := 512 } true)
      holedRun).planCompactionExact.1.largestFreeAfter = 356 := by decide +kernel
  exact ⟨hmem, hbefore, hafter, best_move_exact { managedCapacity := 512 } true holedRun
    holedRun_fresh (by decide +kernel) intoThird hmem (by rw [hbefore, hafter]; decide)⟩

/-- Five allocations, two of them released again. -/
def threeHeld : List Call :=
  [.initializeArena (.ok 4096),
   .request { bytes := 128 },
   .request { bytes := 128 },
   .request { bytes := 128 },
   .request { bytes := 128, movability := .nonmovable },
   .request { bytes := 256, movability := .nonmovable },
   .release ⟨1⟩ ⟨1⟩, .release ⟨3⟩ ⟨1⟩]

/-- Then as many refused requests as bring the counter round to the second
id, and a request that draws it. -/
def reusedSecond : List Call :=
  threeHeld ++ List.replicate (2 ^ 64 - 4) wholeArena ++
    [.request { bytes := 64, movability := .nonmovable }]

theorem run_reusedSecond :
    run perform (new { managedCapacity := 1024 } true) reusedSecond =
      (perform { run perform (new { managedCapacity := 1024 } true) threeHeld with nextAllocId := 2 }
        (.request { bytes := 64, movability := .nonmovable })).2 := by
  rw [reusedSecond, run_concat, run_append, wholeArena,
    refused_run (f := ⟨.insufficientTotalCapacity, "total managed free bytes insufficient"⟩)
      (by decide +kernel) (by decide +kernel) (by decide +kernel) (by decide +kernel)]
  congr 3

/-- **A reused id is moved in place of the region planned**: 320 bytes are
predicted, and the largest free region shrinks from 256 to 128. -/
theorem reusedId_mispredicted :
    let g := run perform (new { managedCapacity := 1024 } true) reusedSecond
    let p := g.planCompactionExact
    ∃ st ∈ p.1.steps, p.1.largestFreeBefore = 256 ∧ p.1.largestFreeAfter = 320 ∧
      p.2.largestAfter st = 128 := by
  rw [run_reusedSecond]
  exact ⟨⟨⟨2⟩, ⟨1⟩, 128, 128, 768, 128, .movable⟩, by decide +kernel⟩

/-- As doubles, the joined region is larger than the largest before. -/
def GainsRounded (g : MemoryGovernor) (m : RegionInfo) : Prop :=
  (Binary64.ofUInt64 g.arena.largestFreeRegion).lt
    (Binary64.ofUInt64 (joined g.arena.snapshotFree m)) = true

theorem gainsRounded_iff {m : RegionInfo} : GainsRounded g m ↔
    Binary64.nearest g.arena.largestFreeRegion.toNat <
      Binary64.nearest (joined g.arena.snapshotFree m).toNat := by
  unfold GainsRounded
  rw [Binary64.lt_finite (Binary64.value_ofUInt64 _) (Binary64.value_ofUInt64 _)]
  simp

/-- The double of a gain is 0 unless the joined region is larger as a
double. -/
theorem Compactable.roundedGain_pos_iff (h : Compactable g) {mv : RegionInfo × RegionInfo}
    (hmv : mv ∈ g.moves) :
    0 < roundedGain g.arena.largestFreeRegion g.arena.snapshotFree mv ↔ GainsRounded g mv.1 := by
  have hmove : g.Move mv.1 mv.2 := mem_moves.mp hmv
  rw [gainsRounded_iff, roundedGain, Binary64.nearest_pos_iff,
    hmove.predicted (h.inv.arena h.pos) h.cached h.aligns, Binary64.nearest_mono.map_max]
  omega

/-- **The plan does not shrink the largest free region** in these states: a
move joins a region that is larger as a double, or the first move leaves a
region as large. -/
def KeepsLargest (g : MemoryGovernor) : Prop :=
  (∃ mv ∈ g.moves, GainsRounded g mv.1) ∨ ∀ mv ∈ g.moves.head?, Keeps g mv.1 mv.2

theorem Compactable.plan_keeps (h : Compactable g) {mv : RegionInfo × RegionInfo}
    (hbest : g.moves.argmax (roundedGain g.arena.largestFreeRegion g.arena.snapshotFree) = some mv) :
    Keeps g mv.1 mv.2 ↔ KeepsLargest g := by
  have hmem : mv ∈ g.moves := List.argmax_mem hbest
  by_cases hgain : ∃ mv' ∈ g.moves, GainsRounded g mv'.1
  · refine iff_of_true (Or.inl ?_) (Or.inl hgain)
    obtain ⟨mv', hmv', hgain'⟩ := hgain
    -- the chosen move gains at least as much
    have hpos : 0 < roundedGain g.arena.largestFreeRegion g.arena.snapshotFree mv :=
      lt_of_lt_of_le ((h.roundedGain_pos_iff hmv').mpr hgain') (List.le_of_mem_argmax hmv' hbest)
    have hlt := gainsRounded_iff.mp ((h.roundedGain_pos_iff hmem).mp hpos)
    rw [UInt64.le_iff_toNat_le]
    by_contra hsmall
    have := Binary64.nearest_mono (Nat.le_of_not_le hsmall)
    omega
  · have hzero : ∀ mv' ∈ g.moves,
        roundedGain g.arena.largestFreeRegion g.arena.snapshotFree mv' = 0 := by
      intro mv' hmv'
      by_contra hne
      exact hgain ⟨mv', hmv', (h.roundedGain_pos_iff hmv').mp (Nat.pos_of_ne_zero hne)⟩
    rw [argmax_of_const hzero] at hbest
    constructor
    · intro hkeeps
      refine Or.inr (fun mv' hmv' => ?_)
      rw [hbest] at hmv'
      cases hmv'
      exact hkeeps
    · rintro (hsome | hfirst)
      · exact absurd hsome hgain
      · exact hfirst mv hbest

/-- **When compaction does not make fragmentation worse.** In every run in
which no accepted request draws an id in use, and when no alignment wraps:
making the planned step leaves the largest free region at least as large as
before exactly if `KeepsLargest` holds of the state. -/
theorem plan_keeps_iff (domain : MemoryDomain) (hasBackend : Bool) (calls : List Call)
    (hfresh : Guarded perform FreshGrant (new domain hasBackend) calls)
    (haligns : AlignsInside (run perform (new domain hasBackend) calls)) :
    let g := run perform (new domain hasBackend) calls
    let p := g.planCompaction
    (∀ st ∈ p.1.steps, p.1.largestFreeBefore ≤ p.2.largestAfter st) ↔ KeepsLargest g := by
  intro g p
  have hplan := planBy_eq_argmax
    (ranks_doubles g.arena.largestFreeRegion g.arena.snapshotFree g.moves)
  rw [← planCompaction_eq] at hplan
  change p.1 = _ at hplan
  rw [hplan]
  cases hbest : g.moves.argmax (roundedGain g.arena.largestFreeRegion g.arena.snapshotFree) with
  | none =>
      have hnil : g.moves = [] := List.argmax_eq_none.mp hbest
      refine iff_of_true (fun st hst => by cases hst) (Or.inr (fun mv hmv => ?_))
      rw [hnil] at hmv
      cases hmv
  | some mv =>
      have hmove : g.Move mv.1 mv.2 := mem_moves.mp (List.argmax_mem hbest)
      have hpos : 0 < g.domain.managedCapacity.toNat :=
        (run_bare domain hasBackend calls).2.pos hmove.live
      have hg : Compactable g := run_compactable hfresh hpos haligns
      have hkeeps := hg.planned.keeps_iff hmove.planned
      unfold Keeps at hkeeps
      rw [hg.planned_largest, planned_snapshotFree] at hkeeps
      rw [← hg.plan_keeps hbest]
      unfold Keeps
      rw [← hkeeps]
      constructor
      · exact fun hall => hall _ (List.mem_singleton_self _)
      · intro hle st hst
        rw [List.mem_singleton.mp hst]
        exact hle

theorem plan_keeps_iff_holedRun :
    let g := run perform (new { managedCapacity := 512 } true) holedRun
    let p := g.planCompaction
    intoThird ∈ p.1.steps ∧ ∀ st ∈ p.1.steps, p.1.largestFreeBefore ≤ p.2.largestAfter st := by
  refine ⟨by decide +kernel, ?_⟩
  refine (plan_keeps_iff { managedCapacity := 512 } true holedRun holedRun_fresh ?_).mpr (Or.inl ?_)
  · exact alignsInside_of_capacity (run_inv (inv_new { managedCapacity := 512 } true) holedRun)
      (by decide +kernel) (by decide +kernel)
  · unfold GainsRounded
    decide +kernel

/-- **A planned move that shrinks the largest free region**: the bytes it
moves leave a smaller hole than the one it fills. -/
theorem consumed_shrinks :
    let g := run perform (new { managedCapacity := 1024 } true) movableFirst
    let p := g.planCompaction
    movedBehind ∈ p.1.steps ∧ p.1.largestFreeBefore = 824 ∧ p.2.largestAfter movedBehind = 724 := by
  decide +kernel

end Plans

end GpuMemoryService.MemoryGovernor
