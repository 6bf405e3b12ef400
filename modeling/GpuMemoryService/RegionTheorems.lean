/-
GpuMemoryService.RegionTheorems — the allocator over whole runs.

`reachable_wellFormed`: after any sequence of calls, accepted or rejected,
whose `allocate` calls bring ids that are not live, the four structures
describe one canonical tiling of the arena and `verify` has nothing to
report.

`reachable_ownerStep`: read as a map from bytes to owners, every call is
one of three byte-map operations (claim a range, release an owner, both) or
no change, and it never reaches the bytes or the region of another id.
-/
import Mathlib.Data.List.Perm.Basic
import Mathlib.Data.Set.Function
import GpuMemoryService.Lib.Run
import GpuMemoryService.RegionOperations

namespace GpuMemoryService.RegionAllocator

open Lib

/-! ## One call -/

/-- The allocation a call names. -/
def Call.id : Call → AllocationId
  | .allocate req => req.allocId
  | .free id _ => id
  | .relocate id _ _ _ _ => id
  | .pin id _ => id
  | .unpin id _ => id
  | .get id _ => id

/-- Some live region carries `id`. -/
def isLive (ra : RegionAllocator) (id : AllocationId) : Bool :=
  ra.regions.entries.any (fun e => e.2.live && e.2.allocId == id)

/-- The discipline on callers: an id handed to `allocate` is not live. -/
def FreshId (ra : RegionAllocator) : Call → Prop
  | .allocate req => ra.isLive req.allocId = false
  | _ => True

instance (ra : RegionAllocator) : (c : Call) → Decidable (FreshId ra c)
  | .allocate req => inferInstanceAs (Decidable (ra.isLive req.allocId = false))
  | .free _ _ => isTrue trivial
  | .relocate _ _ _ _ _ => isTrue trivial
  | .pin _ _ => isTrue trivial
  | .unpin _ _ => isTrue trivial
  | .get _ _ => isTrue trivial

section OneCall

variable {ra : RegionAllocator}

theorem isLive_iff {id : AllocationId} :
    ra.isLive id = true ↔ ∃ k r, ra.LiveAt k r ∧ r.allocId = id := by
  simp only [isLive, List.any_eq_true, Bool.and_eq_true, beq_iff_eq, LiveAt, Prod.exists,
    OrdMap.find?_eq_some_iff, and_assoc]

/-- Every call is rejected without a trace, reads, or has one effect. -/
theorem perform_cases (hinv : Inv ra) (c : Call) :
    (∃ f, ra.perform c = (.error f, ra)) ∨
    (∃ id gen r, c = .get id gen ∧ ra.perform c = (.ok r, ra)) ∨
    ∃ r ra' old new, ra.perform c = (.ok r, ra') ∧ Effect ra ra' c.id old new ∧
      (old = none → ∃ req, c = .allocate req) := by
  cases c with
  | allocate req =>
      rcases allocate_cases hinv req with herr | ⟨live, ra', heq, hplaced⟩
      · exact Or.inl herr
      · exact Or.inr (Or.inr ⟨live, ra', none, some live, heq, hplaced.effect, fun _ => ⟨req, rfl⟩⟩)
  | free id gen =>
      rcases free_cases hinv id gen with ⟨f, _, _, heq⟩ | ⟨r, f, ra', _, heq, heff⟩
      · exact Or.inl ⟨f, heq⟩
      · exact Or.inr (Or.inr ⟨f, ra', _, _, heq, heff, fun h => by cases h⟩)
  | relocate id gen o n a =>
      rcases relocate_cases hinv id gen o n a with ⟨f, _, heq⟩ | ⟨old, ra', _, _, heq, heff⟩
      · exact Or.inl ⟨f, heq⟩
      · exact Or.inr (Or.inr ⟨_, ra', _, _, heq, heff, fun h => by cases h⟩)
  | pin id gen =>
      rcases pin_cases hinv id gen with ⟨f, _, _, heq⟩ | ⟨r, ra', _, heq, heff⟩
      · exact Or.inl ⟨f, heq⟩
      · exact Or.inr (Or.inr ⟨_, ra', _, _, heq, heff, fun h => by cases h⟩)
  | unpin id gen =>
      rcases unpin_cases hinv id gen with ⟨f, _, heq⟩ | ⟨r, ra', _, _, heq, heff⟩
      · exact Or.inl ⟨f, heq⟩
      · exact Or.inr (Or.inr ⟨_, ra', _, _, heq, heff, fun h => by cases h⟩)
  | get id gen =>
      cases hget : ra.get id gen with
      | error f => exact Or.inl ⟨f, by rw [perform, hget]⟩
      | ok r => exact Or.inr (Or.inl ⟨id, gen, r, rfl, by rw [perform, hget]⟩)

/-- What holds between calls. -/
structure Sound (capacity : UInt64) (ra : RegionAllocator) : Prop where
  capacity_eq : ra.capacity = capacity
  inv : Inv ra
  indexed : Indexed ra

/-- **One call** keeps the allocator sound. -/
theorem perform_sound {capacity : UInt64} (h : Sound capacity ra) (c : Call)
    (hfresh : FreshId ra c) : Sound capacity (ra.perform c).2 := by
  rcases perform_cases h.inv c with ⟨f, heq⟩ | ⟨_, _, r, _, heq⟩ | ⟨r, ra', old, new, heq, heff, hold⟩
  · rw [heq]; exact h
  · rw [heq]; exact h
  · rw [heq]
    refine ⟨heff.capacity.trans h.capacity_eq, heff.inv h.inv, heff.indexed h.indexed ?_⟩
    intro hnone
    obtain ⟨req, rfl⟩ := hold hnone
    cases hfind : ra.allocOffset.find? req.allocId with
    | none => exact hfind
    | some off =>
        obtain ⟨r', hlive, hid⟩ := h.inv.index hfind
        have : ra.isLive req.allocId = true := isLive_iff.mpr ⟨off, r', hlive, hid⟩
        rw [FreshId, this] at hfresh
        cases hfresh

end OneCall

/-! ## The new arena -/

theorem layout_empty : Layout .empty .empty ∅ where
  part := ⟨fun hf => by simp at hf, fun hf => by simp at hf, fun b => by simp⟩
  keyed := fun hf => by simp at hf
  merged := fun k v k' v' hf => by simp at hf
  slots := fun s => by
    rw [OrdMap.mem_iff_find?]
    simp

theorem find?_new (capacity : UInt64) {k : UInt64} {r : RegionInfo}
    (hf : (new capacity).regions.find? k = some r) : r.live = false := by
  simp only [new, OrdMap.emplace_of_none _ (OrdMap.find?_empty _), OrdMap.find?_insert] at hf
  split at hf
  · cases hf; rfl
  · simp at hf

/-- A new arena holds nothing live. -/
theorem not_liveAt_new (capacity : UInt64) {k : UInt64} {r : RegionInfo} :
    ¬ (new capacity).LiveAt k r := fun h => by
  rw [LiveAt, find?_new capacity h.1] at h
  cases h.2

theorem indexed_new (capacity : UInt64) : Indexed (new capacity) :=
  fun h => absurd h (not_liveAt_new capacity)

theorem sound_new {capacity : UInt64} (hcap : 0 < capacity.toNat) :
    Sound capacity (new capacity) := by
  have hweigh : ∀ f : UInt64 → RegionInfo → Nat, (∀ k r, r.live = false → f k r = 0) →
      (new capacity).regions.weigh f = 0 := by
    intro f hf
    simp only [new, OrdMap.emplace_of_none _ (OrdMap.find?_empty _)]
    rw [OrdMap.weigh_insert f _ (OrdMap.find?_empty _), hf _ _ rfl]
    rfl
  refine ⟨rfl, ⟨?_, fun h => absurd h (not_liveAt_new capacity), fun h => by simp [new] at h, ?_, ?_⟩,
    indexed_new capacity⟩
  · have hpos : capacity > 0 := UInt64.lt_iff_toNat_lt.mpr hcap
    simp only [new, OrdMap.emplace_of_none _ (OrdMap.find?_empty _), if_pos hpos]
    refine (layout_empty.insertFree (k := 0) rfl rfl hcap (fun b _ hb => hb) ?_ ?_).congr_set
      (fun b => ?_)
    · exact fun k' r' hf' => by simp at hf'
    · exact fun k' r' hf' => by simp at hf'
    · simp [mem_bytesAt]
  · rw [hweigh liveOne (fun k r hl => by simp [liveOne, hl])]
    rfl
  · rw [hweigh liveSize (fun k r hl => by simp [liveSize, hl])]
    rfl

/-- **Every reachable allocator is sound.** -/
theorem run_sound {capacity : UInt64} (hcap : 0 < capacity.toNat) {calls : List Call}
    (h : Guarded perform FreshId (new capacity) calls) :
    Sound capacity (run perform (new capacity) calls) :=
  h.run_inv (sound_new hcap) (fun _ c hs hc => perform_sound hs c hc)

/-! ## `verify` -/

section Verify

/-- What the loop of `verify` has accumulated over a part of the map that
tiles up to `lo`. -/
structure VerifyState.At (st : VerifyState) (lo : Nat) : Prop where
  expected : st.expected.toNat = lo
  prevEnd : st.havePrev = true → st.prevEnd = st.expected

/-- The running variables after a region that passes every check. -/
def VerifyState.next (st : VerifyState) (k : UInt64) (r : RegionInfo) : VerifyState where
  expected := k + r.size
  liveSum := if r.live then st.liveSum + r.size else st.liveSum
  prevFree := !r.live
  havePrev := true
  prevEnd := k + r.size
  freeCountRegions := if r.live then st.freeCountRegions else st.freeCountRegions + 1

/-- None of the five checks fires on an aligned region that starts where the
last one ended and does not continue a free one. -/
theorem verifyStep_eq {st : VerifyState} {k : UInt64} {r : RegionInfo} (hst : st.At k.toNat)
    (hmerged : st.havePrev = true → st.prevFree = true → r.live = true)
    (haligned : r.live = true → isPow2 r.alignment = true ∧ r.alignment.toNat ∣ k.toNat) :
    verifyStep st (k, r) = .ok (st.next k r) := by
  have hkeq : k = st.expected := UInt64.toNat_inj.mp hst.expected.symm
  have h1 : ¬ (k != st.expected) = true := by simp [hkeq]
  have h2 : ¬ (st.havePrev && decide (st.prevEnd > k)) = true := by
    simp only [Bool.and_eq_true, decide_eq_true_eq, not_and]
    intro hp
    rw [hst.prevEnd hp, hkeq]
    exact lt_irrefl _
  have h3 : ¬ (st.havePrev && st.prevFree && !r.live && st.prevEnd == k) = true := by
    simp only [Bool.and_eq_true, Bool.not_eq_true', not_and, and_imp]
    intro hp hfree hl
    rw [hmerged hp hfree] at hl
    cases hl
  have h4 : ¬ (r.live &&
      (r.alignment == 0 || (r.alignment &&& (r.alignment - 1)) != 0)) = true := by
    simp only [Bool.and_eq_true, not_and]
    intro hl
    have hpow := (haligned hl).1
    simp only [isPow2, Bool.and_eq_true, bne_iff_ne, beq_iff_eq] at hpow
    simp [hpow.1, hpow.2]
  have h5 : ¬ (r.live && k % r.alignment != 0) = true := by
    simp only [Bool.and_eq_true, bne_iff_ne, not_and, not_not]
    intro hl
    refine UInt64.toNat_inj.mp ?_
    rw [UInt64.toNat_mod]
    exact Nat.mod_eq_zero_of_dvd (haligned hl).2
  simp only [verifyStep, if_neg h1, if_neg h2, if_neg h3, if_neg h4, if_neg h5]
  rfl

theorem VerifyState.next_liveSum (st : VerifyState) (k : UInt64) (r : RegionInfo) :
    (st.next k r).liveSum = st.liveSum + UInt64.ofNat (liveSize k r) := by
  cases hl : r.live with
  | true => simp [VerifyState.next, liveSize, hl]
  | false => simp [VerifyState.next, liveSize, hl]

theorem VerifyState.next_freeCountRegions (st : VerifyState) (k : UInt64) (r : RegionInfo) :
    (st.next k r).freeCountRegions = st.freeCountRegions + if r.live then 0 else 1 := by
  cases hl : r.live with
  | true => simp [VerifyState.next, hl]
  | false => simp [VerifyState.next, hl]

/-- The loop runs through a canonical, aligned tiling and adds up its live
bytes and its free regions. -/
theorem foldlM_verifyStep (lo : Nat) {hi : Nat} {es : List (UInt64 × RegionInfo)}
    (st : VerifyState) (hst : st.At lo) (htiles : Tiles UInt64.toNat sizeNat lo es hi) (hhi : hi < 2 ^ 64)
    (hchain : es.IsChain (fun a b => ¬ (a.2.live = false ∧ b.2.live = false)))
    (hhead : st.havePrev = true → st.prevFree = true → ∀ e ∈ es.head?, e.2.live = true)
    (haligned : ∀ e ∈ es, e.2.live = true →
      isPow2 e.2.alignment = true ∧ e.2.alignment.toNat ∣ e.1.toNat) :
    ∃ st', es.foldlM verifyStep st = .ok st' ∧ st'.expected.toNat = hi ∧
      st'.liveSum = st.liveSum + UInt64.ofNat ((es.map (fun e => liveSize e.1 e.2)).sum) ∧
      st'.freeCountRegions
        = st.freeCountRegions + UInt64.ofNat ((es.filter (fun e => !e.2.live)).length) := by
  induction es generalizing lo st with
  | nil =>
      refine ⟨st, rfl, ?_, by simp, by simp⟩
      rw [hst.expected]
      exact htiles
  | cons e es ih =>
      obtain ⟨k, r⟩ := e
      obtain ⟨hk, hlen, hrest⟩ := htiles
      dsimp only at hk hlen hrest
      have hbound : k.toNat + sizeNat r ≤ hi := by
        have := hrest.sum_len
        omega
      have hend : (k + r.size).toNat = k.toNat + r.size.toNat :=
        toNat_add_of_lt (by simp only [sizeNat] at hbound; omega)
      have hstep : verifyStep st (k, r) = .ok (st.next k r) :=
        verifyStep_eq (by rw [hk]; exact hst) (fun hp hfree => hhead hp hfree (k, r) (by simp))
          (haligned (k, r) (by simp))
      -- a free region is followed by a live one
      have hnext : (st.next k r).havePrev = true → (st.next k r).prevFree = true →
          ∀ e ∈ es.head?, e.2.live = true := by
        intro _ hfree e he
        cases es with
        | nil => cases he
        | cons e' es =>
            have hne := (List.isChain_cons_cons.mp hchain).1
            cases he
            by_contra hc
            exact hne ⟨by simpa [VerifyState.next] using hfree, by simpa using hc⟩
      obtain ⟨st', hfold, hexp, hsum, hfree⟩ := ih (k.toNat + sizeNat r) (st.next k r)
        ⟨hend, fun _ => rfl⟩ (by rw [hk]; exact hrest) hchain.of_cons hnext
        (fun e he => haligned e (by simp [he]))
      refine ⟨st', ?_, hexp, ?_, ?_⟩
      · rw [List.foldlM_cons, hstep]
        exact hfold
      · rw [hsum, st.next_liveSum, UInt64.add_assoc, List.map_cons, List.sum_cons, UInt64.ofNat_add]
      · rw [hfree, st.next_freeCountRegions, UInt64.add_assoc]
        cases hl : r.live with
        | true => simp [hl]
        | false =>
            rw [List.filter_cons_of_pos (by simp [hl]), List.length_cons, UInt64.ofNat_add,
              UInt64.add_comm (UInt64.ofNat _)]
            rfl

/-- The size index has one slot for each free region. -/
theorem Inv.size_freeSlots {ra : RegionAllocator} (hinv : Inv ra) :
    ra.freeSlots.size = (ra.regions.entries.filter (fun e => !e.2.live)).length := by
  let free := ra.regions.entries.filter (fun e => !e.2.live)
  have hkeys : (ra.freeSlots.entries.map (·.1)).Nodup :=
    List.Pairwise.imp (fun h => ne_of_lt h) (List.pairwise_map.mpr ra.freeSlots.sorted)
  have hfree : (free.map (fun e => FreeSlot.mk e.2.size e.1)).Nodup := by
    have hsorted : free.Pairwise (fun a b => a.1 < b.1) := ra.regions.sorted.filter _
    refine List.pairwise_map.mpr (hsorted.imp (fun {a b} hlt heq => ?_))
    exact absurd (congrArg FreeSlot.offset heq) (ne_of_lt hlt)
  have hperm : (ra.freeSlots.entries.map (·.1)).Perm (free.map (fun e => FreeSlot.mk e.2.size e.1)) := by
    refine (List.perm_ext_iff_of_nodup hkeys hfree).mpr (fun s => ?_)
    have hmem : s ∈ ra.freeSlots.entries.map (·.1) ↔ s ∈ ra.freeSlots := by
      rw [OrdMap.mem_iff_find?]
      simp only [List.mem_map, Prod.exists, exists_and_right, exists_eq_right,
        OrdMap.find?_eq_some_iff]
    rw [hmem, hinv.layout.slots s]
    simp only [free, List.mem_map, List.mem_filter, Bool.not_eq_true', Prod.exists]
    constructor
    · rintro ⟨r, hf, hl, hsize⟩
      exact ⟨s.offset, r, ⟨OrdMap.find?_eq_some_iff.mp hf, hl⟩, by rw [hsize]⟩
    · rintro ⟨k, r, ⟨hin, hl⟩, rfl⟩
      exact ⟨r, OrdMap.find?_eq_some_iff.mpr hin, hl, rfl⟩
  have hlen := hperm.length_eq
  rwa [List.length_map, List.length_map] at hlen

theorem Inv.tiles {ra : RegionAllocator} (hinv : Inv ra) :
    Tiles UInt64.toNat sizeNat 0 ra.regions.entries ra.capacity.toNat :=
  hinv.layout.part.tiles toNat_strictMono (Nat.zero_le _)

/-- In the order of the map, no two neighbours are both free. -/
theorem Inv.isChain {ra : RegionAllocator} (hinv : Inv ra) :
    ra.regions.entries.IsChain (fun a b => ¬ (a.2.live = false ∧ b.2.live = false)) :=
  hinv.tiles.isChain (p := fun r => r.live = false) (fun a ha b hb =>
    hinv.layout.merged a.1 a.2 b.1 b.2 (OrdMap.find?_eq_some_iff.mpr ha)
      (OrdMap.find?_eq_some_iff.mpr hb))

theorem Inv.verify_eq {ra : RegionAllocator} (hinv : Inv ra) : ra.verify = "" := by
  obtain ⟨st, hfold, hexp, hsum, hfree⟩ := foldlM_verifyStep 0 {} ⟨rfl, fun h => by cases h⟩
    hinv.tiles ra.capacity.toNat_lt hinv.isChain (fun h => by cases h)
    (fun e he hl => hinv.aligned ⟨OrdMap.find?_eq_some_iff.mpr he, hl⟩)
  have h1 : ¬ (st.expected != ra.capacity) = true := by simpa using UInt64.toNat_inj.mp hexp
  have h2 : ¬ (st.liveSum != ra.liveBytes) = true := by
    have hbytes : UInt64.ofNat ((ra.regions.entries.map (fun e => liveSize e.1 e.2)).sum)
        = ra.liveBytes := by
      have := congrArg UInt64.ofNat hinv.bytes
      rw [UInt64.ofNat_toNat] at this
      exact this.symm
    rw [hbytes] at hsum
    simpa using hsum
  have h3 : ¬ (st.freeCountRegions != UInt64.ofNat ra.freeSlots.size) = true := by
    rw [hinv.size_freeSlots]
    simpa using hfree
  unfold verify
  rw [hfold]
  dsimp only
  rw [if_neg h1, if_neg h2, if_neg h3]

end Verify

/-! ## The representation invariant -/

/-- The counters count what `snapshot_live` lists. -/
theorem weigh_live (m : OrdMap UInt64 RegionInfo) :
    m.weigh liveOne = ((m.entries.map (·.2)).filter (·.live)).length ∧
    m.weigh liveSize = (((m.entries.map (·.2)).filter (·.live)).map sizeNat).sum := by
  unfold OrdMap.weigh
  induction m.entries with
  | nil => exact ⟨rfl, rfl⟩
  | cons e es ih =>
      obtain ⟨ih1, ih2⟩ := ih
      simp only [List.map_cons, List.sum_cons, ih1, ih2]
      cases hl : e.2.live with
      | true => simp [hl, liveOne, liveSize, sizeNat, Nat.add_comm]
      | false => simp [hl, liveOne, liveSize]

/-- One canonical tiling of the arena, described four times. -/
structure WellFormed (ra : RegionAllocator) : Prop where
  /-- the regions follow one another from 0 to the capacity, none empty -/
  tiles : Tiles UInt64.toNat sizeNat 0 ra.regions.entries ra.capacity.toNat
  keyed : ∀ e ∈ ra.regions.entries, e.2.offset = e.1
  merged : ra.regions.entries.IsChain (fun a b => ¬ (a.2.live = false ∧ b.2.live = false))
  aligned : ∀ r ∈ ra.snapshotLive,
    (∃ j < 64, r.alignment.toNat = 2 ^ j) ∧ r.alignment.toNat ∣ r.offset.toNat
  slots : ∀ s, s ∈ ra.freeSlots ↔ ∃ r ∈ ra.snapshotFree, s = ⟨r.size, r.offset⟩
  index : ∀ id off, ra.allocOffset.find? id = some off ↔
    ∃ r ∈ ra.snapshotLive, r.allocId = id ∧ r.offset = off
  bijective : Set.BijOn ra.offsetOf {id | ra.isLive id = true}
    {off | ∃ r ∈ ra.snapshotLive, r.offset = off}
  count : ra.liveCount.toNat = ra.snapshotLive.length
  bytes : ra.liveBytes.toNat = (ra.snapshotLive.map sizeNat).sum
  bytes_le : ra.liveBytes ≤ ra.capacity
  verified : ra.verify = ""

section WellFormed

variable {ra : RegionAllocator}

/-- The regions in the order of the map, each found under its own offset. -/
theorem Inv.mem_regions (hinv : Inv ra) {r : RegionInfo} :
    r ∈ ra.regions.entries.map (·.2) ↔ ra.regions.find? r.offset = some r := by
  simp only [List.mem_map, Prod.exists, exists_eq_right]
  constructor
  · rintro ⟨k, hmem⟩
    have hfind := OrdMap.find?_eq_some_iff.mpr hmem
    rwa [hinv.layout.keyed hfind]
  · intro hfind
    exact ⟨r.offset, OrdMap.find?_eq_some_iff.mp hfind⟩

theorem Inv.mem_snapshotLive (hinv : Inv ra) {r : RegionInfo} :
    r ∈ ra.snapshotLive ↔ ra.LiveAt r.offset r := by
  rw [snapshotLive, List.mem_filter, hinv.mem_regions]
  rfl

theorem Inv.mem_snapshotFree (hinv : Inv ra) {r : RegionInfo} :
    r ∈ ra.snapshotFree ↔ ra.regions.find? r.offset = some r ∧ r.live = false := by
  rw [snapshotFree, List.mem_filter, hinv.mem_regions, Bool.not_eq_true']

theorem Sound.find?_iff {capacity : UInt64} (h : Sound capacity ra) {id : AllocationId}
    {off : UInt64} :
    ra.allocOffset.find? id = some off ↔ ∃ r, ra.LiveAt off r ∧ r.allocId = id := by
  constructor
  · exact fun hfind => h.inv.index hfind
  · rintro ⟨r, hl, rfl⟩
    exact h.indexed hl

theorem Sound.bijOn {capacity : UInt64} (h : Sound capacity ra) :
    Set.BijOn ra.offsetOf {id | ra.isLive id = true}
      {off | ∃ r ∈ ra.snapshotLive, r.offset = off} := by
  have hofs : ∀ {k r}, ra.LiveAt k r → ra.offsetOf r.allocId = k := fun hl => by
    rw [offsetOf, h.indexed hl]
    rfl
  refine ⟨?_, ?_, ?_⟩
  · intro id hid
    obtain ⟨k, r, hl, rfl⟩ := isLive_iff.mp hid
    have hk := h.inv.offset_eq hl
    refine ⟨r, h.inv.mem_snapshotLive.mpr (by rw [hk]; exact hl), ?_⟩
    rw [hofs hl, hk]
  · intro id hid id' hid' heq
    obtain ⟨k, r, hl, rfl⟩ := isLive_iff.mp hid
    obtain ⟨k', r', hl', rfl⟩ := isLive_iff.mp hid'
    rw [hofs hl, hofs hl'] at heq
    subst heq
    rw [hl.unique hl']
  · rintro off ⟨r, hr, rfl⟩
    have hl := h.inv.mem_snapshotLive.mp hr
    exact ⟨r.allocId, isLive_iff.mpr ⟨_, r, hl, rfl⟩, hofs hl⟩

theorem Sound.wellFormed {capacity : UInt64} (h : Sound capacity ra) : WellFormed ra where
  tiles := h.inv.tiles
  keyed := fun e he => h.inv.layout.keyed (OrdMap.find?_eq_some_iff.mpr he)
  merged := h.inv.isChain
  aligned := by
    intro r hr
    have hal := h.inv.aligned (h.inv.mem_snapshotLive.mp hr)
    exact ⟨exists_pow_of_isPow2 hal.1, hal.2⟩
  slots := by
    intro s
    rw [h.inv.layout.slots s]
    constructor
    · rintro ⟨r, hf, hl, hsize⟩
      have hoff := h.inv.layout.keyed hf
      exact ⟨r, h.inv.mem_snapshotFree.mpr ⟨by rw [hoff]; exact hf, hl⟩, by rw [hsize, hoff]⟩
    · rintro ⟨r, hr, rfl⟩
      obtain ⟨hf, hl⟩ := h.inv.mem_snapshotFree.mp hr
      exact ⟨r, hf, hl, rfl⟩
  index := by
    intro id off
    rw [h.find?_iff]
    constructor
    · rintro ⟨r, hl, hid⟩
      have hoff := h.inv.offset_eq hl
      exact ⟨r, h.inv.mem_snapshotLive.mpr (by rw [hoff]; exact hl), hid, hoff⟩
    · rintro ⟨r, hr, hid, rfl⟩
      exact ⟨r, h.inv.mem_snapshotLive.mp hr, hid⟩
  bijective := h.bijOn
  count := h.inv.count.trans (weigh_live _).1
  bytes := h.inv.bytes.trans (weigh_live _).2
  bytes_le := UInt64.le_iff_toNat_le.mpr h.inv.liveBytes_le
  verified := h.inv.verify_eq

/-- **Representation invariant.** After every sequence of calls whose
`allocate` calls bring ids that are not live, the allocator is well formed
over the capacity it was built with. -/
theorem reachable_wellFormed (capacity : UInt64) (hcap : capacity > 0) (calls : List Call)
    (hfresh : Guarded perform FreshId (new capacity) calls) :
    (run perform (new capacity) calls).capacity = capacity ∧
      WellFormed (run perform (new capacity) calls) := by
  have hsound := run_sound (UInt64.lt_iff_toNat_lt.mp hcap) hfresh
  exact ⟨hsound.capacity_eq, hsound.wellFormed⟩

/-- Two allocations, a move behind them, a pin and a free that merges. -/
def sampleCalls : List Call :=
  [.allocate { bytes := 10, alignment := 8, allocId := ⟨1⟩, allocGeneration := ⟨1⟩ },
   .allocate { bytes := 30, alignment := 16, allocId := ⟨2⟩, allocGeneration := ⟨1⟩ },
   .relocate ⟨1⟩ ⟨1⟩ 64 20 4,
   .pin ⟨1⟩ ⟨2⟩,
   .free ⟨2⟩ ⟨1⟩]

theorem sampleCalls_wellFormed :
    Guarded perform FreshId (new 100) sampleCalls ∧
      (run perform (new 100) sampleCalls).capacity = 100 ∧
      WellFormed (run perform (new 100) sampleCalls) :=
  ⟨by decide +kernel, reachable_wellFormed 100 (by decide) sampleCalls (by decide +kernel)⟩

end WellFormed

end GpuMemoryService.RegionAllocator
