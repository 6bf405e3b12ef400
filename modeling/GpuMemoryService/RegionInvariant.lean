/-
GpuMemoryService.RegionInvariant — the representation invariant of the
allocator and what each operation does to the live regions.

`Inv` holds between calls: the layout is canonical over the whole arena,
live regions are aligned, every indexed allocation has its live region,
and the two counters are exact. It does not ask that every live region is
indexed (`Indexed` does): that needs allocation ids to be fresh, and the
rest does not.

Every accepted mutation exchanges at most one live region for another,
`Effect ra ra' id old new`, and rewrites the index at one id. `Effect.inv`
derives the invariant after the call from that description alone, so each
operation only has to be brought into this form (`RegionOperations`).
-/
import GpuMemoryService.RegionLayout

namespace GpuMemoryService.RegionAllocator

open Lib

/-! ## The invariant -/

/-- `r` is the live region filed at `k`. -/
def LiveAt (ra : RegionAllocator) (k : UInt64) (r : RegionInfo) : Prop :=
  ra.regions.find? k = some r ∧ r.live = true

/-- The live region the index gives for an allocation. -/
def lookup (ra : RegionAllocator) (id : AllocationId) : Option RegionInfo :=
  match ra.allocOffset.find? id with
  | none => none
  | some off => (ra.regions.find? off).filter (·.live)

/-- Weight of a region in the live count. -/
def liveOne (_ : UInt64) (r : RegionInfo) : Nat := if r.live then 1 else 0

/-- Weight of a region in the live byte sum. -/
def liveSize (_ : UInt64) (r : RegionInfo) : Nat := if r.live then r.size.toNat else 0

structure Inv (ra : RegionAllocator) : Prop where
  layout : Layout ra.regions ra.freeSlots (Set.Ico 0 ra.capacity.toNat)
  aligned : ∀ {k r}, ra.LiveAt k r → isPow2 r.alignment = true ∧ r.alignment.toNat ∣ k.toNat
  index : ∀ {id off}, ra.allocOffset.find? id = some off → ∃ r, ra.LiveAt off r ∧ r.allocId = id
  count : ra.liveCount.toNat = ra.regions.weigh liveOne
  bytes : ra.liveBytes.toNat = ra.regions.weigh liveSize

/-- Every live region is indexed under its allocation id. -/
def Indexed (ra : RegionAllocator) : Prop :=
  ∀ {k r}, ra.LiveAt k r → ra.allocOffset.find? r.allocId = some k

section Basics

variable {ra : RegionAllocator}

theorem LiveAt.unique {k : UInt64} {r r' : RegionInfo} (h : ra.LiveAt k r)
    (h' : ra.LiveAt k r') : r = r' := by
  have := h.1.symm.trans h'.1
  simpa using this

theorem lookup_eq_some_iff {id : AllocationId} {r : RegionInfo} :
    ra.lookup id = some r ↔ ∃ off, ra.allocOffset.find? id = some off ∧ ra.LiveAt off r := by
  unfold lookup LiveAt
  cases ra.allocOffset.find? id with
  | none => simp
  | some off => simp [Option.filter_eq_some_iff]

namespace Inv

theorem offset_eq (h : Inv ra) {k : UInt64} {r : RegionInfo} (hl : ra.LiveAt k r) :
    r.offset = k := h.layout.keyed hl.1

theorem size_pos (h : Inv ra) {k : UInt64} {r : RegionInfo} (hl : ra.LiveAt k r) :
    0 < r.size.toNat := h.layout.part.len_pos hl.1

theorem end_le (h : Inv ra) {k : UInt64} {r : RegionInfo} (hf : ra.regions.find? k = some r) :
    k.toNat + r.size.toNat ≤ ra.capacity.toNat := h.layout.end_le (fun _ hb => hb.2) hf

/-- What a successful lookup says about the region. -/
theorem lookup_some (h : Inv ra) {id : AllocationId} {r : RegionInfo}
    (hl : ra.lookup id = some r) :
    ra.allocOffset.find? id = some r.offset ∧ ra.LiveAt r.offset r ∧ r.allocId = id := by
  obtain ⟨off, hoff, hlive⟩ := lookup_eq_some_iff.mp hl
  obtain ⟨r', hlive', hid⟩ := h.index hoff
  rw [hlive.unique hlive', h.offset_eq hlive']
  exact ⟨hoff, hlive', hid⟩

theorem offsetOf_eq (h : Inv ra) {id : AllocationId} {r : RegionInfo}
    (hl : ra.lookup id = some r) : ra.offsetOf id = r.offset := by
  rw [offsetOf, (h.lookup_some hl).1]
  rfl

/-- An indexed allocation has a live region. -/
theorem lookup_of_find? (h : Inv ra) {id : AllocationId} {off : UInt64}
    (hoff : ra.allocOffset.find? id = some off) : ∃ r, ra.lookup id = some r := by
  obtain ⟨r, hlive, _⟩ := h.index hoff
  exact ⟨r, lookup_eq_some_iff.mpr ⟨off, hoff, hlive⟩⟩

/-- The sizes of all regions add up to the capacity. -/
theorem weigh_sizes (h : Inv ra) :
    ra.regions.weigh (fun _ r => sizeNat r) = ra.capacity.toNat := by
  have := h.layout.part.weigh_len toNat_strictMono (Nat.zero_le _)
  omega

theorem liveBytes_le (h : Inv ra) : ra.liveBytes.toNat ≤ ra.capacity.toNat := by
  rw [h.bytes, ← h.weigh_sizes]
  refine OrdMap.weigh_le_weigh (fun k r _ => ?_)
  unfold liveSize sizeNat
  split <;> omega

end Inv

/-- In a canonical layout the live regions weigh at most the arena, by any
weight that counts a live region for at most its size. -/
theorem weigh_lt_of_layout {m : OrdMap UInt64 RegionInfo} {sl : OrdSet FreeSlot} {cap : UInt64}
    (h : Layout m sl (Set.Ico 0 cap.toNat)) {f : UInt64 → RegionInfo → Nat}
    (hf : ∀ k r, m.find? k = some r → f k r ≤ r.size.toNat) : m.weigh f < 2 ^ 64 := by
  have hsum := h.part.weigh_len toNat_strictMono (Nat.zero_le _)
  have hle : m.weigh f ≤ m.weigh (fun _ r => sizeNat r) := OrdMap.weigh_le_weigh hf
  have hcap := cap.toNat_lt
  omega

end Basics

/-! ## Effects -/

/-- The mutation exchanges the live region `old` for `new` and rewrites the
index at `id`. The counters are read modulo the word size, as computed. -/
structure Effect (ra ra' : RegionAllocator) (id : AllocationId)
    (old new : Option RegionInfo) : Prop where
  capacity : ra'.capacity = ra.capacity
  layout : Layout ra'.regions ra'.freeSlots (Set.Ico 0 ra.capacity.toNat)
  live : ∀ k r, ra'.LiveAt k r ↔
    (new = some r ∧ k = r.offset) ∨ (ra.LiveAt k r ∧ ∀ o, old = some o → k ≠ o.offset)
  index : ∀ i, ra'.allocOffset.find? i =
    if i = id then new.map (·.offset) else ra.allocOffset.find? i
  bytes : ra'.liveBytes + old.elim 0 (·.size) = ra.liveBytes + new.elim 0 (·.size)
  count : ra'.liveCount + old.elim 0 (fun _ => 1) = ra.liveCount + new.elim 0 (fun _ => 1)
  old_live : ∀ {o}, old = some o → ra.LiveAt o.offset o ∧ o.allocId = id
  new_ok : ∀ {n}, new = some n → n.live = true ∧ n.allocId = id ∧ isPow2 n.alignment = true ∧
    n.alignment.toNat ∣ n.offset.toNat
  new_fresh : ∀ {n r}, new = some n → ra.LiveAt n.offset r → old = some r

/-- The live regions once `new` is assigned at its offset: `new` and those
that were live away from `old`. -/
theorem liveAt_insert {ra ra' : RegionAllocator} {m : OrdMap UInt64 RegionInfo}
    {old : Option RegionInfo} {new : RegionInfo} {k₀ : UInt64}
    (hregions : ra'.regions = m.insert k₀ new) (hlive : new.live = true) (hoff : new.offset = k₀)
    (hm : ∀ k r, k ≠ k₀ → r.live = true →
      (m.find? k = some r ↔ ra.LiveAt k r ∧ ∀ o, old = some o → k ≠ o.offset))
    (hclear : ∀ r, ra.LiveAt k₀ r → ∃ o, old = some o ∧ o.offset = k₀)
    (k : UInt64) (r : RegionInfo) : ra'.LiveAt k r ↔
      (some new = some r ∧ k = r.offset) ∨ (ra.LiveAt k r ∧ ∀ o, old = some o → k ≠ o.offset) := by
  rw [LiveAt, hregions, OrdMap.find?_insert]
  by_cases hk : k = k₀
  · rw [if_pos hk]
    constructor
    · rintro ⟨heq, _⟩
      cases heq
      exact Or.inl ⟨rfl, hk.trans hoff.symm⟩
    · rintro (⟨heq, _⟩ | ⟨hl, hout⟩)
      · cases heq
        exact ⟨rfl, hlive⟩
      · rw [hk] at hl
        obtain ⟨o, ho, hat⟩ := hclear r hl
        exact absurd (hk.trans hat.symm) (hout o ho)
  · rw [if_neg hk]
    constructor
    · rintro ⟨hf, hl⟩
      exact Or.inr ((hm k r hk hl).mp hf)
    · rintro (⟨heq, hko⟩ | ⟨hl, hout⟩)
      · cases heq
        exact absurd (hko.trans hoff) hk
      · exact ⟨(hm k r hk hl.2).mpr ⟨hl, hout⟩, hl.2⟩

namespace Effect

variable {ra ra' : RegionAllocator} {id : AllocationId} {old new : Option RegionInfo}

/-- The regions with `old` taken out. -/
def without (m : OrdMap UInt64 RegionInfo) (old : Option RegionInfo) : OrdMap UInt64 RegionInfo :=
  old.elim m (fun o => m.erase o.offset)

/-- The regions with `old` exchanged for `new`. -/
def exchanged (m : OrdMap UInt64 RegionInfo) (old new : Option RegionInfo) :
    OrdMap UInt64 RegionInfo :=
  new.elim (without m old) (fun n => (without m old).insert n.offset n)

theorem find?_without {k : UInt64} {r : RegionInfo} (hl : r.live = true) :
    (without ra.regions old).find? k = some r ↔
      ra.LiveAt k r ∧ ∀ o, old = some o → k ≠ o.offset := by
  cases old with
  | none => simp [without, LiveAt, hl]
  | some o =>
      simp only [without, Option.elim, OrdMap.find?_erase, LiveAt, hl, and_true,
        Option.some.injEq, forall_eq']
      by_cases hk : k = o.offset <;> simp [hk]

/-- What stands where the new region goes is free: a live region would be
the old one, already taken out. -/
theorem free_of_without (hinv : Inv ra) (he : Effect ra ra' id old new) {n r : RegionInfo}
    (hnew : new = some n) (hf : (without ra.regions old).find? n.offset = some r) :
    r.live = false := by
  cases hl : r.live with
  | false => rfl
  | true =>
      obtain ⟨hlive, hout⟩ := (find?_without hl).mp hf
      exact absurd (hinv.offset_eq hlive).symm (hout r (he.new_fresh hnew hlive))

/-- The live regions after the mutation are those of the exchanged map. -/
theorem find?_exchanged (hinv : Inv ra) (he : Effect ra ra' id old new) {k : UInt64}
    {r : RegionInfo} (hl : r.live = true) :
    ra'.regions.find? k = some r ↔ (exchanged ra.regions old new).find? k = some r := by
  have hside : ra'.regions.find? k = some r ↔ ra'.LiveAt k r := by simp [LiveAt, hl]
  rw [hside, he.live, ← find?_without hl]
  cases hnew : new with
  | none => simp [exchanged]
  | some n =>
      simp only [exchanged, Option.elim, OrdMap.find?_insert, Option.some.injEq]
      by_cases hk : k = n.offset
      · rw [if_pos hk, Option.some.injEq]
        constructor
        · rintro (⟨hn, _⟩ | hf)
          · exact hn
          · rw [hk] at hf
            rw [he.free_of_without hinv hnew hf] at hl
            cases hl
        · rintro rfl
          exact Or.inl ⟨rfl, hk⟩
      · rw [if_neg hk]
        constructor
        · rintro (⟨rfl, hko⟩ | hf)
          · exact absurd hko hk
          · exact hf
        · exact Or.inr

/-- A weight on live regions loses the old region and gains the new one. -/
theorem weigh (hinv : Inv ra) (he : Effect ra ra' id old new) {f : UInt64 → RegionInfo → Nat}
    (hf : ∀ k r, r.live = false → f k r = 0) :
    ra'.regions.weigh f + old.elim 0 (fun o => f o.offset o)
      = ra.regions.weigh f + new.elim 0 (fun n => f n.offset n) := by
  -- the free regions weigh nothing, so they may differ
  have hweigh : ra'.regions.weigh f = (exchanged ra.regions old new).weigh f :=
    OrdMap.weigh_congr hf (fun _ _ hl => he.find?_exchanged hinv hl)
  have hold : ra.regions.weigh f
      = (without ra.regions old).weigh f + old.elim 0 (fun o => f o.offset o) := by
    cases old with
    | none => simp [without]
    | some o =>
        simp only [without, Option.elim]
        rw [OrdMap.weigh_erase f (he.old_live rfl).1.1, Nat.add_comm]
  have hnew : (exchanged ra.regions old new).weigh f
      = (without ra.regions old).weigh f + new.elim 0 (fun n => f n.offset n) := by
    cases hnew : new with
    | none => simp [exchanged]
    | some n =>
        simp only [exchanged, Option.elim]
        rw [OrdMap.weigh_insert_over f n (fun w hw => hf _ _ (he.free_of_without hinv hnew hw)),
          Nat.add_comm]
  rw [hweigh, hold, hnew]
  omega

/-- A counter kept modulo the word size is exact while the exact value
stays below it. -/
theorem exact_of_mod {c c' : UInt64} {w w' o n : Nat} {co cn : UInt64} (hc : c.toNat = w)
    (heq : c' + co = c + cn) (ho : co.toNat = o) (hn : cn.toNat = n) (hw : w' + o = w + n)
    (hlt : w' < 2 ^ 64) : c'.toNat = w' := by
  have hmod := congrArg UInt64.toNat heq
  rw [UInt64.toNat_add, UInt64.toNat_add, hc, ho, hn] at hmod
  have h1 := c'.toNat_lt
  have h2 := co.toNat_lt
  omega

theorem liveAt_new (he : Effect ra ra' id old new) {n : RegionInfo} (hnew : new = some n) :
    ra'.LiveAt n.offset n :=
  (he.live n.offset n).mpr (Or.inl ⟨hnew, rfl⟩)

/-- **One step.** The invariant after a call follows from its effect. -/
theorem inv (hinv : Inv ra) (he : Effect ra ra' id old new) : Inv ra' where
  layout := by rw [he.capacity]; exact he.layout
  aligned := by
    intro k r hl
    rcases (he.live k r).mp hl with ⟨hnew, hk⟩ | ⟨hlive, _⟩
    · rw [hk]; exact (he.new_ok hnew).2.2
    · exact hinv.aligned hlive
  index := by
    intro i off hoff
    rw [he.index] at hoff
    split at hoff
    · rename_i hi
      obtain ⟨n, hnew, rfl⟩ := Option.map_eq_some_iff.mp hoff
      exact ⟨n, he.liveAt_new hnew, hi ▸ (he.new_ok hnew).2.1⟩
    · rename_i hi
      obtain ⟨r, hlive, hid⟩ := hinv.index hoff
      refine ⟨r, (he.live off r).mpr (Or.inr ⟨hlive, fun o hold hk => hi ?_⟩), hid⟩
      obtain ⟨holive, hoid⟩ := he.old_live hold
      rw [hk] at hlive
      rw [← hid, hlive.unique holive, hoid]
  count := by
    have hw := he.weigh hinv (f := liveOne) (fun k r hl => by simp [liveOne, hl])
    refine exact_of_mod hinv.count he.count ?_ ?_ hw (weigh_lt_of_layout he.layout ?_)
    · cases hold : old with
      | none => rfl
      | some o => simp [liveOne, (he.old_live hold).1.2]
    · cases hnew : new with
      | none => rfl
      | some n => simp [liveOne, (he.new_ok hnew).1]
    · intro k r hfind
      have : 0 < r.size.toNat := he.layout.part.len_pos hfind
      unfold liveOne
      split <;> omega
  bytes := by
    have hw := he.weigh hinv (f := liveSize) (fun k r hl => by simp [liveSize, hl])
    refine exact_of_mod hinv.bytes he.bytes ?_ ?_ hw (weigh_lt_of_layout he.layout ?_)
    · cases hold : old with
      | none => rfl
      | some o => simp [liveSize, (he.old_live hold).1.2]
    · cases hnew : new with
      | none => rfl
      | some n => simp [liveSize, (he.new_ok hnew).1]
    · intro k r _
      unfold liveSize
      split <;> omega

/-- The live bytes lose the old size and gain the new one, exactly. -/
theorem toNat_liveBytes (hinv : Inv ra) (he : Effect ra ra' id old new) :
    ra'.liveBytes.toNat + old.elim 0 (·.size.toNat)
      = ra.liveBytes.toNat + new.elim 0 (·.size.toNat) := by
  have hw := he.weigh hinv (f := liveSize) (fun k r hl => by simp [liveSize, hl])
  have hold : old.elim 0 (fun o => liveSize o.offset o) = old.elim 0 (·.size.toNat) := by
    cases hold : old with
    | none => rfl
    | some o => simp [liveSize, (he.old_live hold).1.2]
  have hnew : new.elim 0 (fun n => liveSize n.offset n) = new.elim 0 (·.size.toNat) := by
    cases hnew : new with
    | none => rfl
    | some n => simp [liveSize, (he.new_ok hnew).1]
  rw [(he.inv hinv).bytes, hinv.bytes, ← hold, ← hnew]
  exact hw

/-- A lookup after the call: the new region at `id`, unchanged elsewhere. -/
theorem lookup_eq (hinv : Inv ra) (he : Effect ra ra' id old new) (i : AllocationId) :
    ra'.lookup i = if i = id then new else ra.lookup i := by
  refine Option.ext (fun r => ?_)
  rw [lookup_eq_some_iff, he.index]
  by_cases hi : i = id
  · rw [if_pos hi, if_pos hi]
    constructor
    · rintro ⟨off, hoff, hlive⟩
      obtain ⟨n, hnew, rfl⟩ := Option.map_eq_some_iff.mp hoff
      rw [hnew, hlive.unique (he.liveAt_new hnew)]
    · intro hnew
      exact ⟨r.offset, by rw [hnew]; rfl, he.liveAt_new hnew⟩
  · rw [if_neg hi, if_neg hi, lookup_eq_some_iff]
    constructor
    · rintro ⟨off, hoff, hlive⟩
      refine ⟨off, hoff, ?_⟩
      rcases (he.live off r).mp hlive with ⟨hnew, hk⟩ | ⟨hlive, _⟩
      · obtain ⟨r', hlive', hid'⟩ := hinv.index hoff
        rw [hk] at hlive'
        have hold := he.new_fresh hnew hlive'
        exact absurd (hid'.symm.trans (he.old_live hold).2) hi
      · exact hlive
    · rintro ⟨off, hoff, hlive⟩
      refine ⟨off, hoff, (he.live off r).mpr (Or.inr ⟨hlive, fun o hold hk => hi ?_⟩)⟩
      obtain ⟨r', hlive', hid'⟩ := hinv.index hoff
      obtain ⟨holive, hoid⟩ := he.old_live hold
      rw [hk] at hlive'
      rw [← hid', hlive'.unique holive, hoid]

/-- With a fresh id, or the id of the region taken out, the index stays
complete. -/
theorem indexed (hidx : Indexed ra) (he : Effect ra ra' id old new)
    (hfresh : old = none → ra.allocOffset.find? id = none) : Indexed ra' := by
  intro k r hlive
  rw [he.index]
  rcases (he.live k r).mp hlive with ⟨hnew, hk⟩ | ⟨hlive, hout⟩
  · rw [if_pos (he.new_ok hnew).2.1, hnew, hk]
    rfl
  · have hfind := hidx hlive
    rw [if_neg, hfind]
    intro hid
    rw [hid] at hfind
    cases hold : old with
    | none => rw [hfresh hold] at hfind; cases hfind
    | some o =>
        have hoid := (he.old_live hold).2
        have := hidx (he.old_live hold).1
        rw [hoid, hfind] at this
        exact hout o hold (by simpa using this)

end Effect

end GpuMemoryService.RegionAllocator
