/-
GpuMemoryService.RegionOwnership — the allocator as a map from bytes to
owners.

The abstract arena is a function from byte indices to the handle that owns
the byte, if any, and knows two operations: claim a range for a handle, and
release every byte of a handle. `OwnerStep` says which of them each call
stands for; `reachable_ownerStep` shows that the interval maps, with all
their splitting, coalescing and carving, implement exactly that.
-/
import GpuMemoryService.RegionTheorems

namespace GpuMemoryService

/-! ## Byte maps -/

section ByteMaps

variable {α : Type}

/-- No byte of `[lo, lo + n)` is owned. -/
def Unowned (m : Nat → Option α) (lo n : Nat) : Prop :=
  ∀ b, lo ≤ b → b < lo + n → m b = none

/-- The range `[lo, lo + n)` now belongs to `h`. -/
def claim (m : Nat → Option α) (lo n : Nat) (h : α) : Nat → Option α :=
  fun b => if lo ≤ b ∧ b < lo + n then some h else m b

/-- Every byte of `h` is unowned again. -/
def release [DecidableEq α] (m : Nat → Option α) (h : α) : Nat → Option α :=
  fun b => if m b = some h then none else m b

theorem claim_eq_some_iff {m : Nat → Option α} {lo n b : Nat} {h h' : α}
    (hfree : Unowned m lo n) :
    claim m lo n h b = some h' ↔ (lo ≤ b ∧ b < lo + n ∧ h' = h) ∨ m b = some h' := by
  unfold claim
  split
  · rename_i hin
    rw [hfree b hin.1 hin.2]
    simp [hin, eq_comm]
  · rename_i hout
    constructor
    · exact Or.inr
    · rintro (⟨h1, h2, _⟩ | hm)
      · exact absurd ⟨h1, h2⟩ hout
      · exact hm

theorem release_eq_some_iff [DecidableEq α] {m : Nat → Option α} {b : Nat} {h h' : α} :
    release m h b = some h' ↔ m b = some h' ∧ h' ≠ h := by
  unfold release
  split
  · rename_i heq
    rw [heq]
    simp [eq_comm]
  · rename_i hne
    constructor
    · exact fun hm => ⟨hm, fun hc => hne (hc ▸ hm)⟩
    · exact fun hm => hm.1

theorem Unowned.release [DecidableEq α] {m : Nat → Option α} {lo n : Nat} (h : Unowned m lo n)
    (x : α) : Unowned (release m x) lo n := by
  intro b h1 h2
  refine Option.eq_none_iff_forall_ne_some.mpr (fun y hy => ?_)
  rw [release_eq_some_iff, h b h1 h2] at hy
  cases hy.1

end ByteMaps

namespace RegionAllocator

open Lib

/-! ## The owner of a byte -/

/-- An allocation id with its generation. -/
abbrev Handle := AllocationId × AllocationGeneration

/-- The allocation whose live region holds byte `b`. -/
def owner (ra : RegionAllocator) (b : Nat) : Option Handle :=
  (ra.regions.entries.find? (fun e =>
      e.2.live && decide (e.1.toNat ≤ b ∧ b < e.1.toNat + e.2.size.toNat))).map
    (fun e => (e.2.allocId, e.2.allocGeneration))

section Owner

variable {ra ra' : RegionAllocator} {id : AllocationId} {old new : Option RegionInfo}

/-- Two live regions that share a byte are one. -/
theorem Inv.shared_byte (hinv : Inv ra) {k k' : UInt64} {r r' : RegionInfo} {b : Nat}
    (hl : ra.LiveAt k r) (hl' : ra.LiveAt k' r') (hb : b ∈ bytesAt k r) (hb' : b ∈ bytesAt k' r') :
    k = k' :=
  hinv.layout.part.shared toNat_strictMono.injective hl.1 hl'.1 hb hb'

theorem Inv.owner_eq_some_iff (hinv : Inv ra) {b : Nat} {h : Handle} :
    ra.owner b = some h ↔
      ∃ k r, ra.LiveAt k r ∧ b ∈ bytesAt k r ∧ h = (r.allocId, r.allocGeneration) := by
  unfold owner
  rw [Option.map_eq_some_iff]
  constructor
  · rintro ⟨⟨k, r⟩, hfind, rfl⟩
    have hp := List.find?_some hfind
    simp only [Bool.and_eq_true, decide_eq_true_eq] at hp
    exact ⟨k, r, ⟨OrdMap.find?_eq_some_iff.mpr (List.mem_of_find?_eq_some hfind), hp.1⟩, hp.2, rfl⟩
  · rintro ⟨k, r, hl, hb, rfl⟩
    have hmem := OrdMap.find?_eq_some_iff.mp hl.1
    cases hfind : ra.regions.entries.find? (fun e =>
        e.2.live && decide (e.1.toNat ≤ b ∧ b < e.1.toNat + e.2.size.toNat)) with
    | none =>
        have := List.find?_eq_none.mp hfind (k, r) hmem
        exact absurd (by simpa [hl.2] using mem_bytesAt.mp hb) this
    | some e =>
        obtain ⟨k', r'⟩ := e
        have hp := List.find?_some hfind
        simp only [Bool.and_eq_true, decide_eq_true_eq] at hp
        have hl' : ra.LiveAt k' r' :=
          ⟨OrdMap.find?_eq_some_iff.mpr (List.mem_of_find?_eq_some hfind), hp.1⟩
        have heq := hinv.shared_byte hl' hl hp.2 hb
        subst heq
        rw [hl.unique hl']
        exact ⟨(k', r'), rfl, rfl⟩

/-- The bytes of a handle are the bytes of the region it holds. -/
theorem Sound.owner_eq_some_iff {capacity : UInt64} (h : Sound capacity ra) {b : Nat}
    {id : AllocationId} {gen : AllocationGeneration} :
    ra.owner b = some (id, gen) ↔ ∃ r, ra.Holds id gen r ∧ b ∈ bytesAt r.offset r := by
  rw [h.inv.owner_eq_some_iff]
  constructor
  · rintro ⟨k, r, hl, hb, heq⟩
    cases heq
    have hk := h.inv.offset_eq hl
    exact ⟨r, ⟨lookup_eq_some_iff.mpr ⟨k, h.indexed hl, hl⟩, rfl⟩, by rw [hk]; exact hb⟩
  · rintro ⟨r, hr, hb⟩
    obtain ⟨_, hl, hid⟩ := hr.liveAt h.inv
    exact ⟨r.offset, r, hl, hb, by rw [hid, hr.2]⟩

/-- The owners after a call, read off its effect. -/
theorem Effect.owner_iff (hinv : Inv ra) (he : Effect ra ra' id old new) {b : Nat} {h : Handle} :
    ra'.owner b = some h ↔
      (∃ n, new = some n ∧ b ∈ bytesAt n.offset n ∧ h = (n.allocId, n.allocGeneration)) ∨
      (ra.owner b = some h ∧ ∀ o, old = some o → b ∉ bytesAt o.offset o) := by
  rw [(he.inv hinv).owner_eq_some_iff, hinv.owner_eq_some_iff]
  constructor
  · rintro ⟨k, r, hl, hb, hh⟩
    rcases (he.live k r).mp hl with ⟨hnew, hk⟩ | ⟨hl, hout⟩
    · exact Or.inl ⟨r, hnew, by rw [← hk]; exact hb, hh⟩
    · refine Or.inr ⟨⟨k, r, hl, hb, hh⟩, fun o ho hbo => hout o ho ?_⟩
      exact hinv.shared_byte hl (he.old_live ho).1 hb hbo
  · rintro (⟨n, hnew, hb, hh⟩ | ⟨⟨k, r, hl, hb, hh⟩, hout⟩)
    · exact ⟨n.offset, n, he.liveAt_new hnew, hb, hh⟩
    · refine ⟨k, r, (he.live k r).mpr (Or.inr ⟨hl, fun o ho hk => hout o ho ?_⟩), hb, hh⟩
      rw [hk] at hl hb
      rwa [hl.unique (he.old_live ho).1] at hb

/-- Where the new region lies, only the old one may have been. -/
theorem Effect.unowned_new (hinv : Inv ra) (he : Effect ra ra' id old new) {n : RegionInfo}
    (hnew : new = some n) {b : Nat} (hb : b ∈ bytesAt n.offset n)
    (hout : ∀ o, old = some o → b ∉ bytesAt o.offset o) : ra.owner b = none := by
  refine Option.eq_none_iff_forall_ne_some.mpr (fun h hown => ?_)
  obtain ⟨k, r, hl, hbr, _⟩ := hinv.owner_eq_some_iff.mp hown
  have hkept : ra'.LiveAt k r := (he.live k r).mpr (Or.inr ⟨hl, fun o ho hk => by
    rw [hk] at hl hbr
    rw [hl.unique (he.old_live ho).1] at hbr
    exact hout o ho hbr⟩)
  have hk := (he.inv hinv).shared_byte hkept (he.liveAt_new hnew) hbr hb
  rw [hk] at hl hbr
  have hr := he.new_fresh hnew hl
  have hoff := hinv.offset_eq hl
  exact hout r hr (by rw [hoff]; exact hbr)

/-- The call touches neither the bytes nor the region of `j`. -/
structure Untouched (ra ra' : RegionAllocator) (j : AllocationId) : Prop where
  bytes : ∀ b gen, ra'.owner b = some (j, gen) ↔ ra.owner b = some (j, gen)
  region : ∀ k r, r.allocId = j → (ra'.LiveAt k r ↔ ra.LiveAt k r)

theorem Untouched.refl (ra : RegionAllocator) (j : AllocationId) : Untouched ra ra j :=
  ⟨fun _ _ => Iff.rfl, fun _ _ _ => Iff.rfl⟩

theorem Effect.untouched (hinv : Inv ra) (he : Effect ra ra' id old new) {j : AllocationId}
    (hj : j ≠ id) : Untouched ra ra' j := by
  have hregion : ∀ k r, r.allocId = j → (ra'.LiveAt k r ↔ ra.LiveAt k r) := by
    intro k r hr
    rw [he.live]
    constructor
    · rintro (⟨hnew, _⟩ | ⟨hl, _⟩)
      · exact absurd (hr.symm.trans (he.new_ok hnew).2.1) hj
      · exact hl
    · intro hl
      refine Or.inr ⟨hl, fun o ho hk => hj ?_⟩
      rw [hk] at hl
      rw [← hr, hl.unique (he.old_live ho).1, (he.old_live ho).2]
  refine ⟨fun b gen => ?_, hregion⟩
  rw [(he.inv hinv).owner_eq_some_iff, hinv.owner_eq_some_iff]
  constructor
  · rintro ⟨k, r, hl, hb, hh⟩
    exact ⟨k, r, (hregion k r (congrArg Prod.fst hh).symm).mp hl, hb, hh⟩
  · rintro ⟨k, r, hl, hb, hh⟩
    exact ⟨k, r, (hregion k r (congrArg Prod.fst hh).symm).mpr hl, hb, hh⟩

end Owner

/-! ## The refinement -/

/-- What a call with its reply means for the owners. -/
def OwnerStep (m : Nat → Option Handle) : Call → Result RegionInfo → (Nat → Option Handle) → Prop
  | .allocate req, .ok live, m' =>
      live.size.toNat = roundUp req.bytes.toNat req.alignment.toNat ∧
      Unowned m live.offset.toNat live.size.toNat ∧
      m' = claim m live.offset.toNat live.size.toNat (req.allocId, req.allocGeneration)
  | .free id gen, .ok _, m' => m' = release m (id, gen)
  | .relocate id gen o n _, .ok _, m' =>
      Unowned m o.toNat n.toNat ∧
      m' = claim (release m (id, gen)) o.toNat n.toNat (id, gen.next)
  | _, _, m' => m' = m

section Refinement

variable {ra : RegionAllocator} {capacity : UInt64}

theorem allocate_ownerStep (h : Sound capacity ra) {req : AllocRequest} {live : RegionInfo}
    {ra' : RegionAllocator} (hp : Placed ra req live ra') :
    OwnerStep ra.owner (.allocate req) (.ok live) ra'.owner := by
  obtain ⟨ra₀, off, aligned, hmade⟩ := hp.made
  have hfree : Unowned ra.owner live.offset.toNat live.size.toNat := fun b h1 h2 =>
    hp.effect.unowned_new h.inv rfl (mem_bytesAt.mpr ⟨h1, h2⟩) (fun o ho => by cases ho)
  refine ⟨hp.size, hfree, funext (fun b => Option.ext (fun x => ?_))⟩
  rw [hp.effect.owner_iff h.inv, claim_eq_some_iff hfree]
  constructor
  · rintro (⟨n, hn, hb, hx⟩ | ⟨hown, _⟩)
    · cases hn
      refine Or.inl ⟨hb.1, hb.2, ?_⟩
      rw [hx, hmade]
      rfl
    · exact Or.inr hown
  · rintro (⟨h1, h2, hx⟩ | hown)
    · refine Or.inl ⟨live, rfl, ⟨h1, h2⟩, ?_⟩
      rw [hx, hmade]
      rfl
    · exact Or.inr ⟨hown, fun o ho => by cases ho⟩

theorem free_ownerStep (h : Sound capacity ra) {id : AllocationId} {gen : AllocationGeneration}
    {r f : RegionInfo} {ra' : RegionAllocator} (hr : ra.Holds id gen r)
    (he : Effect ra ra' id (some r) none) : OwnerStep ra.owner (.free id gen) (.ok f) ra'.owner := by
  refine funext (fun b => Option.ext (fun x => ?_))
  rw [he.owner_iff h.inv, release_eq_some_iff]
  constructor
  · rintro (⟨n, hn, _⟩ | ⟨hown, hout⟩)
    · cases hn
    · refine ⟨hown, fun hx => hout r rfl ?_⟩
      rw [hx] at hown
      obtain ⟨r', hr', hb⟩ := h.owner_eq_some_iff.mp hown
      rwa [hr.unique hr']
  · rintro ⟨hown, hx⟩
    refine Or.inr ⟨hown, fun o ho hb => hx ?_⟩
    cases ho
    have := h.owner_eq_some_iff.mpr ⟨r, hr, hb⟩
    rw [hown] at this
    simpa using this

theorem relocate_ownerStep (h : Sound capacity ra) {id : AllocationId}
    {gen : AllocationGeneration} {old : RegionInfo} {o n a : UInt64} {ra' : RegionAllocator}
    (hold : ra.Holds id gen old) (hadm : ra.Admissible o n a)
    (he : Effect ra ra' id (some old) (some (movedRegion old gen o n a))) :
    OwnerStep ra.owner (.relocate id gen o n a) (.ok (movedRegion old gen o n a)) ra'.owner := by
  have hfree : Unowned ra.owner o.toNat n.toNat := by
    intro b h1 h2
    refine Option.eq_none_iff_forall_ne_some.mpr (fun x hown => ?_)
    obtain ⟨k, r, hl, hb, _⟩ := h.inv.owner_eq_some_iff.mp hown
    have := hadm.clear k r hl
    rw [mem_bytesAt] at hb
    omega
  have hid := (hold.liveAt h.inv).2.2
  refine ⟨hfree, funext (fun b => Option.ext (fun x => ?_))⟩
  rw [he.owner_iff h.inv, claim_eq_some_iff (hfree.release _), release_eq_some_iff]
  constructor
  · rintro (⟨m, hm, hb, hx⟩ | ⟨hown, hout⟩)
    · cases hm
      refine Or.inl ⟨hb.1, hb.2, ?_⟩
      rw [hx, movedRegion, hid]
    · refine Or.inr ⟨hown, fun hx => hout old rfl ?_⟩
      rw [hx] at hown
      obtain ⟨r', hr', hb⟩ := h.owner_eq_some_iff.mp hown
      rwa [hold.unique hr']
  · rintro (⟨h1, h2, hx⟩ | ⟨hown, hx⟩)
    · refine Or.inl ⟨_, rfl, ⟨h1, h2⟩, ?_⟩
      rw [hx, movedRegion, hid]
    · refine Or.inr ⟨hown, fun o' ho' hb => hx ?_⟩
      cases ho'
      have := h.owner_eq_some_iff.mpr ⟨old, hold, hb⟩
      rw [hown] at this
      simpa using this

/-- Rewriting a region in place, with its id and generation, moves no owner. -/
theorem owner_replaced (h : Sound capacity ra) {id : AllocationId} {gen : AllocationGeneration}
    {r r' : RegionInfo} {ra' : RegionAllocator} (hr : ra.Holds id gen r)
    (he : Effect ra ra' id (some r) (some r')) (hoff : r'.offset = r.offset)
    (hsize : r'.size = r.size) (hid : r'.allocId = r.allocId)
    (hgen : r'.allocGeneration = r.allocGeneration) : ra'.owner = ra.owner := by
  have hbytes : bytesAt r'.offset r' = bytesAt r.offset r := by
    ext b
    rw [mem_bytesAt, mem_bytesAt, hoff, hsize]
  have hrid := (hr.liveAt h.inv).2.2
  refine funext (fun b => Option.ext (fun x => ?_))
  rw [he.owner_iff h.inv]
  constructor
  · rintro (⟨n, hn, hb, hx⟩ | ⟨hown, _⟩)
    · cases hn
      rw [hbytes] at hb
      rw [hx, hid, hgen, hrid, hr.2]
      exact h.owner_eq_some_iff.mpr ⟨r, hr, hb⟩
    · exact hown
  · intro hown
    by_cases hb : b ∈ bytesAt r.offset r
    · refine Or.inl ⟨r', rfl, by rw [hbytes]; exact hb, ?_⟩
      have := h.owner_eq_some_iff.mpr ⟨r, hr, hb⟩
      rw [hown] at this
      rw [hid, hgen, hrid, hr.2]
      simpa using this
    · exact Or.inr ⟨hown, fun o ho => by cases ho; exact hb⟩

/-- **One call** of a sound allocator is one step of the byte map. -/
theorem perform_ownerStep (h : Sound capacity ra) (c : Call) :
    OwnerStep ra.owner c (ra.perform c).1 (ra.perform c).2.owner := by
  cases c with
  | allocate req =>
      rcases allocate_cases h.inv req with ⟨f, heq⟩ | ⟨live, ra', heq, hplaced⟩
      · simp only [perform, heq]; rfl
      · simp only [perform, heq]; exact allocate_ownerStep h hplaced
  | free id gen =>
      rcases free_cases h.inv id gen with ⟨f, _, _, heq⟩ | ⟨r, f, ra', hr, heq, heff⟩
      · simp only [perform, heq]; rfl
      · simp only [perform, heq]; exact free_ownerStep h hr heff
  | relocate id gen o n a =>
      rcases relocate_cases h.inv id gen o n a with ⟨f, _, heq⟩ | ⟨old, ra', hold, hadm, heq, heff⟩
      · simp only [perform, heq]; rfl
      · simp only [perform, heq]; exact relocate_ownerStep h hold hadm heff
  | pin id gen =>
      rcases pin_cases h.inv id gen with ⟨f, _, _, heq⟩ | ⟨r, ra', hr, heq, heff⟩
      · simp only [perform, heq]; rfl
      · simp only [perform, heq]; exact owner_replaced h hr heff rfl rfl rfl rfl
  | unpin id gen =>
      rcases unpin_cases h.inv id gen with ⟨f, _, heq⟩ | ⟨r, ra', hr, _, heq, heff⟩
      · simp only [perform, heq]; rfl
      · simp only [perform, heq]; exact owner_replaced h hr heff rfl rfl rfl rfl
  | get id gen => rfl

/-- **Byte-ownership refinement.** In every allocator reached by calls whose
`allocate` calls bring ids that are not live, every further such call is
the step of the byte map that `OwnerStep` names, and leaves every other
allocation alone. -/
theorem reachable_ownerStep (capacity : UInt64) (hcap : capacity > 0) (calls : List Call)
    (c : Call) (hfresh : Guarded perform FreshId (new capacity) (calls ++ [c])) :
    let ra := run perform (new capacity) calls
    OwnerStep ra.owner c (ra.perform c).1 (ra.perform c).2.owner ∧
      ∀ j, j ≠ c.id → Untouched ra (ra.perform c).2 j := by
  have hsound := run_sound (UInt64.lt_iff_toNat_lt.mp hcap) (guarded_concat.mp hfresh).1
  refine ⟨perform_ownerStep hsound c, fun j hj => ?_⟩
  rcases perform_cases hsound.inv c with ⟨f, heq⟩ | ⟨_, _, r, _, heq⟩ | ⟨r, ra', _, _, heq, heff, _⟩
  · rw [heq]; exact Untouched.refl _ j
  · rw [heq]; exact Untouched.refl _ j
  · rw [heq]; exact heff.untouched hsound.inv hj

theorem sampleCalls_ownerStep :
    let ra := run perform (new 100) (sampleCalls.take 4)
    (ra.owner 20 = some (⟨2⟩, ⟨1⟩) ∧ (ra.perform (.free ⟨2⟩ ⟨1⟩)).2.owner 20 = none) ∧
      OwnerStep ra.owner (.free ⟨2⟩ ⟨1⟩) (ra.perform (.free ⟨2⟩ ⟨1⟩)).1
        (ra.perform (.free ⟨2⟩ ⟨1⟩)).2.owner ∧
      ∀ j, j ≠ ⟨2⟩ → Untouched ra (ra.perform (.free ⟨2⟩ ⟨1⟩)).2 j :=
  ⟨by decide +kernel, reachable_ownerStep 100 (by decide) (sampleCalls.take 4) (.free ⟨2⟩ ⟨1⟩)
    (by decide +kernel)⟩

end Refinement

end RegionAllocator

end GpuMemoryService
