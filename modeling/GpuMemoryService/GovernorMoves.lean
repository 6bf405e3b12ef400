/-
GpuMemoryService.GovernorMoves — what a relocation keeps.

`apply_relocation` takes the target from the caller. It checks the handle,
the pin count and that the target is free, but neither the movability of
the allocation nor that the new size still holds the requested bytes. Both
are exact here: an allocation granted as nonmovable stays where it is in
exactly the runs without an accepted move of one (`nonmovable_stays_iff`),
and every record covers its request in exactly the runs whose accepted
moves are large enough (`bytes_kept_iff`).
-/
import GpuMemoryService.GovernorLedger

namespace GpuMemoryService.MemoryGovernor

open Lib

/-! ## Nonmovable allocations -/

/-- The account is of a request for a nonmovable allocation. -/
structure Account.Nonmovable (a : Account) : Prop where
  movability : a.request.movability = .nonmovable
  unpinned : a.request.requiresPin = false

/-- Every live nonmovable allocation is where its request put it, in the
records and in the arena. -/
def Stays (t : List Event) (g : MemoryGovernor) : Prop :=
  ∀ id a, account id t = some a → a.released = false → a.Nonmovable →
    ∃ rec region, g.records.find? id = some rec ∧ g.arena.lookup id = some region ∧
      rec.offset = a.granted.offset ∧ region.offset = a.granted.offset

/-- The call is a relocation of a nonmovable allocation that passes the
checks of `apply_relocation`. -/
def MovesNonmovable (t : List Event) (g : MemoryGovernor) : Call → Prop
  | .applyRelocation id gen o n =>
      ∃ rec a, g.Relocatable id gen o n rec ∧ account id t = some a ∧ a.Nonmovable
  | _ => False

section Nonmovable

variable {g g' : MemoryGovernor} {t : List Event}

/-- A relocation never ends where it started: its own region is in the way. -/
theorem Current.offset_ne (h : Inv g) {id : AllocationId} {gen : AllocationGeneration}
    {rec : AllocationRecord} {region : RegionInfo} (hcur : g.Current id gen rec region)
    {o n align : UInt64} (hadm : g.arena.Admissible o n align) : o ≠ rec.offset := by
  intro heq
  obtain ⟨_, harena, _⟩ := h.current hcur.found
  obtain ⟨_, hlive, _⟩ := harena.lookup_some hcur.lookup
  have hsize := harena.size_pos hlive
  have hn := hadm.size_pos
  have hclear := hadm.clear _ _ hlive
  rw [heq, hcur.agrees.offset] at hclear
  omega

/-- The account of a live allocation, with its record and region. -/
theorem Tracks.open_account (h : Inv g) (ht : Tracks g t) {id : AllocationId} {a : Account}
    (ha : account id t = some a) (hrel : a.released = false) :
    ∃ rec region, g.Current id rec.generation rec region ∧ Follows id a rec region := by
  obtain ⟨rec, hf⟩ := (ht id).known ha hrel
  obtain ⟨_, _, region, hcur⟩ := h.current hf
  obtain ⟨a', ha', _, hfol⟩ := ht.current hcur
  rw [ha] at ha'
  cases ha'
  exact ⟨rec, region, hcur, hfol⟩

/-- No nonmovable account has a move. -/
def Unmoved (t : List Event) : Prop :=
  ∀ id a, account id t = some a → a.Nonmovable → a.moves = 0

theorem Unmoved.enter_map (h : Unmoved t) {id i : AllocationId} {a : Account}
    {f : Account → Account} (ha : (if i = id then (account id t).map f else account id t) = some a)
    (hnon : a.Nonmovable) (hreq : ∀ x, (f x).request = x.request)
    (hmoves : ∀ x, (f x).moves = x.moves) : a.moves = 0 := by
  obtain ⟨x, hx, rfl | ⟨_, rfl⟩⟩ := enter_map_cases ha
  · exact h id a hx hnon
  · rw [hmoves]
    refine h id x hx ⟨?_, ?_⟩
    · rw [← hreq]
      exact hnon.movability
    · rw [← hreq]
      exact hnon.unpinned

/-- **One step** that moves no nonmovable allocation. -/
theorem Step.unmoved (hu : Unmoved t) {c : Call} {reply : Reply} (hs : Step g c reply g')
    (hno : ¬ MovesNonmovable t g c) : Unmoved (t ++ [(c, reply)]) := by
  intro id a ha hnon
  rw [account_concat] at ha
  cases hs with
  | quiet _ hm _ =>
      rw [enter_of_not_mutates hm] at ha
      exact hu id a ha hnon
  | granted hready hp =>
      simp only [enter] at ha
      split at ha
      · cases ha
        rfl
      · exact hu id a ha hnon
  | released hc _ _ _ _ _ =>
      rw [enter_release hc] at ha
      exact hu.enter_map ha hnon (fun _ => rfl) (fun _ => rfl)
  | pinned _ _ => exact hu.enter_map ha hnon (fun _ => rfl) (fun _ => rfl)
  | unpinned _ _ _ => exact hu.enter_map ha hnon (fun _ => rfl) (fun _ => rfl)
  | @moved i gen o n rec region arena hcur hpins hadm he =>
      obtain ⟨x, hx, rfl | ⟨rfl, rfl⟩⟩ := enter_map_cases ha
      · exact hu id a hx hnon
      · refine absurd ⟨rec, x, ⟨hcur.found, hcur.generation, hpins, hadm⟩, hx, ?_⟩ hno
        exact ⟨hnon.movability, hnon.unpinned⟩
  | restored s => cases ha

/-- An unmoved allocation is where its request put it. -/
theorem Unmoved.stays (h : Inv g) (ht : Tracks g t) (hu : Unmoved t) : Stays t g := by
  intro id a ha hrel hnon
  obtain ⟨rec, region, hcur, hfol⟩ := ht.open_account h ha hrel
  have hoff := hfol.offset (hu id a ha hnon)
  exact ⟨rec, region, hcur.found, hcur.lookup, hoff, by rw [← hcur.agrees.offset]; exact hoff⟩

theorem run_unmoved {domain : MemoryDomain} {hasBackend : Bool} {calls : List Call}
    (hno : ∀ pre c, pre ++ [c] <+: calls →
      ¬ MovesNonmovable (trace perform (new domain hasBackend) pre)
        (run perform (new domain hasBackend) pre) c) :
    Unmoved (trace perform (new domain hasBackend) calls) := by
  induction calls using List.reverseRecOn with
  | nil => exact fun id a ha => by cases ha
  | append_singleton calls c ih =>
      rw [trace_concat]
      have hpre : calls <+: calls ++ [c] := List.prefix_append _ _
      exact (perform_step (run_inv (inv_new domain hasBackend) calls) c).unmoved
        (ih (fun pre d h => hno pre d (h.trans hpre))) (hno calls c (List.prefix_refl _))

/-- An accepted move of a nonmovable allocation takes it from its place. -/
theorem MovesNonmovable.not_stays (h : Inv g) (ht : Tracks g t) (hst : Stays t g) {c : Call}
    (hm : MovesNonmovable t g c) : ¬ Stays (t ++ [(c, (g.perform c).1)]) (g.perform c).2 := by
  intro hst'
  cases c with
  | applyRelocation id gen o n =>
      obtain ⟨rec, a, hrel, ha, hnon⟩ := hm
      obtain ⟨_, _, region, hcur⟩ := h.current hrel.found
      rw [hrel.generation] at hcur
      obtain ⟨a', ha', hopen, _⟩ := ht.current hcur
      rw [ha] at ha'
      cases ha'
      obtain ⟨rec₀, _, hf₀, _, hoff, _⟩ := hst id a ha hopen hnon
      rw [hcur.found] at hf₀
      cases hf₀
      rcases hcur.applyRelocation h o n with ⟨hno, _⟩ | ⟨_, arena, heq, heff⟩
      · exact hno hrel
      have hperform : g.perform (.applyRelocation id gen o n)
          = (.handle (.ok ⟨id, gen.next, o, n, rec.alignment⟩), g.recordMove id rec
              (RegionAllocator.movedRegion region gen o n rec.alignment) arena) := by
        simp only [perform, heq]
      rw [hperform] at hst'
      obtain ⟨rec', _, hf', _, hoff', _⟩ := hst' id
        { a with generation := gen.next, moves := a.moves + 1 }
        (by rw [account_concat, ha]; simp [enter]) hopen ⟨hnon.movability, hnon.unpinned⟩
      rw [(moved_update h hcur heff).records, if_pos rfl] at hf'
      cases hf'
      exact hcur.offset_ne h hrel.admissible (by rw [hoff]; exact hoff')
  | _ => exact hm

/-- **Nonmovable allocations stay** throughout exactly the runs that contain
no relocation of one that passes the checks of `apply_relocation`. -/
theorem nonmovable_stays_iff (domain : MemoryDomain) (hasBackend : Bool) (calls : List Call) :
    Throughout perform Stays (new domain hasBackend) calls ↔
      ∀ pre c, pre ++ [c] <+: calls →
        ¬ MovesNonmovable (trace perform (new domain hasBackend) pre)
          (run perform (new domain hasBackend) pre) c := by
  constructor
  · intro hst pre c hpre hm
    refine hm.not_stays (run_inv (inv_new domain hasBackend) pre)
      (run_tracks domain hasBackend pre) (hst pre ((List.prefix_append _ _).trans hpre)) ?_
    rw [← trace_concat, ← run_concat]
    exact hst _ hpre
  · intro hno pre hpre
    exact (run_unmoved (fun p c h => hno p c (h.trans hpre))).stays
      (run_inv (inv_new domain hasBackend) pre) (run_tracks domain hasBackend pre)

/-- A nonmovable allocation and a relocation of it. -/
def nonmovableMoved : List Call :=
  [.initializeArena (.ok 4096),
   .request { bytes := 8, movability := .nonmovable },
   .applyRelocation ⟨1⟩ ⟨1⟩ 64 8]

theorem nonmovableMoved_moves :
    let g := run perform (new { managedCapacity := 1024 } true) nonmovableMoved
    let t := trace perform (new { managedCapacity := 1024 } true) nonmovableMoved
    ¬ Stays t g ∧ ∃ a, account ⟨1⟩ t = some a ∧ a.released = false ∧ a.Nonmovable ∧
      a.granted.offset = 0 ∧ (g.records.find? ⟨1⟩).map (·.offset) = some 64 := by
  intro g t
  have hacc : account ⟨1⟩ t = some
      { request := { bytes := 8, movability := .nonmovable }
        granted := ⟨⟨1⟩, .first, 0, 8, 1⟩
        generation := ⟨2⟩
        moves := 1 } := by decide +kernel
  have hmoved : (g.records.find? ⟨1⟩).map (·.offset) = some 64 := by decide +kernel
  refine ⟨fun hst => ?_, _, hacc, rfl, ⟨rfl, rfl⟩, rfl, hmoved⟩
  obtain ⟨rec, _, hf, _, hoff, _⟩ := hst ⟨1⟩ _ hacc rfl ⟨rfl, rfl⟩
  rw [hf, Option.map_some, hoff] at hmoved
  exact absurd hmoved (by decide)

end Nonmovable

/-! ## Requested bytes -/

/-- The record covers its request, aligned and inside the managed memory. -/
structure Covers (g : MemoryGovernor) (rec : AllocationRecord) : Prop where
  bytes : rec.requestedBytes.toNat ≤ rec.regionSize.toNat
  aligned : rec.alignment.toNat ∣ rec.offset.toNat
  inside : rec.offset.toNat + rec.regionSize.toNat ≤ g.domain.managedCapacity.toNat

/-- Every live record covers its request. -/
def BytesKept (g : MemoryGovernor) : Prop :=
  ∀ id rec, g.records.find? id = some rec → g.Covers rec

/-- A relocation that passes the checks of `apply_relocation` asks for at
least the requested bytes. -/
def KeepsBytes (g : MemoryGovernor) : Call → Prop
  | .applyRelocation id gen o n =>
      ∀ rec, g.Relocatable id gen o n rec → rec.requestedBytes.toNat ≤ n.toNat
  | _ => True

section Bytes

variable {g : MemoryGovernor}

/-- Alignment and bounds come with the arena, so only the size is at stake. -/
theorem Inv.bytesKept_iff (h : Inv g) :
    BytesKept g ↔ ∀ id rec, g.records.find? id = some rec →
      rec.requestedBytes.toNat ≤ rec.regionSize.toNat := by
  constructor
  · intro hb id rec hf
    exact (hb id rec hf).bytes
  · intro hb id rec hf
    obtain ⟨_, harena, region, hcur⟩ := h.current hf
    obtain ⟨_, hlive, _⟩ := harena.lookup_some hcur.lookup
    refine ⟨hb id rec hf, ?_, ?_⟩
    · rw [hcur.agrees.alignment, hcur.agrees.offset]
      exact (harena.aligned hlive).2
    · rw [hcur.agrees.offset, hcur.agrees.size, ← h.capacity]
      exact harena.end_le hlive.1

theorem bytes_le_granted {ra ra' : RegionAllocator} {req : AllocationRequest} {id : AllocationId}
    {live : RegionInfo} (hp : ra.Placed (arenaRequest req id) live ra') :
    req.bytes.toNat ≤ live.size.toNat := by
  obtain ⟨ra₀, off, aligned, hlive⟩ := hp.made
  have hpow := (hp.effect.new_ok rfl).2.2.1
  rw [hlive] at hpow
  rw [hp.size]
  exact le_roundUp _ (RegionAllocator.toNat_pos_of_isPow2 hpow)

/-- **One call** keeps the requested bytes exactly if it meets `KeepsBytes`. -/
theorem perform_bytesKept (h : Inv g) (hb : BytesKept g) (c : Call) :
    BytesKept (g.perform c).2 ↔ KeepsBytes g c := by
  have hs := perform_step h c
  rw [(hs.inv h).bytesKept_iff]
  have hsizes := h.bytesKept_iff.mp hb
  generalize hreply : (g.perform c).1 = reply at hs
  generalize (g.perform c).2 = g' at hs
  cases hs with
  | quiet hq hm _ =>
      refine iff_of_true (by rw [hq.records]; exact hsizes) ?_
      cases c with
      | applyRelocation id gen o n =>
          rw [← hreply] at hm
          exact fun rec hr => absurd hr (not_relocatable h hm rec)
      | _ => trivial
  | granted hready hp =>
      refine iff_of_true (((granted_update h hready hp).forall_records hsizes).mpr ?_) trivial
      intro r hr
      cases hr
      exact bytes_le_granted hp
  | released hc hcur _ _ _ he =>
      refine iff_of_true (((released_update h hcur he).forall_records hsizes).mpr ?_) ?_
      · intro r hr
        cases hr
      · rcases hc with rfl | ⟨_, _, rfl⟩ <;> trivial
  | pinned hcur he =>
      refine iff_of_true (((pinned_update h hcur he).forall_records hsizes).mpr ?_) trivial
      intro r hr
      cases hr
      have hbefore := hsizes _ _ hcur.found
      exact hbefore
  | unpinned hcur _ he =>
      refine iff_of_true (((unpinned_update h hcur he).forall_records hsizes).mpr ?_) trivial
      intro r hr
      cases hr
      have hbefore := hsizes _ _ hcur.found
      exact hbefore
  | moved hcur hpins hadm he =>
      rw [(moved_update h hcur he).forall_records hsizes, KeepsBytes,
        hcur.forall_relocatable hpins hadm]
      constructor
      · intro hkept
        have hle := hkept _ rfl
        exact hle
      · intro hle r hr
        cases hr
        exact hle
  | restored s =>
      refine iff_of_true (fun id rec hf => ?_) trivial
      simp [restore] at hf

/-- **Granted bytes are kept** throughout exactly the runs in which every
relocation that passes the checks of `apply_relocation` asks for at least
the requested bytes. -/
theorem bytes_kept_iff (domain : MemoryDomain) (hasBackend : Bool) (calls : List Call) :
    Throughout perform (fun _ g => BytesKept g) (new domain hasBackend) calls ↔
      Guarded perform KeepsBytes (new domain hasBackend) calls := by
  rw [guarded_iff_concat]
  refine @throughout_iff _ _ _ perform (fun _ g => BytesKept g) (fun _ g c => KeepsBytes g c)
    (new domain hasBackend) calls (fun id rec hf => ?_) (fun pre c hb => ?_)
  · simp [new] at hf
  · rw [run_concat]
    exact perform_bytesKept (run_inv (inv_new domain hasBackend) pre) hb c

/-- An allocation of 100 bytes moved into 16. -/
def truncatingMove : List Call :=
  [.initializeArena (.ok 4096), .request { bytes := 100 }, .applyRelocation ⟨1⟩ ⟨1⟩ 512 16]

theorem truncatingMove_loses_bytes :
    let g := run perform (new { managedCapacity := 1024 } true) truncatingMove
    ¬ BytesKept g ∧ ∃ rec, g.records.find? ⟨1⟩ = some rec ∧ rec.requestedBytes = 100 ∧
      rec.regionSize = 16 := by
  intro g
  obtain ⟨rec, hf, hsizes⟩ : ∃ rec, g.records.find? ⟨1⟩ = some rec ∧
      (rec.requestedBytes, rec.regionSize) = (100, 16) :=
    Option.map_eq_some_iff.mp (by decide +kernel :
      (g.records.find? ⟨1⟩).map (fun r => (r.requestedBytes, r.regionSize)) = some (100, 16))
  simp only [Prod.mk.injEq] at hsizes
  refine ⟨fun hb => ?_, rec, hf, hsizes⟩
  have hle := (hb ⟨1⟩ rec hf).bytes
  rw [hsizes.1, hsizes.2] at hle
  exact absurd hle (by decide)

end Bytes

end GpuMemoryService.MemoryGovernor
