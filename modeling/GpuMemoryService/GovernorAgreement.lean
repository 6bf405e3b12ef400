/-
GpuMemoryService.GovernorAgreement — authority and layout never drift
apart.

The id counter is a word that wraps, so a governor that has drawn 2^64 ids
hands out ids again. `FreshGrant` is the condition under which it does
not matter, and `guarded_freshGrant` derives it from a bound on the
number of requests. Under it every live region is indexed, and
`reachable_agreement` reads off that records and live regions are the same
allocations, with the same data.
-/
import GpuMemoryService.GovernorInvariant

namespace GpuMemoryService.MemoryGovernor

open Lib

/-! ## Fresh ids -/

/-- An accepted request draws an id that no live record has. -/
def FreshGrant (g : MemoryGovernor) : Call → Prop
  | .request req => Accepted (g.request req).1 → g.records.find? ⟨g.nextAllocId⟩ = none
  | _ => True

/-- Requests since construction or the last restore. -/
def requestsSince (calls : List Call) : Nat :=
  calls.foldl
    (fun n c =>
      match c with
      | .restore _ => 0
      | .request _ => n + 1
      | _ => n) 0

/-- Of the ids drawn since construction or the last restore, `n` at most,
`next` is the one to come; live records carry drawn ids. -/
def Drawn (g : MemoryGovernor) (n : Nat) : Prop :=
  ∃ (base : UInt64) (k : Nat), k ≤ n ∧ g.nextAllocId = base + UInt64.ofNat k ∧
    ∀ id rec, g.records.find? id = some rec → ∃ i < k, id.value = base + UInt64.ofNat i

/-- `k` ids have been drawn from `base` on, and live records carry them. -/
def DrawnFrom (base : UInt64) (k : Nat) (g : MemoryGovernor) : Prop :=
  g.nextAllocId = base + UInt64.ofNat k ∧
    ∀ id rec, g.records.find? id = some rec → ∃ i < k, id.value = base + UInt64.ofNat i

section Fresh

variable {g g' : MemoryGovernor}

theorem requestsSince_concat (calls : List Call) (c : Call) :
    requestsSince (calls ++ [c]) =
      match c with
      | .restore _ => 0
      | .request _ => requestsSince calls + 1
      | _ => requestsSince calls := by
  simp only [requestsSince, List.foldl_append, List.foldl_cons, List.foldl_nil]

theorem Drawn.mono {n m : Nat} (h : Drawn g n) (hle : n ≤ m) : Drawn g m := by
  obtain ⟨base, k, hk, hnext, hids⟩ := h
  exact ⟨base, k, by omega, hnext, hids⟩

/-- A call that draws no id and adds no record. -/
theorem DrawnFrom.keep {base : UInt64} {k : Nat} (h : DrawnFrom base k g)
    (hnext : g'.nextAllocId = g.nextAllocId)
    (hrec : ∀ id rec, g'.records.find? id = some rec → ∃ rec', g.records.find? id = some rec') :
    DrawnFrom base k g' := by
  refine ⟨hnext.trans h.1, fun id rec hf => ?_⟩
  obtain ⟨rec', hf'⟩ := hrec id rec hf
  exact h.2 id rec' hf'

/-- A call that draws one id, and adds a record at most for that. -/
theorem DrawnFrom.draw {base : UInt64} {k : Nat} (h : DrawnFrom base k g)
    (hnext : g'.nextAllocId = g.nextAllocId + 1)
    (hrec : ∀ id rec, g'.records.find? id = some rec →
      id = ⟨g.nextAllocId⟩ ∨ ∃ rec', g.records.find? id = some rec') :
    DrawnFrom base (k + 1) g' := by
  refine ⟨?_, fun id rec hf => ?_⟩
  · rw [hnext, h.1, UInt64.ofNat_add, UInt64.add_assoc]
    rfl
  · rcases hrec id rec hf with rfl | ⟨rec', hf'⟩
    · exact ⟨k, by omega, h.1⟩
    · obtain ⟨i, hi, hval⟩ := h.2 id rec' hf'
      exact ⟨i, by omega, hval⟩

/-- Below 2^64 draws the next id is not a live one. -/
theorem Drawn.fresh {n : Nat} (h : Drawn g n) (hn : n < 2 ^ 64) :
    g.records.find? ⟨g.nextAllocId⟩ = none := by
  obtain ⟨base, k, hk, hnext, hids⟩ := h
  cases hf : g.records.find? ⟨g.nextAllocId⟩ with
  | none => rfl
  | some rec =>
      obtain ⟨i, hi, hval⟩ := hids _ rec hf
      dsimp only at hval
      rw [hnext] at hval
      have hword := congrArg UInt64.toNat ((UInt64.add_right_inj _).mp hval)
      simp only [UInt64.toNat_ofNat'] at hword
      omega

/-- A step that rewrites records of live ids only. -/
theorem Update.keeps {id : AllocationId} {rec : Option AllocationRecord}
    {region : Option RegionInfo} (u : Update g g' id rec region)
    (hlive : ∃ r, g.records.find? id = some r) :
    ∀ i r, g'.records.find? i = some r → ∃ r', g.records.find? i = some r' := by
  intro i r hf
  rw [u.records] at hf
  split at hf
  · rename_i hi
    rw [hi]
    exact hlive
  · exact ⟨r, hf⟩

/-- Only a request draws an id, and one at most. -/
theorem Step.drawnFrom (h : Inv g) {c : Call} {reply : Reply} (hs : Step g c reply g')
    (hc : ∀ s, c ≠ .restore s) {base : UInt64} {k : Nat} (hd : DrawnFrom base k g) :
    DrawnFrom base k g' ∨ ((∃ req, c = .request req) ∧ DrawnFrom base (k + 1) g') := by
  cases hs with
  | quiet hq _ hid =>
      have hrec : ∀ id rec, g'.records.find? id = some rec → ∃ r, g.records.find? id = some r :=
        fun id rec hf => ⟨rec, by rw [← hq.records]; exact hf⟩
      rcases hid with hid | ⟨hreq, hid⟩
      · exact Or.inl (hd.keep hid hrec)
      · exact Or.inr ⟨hreq, hd.draw hid (fun id rec hf => Or.inr (hrec id rec hf))⟩
  | @granted req _ _ hready hp =>
      refine Or.inr ⟨⟨req, rfl⟩, hd.draw rfl (fun id rec hf => ?_)⟩
      rw [(granted_update h hready hp).records] at hf
      split at hf
      · rename_i hi
        exact Or.inl hi
      · exact Or.inr ⟨rec, hf⟩
  | released _ hcur _ _ _ he =>
      exact Or.inl (hd.keep rfl ((released_update h hcur he).keeps ⟨_, hcur.found⟩))
  | pinned hcur he => exact Or.inl (hd.keep rfl ((pinned_update h hcur he).keeps ⟨_, hcur.found⟩))
  | unpinned hcur _ he =>
      exact Or.inl (hd.keep rfl ((unpinned_update h hcur he).keeps ⟨_, hcur.found⟩))
  | moved hcur _ _ he => exact Or.inl (hd.keep rfl ((moved_update h hcur he).keeps ⟨_, hcur.found⟩))
  | restored s => exact absurd rfl (hc s)

theorem Step.drawn (h : Inv g) {c : Call} {reply : Reply} (hs : Step g c reply g')
    {calls : List Call} (hd : Drawn g (requestsSince calls)) :
    Drawn g' (requestsSince (calls ++ [c])) := by
  rw [requestsSince_concat]
  by_cases hrestore : ∃ s, c = .restore s
  · obtain ⟨s, rfl⟩ := hrestore
    cases hs with
    | quiet _ hm _ => simp [mutates] at hm
    | released hc _ _ _ _ _ => rcases hc with hc | ⟨_, _, hc⟩ <;> cases hc
    | restored =>
        exact ⟨s.nextAllocId, 0, le_rfl, by simp [restore], fun id rec hf => by simp [restore] at hf⟩
  · obtain ⟨base, k, hk, hfrom⟩ := hd
    rcases hs.drawnFrom h (fun s hc => hrestore ⟨s, hc⟩) hfrom with hsame | ⟨⟨req, rfl⟩, hdrawn⟩
    · have hkept : Drawn g' (requestsSince calls) := ⟨base, k, hk, hsame⟩
      cases c with
      | restore s => exact absurd ⟨s, rfl⟩ hrestore
      | request req => exact hkept.mono (Nat.le_succ _)
      | _ => exact hkept
    · exact ⟨base, k + 1, by dsimp only; omega, hdrawn⟩

theorem run_drawn (domain : MemoryDomain) (hasBackend : Bool) (calls : List Call) :
    Drawn (run perform (new domain hasBackend) calls) (requestsSince calls) := by
  induction calls using List.reverseRecOn with
  | nil => exact ⟨1, 0, le_rfl, rfl, fun id rec hf => by simp [new] at hf⟩
  | append_singleton calls c ih =>
      rw [run_concat]
      have hinv := run_inv (inv_new domain hasBackend) calls
      exact (perform_step hinv c).drawn hinv ih

/-- Fewer than 2^64 requests since construction or the last restore never
draw an id in use. -/
theorem guarded_freshGrant {domain : MemoryDomain} {hasBackend : Bool} {calls : List Call}
    (hreq : ∀ pre, pre <+: calls → requestsSince pre < 2 ^ 64) :
    Guarded perform FreshGrant (new domain hasBackend) calls := by
  induction calls using List.reverseRecOn with
  | nil => exact trivial
  | append_singleton calls c ih =>
      have hpre : calls <+: calls ++ [c] := ⟨[c], rfl⟩
      refine guarded_concat.mpr ⟨ih (fun pre hp => hreq pre (hp.trans hpre)), ?_⟩
      cases c with
      | request req => exact fun _ => (run_drawn domain hasBackend calls).fresh (hreq calls hpre)
      | _ => trivial

end Fresh

/-! ## Every live region is indexed -/

section IndexedRuns

variable {g g' : MemoryGovernor}

theorem Step.indexed (h : Inv g) (hidx : g.arena.Indexed) {c : Call} {reply : Reply}
    (hs : Step g c reply g')
    (hfresh : ∀ req a, c = .request req → reply = .handle (.ok a) →
      g.records.find? ⟨g.nextAllocId⟩ = none) : g'.arena.Indexed := by
  cases hs with
  | quiet hq _ _ =>
      rcases hq.arena with ha | ha
      · rw [ha]; exact hidx
      · rw [ha]
        intro k r hl
        simpa using hidx (by simpa [RegionAllocator.LiveAt] using hl)
  | granted hready hp =>
      refine hp.effect.indexed hidx (fun _ => ?_)
      cases hf : g.arena.allocOffset.find? ⟨g.nextAllocId⟩ with
      | none => exact hf
      | some off =>
          obtain ⟨r, hl⟩ := (h.arena (h.pos_of_ready hready)).lookup_of_find? hf
          obtain ⟨rec, hrec⟩ := h.covered hl
          rw [hfresh _ _ rfl rfl] at hrec
          cases hrec
  | released _ _ _ _ _ he => exact he.indexed hidx (fun hc => by cases hc)
  | pinned _ he => exact he.indexed hidx (fun hc => by cases hc)
  | unpinned _ _ he => exact he.indexed hidx (fun hc => by cases hc)
  | moved _ _ _ he => exact he.indexed hidx (fun hc => by cases hc)
  | restored s => exact RegionAllocator.indexed_new s.domain.managedCapacity

theorem FreshGrant.draws {c : Call} (hc : FreshGrant g c) {req : AllocationRequest}
    {a : AllocationHandle} (heq : c = .request req) (hreply : (g.perform c).1 = .handle (.ok a)) :
    g.records.find? ⟨g.nextAllocId⟩ = none := by
  subst heq
  exact hc ⟨a, by simpa [perform] using hreply⟩

/-- **Every run** in which no accepted request draws an id in use has all
its live regions indexed. -/
theorem run_indexed_of_grants {domain : MemoryDomain} {hasBackend : Bool} {calls : List Call}
    (hfresh : Guarded perform FreshGrant (new domain hasBackend) calls) :
    (run perform (new domain hasBackend) calls).arena.Indexed := by
  have hboth := hfresh.run_inv (I := fun g => Inv g ∧ g.arena.Indexed)
    ⟨inv_new domain hasBackend, RegionAllocator.indexed_new domain.managedCapacity⟩
    (fun g c hg hc => ⟨(perform_step hg.1 c).inv hg.1, (perform_step hg.1 c).indexed hg.1 hg.2
      (fun req a heq hreply => hc.draws heq hreply)⟩)
  exact fun {_ _} hl => hboth.2 hl

end IndexedRuns

/-! ## Agreement -/

/-- Records and live regions are the same allocations, with the same data. -/
structure Agreement (g : MemoryGovernor) : Prop where
  keys : ∀ id, id ∈ g.records ↔ ∃ r ∈ g.arena.snapshotLive, r.allocId = id
  agree : ∀ id rec, g.records.find? id = some rec →
    ∀ r ∈ g.arena.snapshotLive, r.allocId = id → Agrees rec r
  capacity : g.arena.capacity = g.domain.managedCapacity
  get : ∀ id gen, Accepted (g.get id gen) ↔
    ∃ rec, g.records.find? id = some rec ∧ rec.generation = gen

section Agreement

variable {g : MemoryGovernor}

/-- A query is answered exactly for the current handle. -/
theorem Inv.accepted_get (h : Inv g) (id : AllocationId) (gen : AllocationGeneration) :
    Accepted (g.get id gen) ↔ ∃ rec, g.records.find? id = some rec ∧ rec.generation = gen := by
  unfold get
  rcases locate_cases g id gen "stale allocation generation on query" with
    ⟨f, _, hnot, heq⟩ | ⟨rec, hf, hgen, heq⟩
  · rw [heq]
    constructor
    · rintro ⟨a, ha⟩
      cases ha
    · rintro ⟨rec, hf, hgen⟩
      exact absurd hgen (hnot rec hf)
  · refine iff_of_true ?_ ⟨rec, hf, hgen⟩
    obtain ⟨_, harena, region, hcur⟩ := h.current hf
    rw [hgen] at hcur
    rw [heq]
    simp only [RegionAllocator.get, RegionAllocator.locate_of_holds harena hcur.holds]
    exact ⟨rec, rfl⟩

theorem agreement_of_indexed (h : Inv g) (hpos : 0 < g.domain.managedCapacity.toNat)
    (hidx : g.arena.Indexed) : Agreement g := by
  have harena := h.arena hpos
  have hlookup : ∀ r ∈ g.arena.snapshotLive, g.arena.lookup r.allocId = some r := fun r hr => by
    have hl := harena.mem_snapshotLive.mp hr
    exact RegionAllocator.lookup_eq_some_iff.mpr ⟨r.offset, hidx hl, hl⟩
  refine ⟨fun id => ?_, fun id rec hf r hr hid => ?_, h.capacity, h.accepted_get⟩
  · rw [OrdMap.mem_iff_find?]
    constructor
    · rintro ⟨rec, hf⟩
      obtain ⟨r, hl, _⟩ := h.linked hf
      obtain ⟨_, hlive, hid⟩ := harena.lookup_some hl
      exact ⟨r, harena.mem_snapshotLive.mpr hlive, hid⟩
    · rintro ⟨r, hr, rfl⟩
      exact h.covered (hlookup r hr)
  · obtain ⟨r', hl, hag⟩ := h.linked hf
    have := hlookup r hr
    rw [hid, hl] at this
    cases this
    exact hag

theorem run_managed_pos {domain : MemoryDomain} {hasBackend : Bool} {calls : List Call}
    (hcap : domain.managedCapacity > 0)
    (hrestore : ∀ s, .restore s ∈ calls → s.domain.managedCapacity > 0) :
    0 < (run perform (new domain hasBackend) calls).domain.managedCapacity.toNat := by
  have hguard : Guarded perform
      (fun _ c => ∀ s, c = .restore s → s.domain.managedCapacity > 0) (new domain hasBackend) calls :=
    guarded_of_forall_mem (fun c hc _ s hs => hrestore s (hs ▸ hc))
  have hboth := hguard.run_inv (I := fun g => Inv g ∧ 0 < g.domain.managedCapacity.toNat)
    ⟨inv_new domain hasBackend, UInt64.lt_iff_toNat_lt.mp hcap⟩ (fun g c hg hc => ?_)
  · exact hboth.2
  · have hs := perform_step hg.1 c
    refine ⟨hs.inv hg.1, ?_⟩
    generalize (g.perform c).1 = reply at hs
    generalize (g.perform c).2 = g' at hs
    cases hs with
    | quiet hq _ _ => rw [hq.managed]; exact hg.2
    | granted hready hp => rw [(granted_update hg.1 hready hp).managed]; exact hg.2
    | released _ hcur _ _ _ he => rw [(released_update hg.1 hcur he).managed]; exact hg.2
    | pinned hcur he => rw [(pinned_update hg.1 hcur he).managed]; exact hg.2
    | unpinned hcur _ he => rw [(unpinned_update hg.1 hcur he).managed]; exact hg.2
    | moved hcur _ _ he => rw [(moved_update hg.1 hcur he).managed]; exact hg.2
    | restored s => exact UInt64.lt_iff_toNat_lt.mp (hc s rfl)

/-- **Governor and arena agree** after every run, restores of arbitrary
snapshots included, with fewer than 2^64 requests since construction or the
last restore. -/
theorem reachable_agreement (domain : MemoryDomain) (hasBackend : Bool) (calls : List Call)
    (hcap : domain.managedCapacity > 0)
    (hrestore : ∀ s, .restore s ∈ calls → s.domain.managedCapacity > 0)
    (hreq : ∀ pre, pre <+: calls → requestsSince pre < 2 ^ 64) :
    Agreement (run perform (new domain hasBackend) calls) :=
  agreement_of_indexed (run_inv (inv_new domain hasBackend) calls)
    (run_managed_pos hcap hrestore) (run_indexed_of_grants (guarded_freshGrant hreq))

theorem requestsSince_le_length (calls : List Call) : requestsSince calls ≤ calls.length := by
  induction calls using List.reverseRecOn with
  | nil => exact le_rfl
  | append_singleton calls c ih =>
      rw [requestsSince_concat, List.length_append, List.length_singleton]
      split <;> omega

/-- A run with a pin, a move, a release and a recovery. -/
def sampleRun : List Call :=
  [.initializeArena (.ok 4096),
   .request { bytes := 100, alignment := 64 },
   .request { bytes := 30, movability := .nonmovable },
   .pin ⟨1⟩ ⟨1⟩, .unpin ⟨1⟩ ⟨1⟩, .applyRelocation ⟨1⟩ ⟨1⟩ 512 128, .release ⟨2⟩ ⟨1⟩,
   .restore { domain := { managedCapacity := 512 }, nextAllocId := 9 },
   .initializeArena (.ok 8192),
   .request { bytes := 10 }]

theorem sampleRun_agreement :
    (∃ rec, (run perform (new { managedCapacity := 1024 } true) sampleRun).records.find? ⟨9⟩
      = some rec) ∧
    Agreement (run perform (new { managedCapacity := 1024 } true) sampleRun) := by
  refine ⟨Option.isSome_iff_exists.mp (by decide +kernel),
    reachable_agreement { managedCapacity := 1024 } true sampleRun (by decide) (fun s hs => ?_)
      (fun pre hp => ?_)⟩
  · simp only [sampleRun, List.mem_cons, List.not_mem_nil, reduceCtorEq, false_or, or_false,
      Call.restore.injEq] at hs
    rw [hs]
    decide
  · exact lt_of_le_of_lt (requestsSince_le_length pre) (lt_of_le_of_lt hp.length_le (by decide))

end Agreement

end GpuMemoryService.MemoryGovernor
