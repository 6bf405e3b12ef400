/-
GpuMemoryService.GovernorLedger — the ledger of a run, and that the
governor keeps to it.

The calls of a run and their replies are all a client sees. From them
alone, `account` keeps for each allocation id what a client is owed: the
request it was granted for, the generation of its current handle, its
accepted pins, unpins and moves, and whether it has been released. It does
not look at the governor's state, so it is the specification the state is
compared with: `run_tracks` shows that after every run each record is the
record its account describes, and each released account has its tombstone.
A request that is granted an id anew opens a new account for it, and a
restore closes all.
-/
import GpuMemoryService.GovernorInvariant

namespace GpuMemoryService.MemoryGovernor

open Lib

/-! ## Accounts -/

/-- What the trace says about one allocation. -/
structure Account where
  request : AllocationRequest
  granted : AllocationHandle
  generation : AllocationGeneration := .first
  pins : Nat := 0
  unpins : Nat := 0
  moves : Nat := 0
  released : Bool := false
deriving DecidableEq

/-- A call with its reply. -/
abbrev Event := Call × Reply

/-- Enter one event into the account of `id`. -/
def enter (id : AllocationId) (a : Option Account) : Event → Option Account
  | (.request req, .handle (.ok h)) =>
      if h.id = id then some { request := req, granted := h } else a
  | (.release i _, .record (.ok _)) =>
      if i = id then a.map (fun x => { x with released := true }) else a
  | (.releaseForWorker i _ _ _, .record (.ok _)) =>
      if i = id then a.map (fun x => { x with released := true }) else a
  | (.pin i _, .done (.ok _)) =>
      if i = id then a.map (fun x => { x with pins := x.pins + 1 }) else a
  | (.unpin i _, .done (.ok _)) =>
      if i = id then a.map (fun x => { x with unpins := x.unpins + 1 }) else a
  | (.applyRelocation i _ _ _, .handle (.ok h)) =>
      if i = id then a.map (fun x => { x with generation := h.generation, moves := x.moves + 1 })
      else a
  | (.restore _, _) => none
  | _ => a

/-- The account of `id` after a trace. -/
def account (id : AllocationId) (t : List Event) : Option Account := t.foldl (enter id) none

theorem account_concat (id : AllocationId) (t : List Event) (e : Event) :
    account id (t ++ [e]) = enter id (account id t) e := by
  simp only [account, List.foldl_append, List.foldl_cons, List.foldl_nil]

/-- Events that change no allocation change no account. -/
theorem enter_of_not_mutates {c : Call} {reply : Reply} (hm : mutates c reply = false)
    (id : AllocationId) (a : Option Account) : enter id a (c, reply) = a := by
  unfold enter
  split <;> first | rfl | simp_all [mutates]

theorem enter_release {id i : AllocationId} {gen : AllocationGeneration} {c : Call}
    (hc : IsRelease i gen c) (a : Option Account) (rel : AllocationRecord) :
    enter id a (c, .record (.ok rel))
      = if i = id then a.map (fun x => { x with released := true }) else a := by
  rcases hc with rfl | ⟨_, _, rfl⟩ <;> rfl

/-- An entry that rewrites the account of one id and opens none. -/
theorem enter_map_cases {id i : AllocationId} {a? : Option Account} {a : Account}
    {f : Account → Account} (h : (if i = id then a?.map f else a?) = some a) :
    ∃ x, a? = some x ∧ (a = x ∨ (i = id ∧ a = f x)) := by
  split at h
  · rename_i hi
    obtain ⟨x, hx, hfx⟩ := Option.map_eq_some_iff.mp h
    exact ⟨x, hx, Or.inr ⟨hi, hfx.symm⟩⟩
  · exact ⟨a, h, Or.inl rfl⟩

/-! ## The governor keeps to the ledger -/

/-- The record and the region of an allocation are as its account says. -/
structure Follows (id : AllocationId) (a : Account) (rec : AllocationRecord) (r : RegionInfo) :
    Prop where
  granted : a.granted.id = id
  requestedBytes : rec.requestedBytes = a.request.bytes
  workerBoot : rec.workerBoot = a.request.workerBoot
  sourceBoot : rec.sourceBoot = a.request.sourceBoot
  generation : rec.generation = a.generation
  residency : rec.residency = .resident
  unpins_le : a.unpins ≤ a.pins
  regionPins : r.pinCount = UInt32.ofNat (a.pins - a.unpins)
  /-- a required pin is counted in the record only, until the first pin or unpin -/
  recordPins : rec.pinCount
    = if a.request.requiresPin = true ∧ a.pins = 0 then 1 else r.pinCount
  offset : a.moves = 0 → rec.offset = a.granted.offset

/-- Everything the governor holds about `id`, against its account. -/
structure TracksAt (id : AllocationId) (rec? : Option AllocationRecord)
    (region? : Option RegionInfo) (rel? : Option AllocationRecord) (a? : Option Account) : Prop where
  live : ∀ {rec r}, rec? = some rec → region? = some r →
    ∃ a, a? = some a ∧ a.released = false ∧ Follows id a rec r
  known : ∀ {a}, a? = some a → a.released = false → ∃ rec, rec? = some rec
  gone : ∀ {a}, a? = some a → a.released = true →
    rec? = none ∧ ∃ rel, rel? = some rel ∧ rel.generation = a.generation

def Tracks (g : MemoryGovernor) (t : List Event) : Prop :=
  ∀ id, TracksAt id (g.records.find? id) (g.arena.lookup id) (g.retired.find? id) (account id t)

section Tracks

variable {g g' : MemoryGovernor} {t : List Event}

/-- A call changes what is held about one id, and its account, only. -/
theorem Tracks.update {id : AllocationId} {rec : Option AllocationRecord}
    {region : Option RegionInfo} {e : Event} (h : Tracks g t) (u : Update g g' id rec region)
    (hretired : ∀ i, i ≠ id → g'.retired.find? i = g.retired.find? i)
    (hother : ∀ i, i ≠ id → enter i (account i t) e = account i t)
    (hat : TracksAt id rec region (g'.retired.find? id) (enter id (account id t) e)) :
    Tracks g' (t ++ [e]) := by
  intro i
  rw [account_concat, u.records, u.lookup]
  by_cases hi : i = id
  · rw [if_pos hi, if_pos hi, hi]
    exact hat
  · rw [if_neg hi, if_neg hi, hretired i hi, hother i hi]
    exact h i

/-- The account of a current handle. -/
theorem Tracks.current (h : Tracks g t) {id : AllocationId} {gen : AllocationGeneration}
    {rec : AllocationRecord} {region : RegionInfo} (hcur : g.Current id gen rec region) :
    ∃ a, account id t = some a ∧ a.released = false ∧ Follows id a rec region :=
  (h id).live hcur.found hcur.lookup

/-- The account of a current handle is open and has its generation. -/
theorem Tracks.generation (h : Tracks g t) {id : AllocationId} {gen : AllocationGeneration}
    {rec : AllocationRecord} {region : RegionInfo} (hcur : g.Current id gen rec region) :
    ∃ a, account id t = some a ∧ a.released = false ∧ a.generation = gen := by
  obtain ⟨a, ha, hopen, hfol⟩ := h.current hcur
  exact ⟨a, ha, hopen, by rw [← hfol.generation, hcur.generation]⟩

theorem follows_granted {ra ra' : RegionAllocator} {req : AllocationRequest} {id : AllocationId}
    {live : RegionInfo} {h : AllocationHandle} (hp : ra.Placed (arenaRequest req id) live ra')
    (hid : h.id = id) (hoff : h.offset = live.offset) :
    Follows id { request := req, granted := h } (grantedRecord req id live) live := by
  obtain ⟨ra₀, off, aligned, rfl⟩ := hp.made
  refine ⟨hid, rfl, rfl, rfl, rfl, rfl, le_rfl, rfl, ?_, fun _ => hoff.symm⟩
  simp only [grantedRecord, RegionAllocator.liveRegion]
  split <;> simp_all

theorem follows_pinned {id : AllocationId} {a : Account} {rec : AllocationRecord} {r : RegionInfo}
    (h : Follows id a rec r) :
    Follows id { a with pins := a.pins + 1 }
      (pinnedRecord rec (RegionAllocator.pinnedRegion r).pinCount)
      (RegionAllocator.pinnedRegion r) := by
  have hle := h.unpins_le
  refine ⟨h.granted, h.requestedBytes, h.workerBoot, h.sourceBoot, h.generation, h.residency,
    Nat.le_succ_of_le hle, ?_, by simp [pinnedRecord], h.offset⟩
  have hsucc : a.pins + 1 - a.unpins = (a.pins - a.unpins) + 1 := by omega
  simp only [RegionAllocator.pinnedRegion, h.regionPins, hsucc, UInt32.ofNat_add]
  rfl

theorem follows_unpinned {id : AllocationId} {a : Account} {rec : AllocationRecord}
    {r : RegionInfo} (h : Follows id a rec r) (hpins : r.pinCount ≠ 0) :
    Follows id { a with unpins := a.unpins + 1 }
      (unpinnedRecord rec (RegionAllocator.unpinnedRegion r))
      (RegionAllocator.unpinnedRegion r) := by
  have hlt : a.unpins < a.pins := by
    refine lt_of_le_of_ne h.unpins_le (fun heq => hpins ?_)
    rw [h.regionPins, heq, Nat.sub_self]
    rfl
  refine ⟨h.granted, h.requestedBytes, h.workerBoot, h.sourceBoot, h.generation, h.residency,
    hlt, ?_, ?_, h.offset⟩
  · have hpred : a.pins - a.unpins = (a.pins - (a.unpins + 1)) + 1 := by omega
    simp only [RegionAllocator.unpinnedRegion, h.regionPins, hpred, UInt32.ofNat_add]
    simp
  · have hne : ¬ (a.request.requiresPin = true ∧ a.pins = 0) := fun hc => by omega
    simp only [unpinnedRecord, if_neg hne]

theorem follows_moved {id : AllocationId} {a : Account} {rec : AllocationRecord} {r : RegionInfo}
    {gen : AllocationGeneration} {o n : UInt64} (h : Follows id a rec r) :
    Follows id { a with generation := gen.next, moves := a.moves + 1 }
      (relocatedRecord rec (RegionAllocator.movedRegion r gen o n rec.alignment))
      (RegionAllocator.movedRegion r gen o n rec.alignment) :=
  ⟨h.granted, h.requestedBytes, h.workerBoot, h.sourceBoot, rfl, h.residency, h.unpins_le,
    h.regionPins, h.recordPins, fun hc => by cases hc⟩

/-- A rewritten account of a live allocation. -/
theorem tracksAt_rewritten {id : AllocationId} {rec : AllocationRecord} {r : RegionInfo}
    {rel? : Option AllocationRecord} {a : Account} (hrel : a.released = false)
    (hf : Follows id a rec r) : TracksAt id (some rec) (some r) rel? (some a) where
  live := by
    intro rec' r' hrec hr
    cases hrec
    cases hr
    exact ⟨a, rfl, hrel, hf⟩
  known := fun _ _ => ⟨rec, rfl⟩
  gone := by
    intro a' ha hc
    cases ha
    rw [hrel] at hc
    cases hc

/-- No record and no account. -/
theorem tracksAt_none (id : AllocationId) (region? : Option RegionInfo)
    (rel? : Option AllocationRecord) : TracksAt id none region? rel? none :=
  ⟨nofun, nofun, nofun⟩

/-- **One step** keeps the governor to the ledger. -/
theorem Step.tracks (h : Inv g) (ht : Tracks g t) {c : Call} {reply : Reply}
    (hs : Step g c reply g') : Tracks g' (t ++ [(c, reply)]) := by
  cases hs with
  | quiet hq hm _ =>
      intro id
      rw [account_concat, enter_of_not_mutates hm, hq.records, hq.lookup, hq.retired]
      exact ht id
  | granted hready hp =>
      refine ht.update (granted_update h hready hp) (fun _ _ => rfl) (fun i hi => ?_) ?_
      · simp only [enter, if_neg (Ne.symm hi)]
      · simp only [enter, if_true]
        exact tracksAt_rewritten rfl (follows_granted hp rfl rfl)
  | @released _ id _ rec _ _ hc hcur _ _ _ he =>
      obtain ⟨a, ha, _, hfol⟩ := ht.current hcur
      refine ht.update (released_update h hcur he) (fun i hi => ?_) (fun i hi => ?_) ?_
      · simp only [retire, OrdMap.find?_insert_ne _ _ hi]
      · rw [enter_release hc, if_neg (Ne.symm hi)]
      · rw [enter_release hc, if_pos rfl, ha]
        refine ⟨(fun hrec => by cases hrec), fun ha' hrel => ?_,
          fun ha' _ => ⟨rfl, releasedRecord rec, ?_, ?_⟩⟩
        · cases ha'
          cases hrel
        · simp [retire]
        · cases ha'
          exact hfol.generation
  | pinned hcur he =>
      obtain ⟨a, ha, hrel, hfol⟩ := ht.current hcur
      refine ht.update (pinned_update h hcur he) (fun _ _ => rfl) (fun i hi => ?_) ?_
      · simp only [enter, if_neg (Ne.symm hi)]
      · simp only [enter, if_true, ha, Option.map_some]
        exact tracksAt_rewritten hrel (follows_pinned hfol)
  | unpinned hcur hpins he =>
      obtain ⟨a, ha, hrel, hfol⟩ := ht.current hcur
      refine ht.update (unpinned_update h hcur he) (fun _ _ => rfl) (fun i hi => ?_) ?_
      · simp only [enter, if_neg (Ne.symm hi)]
      · simp only [enter, if_true, ha, Option.map_some]
        exact tracksAt_rewritten hrel (follows_unpinned hfol hpins)
  | moved hcur _ _ he =>
      obtain ⟨a, ha, hrel, hfol⟩ := ht.current hcur
      refine ht.update (moved_update h hcur he) (fun _ _ => rfl) (fun i hi => ?_) ?_
      · simp only [enter, if_neg (Ne.symm hi)]
      · simp only [enter, if_true, ha, Option.map_some]
        exact tracksAt_rewritten hrel (follows_moved hfol)
  | restored s =>
      intro id
      rw [account_concat]
      exact tracksAt_none id _ _

theorem tracks_new (domain : MemoryDomain) (hasBackend : Bool) :
    Tracks (new domain hasBackend) [] := fun id => tracksAt_none id _ _

/-- **Every run** keeps the governor to the ledger. -/
theorem run_tracks (domain : MemoryDomain) (hasBackend : Bool) (calls : List Call) :
    Tracks (run perform (new domain hasBackend) calls)
      (trace perform (new domain hasBackend) calls) := by
  have hboth := trace_of_step (P := fun t g => Inv g ∧ Tracks g t)
    ⟨inv_new domain hasBackend, tracks_new domain hasBackend⟩
    (fun t g c hg => ⟨(perform_step hg.1 c).inv hg.1, (perform_step hg.1 c).tracks hg.1 hg.2⟩) calls
  exact hboth.2

end Tracks

end GpuMemoryService.MemoryGovernor
