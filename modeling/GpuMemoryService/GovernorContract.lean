/-
GpuMemoryService.GovernorContract — what a client can count on, from its
log alone.

A client of the governor sees its calls and their replies, nothing else.
`account` (`GovernorLedger`) keeps the books of such a log. Here the books
decide:

* `log_decides`: after any run without a restore, whether a release, pin,
  unpin or query is accepted, and the reason it is refused with, is a
  function of the account of the allocation it names (`verdict`). The
  checks of four functions, on two maps and the arena, come down to the
  books.
* `drained_whole`: once the books say that everything granted has been
  released, the arena is one free region again, whatever happened in
  between.

A restore closes all accounts and keeps the tombstones of the snapshot, so
that after one a release may be called a double free of an allocation that
has no account; hence the first result is for runs without.
-/
import GpuMemoryService.GovernorLedger
import GpuMemoryService.GovernorAdmission
import GpuMemoryService.GovernorIsolation

namespace GpuMemoryService.MemoryGovernor

open Lib

/-! ## Verdicts -/

/-- The reason of a refusal. -/
def Reply.reason? : Reply → Option RejectReason
  | .done (.error f) => some f.reason
  | .handle (.error f) => some f.reason
  | .record (.error f) => some f.reason
  | _ => none

/-- Pins the books have not seen undone, as the record counts them. -/
def Account.isPinned (a : Account) : Bool :=
  (a.request.requiresPin && a.pins == 0) || UInt32.ofNat (a.pins - a.unpins) != 0

/-- The books refuse a handle: none is open for the id, or with another
generation. -/
def stale (a? : Option Account) (gen : AllocationGeneration) : Bool :=
  match a? with
  | none => true
  | some a => a.released || a.generation != gen

/-- The verdict of the books on a release. -/
def releaseVerdict (a? : Option Account) (gen : AllocationGeneration) (w : WorkerBootId)
    (s : SourceBootId) : Option RejectReason :=
  match a? with
  | none => some .staleGeneration
  | some a =>
      if a.generation != gen then some .staleGeneration
      else if a.released then some .doubleFree
      else if w.isSet && w != a.request.workerBoot then some .staleAuthority
      else if s.isSet && s != a.request.sourceBoot then some .staleAuthority
      else if a.isPinned then some .freeOfActiveOrPinned
      else none

/-- The verdict of the books on a handle call: a reason, or none. -/
def verdict (a? : Option Account) : Call → Option RejectReason
  | .release _ gen => releaseVerdict a? gen {} {}
  | .releaseForWorker _ gen w s => releaseVerdict a? gen w s
  | .pin _ gen => if stale a? gen then some .staleGeneration else none
  | .get _ gen => if stale a? gen then some .staleGeneration else none
  | .unpin _ gen =>
      if stale a? gen then some .staleGeneration
      else
        match a? with
        | some a => if UInt32.ofNat (a.pins - a.unpins) == 0 then some .invalidRequest else none
        | none => none
  | _ => none

section Verdicts

variable {g g' : MemoryGovernor} {t : List Event} {id : AllocationId}

/-- Every tombstone has an account. -/
def Booked (g : MemoryGovernor) (t : List Event) : Prop :=
  ∀ id, (g.retired.find? id).isSome = true → (account id t).isSome = true

/-- Only a restore closes accounts. -/
theorem enter_isSome {a? : Option Account} (h : a?.isSome = true) {c : Call} {r : Reply}
    (hc : ∀ s, c ≠ .restore s) : (enter id a? (c, r)).isSome = true := by
  obtain ⟨a, rfl⟩ := Option.isSome_iff_exists.mp h
  unfold enter
  split
  case h_7 => exact absurd (congrArg Prod.fst ‹_ = _›) (hc _)
  all_goals first | rfl | (split <;> rfl)

theorem Step.booked (ht : Tracks g t) (hb : Booked g t) {c : Call} {reply : Reply}
    (hs : Step g c reply g') (hc : ∀ s, c ≠ .restore s) : Booked g' (t ++ [(c, reply)]) := by
  intro i hi
  rw [account_concat]
  refine enter_isSome ?_ hc
  cases hs with
  | quiet hq _ _ => exact hb i (hq.retired ▸ hi)
  | granted hready hp => exact hb i hi
  | @released _ id _ rec _ _ hc hcur _ _ _ he =>
      by_cases hid : i = id
      · obtain ⟨a, ha, _⟩ := ht.current hcur
        rw [hid, ha]
        rfl
      · rw [retire, OrdMap.find?_insert_ne _ _ hid] at hi
        exact hb i hi
  | pinned hcur he => exact hb i hi
  | unpinned hcur _ he => exact hb i hi
  | moved hcur _ _ he => exact hb i hi
  | restored s => exact absurd rfl (hc s)

/-- The account of a live allocation is open. -/
theorem Tracks.opened (h : Inv g) (ht : Tracks g t) {rec : AllocationRecord}
    (hf : g.records.find? id = some rec) :
    ∃ a region, account id t = some a ∧ a.released = false ∧ Follows id a rec region ∧
      g.Current id rec.generation rec region := by
  obtain ⟨_, _, region, hcur⟩ := h.current hf
  obtain ⟨a, ha, hopen, hfol⟩ := ht.current hcur
  exact ⟨a, region, ha, hopen, hfol, hcur⟩

/-- The account of an id without a record is closed, or there is none. -/
theorem Tracks.closed (ht : Tracks g t) (hf : g.records.find? id = none) {a : Account}
    (ha : account id t = some a) : a.released = true := by
  by_contra hopen
  obtain ⟨rec, hrec⟩ := (ht id).known ha (by simpa using hopen)
  rw [hf] at hrec
  cases hrec

/-- The lookup of the handle operations goes by the books. -/
theorem locate_decided (h : Inv g) (ht : Tracks g t) (id : AllocationId)
    (gen : AllocationGeneration) (text : String) :
    (stale (account id t) gen = true ∧
      ∃ f, f.reason = .staleGeneration ∧ g.locate id gen text = .error f) ∨
    (stale (account id t) gen = false ∧ ∃ a rec region, account id t = some a ∧
      Follows id a rec region ∧ g.Current id gen rec region) := by
  rcases locate_cases g id gen text with ⟨f, hreason, hnot, heq⟩ | ⟨rec, hf, rfl, _⟩
  · refine Or.inl ⟨?_, f, hreason, heq⟩
    unfold stale
    cases ha : account id t with
    | none => rfl
    | some a =>
        cases hf : g.records.find? id with
        | none => simp [ht.closed hf ha]
        | some rec =>
            obtain ⟨a', _, ha', _, hfol, _⟩ := ht.opened h hf
            rw [ha] at ha'
            cases ha'
            have := hnot rec hf
            rw [hfol.generation] at this
            simp [this]
  · obtain ⟨a, region, ha, hopen, hfol, hcur⟩ := ht.opened h hf
    exact Or.inr ⟨by simp [stale, ha, hopen, hfol.generation], a, rec, region, ha, hfol, hcur⟩

theorem Follows.pinCount_pos {a : Account} {rec : AllocationRecord} {r : RegionInfo}
    (h : Follows id a rec r) : rec.pinCount > 0 ↔ a.isPinned = true := by
  have hpos : ∀ n : UInt32, n > 0 ↔ n ≠ 0 := fun n => by
    rw [gt_iff_lt, UInt32.lt_iff_toNat_lt, ne_eq, ← UInt32.toNat_inj]
    exact Nat.pos_iff_ne_zero
  rw [hpos, h.recordPins, h.regionPins, Account.isPinned]
  cases hreq : a.request.requiresPin with
  | false => simp
  | true =>
      by_cases hpins : a.pins = 0
      · simp [hpins]
      · simp [hpins]

theorem releaseForWorker_decided (h : Inv g) (ht : Tracks g t) (hb : Booked g t)
    (gen : AllocationGeneration) (w : WorkerBootId) (s : SourceBootId) :
    Reply.reason? (.record (g.releaseForWorker id gen w s).1) =
      releaseVerdict (account id t) gen w s := by
  cases hf : g.records.find? id with
  | none =>
      simp only [releaseForWorker, hf, releaseVerdict]
      cases ha : account id t with
      | none =>
          have hret : g.retired.find? id = none := by
            by_contra hsome
            have := hb id (Option.isSome_iff_ne_none.mpr hsome)
            rw [ha] at this
            cases this
          simp only [hret]
          rfl
      | some a =>
          obtain ⟨_, rel, hrel, hgen⟩ := (ht id).gone ha (ht.closed hf ha)
          simp only [hrel, hgen, ht.closed hf ha, if_true]
          by_cases heq : a.generation = gen
          · simp [heq, Reply.reason?]
          · simp [heq, Reply.reason?]
  | some rec =>
      obtain ⟨a, region, ha, hopen, hfol, hcur⟩ := ht.opened h hf
      simp only [releaseVerdict, ha, hopen, Bool.false_eq_true, if_false, ← hfol.generation,
        ← hfol.workerBoot, ← hfol.sourceBoot]
      by_cases hgen : rec.generation = gen
      swap
      · have hne : (rec.generation != gen) = true := by simp [hgen]
        simp only [releaseForWorker, hf, if_pos hne]
        rfl
      rw [hgen] at hcur
      have heq : ¬ (rec.generation != gen) = true := by simp [hgen]
      rw [if_neg heq]
      by_cases hworker : (w.isSet && w != rec.workerBoot) = true
      · simp only [releaseForWorker, hf, if_neg heq, if_pos hworker]
        rfl
      rw [if_neg hworker]
      by_cases hsource : (s.isSet && s != rec.sourceBoot) = true
      · simp only [releaseForWorker, hf, if_neg heq, if_neg hworker, if_pos hsource]
        rfl
      rw [if_neg hsource]
      by_cases hpins : rec.pinCount > 0
      · rw [if_pos (hfol.pinCount_pos.mp hpins)]
        simp only [releaseForWorker, hf, if_neg heq, if_neg hworker, if_neg hsource, if_pos hpins]
        rfl
      rw [if_neg (fun hp => hpins (hfol.pinCount_pos.mpr hp))]
      have hactive : ¬ (rec.residency == .active) = true := by simp [hfol.residency]
      obtain ⟨arena, hok, _⟩ := hcur.releaseForWorker h hworker hsource hpins hactive
      rw [hok]
      rfl

/-- **One call** is decided by the books. -/
theorem perform_decided (h : Inv g) (ht : Tracks g t) (hb : Booked g t) {c : Call}
    (hc : c.target? = some id) : (g.perform c).1.reason? = verdict (account id t) c := by
  cases c with
  | release id' gen =>
      cases hc
      exact releaseForWorker_decided h ht hb gen {} {}
  | releaseForWorker id' gen w s =>
      cases hc
      exact releaseForWorker_decided h ht hb gen w s
  | pin id' gen =>
      cases hc
      rcases locate_decided h ht id gen "stale generation on pin" with
        ⟨hstale, f, hreason, heq⟩ | ⟨hcurrent, a, rec, region, _, _, hcur⟩
      · simp only [perform, pin, heq, verdict, hstale, if_true, Reply.reason?, hreason]
      · obtain ⟨arena, heq, _⟩ := hcur.pin h
        simp only [perform, heq, verdict, hcurrent, Bool.false_eq_true, if_false, Reply.reason?]
  | unpin id' gen =>
      cases hc
      rcases locate_decided h ht id gen "stale generation on unpin" with
        ⟨hstale, f, hreason, heq⟩ | ⟨hcurrent, a, rec, region, ha, hfol, hcur⟩
      · simp only [perform, unpin, heq, verdict, hstale, if_true, Reply.reason?, hreason]
      · rw [ha] at hcurrent ⊢
        simp only [verdict, hcurrent, Bool.false_eq_true, if_false, ← hfol.regionPins]
        by_cases hzero : region.pinCount = 0
        · simp [perform, unpin_of_zero h hcur hzero, hzero, Reply.reason?]
        · rcases hcur.unpin h with ⟨hz, _⟩ | ⟨_, arena, heq, _⟩
          · exact absurd hz hzero
          · simp [perform, heq, hzero, Reply.reason?]
  | get id' gen =>
      cases hc
      rcases locate_decided h ht id gen "stale allocation generation on query" with
        ⟨hstale, f, hreason, heq⟩ | ⟨hcurrent, a, rec, region, _, _, hcur⟩
      · simp only [perform, get, heq, verdict, hstale, if_true, Reply.reason?, hreason]
      · obtain ⟨_, harena, _⟩ := h.current hcur.found
        simp only [perform, get, hcur.locate, RegionAllocator.get,
          RegionAllocator.locate_of_holds harena hcur.holds, verdict, hcurrent,
          Bool.false_eq_true, if_false, Reply.reason?]
  | regionSize id' => rfl
  | _ => cases hc

end Verdicts

/-- **The log decides.** After any run without a restore, a call that names
an allocation is accepted or refused, and with which reason, by what the
calls and replies so far say about it. -/
theorem log_decides (domain : MemoryDomain) (hasBackend : Bool) (calls : List Call)
    (hrestore : ∀ s, Call.restore s ∉ calls) {c : Call} {id : AllocationId}
    (hc : c.target? = some id) :
    ((run perform (new domain hasBackend) calls).perform c).1.reason? =
      verdict (account id (trace perform (new domain hasBackend) calls)) c := by
  have hguard : Guarded perform (fun _ c => ∀ s, c ≠ .restore s) (new domain hasBackend) calls :=
    guarded_of_forall_mem (fun d hd _ s heq => hrestore s (heq ▸ hd))
  have hbooks := hguard.trace_inv (P := fun t g => Inv g ∧ Tracks g t ∧ Booked g t)
    ⟨inv_new domain hasBackend, tracks_new domain hasBackend, fun _ h => by cases h⟩
    (fun t g d hg hd => ⟨(perform_step hg.1 d).inv hg.1, (perform_step hg.1 d).tracks hg.1 hg.2.1,
      (perform_step hg.1 d).booked hg.2.1 hg.2.2 hd⟩)
  exact perform_decided hbooks.1 hbooks.2.1 hbooks.2.2 hc

/-- A pin that is held, a move of another allocation and a release. -/
def busyRun : List Call :=
  [.initializeArena (.ok 4096),
   .request { bytes := 100, workerBoot := ⟨7⟩ },
   .request { bytes := 100 },
   .pin ⟨1⟩ ⟨1⟩,
   .applyRelocation ⟨2⟩ ⟨1⟩ 512 100,
   .release ⟨2⟩ ⟨2⟩]

theorem log_decides_busyRun :
    let g := run perform (new { managedCapacity := 1024 } true) busyRun
    (g.perform (.release ⟨1⟩ ⟨1⟩)).1.reason? = some .freeOfActiveOrPinned ∧
      (g.perform (.release ⟨2⟩ ⟨2⟩)).1.reason? = some .doubleFree ∧
      (g.perform (.get ⟨2⟩ ⟨1⟩)).1.reason? = some .staleGeneration ∧
      (g.perform (.unpin ⟨1⟩ ⟨1⟩)).1.reason? = none := by
  intro g
  have hno : ∀ s, Call.restore s ∉ busyRun := by simp [busyRun]
  have hdecided : ∀ {c : Call} {id : AllocationId}, c.target? = some id →
      (g.perform c).1.reason? =
        verdict (account id (trace perform (new { managedCapacity := 1024 } true) busyRun)) c :=
    fun hc => log_decides { managedCapacity := 1024 } true busyRun hno hc
  rw [hdecided (c := .release ⟨1⟩ ⟨1⟩) rfl, hdecided (c := .release ⟨2⟩ ⟨2⟩) rfl,
    hdecided (c := .get ⟨2⟩ ⟨1⟩) rfl, hdecided (c := .unpin ⟨1⟩ ⟨1⟩) rfl]
  decide +kernel

/-! ## A drained arena -/

section Drained

variable {g : MemoryGovernor}

/-- Without records, and with every live region indexed, nothing is live. -/
theorem not_live_of_empty (h : Inv g) (hidx : g.arena.Indexed) (hempty : g.records = .empty)
    {k : UInt64} {r : RegionInfo} : ¬ g.arena.LiveAt k r := by
  intro hl
  obtain ⟨rec, hrec⟩ := h.covered (RegionAllocator.lookup_eq_some_iff.mpr ⟨k, hidx hl, hl⟩)
  rw [hempty] at hrec
  cases hrec

/-- The figures of an arena in which nothing is live. -/
theorem whole_of_not_live {ra : RegionAllocator} (hinv : ra.Inv) (hc : RegionAllocator.Cached ra)
    (hcap : 0 < ra.capacity.toNat) (hnone : ∀ k r, ¬ ra.LiveAt k r) :
    ra.liveBytes = 0 ∧ ra.liveCount = 0 ∧ ra.largestFreeRegion = ra.capacity ∧
      ra.freeRegionCount = 1 := by
  have hzero : ∀ {f : UInt64 → RegionInfo → Nat}, (∀ k r, r.live = false → f k r = 0) →
      ra.regions.weigh f = 0 := by
    intro f hf
    refine List.sum_eq_zero (fun n hn => ?_)
    obtain ⟨e, he, rfl⟩ := List.mem_map.mp hn
    have hfound := OrdMap.find?_eq_some_iff.mpr he
    cases hlive : e.2.live with
    | false => exact hf _ _ hlive
    | true => exact absurd ⟨hfound, hlive⟩ (hnone e.1 e.2)
  have hbytes : ra.liveBytes = 0 := by
    rw [← UInt64.toNat_inj, hinv.bytes]
    exact hzero (fun k r hl => by simp [RegionAllocator.liveSize, hl])
  have hcount : ra.liveCount = 0 := by
    rw [← UInt64.toNat_inj, hinv.count]
    exact hzero (fun k r hl => by simp [RegionAllocator.liveOne, hl])
  have hpieces := hinv.free_count_le
  have hshare := hinv.freeBytes_le hc
  have hfree : ra.freeBytes.toNat = ra.capacity.toNat := by
    rw [hinv.toNat_freeBytes, hbytes]
    rfl
  have hlive : ra.liveCount.toNat = 0 := by rw [hcount]; rfl
  have hsize : ra.freeSlots.size = 1 := by
    have hne : ra.freeSlots.size ≠ 0 := fun hz => by
      rw [hz] at hshare
      omega
    omega
  -- the longest stretch of free bytes does not leave the arena
  have hle : ra.largestFreeRegion.toNat ≤ ra.capacity.toNat := by
    obtain ⟨lo, hlo⟩ := (hinv.longest hc).attained
    rcases Nat.eq_zero_or_pos ra.largestFreeRegion.toNat with hz | hpos
    · omega
    · obtain ⟨f, hf, _, hend⟩ := hinv.stretch_inside hpos hlo
      have := hinv.end_le (hinv.mem_snapshotFree.mp hf).1
      omega
  refine ⟨hbytes, hcount, UInt64.toNat_inj.mp (by rw [hsize] at hshare; omega), ?_⟩
  rw [hc.freeRegionCount, hsize]
  rfl

theorem empty_of_drained {t : List Event} (h : Inv g) (ht : Tracks g t)
    (hall : ∀ id a, account id t = some a → a.released = true) : g.records = .empty := by
  refine OrdMap.ext_find? (fun id => ?_)
  cases hf : g.records.find? id with
  | none => rfl
  | some rec =>
      obtain ⟨a, _, ha, hopen, _⟩ := ht.opened h hf
      rw [hall id a ha] at hopen
      cases hopen

end Drained

/-- **Drained is whole.** In every run in which granted ids are new and
which ends with memory to manage: once the log says that everything granted has been released, the summary shows
one free region as large as the managed capacity, and nothing in use. -/
theorem drained_whole (domain : MemoryDomain) (hasBackend : Bool) (calls : List Call)
    (hfresh : Guarded perform FreshGrant (new domain hasBackend) calls)
    (hall : ∀ id a, account id (trace perform (new domain hasBackend) calls) = some a →
      a.released = true)
    (hpos : 0 < (run perform (new domain hasBackend) calls).domain.managedCapacity.toNat) :
    let s := (run perform (new domain hasBackend) calls).summary.1
    s.free = s.managedCapacity ∧ s.largestFree = s.managedCapacity ∧ s.freeRegions = 1 ∧
      s.committed = 0 ∧ s.resident = 0 ∧ s.liveAllocations = 0 ∧ s.movable = 0 ∧ s.pinned = 0 ∧
      s.reclaimable = 0 := by
  intro s
  let g := run perform (new domain hasBackend) calls
  have hinv : Inv g := run_inv (inv_new domain hasBackend) calls
  have hempty := empty_of_drained hinv (run_tracks domain hasBackend calls) hall
  have harena := hinv.arena hpos
  obtain ⟨hbytes, hcount, hlargest, hregions⟩ :=
    whole_of_not_live harena (run_cached domain hasBackend calls) (hinv.capacity ▸ hpos)
      (fun _ _ => not_live_of_empty hinv (run_indexed_of_grants hfresh) hempty)
  have hclasses := (accurate_of_inv hinv hpos (run_cached domain hasBackend calls)).classes
  have hcommitted : s.committed = 0 := hbytes
  have hfree : s.free = s.managedCapacity := by
    show g.arena.capacity - g.arena.liveBytes = g.domain.managedCapacity
    rw [hbytes, hinv.capacity, UInt64.sub_zero]
  have hmovable : s.movable.toNat + s.pinned.toNat ≤ 0 := by
    have hzero : s.committed.toNat = 0 := by rw [hcommitted]; rfl
    rw [← hzero]
    exact hclasses
  refine ⟨hfree, hlargest.trans hinv.capacity, hregions, hcommitted, hcommitted, hcount,
    UInt64.toNat_inj.mp (Nat.le_zero.mp (by omega)), UInt64.toNat_inj.mp (Nat.le_zero.mp (by omega)),
    ?_⟩
  show g.reclaimableBytes = 0
  rw [reclaimableBytes, hempty]
  rfl

/-- Everything `busyRun` granted is released: the second allocation by it,
the first once its pin is undone. -/
theorem drained_whole_busyRun :
    let s := (run perform (new { managedCapacity := 1024 } true)
      (busyRun ++ [.unpin ⟨1⟩ ⟨1⟩, .release ⟨1⟩ ⟨1⟩])).summary.1
    s.free = 1024 ∧ s.largestFree = 1024 ∧ s.freeRegions = 1 ∧ s.liveAllocations = 0 := by
  have hfresh : Guarded perform FreshGrant (new { managedCapacity := 1024 } true)
      (busyRun ++ [.unpin ⟨1⟩ ⟨1⟩, .release ⟨1⟩ ⟨1⟩]) :=
    ⟨trivial, fun _ => rfl, fun _ => rfl, trivial, trivial, trivial, trivial, trivial, trivial⟩
  have hall : ∀ id a, account id (trace perform (new { managedCapacity := 1024 } true)
      (busyRun ++ [.unpin ⟨1⟩ ⟨1⟩, .release ⟨1⟩ ⟨1⟩])) = some a → a.released = true := by
    intro id a ha
    by_contra hopen
    -- an open account has a record
    obtain ⟨rec, hrec⟩ := ((run_tracks { managedCapacity := 1024 } true _) id).known ha
      (by simpa using hopen)
    have hempty : (run perform (new { managedCapacity := 1024 } true)
        (busyRun ++ [.unpin ⟨1⟩ ⟨1⟩, .release ⟨1⟩ ⟨1⟩])).records.entries = [] := by decide +kernel
    have hmem := OrdMap.find?_eq_some_iff.mp hrec
    rw [hempty] at hmem
    cases hmem
  obtain ⟨hfree, hlargest, hregions, _, _, hlive, _⟩ := drained_whole { managedCapacity := 1024 } true
    (busyRun ++ [.unpin ⟨1⟩ ⟨1⟩, .release ⟨1⟩ ⟨1⟩]) hfresh hall (by decide +kernel)
  exact ⟨hfree, hlargest, hregions, hlive⟩

end GpuMemoryService.MemoryGovernor
