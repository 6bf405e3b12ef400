/-
GpuMemoryService.GovernorAdmission — what a summary says about the next
request.

A client that reads `summary()` and then asks for memory wants to know
whether it will be granted. Free bytes alone do not say: the arena may be
in pieces, and the alignment may push the block out of a piece. Two facts
about the layout settle it:

* two free regions never touch, so there is at most one more of them than
  there are live ones (`Inv.free_count_le`);
* none is longer than the largest, so the largest has at least its share
  of the free bytes (`Inv.freeBytes_le`).

`summary_forecasts` puts this in the figures of the summary.
-/
import GpuMemoryService.RegionPlacement
import GpuMemoryService.GovernorSummary

namespace GpuMemoryService

open Lib

/-! ## How many pieces -/

namespace RegionAllocator

section Pieces

variable {ra : RegionAllocator}

theorem weigh_liveOne (ra : RegionAllocator) :
    ra.regions.weigh liveOne = ra.regions.entries.countP (fun e => e.2.live) := by
  rw [OrdMap.weigh]
  induction ra.regions.entries with
  | nil => rfl
  | cons e es ih =>
      rw [List.map_cons, List.sum_cons, List.countP_cons, ih, liveOne, Nat.add_comm]

/-- **Pieces.** There is at most one more free region than live ones. -/
theorem Inv.free_count_le (hinv : Inv ra) : ra.freeSlots.size ≤ ra.liveCount.toNat + 1 := by
  have htiles := hinv.layout.part.tiles toNat_strictMono (Nat.zero_le _)
  have hchain : ra.regions.entries.IsChain
      (fun a b => ¬ ((!a.2.live) = true ∧ (!b.2.live) = true)) := by
    refine (htiles.isChain (p := fun r => r.live = false) ?_).imp (fun a b hab hboth => hab ?_)
    · intro a ha b hb hfa hfb
      exact hinv.layout.merged a.1 a.2 b.1 b.2 (OrdMap.find?_eq_some_iff.mpr ha)
        (OrdMap.find?_eq_some_iff.mpr hb) hfa hfb
    · simpa using hboth
  have hcount := countP_le_of_isChain (p := fun e : UInt64 × RegionInfo => !e.2.live) hchain
  rw [hinv.size_freeSlots, hinv.count, weigh_liveOne, ← List.countP_eq_length_filter]
  simpa using hcount

/-- **Shares.** The free bytes are at most as many times the largest free
region as there are free regions. -/
theorem Inv.freeBytes_le (hinv : Inv ra) (hc : Cached ra) :
    ra.freeBytes.toNat ≤ ra.freeSlots.size * ra.largestFreeRegion.toNat := by
  have hsum : ∀ es : List (UInt64 × RegionInfo),
      (∀ e ∈ es, e.2.live = false → e.2.size.toNat ≤ ra.largestFreeRegion.toNat) →
      (es.map (fun e => sizeNat e.2)).sum ≤ (es.map (fun e => liveSize e.1 e.2)).sum +
        (es.filter (fun e => !e.2.live)).length * ra.largestFreeRegion.toNat := by
    intro es hle
    induction es with
    | nil => simp
    | cons e es ih =>
        have hrest := ih (fun e' he' => hle e' (by simp [he']))
        have hhead := hle e (by simp)
        cases hl : e.2.live with
        | true =>
            simp only [List.map_cons, List.sum_cons, liveSize, sizeNat, hl, if_true,
              List.filter_cons, Bool.not_true, Bool.false_eq_true, if_false] at hrest ⊢
            omega
        | false =>
            simp only [List.map_cons, List.sum_cons, liveSize, sizeNat, hl, if_true,
              List.filter_cons, Bool.not_false, Bool.false_eq_true, if_false, List.length_cons,
              Nat.succ_mul] at hrest ⊢
            have := hhead hl
            omega
  have hlargest : ∀ e ∈ ra.regions.entries, e.2.live = false →
      e.2.size.toNat ≤ ra.largestFreeRegion.toNat := by
    intro e he hfree
    have hfound := OrdMap.find?_eq_some_iff.mpr he
    have hoff := hinv.layout.keyed hfound
    have hmem : e.2 ∈ ra.snapshotFree :=
      hinv.mem_snapshotFree.mpr ⟨by rw [hoff]; exact hfound, hfree⟩
    exact (hinv.longest hc).bound _ _ (hinv.gap_of_free hmem).inside
  have htotal := hsum _ hlargest
  have hsizes := hinv.weigh_sizes
  have hlive := hinv.bytes
  rw [OrdMap.weigh] at hsizes hlive
  rw [hinv.toNat_freeBytes, hinv.size_freeSlots]
  omega

end Pieces

end RegionAllocator

/-! ## Requests -/

namespace MemoryGovernor

open RegionAllocator (Room Cached toNat_pos_of_isPow2)

section Requests

variable {g : MemoryGovernor} {req : AllocationRequest}

theorem isPow2_of_validated {cap : UInt64} (h : (validateRequest req cap).ok = true) :
    isPow2 req.alignment = true := by
  unfold validateRequest at h
  split at h
  · simp [Failure.ok] at h
  split at h
  · simp [Failure.ok] at h
  split at h
  · split at h <;> simp [Failure.ok] at h
  · rename_i hnot
    simp only [Bool.or_eq_true, not_or, Bool.not_eq_true', Bool.not_eq_false] at hnot
    exact hnot.2

/-- The size a granted request gets. -/
def granule (req : AllocationRequest) : Nat := roundUp req.bytes.toNat req.alignment.toNat

/-- **A valid request** is granted if and only if a free region has room
for it; the reason of a refusal is decided in exact arithmetic. -/
theorem request_search (h : Inv g) (hvalid : (validateRequest req g.domain.managedCapacity).ok = true)
    (hinit : g.initialized = true) :
    (Accepted (g.request req).1 ↔ ∃ f ∈ g.arena.snapshotFree,
      Room req.alignment.toNat (granule req) f.offset.toNat f.size.toNat) ∧
    ∀ f, (g.request req).1 = .error f →
      f.reason = if 2 ^ 64 ≤ granule req then .sizeOverflow
        else if granule req ≤ g.arena.freeBytes.toNat then .insufficientContiguousCapacity
        else .insufficientTotalCapacity := by
  obtain ⟨hbytes, hle⟩ := validateRequest_ok hvalid
  have hpow := isPow2_of_validated hvalid
  have harena := h.arena (by omega)
  have hcap := g.arena.capacity.toNat_lt
  have halign := RegionAllocator.toNat_alignUp req.bytes hpow
  have hge := le_roundUp req.bytes.toNat (toNat_pos_of_isPow2 hpow)
  rw [← detail_alignUp_eq hpow] at halign
  unfold request granule
  simp only [hvalid, hinit, Bool.not_true, Bool.false_eq_true, if_false]
  by_cases hwrap : 2 ^ 64 ≤ roundUp req.bytes.toNat req.alignment.toNat
  · -- no region of an arena is as long as that
    rw [if_pos hwrap] at halign ⊢
    have hzero : Detail.alignUp req.bytes req.alignment = 0 := UInt64.toNat_inj.mp halign
    simp only [hzero, BEq.rfl, Bool.true_or, if_true]
    refine ⟨iff_of_false (fun ⟨a, ha⟩ => by cases ha) (fun ⟨f, hf, hroom⟩ => ?_), fun f hf => ?_⟩
    · exact harena.no_room (toNat_pos_of_isPow2 hpow) (by omega) _
        (harena.mem_freeSlots.mpr ⟨f, hf, rfl⟩) hroom
    · cases hf
      rfl
  rw [if_neg hwrap] at halign ⊢
  have hover : ¬ (Detail.alignUp req.bytes req.alignment == 0 ||
      decide (Detail.alignUp req.bytes req.alignment < req.bytes)) = true := by
    have hne := toNat_pos_iff.mp (show 0 < (Detail.alignUp req.bytes req.alignment).toNat by omega)
    simp only [Bool.or_eq_true, beq_iff_eq, decide_eq_true_eq, UInt64.lt_iff_toNat_lt, hne,
      false_or]
    omega
  simp only [if_neg hover, nextId]
  rcases @RegionAllocator.allocate_search g.arena (arenaRequest req ⟨g.nextAllocId⟩) harena hbytes
    hpow with ⟨slot, live, arena, heq, _, hbest⟩ | ⟨f, heq, hreason, hnone⟩
  · obtain ⟨f, hf, rfl⟩ := harena.mem_freeSlots.mp hbest.free
    simp only [heq]
    exact ⟨iff_of_true ⟨_, rfl⟩ ⟨f, hf, hbest.room⟩, fun f' hf' => by cases hf'⟩
  · simp only [heq]
    refine ⟨iff_of_false (fun ⟨a, ha⟩ => by cases ha) (fun ⟨f', hf', hroom⟩ => ?_), fun f' hf' => ?_⟩
    · exact hnone _ (harena.mem_freeSlots.mpr ⟨f', hf', rfl⟩) hroom
    · cases hf'
      rw [hreason, RegionAllocator.refusal]
      exact if_neg (fun hboth => hwrap hboth.2)

/-- A region that is longer by the alignment less one has room wherever it
starts. -/
theorem room_of_le {a n off size : Nat} (h : n + (a - 1) ≤ size) :
    Room a n off size := by
  have hround := Nat.div_mul_le_self (off + (a - 1)) a
  unfold Room roundUp
  omega

/-- What the figures of a summary say about a request that comes next. -/
structure Forecast (s : MemorySummary) (req : AllocationRequest) (outcome : Result AllocationHandle) :
    Prop where
  /-- the largest free region is long enough for any padding -/
  ample : granule req + (req.alignment.toNat - 1) ≤ s.largestFree.toNat → Accepted outcome
  /-- so is the share of the free bytes that comes to each piece -/
  shared : (s.liveAllocations.toNat + 1) * (granule req + (req.alignment.toNat - 1)) ≤
    s.free.toNat → Accepted outcome
  scarce : s.largestFree.toNat < granule req → ¬ Accepted outcome
  refused : ∀ f, outcome = .error f →
    f.reason = if 2 ^ 64 ≤ granule req then .sizeOverflow
      else if granule req ≤ s.free.toNat then .insufficientContiguousCapacity
      else .insufficientTotalCapacity

theorem forecast_of_inv (h : Inv g) (hc : Cached g.arena)
    (hvalid : (validateRequest req g.domain.managedCapacity).ok = true)
    (hinit : g.initialized = true) {s : MemorySummary} (hfree : s.free = g.arena.freeBytes)
    (hlargest : s.largestFree = g.arena.largestFreeRegion)
    (hlive : s.liveAllocations = g.arena.liveCount) : Forecast s req (g.request req).1 := by
  obtain ⟨hbytes, hle⟩ := validateRequest_ok hvalid
  have hpow := isPow2_of_validated hvalid
  have harena := h.arena (by omega)
  have hlongest := harena.longest hc
  have hpieces := harena.free_count_le
  have hshare := harena.freeBytes_le hc
  have hround := le_roundUp req.bytes.toNat (toNat_pos_of_isPow2 hpow)
  obtain ⟨hgranted, hrefused⟩ := request_search h hvalid hinit
  have hample : granule req + (req.alignment.toNat - 1) ≤ g.arena.largestFreeRegion.toNat →
      Accepted (g.request req).1 := by
    intro hlarge
    have hn : 0 < granule req := Nat.lt_of_lt_of_le hbytes hround
    obtain ⟨lo, hlo⟩ := hlongest.attained
    obtain ⟨f, hf, hin, hend⟩ := harena.stretch_inside (by omega) hlo
    exact hgranted.mpr ⟨f, hf, room_of_le (by omega)⟩
  refine ⟨by rwa [hlargest], fun hshared => ?_, fun hlarge haccepted => ?_, by rwa [hfree]⟩
  · rw [hlive, hfree] at hshared
    have hmul : (g.arena.liveCount.toNat + 1) * (granule req + (req.alignment.toNat - 1)) ≤
        (g.arena.liveCount.toNat + 1) * g.arena.largestFreeRegion.toNat :=
      hshared.trans (hshare.trans (Nat.mul_le_mul_right _ hpieces))
    exact hample (Nat.le_of_mul_le_mul_left hmul (Nat.succ_pos _))
  · rw [hlargest] at hlarge
    obtain ⟨f, hf, hroom⟩ := hgranted.mp haccepted
    have hbound := hlongest.bound _ _ (harena.gap_of_free hf).inside
    have hpad := le_roundUp f.offset.toNat (toNat_pos_of_isPow2 hpow)
    unfold Room at hroom
    omega

end Requests

/-- **Summaries forecast requests.** After any run that leaves the governor
initialized, and whatever is queried after it, the figures of a summary decide a valid request wherever the
alignment cannot. -/
theorem summary_forecasts (domain : MemoryDomain) (hasBackend : Bool) (calls queries : List Call)
    (hqueries : ∀ c ∈ queries, c.isQuery = true) (req : AllocationRequest)
    (hvalid : (validateRequest req
      (run perform (new domain hasBackend) calls).domain.managedCapacity).ok = true)
    (hinit : (run perform (new domain hasBackend) calls).initialized = true) :
    let g := run perform (new domain hasBackend) calls
    Forecast g.summary.1 req ((run perform g.summary.2 queries).request req).1 := by
  intro g
  have hblind : (run perform g.summary.2 queries).blind = g.blind := by
    have hnone : queries.filter (fun c => !c.isQuery) = [] :=
      List.filter_eq_nil_iff.mpr (fun c hc => by simp [hqueries c hc])
    have hsame : g.summary.2.blind = g.blind := query_blind g (c := .summary) rfl
    rw [run_blind hsame queries, hnone, run_nil]
  have hrun : run perform g.summary.2 queries =
      run perform (new domain hasBackend) (calls ++ .summary :: queries) := by
    rw [run_append]
    rfl
  have hinv : Inv (run perform g.summary.2 queries) := by
    rw [hrun]
    exact run_inv (inv_new domain hasBackend) _
  have hcached : Cached (run perform g.summary.2 queries).arena := by
    rw [hrun]
    exact run_cached domain hasBackend _
  generalize run perform g.summary.2 queries = g' at hblind hinv hcached ⊢
  have same : ∀ {α : Type} (f : MemoryGovernor → α), f g'.blind = f g.blind :=
    fun f => congrArg f hblind
  have hslots : g'.arena.freeSlots = g.arena.freeSlots := same (·.arena.freeSlots)
  have hfree : g'.arena.freeBytes = g.arena.freeBytes := same (·.arena.freeBytes)
  have hlive : g'.arena.liveCount = g.arena.liveCount := same (·.arena.liveCount)
  have hcap : g'.domain.managedCapacity = g.domain.managedCapacity := same (·.domain.managedCapacity)
  refine forecast_of_inv hinv hcached (by rwa [hcap])
    ((same (·.initialized)).trans hinit) hfree.symm ?_ hlive.symm
  show g.arena.largestFreeRegion = _
  rw [(run_cached domain hasBackend calls).largestFreeRegion, hcached.largestFreeRegion, hslots]

/-- Four blocks of 256, of which the second and the fourth are released:
512 bytes are free in two pieces. -/
def twoPieces : List Call :=
  [.initializeArena (.ok 4096),
   .request { bytes := 256 },
   .request { bytes := 256 },
   .request { bytes := 256 },
   .request { bytes := 256 },
   .release ⟨2⟩ ⟨1⟩,
   .release ⟨4⟩ ⟨1⟩]

/-- The share of a block of 128 is there, and a block of 512 is refused
although as many bytes are free. -/
theorem summary_forecasts_twoPieces :
    let g := run perform (new { managedCapacity := 1024 } true) twoPieces
    Accepted (g.summary.2.request { bytes := 128, alignment := 32 }).1 ∧
      ¬ Accepted (g.summary.2.request { bytes := 512, alignment := 256 }).1 := by
  have hsmall := summary_forecasts { managedCapacity := 1024 } true twoPieces [] (by simp)
    { bytes := 128, alignment := 32 } (by decide +kernel) (by decide +kernel)
  have hlarge := summary_forecasts { managedCapacity := 1024 } true twoPieces [] (by simp)
    { bytes := 512, alignment := 256 } (by decide +kernel) (by decide +kernel)
  exact ⟨hsmall.shared (by decide +kernel), hlarge.scarce (by decide +kernel)⟩

end MemoryGovernor

end GpuMemoryService
