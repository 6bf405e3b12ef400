/-
GpuMemoryService.GovernorReclaim — what may be reclaimed, in which order,
and how many bytes that is.

`reclaim_candidates` filters the live records, sorts them by priority,
size and id, and keeps the first `max`. Its exclusions imply every check
of a release, so the candidates can be released in any order, and each
gives its region back (`reclaimCandidates_exact`).

`reclaimable_bytes_locked` sums with the same exclusions but without the
check that reloadable and checkpointed allocations have a backing. The sum
is that of the candidates exactly when no live record fails that check
alone (`reclaimable_iff`).
-/
import GpuMemoryService.GovernorPins
import GpuMemoryService.GovernorQueries
import GpuMemoryService.RegionPlacement

namespace GpuMemoryService.MemoryGovernor

open Lib

/-! ## Live records -/

section Records

variable {g g' : MemoryGovernor} {P : AllocationRecord → Prop}

/-- What granted records satisfy and rewriting a record keeps. -/
structure KeptByRecords (P : AllocationRecord → Prop) : Prop where
  granted : ∀ req id r, P (grantedRecord req id r)
  pinned : ∀ rec n, P rec → P (pinnedRecord rec n)
  unpinned : ∀ rec r, P rec → P (unpinnedRecord rec r)
  relocated : ∀ rec r, P rec → P (relocatedRecord rec r)

/-- **One step** keeps it for every live record. -/
theorem Step.keptByRecords (hP : KeptByRecords P) (h : Inv g)
    (hrecords : ∀ id rec, g.records.find? id = some rec → P rec) {c : Call} {reply : Reply}
    (hs : Step g c reply g') : ∀ id rec, g'.records.find? id = some rec → P rec := by
  cases hs with
  | quiet hq _ _ =>
      rw [hq.records]
      exact hrecords
  | granted hready hp =>
      refine ((granted_update h hready hp).forall_records hrecords).mpr (fun r hr => ?_)
      cases hr
      exact hP.granted _ _ _
  | released _ hcur _ _ _ he =>
      exact ((released_update h hcur he).forall_records hrecords).mpr (fun r hr => by cases hr)
  | pinned hcur he =>
      refine ((pinned_update h hcur he).forall_records hrecords).mpr (fun r hr => ?_)
      cases hr
      exact hP.pinned _ _ (hrecords _ _ hcur.found)
  | unpinned hcur _ he =>
      refine ((unpinned_update h hcur he).forall_records hrecords).mpr (fun r hr => ?_)
      cases hr
      exact hP.unpinned _ _ (hrecords _ _ hcur.found)
  | moved hcur _ _ he =>
      refine ((moved_update h hcur he).forall_records hrecords).mpr (fun r hr => ?_)
      cases hr
      exact hP.relocated _ _ (hrecords _ _ hcur.found)
  | restored s => exact fun id rec hf => absurd hf (by simp [restore])

/-- **Every live record** satisfies it. -/
theorem run_forall_records (hP : KeptByRecords P) (domain : MemoryDomain) (hasBackend : Bool)
    (calls : List Call) {id : AllocationId} {rec : AllocationRecord}
    (hf : (run perform (new domain hasBackend) calls).records.find? id = some rec) : P rec := by
  have h : ∀ id rec, (run perform (new domain hasBackend) calls).records.find? id = some rec →
      P rec := by
    refine reachable_induction (P := fun g => ∀ id rec, g.records.find? id = some rec → P rec)
      ?_ (fun g c hinv hg => ?_) calls
    · exact fun id rec hf => absurd hf (by simp [new])
    · exact (perform_step hinv c).keptByRecords hP hinv hg
  exact h id rec hf

/-- A live record is recoverable exactly if it has a backing. -/
theorem run_recoverable (domain : MemoryDomain) (hasBackend : Bool) (calls : List Call)
    {id : AllocationId} {rec : AllocationRecord}
    (hf : (run perform (new domain hasBackend) calls).records.find? id = some rec) :
    rec.recoverable = !rec.backingRef.isEmpty :=
  run_forall_records (P := fun rec => rec.recoverable = !rec.backingRef.isEmpty)
    ⟨fun _ _ _ => rfl, fun _ _ h => h, fun _ _ h => h, fun _ _ h => h⟩
    domain hasBackend calls hf

end Records

/-! ## The selection -/

/-- The record may be reclaimed. -/
structure Eligible (rec : AllocationRecord) : Prop where
  pins : rec.pinCount = 0
  movability : rec.movability ≠ .pinned ∧ rec.movability ≠ .nonmovable
  residency : rec.residency ≠ .active
  reclaimability : rec.reclaimability ≠ .neverReclaim ∧ rec.reclaimability ≠ .unknown
  backing : rec.reclaimability = .reclaimIfReloadable ∨
    rec.reclaimability = .reclaimIfCheckpointed → rec.backingRef ≠ []

/-- `a` is reclaimed before `b`: by priority, then the larger, then the
smaller id. -/
def Outranks (a b : AllocationRecord) : Prop :=
  reclaimabilityPriority a.reclaimability < reclaimabilityPriority b.reclaimability ∨
    (reclaimabilityPriority a.reclaimability = reclaimabilityPriority b.reclaimability ∧
      (b.regionSize < a.regionSize ∨
        (a.regionSize = b.regionSize ∧ a.id.value < b.id.value)))

/-- The candidate a record makes. -/
def asCandidate (rec : AllocationRecord) : Candidate :=
  ⟨rec.id, reclaimabilityPriority rec.reclaimability, rec.regionSize⟩

/-- All candidates of the governor, best first. -/
def ranked (g : MemoryGovernor) : List Candidate :=
  ((g.records.entries.map (·.2)).filterMap candidate).insertionSort
    (fun a b => Candidate.before b a = false)

theorem reclaimCandidates_eq (g : MemoryGovernor) (max : UInt64) :
    g.reclaimCandidates max = (g.ranked.map (·.id)).take max.toNat := rfl

section Selection

variable {g : MemoryGovernor} {rec : AllocationRecord}

theorem excluded_eq_false_iff : excluded rec = false ↔
    rec.pinCount = 0 ∧ (rec.movability ≠ .pinned ∧ rec.movability ≠ .nonmovable) ∧
      rec.residency ≠ .active ∧ (rec.reclaimability ≠ .neverReclaim ∧ rec.reclaimability ≠ .unknown) := by
  have hpins : ¬ rec.pinCount > 0 ↔ rec.pinCount = 0 := by simp
  simp only [excluded, Bool.or_eq_false_iff, decide_eq_false_iff_not, hpins, beq_eq_false_iff_ne]
  tauto

/-- The record lacks the backing its reclaimability rests on. -/
def unbacked (rec : AllocationRecord) : Bool :=
  reclaimabilityRequiresBacking rec.reclaimability && rec.backingRef.isEmpty

theorem candidate_eq (hrec : rec.recoverable = !rec.backingRef.isEmpty) :
    candidate rec = if excluded rec || unbacked rec then none else some (asCandidate rec) := by
  have hboth : (reclaimabilityRequiresBacking rec.reclaimability && !rec.recoverable &&
      rec.backingRef.isEmpty) = unbacked rec := by
    simp only [unbacked, hrec, Bool.not_not]
    cases rec.backingRef.isEmpty <;> simp
  unfold candidate
  rw [hboth]
  cases excluded rec <;> cases unbacked rec <;> rfl

theorem eligible_iff : Eligible rec ↔ excluded rec = false ∧ unbacked rec = false := by
  have hbacking : unbacked rec = false ↔ (rec.reclaimability = .reclaimIfReloadable ∨
      rec.reclaimability = .reclaimIfCheckpointed → rec.backingRef ≠ []) := by
    simp only [unbacked, reclaimabilityRequiresBacking, Bool.and_eq_false_imp, Bool.or_eq_true,
      beq_iff_eq, List.isEmpty_eq_false_iff]
  rw [excluded_eq_false_iff, hbacking]
  constructor
  · intro h
    exact ⟨⟨h.pins, h.movability, h.residency, h.reclaimability⟩, h.backing⟩
  · rintro ⟨⟨h1, h2, h3, h4⟩, h5⟩
    exact ⟨h1, h2, h3, h4, h5⟩

theorem candidate_eq_some_iff (hrec : rec.recoverable = !rec.backingRef.isEmpty) {c : Candidate} :
    candidate rec = some c ↔ Eligible rec ∧ c = asCandidate rec := by
  rw [candidate_eq hrec, eligible_iff]
  cases excluded rec <;> cases unbacked rec <;> simp [eq_comm]

end Selection

/-! ## The order -/

section Order

variable {a b c : Candidate}

theorem before_iff : a.before b = true ↔
    a.priority < b.priority ∨ (a.priority = b.priority ∧
      (b.size < a.size ∨ (a.size = b.size ∧ a.id.value < b.id.value))) := by
  unfold Candidate.before
  by_cases hp : a.priority = b.priority
  · by_cases hs : a.size = b.size
    · simp [hp, hs]
    · simp [hp, hs]
  · simp [hp]

/-- Not to stand behind is a total preorder. -/
theorem before_total : b.before a = false ∨ a.before b = false := by
  simp only [← Bool.not_eq_true, before_iff]
  grind

theorem before_trans (h : b.before a = false) (h' : c.before b = false) :
    c.before a = false := by
  simp only [← Bool.not_eq_true, before_iff] at *
  grind

/-- Candidates of different ids are never tied. -/
theorem before_of_ne (h : b.before a = false) (hne : a.id ≠ b.id) : a.before b = true := by
  have hid : a.id.value ≠ b.id.value := fun heq => hne (congrArg TypedId.mk heq)
  rw [← Bool.not_eq_true, before_iff] at h
  rw [before_iff]
  grind

end Order

section Ranked

variable {g : MemoryGovernor}

theorem ranked_perm (g : MemoryGovernor) :
    g.ranked.Perm ((g.records.entries.map (·.2)).filterMap candidate) :=
  List.perm_insertionSort _ _

/-- Every candidate comes from the record of its id. -/
theorem mem_ranked_iff (h : Inv g)
    (hrec : ∀ id rec, g.records.find? id = some rec → rec.recoverable = !rec.backingRef.isEmpty)
    {c : Candidate} : c ∈ g.ranked ↔
      ∃ rec, g.records.find? c.id = some rec ∧ Eligible rec ∧ c = asCandidate rec := by
  rw [(ranked_perm g).mem_iff, List.mem_filterMap]
  constructor
  · rintro ⟨rec, hmem, hc⟩
    obtain ⟨id, hf⟩ := OrdMap.mem_values.mp hmem
    obtain ⟨hel, rfl⟩ := (candidate_eq_some_iff (hrec id rec hf)).mp hc
    refine ⟨rec, ?_, hel, rfl⟩
    show g.records.find? rec.id = some rec
    rw [h.record_id hf]
    exact hf
  · rintro ⟨rec, hf, hel, hc⟩
    exact ⟨rec, OrdMap.mem_values.mpr ⟨c.id, hf⟩,
      (candidate_eq_some_iff (hrec c.id rec hf)).mpr ⟨hel, hc⟩⟩

/-- No id is listed twice. -/
theorem ranked_nodup (h : Inv g)
    (hrec : ∀ id rec, g.records.find? id = some rec → rec.recoverable = !rec.backingRef.isEmpty) :
    (g.ranked.map (·.id)).Nodup := by
  rw [((ranked_perm g).map _).nodup_iff]
  -- the ids of the candidates are some of the keys of the records, in order
  have hkeys : (((g.records.entries.map (·.2)).filterMap candidate).map (·.id)).Sublist
      (g.records.entries.map (·.1)) := by
    have hall : ∀ e ∈ g.records.entries, e.2.id = e.1 ∧
        e.2.recoverable = !e.2.backingRef.isEmpty := fun e he =>
      have hf := OrdMap.find?_eq_some_iff.mpr he
      ⟨h.record_id hf, hrec e.1 e.2 hf⟩
    generalize g.records.entries = l at hall
    induction l with
    | nil => exact List.Sublist.refl _
    | cons e l ih =>
        have hrest := ih (fun e' he' => hall e' (List.mem_cons_of_mem _ he'))
        obtain ⟨hid, hback⟩ := hall e List.mem_cons_self
        rw [List.map_cons, List.map_cons, List.filterMap_cons]
        cases hc : candidate e.2 with
        | none => exact hrest.cons _
        | some c =>
            obtain ⟨_, rfl⟩ := (candidate_eq_some_iff hback).mp hc
            rw [List.map_cons, show (asCandidate e.2).id = e.1 from hid]
            exact hrest.cons_cons _
  exact hkeys.nodup g.records.nodup_keys

/-- The candidates are strictly in order. -/
theorem ranked_pairwise (h : Inv g)
    (hrec : ∀ id rec, g.records.find? id = some rec → rec.recoverable = !rec.backingRef.isEmpty) :
    g.ranked.Pairwise (fun a b => a.before b = true) := by
  have : Std.Total (fun a b : Candidate => Candidate.before b a = false) :=
    ⟨fun _ _ => before_total⟩
  have : IsTrans Candidate (fun a b => Candidate.before b a = false) :=
    ⟨fun _ _ _ => before_trans⟩
  have hsorted : g.ranked.Pairwise (fun a b => Candidate.before b a = false) :=
    List.pairwise_insertionSort _ _
  have hne : g.ranked.Pairwise (fun a b => a.id ≠ b.id) :=
    List.pairwise_map.mp (ranked_nodup h hrec)
  exact (hsorted.and hne).imp (fun hboth => before_of_ne hboth.1 hboth.2)

end Ranked

/-! ## Releasing the candidates -/

/-- The generation of the live record of `id`. -/
def generationOf (g : MemoryGovernor) (id : AllocationId) : AllocationGeneration :=
  (g.records.find? id).elim .none (·.generation)

section Releasing

variable {g : MemoryGovernor}

/-- Live records without pins and not active can be released one after the
other, and each gives the bytes of its region back. -/
theorem release_run (h : Inv g) {rs : List (AllocationId × AllocationRecord)}
    (hnodup : (rs.map (·.1)).Nodup)
    (hlive : ∀ e ∈ rs, g.records.find? e.1 = some e.2 ∧ e.2.pinCount = 0 ∧ e.2.residency ≠ .active) :
    g.AcceptsAll (rs.map (fun e => Call.release e.1 e.2.generation)) ∧
      (run perform g (rs.map (fun e => Call.release e.1 e.2.generation))).arena.freeBytes.toNat =
        g.arena.freeBytes.toNat + (rs.map (fun e => e.2.regionSize.toNat)).sum := by
  induction rs generalizing g with
  | nil => exact ⟨(fun e he => by cases he), rfl⟩
  | cons e rs ih =>
      obtain ⟨hnot, hnodup'⟩ := List.nodup_cons.mp hnodup
      obtain ⟨hf, hpins, hactive⟩ := hlive e List.mem_cons_self
      obtain ⟨_, harena, region, hcur⟩ := h.current hf
      have hunset : ∀ {tag : GenTag}, ({} : TypedGeneration tag).isSet = false := by
        intro tag
        cases tag <;> rfl
      obtain ⟨arena, heq, heff⟩ := hcur.releaseForWorker h (w := {}) (s := {}) (by simp [hunset])
        (by simp [hunset]) (by simp [hpins]) (by simpa using hactive)
      have hstep : g.perform (.release e.1 e.2.generation)
          = (.record (.ok (releasedRecord e.2)), g.retire e.1 e.2 arena) := by
        simp only [perform, release, heq]
      have hupdate := released_update h hcur heff
      obtain ⟨haccepts, hbytes⟩ := ih (g := g.retire e.1 e.2 arena) (hupdate.inv h) hnodup'
        (fun e' he' => by
          have hne : e'.1 ≠ e.1 := fun hsame => hnot (List.mem_map.mpr ⟨e', he', hsame⟩)
          rw [hupdate.records, if_neg hne]
          exact hlive e' (List.mem_cons_of_mem _ he'))
      have hfree : arena.freeBytes.toNat = g.arena.freeBytes.toNat + e.2.regionSize.toNat := by
        have hlost : arena.liveBytes.toNat + region.size.toNat = g.arena.liveBytes.toNat + 0 :=
          heff.toNat_liveBytes harena
        have hle := harena.liveBytes_le
        rw [(heff.inv harena).toNat_freeBytes, harena.toNat_freeBytes, heff.capacity,
          hcur.agrees.size]
        omega
      constructor
      · intro x hx
        rw [List.map_cons, trace, hstep] at hx
        rcases List.mem_cons.mp hx with rfl | hx
        · rfl
        · exact haccepts x hx
      · rw [List.map_cons, run, hstep, hbytes, List.map_cons, List.sum_cons]
        show arena.freeBytes.toNat + _ = _
        omega

theorem regionSize_of_find? {id : AllocationId} {rec : AllocationRecord}
    (hf : g.records.find? id = some rec) : g.regionSize id = rec.regionSize := by
  simp only [regionSize, hf]

theorem generationOf_of_find? {id : AllocationId} {rec : AllocationRecord}
    (hf : g.records.find? id = some rec) : g.generationOf id = rec.generation := by
  simp only [generationOf, hf, Option.elim]

/-- The ranked ids are those of the eligible records. -/
theorem mem_ranked_ids (h : Inv g)
    (hrec : ∀ id rec, g.records.find? id = some rec → rec.recoverable = !rec.backingRef.isEmpty)
    {id : AllocationId} :
    id ∈ g.ranked.map (·.id) ↔ ∃ rec, g.records.find? id = some rec ∧ Eligible rec := by
  rw [List.mem_map]
  constructor
  · rintro ⟨c, hc, rfl⟩
    obtain ⟨rec, hf, hel, _⟩ := (mem_ranked_iff h hrec).mp hc
    exact ⟨rec, hf, hel⟩
  · rintro ⟨rec, hf, hel⟩
    refine ⟨asCandidate rec, (mem_ranked_iff h hrec).mpr ⟨rec, ?_, hel, rfl⟩, h.record_id hf⟩
    show g.records.find? rec.id = some rec
    rw [h.record_id hf]
    exact hf

/-- The ranked ids are strictly in order. -/
theorem ranked_ids_pairwise (h : Inv g)
    (hrec : ∀ id rec, g.records.find? id = some rec → rec.recoverable = !rec.backingRef.isEmpty) :
    (g.ranked.map (·.id)).Pairwise (fun a b => ∃ ra rb, g.records.find? a = some ra ∧
      g.records.find? b = some rb ∧ Outranks ra rb) := by
  rw [List.pairwise_map]
  refine (ranked_pairwise h hrec).imp_of_mem (fun {a b} ha hb hab => ?_)
  obtain ⟨ra, hfa, _, hra⟩ := (mem_ranked_iff h hrec).mp ha
  obtain ⟨rb, hfb, _, hrb⟩ := (mem_ranked_iff h hrec).mp hb
  refine ⟨ra, rb, hfa, hfb, ?_⟩
  rw [hra, hrb, before_iff] at hab
  exact hab

/-- Idle allocations can be released by id, with their current
generations. -/
theorem release_ids (h : Inv g) {order : List AllocationId} (hnodup : order.Nodup)
    (hidle : ∀ id ∈ order, ∃ rec, g.records.find? id = some rec ∧ rec.pinCount = 0 ∧
      rec.residency ≠ .active) :
    g.AcceptsAll (order.map (fun id => Call.release id (g.generationOf id))) ∧
      (run perform g (order.map (fun id => Call.release id (g.generationOf id)))).arena.freeBytes.toNat
        = g.arena.freeBytes.toNat + (order.map (fun id => (g.regionSize id).toNat)).sum := by
  let entry (id : AllocationId) : AllocationId × AllocationRecord :=
    (id, (g.records.find? id).getD {})
  have hentry : ∀ id ∈ order, g.records.find? id = some (entry id).2 ∧
      (entry id).2.pinCount = 0 ∧ (entry id).2.residency ≠ .active := by
    intro id hid
    obtain ⟨rec, hf, hrec⟩ := hidle id hid
    simp only [entry, hf, Option.getD_some]
    exact ⟨trivial, hrec⟩
  have hkeys : (order.map entry).map (·.1) = order := by
    rw [List.map_map]
    exact List.map_id order
  have hrun := @release_run _ h (order.map entry) (by rw [hkeys]; exact hnodup) (by
    intro e he
    obtain ⟨id, hid, rfl⟩ := List.mem_map.mp he
    exact hentry id hid)
  have hcalls : (order.map entry).map (fun e => Call.release e.1 e.2.generation)
      = order.map (fun id => Call.release id (g.generationOf id)) := by
    rw [List.map_map]
    refine List.map_congr_left (fun id hid => ?_)
    rw [generationOf_of_find? (hentry id hid).1]
    rfl
  have hsizes : (order.map entry).map (fun e => e.2.regionSize.toNat)
      = order.map (fun id => (g.regionSize id).toNat) := by
    rw [List.map_map]
    refine List.map_congr_left (fun id hid => ?_)
    rw [regionSize_of_find? (hentry id hid).1]
    rfl
  rw [hcalls, hsizes] at hrun
  exact hrun

/-- **Reclaim candidates are exact and releasable.** In every reachable
state the candidates are the first `max` of the list of all eligible live
ids, without repetition and strictly in order; and released with their
current generations, in any order, they are all accepted and give back the
bytes of their regions. -/
theorem reclaimCandidates_exact (domain : MemoryDomain) (hasBackend : Bool) (calls : List Call) :
    let g := run perform (new domain hasBackend) calls
    ∃ full : List AllocationId,
      (∀ id, id ∈ full ↔ ∃ rec, g.records.find? id = some rec ∧ Eligible rec) ∧ full.Nodup ∧
      full.Pairwise (fun a b => ∃ ra rb, g.records.find? a = some ra ∧ g.records.find? b = some rb ∧
        Outranks ra rb) ∧
      ∀ max, g.reclaimCandidates max = full.take max.toNat ∧
        ∀ order : List AllocationId, order.Perm (g.reclaimCandidates max) →
          let releases := order.map (fun id => Call.release id (g.generationOf id))
          g.AcceptsAll releases ∧ (run perform g releases).arena.freeBytes.toNat =
            g.arena.freeBytes.toNat + (order.map (fun id => (g.regionSize id).toNat)).sum := by
  intro g
  have hinv : Inv g := run_inv (inv_new domain hasBackend) calls
  have hrec : ∀ id rec, g.records.find? id = some rec → rec.recoverable = !rec.backingRef.isEmpty :=
    fun id rec hf => run_recoverable domain hasBackend calls hf
  refine ⟨g.ranked.map (·.id), fun id => mem_ranked_ids hinv hrec, ranked_nodup hinv hrec,
    ranked_ids_pairwise hinv hrec, fun max => ⟨reclaimCandidates_eq g max, fun order horder => ?_⟩⟩
  have hnodup : order.Nodup := by
    rw [horder.nodup_iff, reclaimCandidates_eq]
    exact (ranked_nodup hinv hrec).sublist (List.take_sublist _ _)
  refine release_ids hinv hnodup (fun id hid => ?_)
  rw [horder.mem_iff, reclaimCandidates_eq] at hid
  obtain ⟨rec, hf, hel⟩ := (mem_ranked_ids hinv hrec).mp (List.mem_of_mem_take hid)
  exact ⟨rec, hf, hel.pins, hel.residency⟩

/-- A movability no enumerator names is not MOVABLE, and reclaim lists it. -/
theorem undeclared_listed :
    let g := run perform (new { managedCapacity := 1024 } true)
      [.initializeArena (.ok 4096),
       .request { bytes := 8, movability := .undeclared 3 (by decide), reclaimability := .bestEffort }]
    g.reclaimCandidates 1 = [⟨1⟩] ∧
      ∀ rec, g.records.find? ⟨1⟩ = some rec → rec.movability ≠ .movable := by
  intro g
  refine ⟨by decide +kernel, fun rec hf hmov => ?_⟩
  have hfound : (g.records.find? ⟨1⟩).map (·.movability) = some (.undeclared 3 (by decide)) := by
    decide +kernel
  rw [hf, Option.map_some, hmov] at hfound
  cases hfound

end Releasing

/-! ## Reclaimable bytes -/

/-- What a record adds to the reclaimable sum. -/
def openSize (_ : AllocationId) (rec : AllocationRecord) : Nat :=
  if excluded rec then 0 else rec.regionSize.toNat

/-- What a record adds to the bytes of the candidates. -/
def candidateSize (_ : AllocationId) (rec : AllocationRecord) : Nat :=
  if excluded rec || unbacked rec then 0 else rec.regionSize.toNat

section Bytes

variable {g : MemoryGovernor}

/-- Records weigh no more than their regions. -/
theorem Inv.weigh_records_le (h : Inv g) {f : AllocationId → AllocationRecord → Nat}
    {w : UInt64 → RegionInfo → Nat}
    (hle : ∀ id rec r, g.Current id rec.generation rec r → r.live = true → f id rec ≤ w r.offset r) :
    g.records.weigh f ≤ g.arena.regions.weigh w := by
  refine OrdMap.weigh_le_of_key (·.allocId) (fun id rec hf => ?_)
  obtain ⟨_, harena, region, hcur⟩ := h.current hf
  obtain ⟨_, hlive, hid⟩ := harena.lookup_some hcur.lookup
  exact ⟨region.offset, region, hlive.1, hid, hle id rec region hcur hlive.2⟩

/-- The running sum of reclaimable bytes, from any start. -/
theorem foldl_openSize (es : List (AllocationId × AllocationRecord)) (total : UInt64) :
    es.foldl (fun total e => if excluded e.2 then total else total + e.2.regionSize) total
      = total + UInt64.ofNat ((es.map (fun e => openSize e.1 e.2)).sum) := by
  induction es generalizing total with
  | nil => simp
  | cons e es ih =>
      rw [List.foldl_cons, ih, List.map_cons, List.sum_cons, UInt64.ofNat_add, ← UInt64.add_assoc]
      unfold openSize
      split <;> simp

theorem Inv.toNat_reclaimableBytes (h : Inv g) :
    g.reclaimableBytes.toNat = g.records.weigh openSize := by
  have hsum : g.reclaimableBytes = UInt64.ofNat (g.records.weigh openSize) := by
    rw [reclaimableBytes, foldl_openSize, UInt64.zero_add]
    rfl
  have hlt : g.records.weigh openSize < 2 ^ 64 := by
    rcases Nat.eq_zero_or_pos g.domain.managedCapacity.toNat with hzero | hpos
    · rw [(h.idle hzero).2]
      exact Nat.two_pow_pos 64
    · refine Nat.lt_of_le_of_lt (h.weigh_records_le (w := fun _ r => r.size.toNat)
        (fun id rec r hcur _ => ?_)) (RegionAllocator.weigh_lt_of_layout (h.arena hpos).layout
          (fun _ _ _ => le_rfl))
      unfold openSize
      split
      · exact Nat.zero_le _
      · rw [hcur.agrees.size]
  rw [hsum, UInt64.toNat_ofNat', Nat.mod_eq_of_lt hlt]

/-- The bytes of all candidates. -/
theorem sum_ranked (h : Inv g)
    (hrec : ∀ id rec, g.records.find? id = some rec → rec.recoverable = !rec.backingRef.isEmpty) :
    ((g.ranked.map (·.id)).map (fun id => (g.regionSize id).toNat)).sum =
      g.records.weigh candidateSize := by
  have hsizes : (g.ranked.map (·.id)).map (fun id => (g.regionSize id).toNat)
      = g.ranked.map (·.size.toNat) := by
    rw [List.map_map]
    refine List.map_congr_left (fun c hc => ?_)
    obtain ⟨rec, hf, _, hrec'⟩ := (mem_ranked_iff h hrec).mp hc
    rw [Function.comp_apply, regionSize_of_find? hf, hrec']
    rfl
  rw [hsizes, ((ranked_perm g).map _).sum_eq]
  have hall : ∀ e ∈ g.records.entries, e.2.recoverable = !e.2.backingRef.isEmpty :=
    fun e he => hrec e.1 e.2 (OrdMap.find?_eq_some_iff.mpr he)
  unfold OrdMap.weigh
  generalize g.records.entries = l at hall
  induction l with
  | nil => rfl
  | cons e l ih =>
      have hrest := ih (fun e' he' => hall e' (List.mem_cons_of_mem _ he'))
      rw [List.map_cons, List.filterMap_cons, candidate_eq (hall e List.mem_cons_self),
        List.map_cons, List.sum_cons, ← hrest]
      unfold candidateSize
      by_cases hout : (excluded e.2 || unbacked e.2) = true
      · rw [if_pos hout, if_pos hout, Nat.zero_add]
      · rw [if_neg hout, if_neg hout]
        rfl

theorem candidateSize_le (id : AllocationId) (rec : AllocationRecord) :
    candidateSize id rec ≤ openSize id rec := by
  unfold candidateSize openSize
  cases excluded rec <;> cases unbacked rec <;> simp

/-- The two sums count a live record alike unless it lacks the backing its
reclaimability rests on. -/
theorem candidateSize_eq_iff (h : Inv g) {id : AllocationId} {rec : AllocationRecord}
    (hf : g.records.find? id = some rec) :
    candidateSize id rec = openSize id rec ↔ (excluded rec = false →
      reclaimabilityRequiresBacking rec.reclaimability = true → rec.backingRef ≠ []) := by
  obtain ⟨_, harena, region, hcur⟩ := h.current hf
  have hpos : 0 < rec.regionSize.toNat := by
    rw [hcur.agrees.size]
    exact harena.size_pos (harena.lookup_some hcur.lookup).2.1
  have hbacked : unbacked rec = false ↔
      (reclaimabilityRequiresBacking rec.reclaimability = true → rec.backingRef ≠ []) := by
    simp only [unbacked, Bool.and_eq_false_imp, List.isEmpty_eq_false_iff]
  rw [← hbacked]
  unfold candidateSize openSize
  cases excluded rec with
  | true => simp
  | false =>
      cases unbacked rec with
      | false => simp
      | true =>
          simp only [Bool.false_or, if_true, Bool.false_eq_true, if_false, reduceCtorEq,
            forall_const, iff_false]
          omega

/-- **Reported reclaimable bytes are those of the candidates, when.** In
every reachable state, for every `n` from the number of live records on:
the reclaimable bytes of the summary, and of the evidence for the pressure,
are the bytes of `reclaim_candidates(n)` exactly if every live record the
exclusions let pass has the backing its reclaimability rests on. -/
theorem reclaimable_iff (domain : MemoryDomain) (hasBackend : Bool) (calls : List Call) (n : UInt64)
    (hn : (run perform (new domain hasBackend) calls).records.size ≤ n.toNat) :
    let g := run perform (new domain hasBackend) calls
    let bytes := ((g.reclaimCandidates n).map (fun id => (g.regionSize id).toNat)).sum
    (g.summary.1.reclaimable.toNat = bytes ∧ g.evidence.reclaimable.toNat = bytes) ↔
      ∀ id rec, g.records.find? id = some rec → excluded rec = false →
        reclaimabilityRequiresBacking rec.reclaimability = true → rec.backingRef ≠ [] := by
  intro g bytes
  have hinv : Inv g := run_inv (inv_new domain hasBackend) calls
  have hrec : ∀ id rec, g.records.find? id = some rec → rec.recoverable = !rec.backingRef.isEmpty :=
    fun id rec hf => run_recoverable domain hasBackend calls hf
  -- `n` cuts nothing off
  have hlen : (g.ranked.map (·.id)).length ≤ n.toNat := by
    rw [List.length_map, (ranked_perm g).length_eq]
    refine (List.length_filterMap_le _ _).trans ?_
    rw [List.length_map]
    exact hn
  have hbytes : bytes = g.records.weigh candidateSize := by
    rw [← sum_ranked hinv hrec]
    simp only [bytes, reclaimCandidates_eq, List.take_of_length_le hlen]
  have hsummary : g.summary.1.reclaimable = g.reclaimableBytes := rfl
  have hevidence : g.evidence.reclaimable = g.reclaimableBytes := rfl
  rw [hsummary, hevidence, and_self, hbytes, hinv.toNat_reclaimableBytes, eq_comm]
  rw [OrdMap.weigh_eq_weigh_iff (fun id rec _ => candidateSize_le id rec)]
  constructor
  · intro hall id rec hf
    exact (candidateSize_eq_iff hinv hf).mp (hall id rec hf)
  · intro hall id rec hf
    exact (candidateSize_eq_iff hinv hf).mpr (hall id rec hf)

/-- One live allocation, reclaimable if it can be reloaded. -/
def reloadable (backingRef : Bytes) : List Call :=
  [.initializeArena (.ok 4096),
   .request { bytes := 8, reclaimability := .reclaimIfReloadable, backingRef := backingRef }]

/-- With a backing both sums count it. -/
theorem reclaimable_iff_backed :
    let g := run perform (new { managedCapacity := 1024 } true) (reloadable [1])
    g.summary.1.reclaimable.toNat
      = ((g.reclaimCandidates 1).map (fun id => (g.regionSize id).toNat)).sum := by
  intro g
  refine ((reclaimable_iff { managedCapacity := 1024 } true (reloadable [1]) 1
    (by decide +kernel)).mpr (fun id rec hf _ _ => ?_)).1
  have hback : ∀ e ∈ g.records.entries, e.2.backingRef ≠ [] := by decide +kernel
  exact hback (id, rec) (OrdMap.find?_eq_some_iff.mp hf)

/-- Without one it is reported and not listed. -/
theorem unbacked_reported :
    let g := run perform (new { managedCapacity := 1024 } true) (reloadable [])
    g.summary.1.reclaimable = 8 ∧ g.evidence.reclaimable = 8 ∧ g.summary.1.liveAllocations = 1 ∧
      g.reclaimCandidates 1 = [] := by
  decide +kernel

end Bytes

end GpuMemoryService.MemoryGovernor
