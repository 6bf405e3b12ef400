/-
GpuMemoryService.GovernorEviction — reclaim while the governor is in use.

`reclaimCandidates_exact` (`GovernorReclaim`) describes one listing of the
candidates. A client that evicts asks for a few of them, releases these,
and asks again, while others use the governor in between:

* `order_keeps`: whatever happens between two listings, the ids that both
  contain come in the same order in both, as long as they stand for the
  same allocations of the same sizes.
* `evicts_in_order`: listing and releasing in rounds, of any lengths,
  releases the same allocations in the same order as one listing of all of
  them, and leaves the rest of that listing.
-/
import GpuMemoryService.GovernorReclaim
import GpuMemoryService.GovernorIsolation

namespace GpuMemoryService.MemoryGovernor

open Lib

/-! ## Between two listings -/

/-- The event changes which allocation the id stands for, or its size, from
`size` on. -/
def disturbs (id : AllocationId) (size : UInt64) : Event → Bool
  | (.request _, .handle (.ok h)) => h.id == id
  | (.release i _, .record (.ok _)) => i == id
  | (.releaseForWorker i _ _ _, .record (.ok _)) => i == id
  | (.applyRelocation i _ _ _, .handle (.ok h)) => i == id && h.size != size
  | (.restore _, _) => true
  | _ => false

/-- No call of the run changes which allocation the id stands for, or its
size. -/
def undisturbed (g : MemoryGovernor) (calls : List Call) (id : AllocationId) : Bool :=
  (trace perform g calls).all (fun e => !disturbs id (g.regionSize id) e)

section Keeping

variable {g g' : MemoryGovernor} {id : AllocationId} {rec : AllocationRecord}

/-- A change of one allocation keeps the candidate of `id`, unless it is
the one that changes. -/
theorem Update.keeps_candidate {i : AllocationId} {rec? : Option AllocationRecord}
    {region : Option RegionInfo} (u : Update g g' i rec? region)
    (hf : g.records.find? id = some rec)
    (hsame : i = id → ∃ rec', rec? = some rec' ∧ asCandidate rec' = asCandidate rec) :
    ∃ rec', g'.records.find? id = some rec' ∧ asCandidate rec' = asCandidate rec := by
  rw [u.records]
  by_cases hid : id = i
  · rw [if_pos hid]
    exact hsame hid.symm
  · rw [if_neg hid]
    exact ⟨rec, hf, rfl⟩

theorem disturbs_release {i : AllocationId} {gen : AllocationGeneration} {c : Call}
    (hc : IsRelease i gen c) (size : UInt64) (rel : AllocationRecord) :
    disturbs id size (c, .record (.ok rel)) = (i == id) := by
  rcases hc with rfl | ⟨_, _, rfl⟩ <;> rfl

/-- **One call** that does not disturb an allocation keeps its candidate. -/
theorem Step.keeps_candidate (h : Inv g) {c : Call} {reply : Reply} (hs : Step g c reply g')
    (hf : g.records.find? id = some rec)
    (hkeeps : disturbs id rec.regionSize (c, reply) = false) :
    ∃ rec', g'.records.find? id = some rec' ∧ asCandidate rec' = asCandidate rec := by
  cases hs with
  | quiet hq _ _ => exact ⟨rec, hq.records ▸ hf, rfl⟩
  | granted hready hp =>
      refine (granted_update h hready hp).keeps_candidate hf (fun hid => ?_)
      simp [disturbs, hid] at hkeeps
  | released hc hcur _ _ _ he =>
      rw [disturbs_release hc] at hkeeps
      refine (released_update h hcur he).keeps_candidate hf (fun hid => ?_)
      simp [hid] at hkeeps
  | pinned hcur he =>
      refine (pinned_update h hcur he).keeps_candidate hf (fun hid => ⟨_, rfl, ?_⟩)
      rw [Option.some.inj (hf.symm.trans (hid ▸ hcur.found))]
      rfl
  | unpinned hcur _ he =>
      refine (unpinned_update h hcur he).keeps_candidate hf (fun hid => ⟨_, rfl, ?_⟩)
      rw [Option.some.inj (hf.symm.trans (hid ▸ hcur.found))]
      rfl
  | @moved i gen o n _ _ _ hcur _ _ he =>
      refine (moved_update h hcur he).keeps_candidate hf (fun hid => ⟨_, rfl, ?_⟩)
      have hrec := Option.some.inj (hf.symm.trans (hid ▸ hcur.found))
      have hsize : n = rec.regionSize := by simpa [disturbs, hid] using hkeeps
      rw [hrec] at hsize ⊢
      simp only [asCandidate, relocatedRecord, RegionAllocator.movedRegion, hsize]
  | restored s => simp [disturbs] at hkeeps

/-- **A run** that does not disturb an allocation keeps its candidate. -/
theorem run_keeps_candidate (h : Inv g) {calls : List Call} (hf : g.records.find? id = some rec)
    (hkeeps : ∀ e ∈ trace perform g calls, disturbs id rec.regionSize e = false) :
    ∃ rec', (run perform g calls).records.find? id = some rec' ∧
      asCandidate rec' = asCandidate rec := by
  induction calls generalizing g rec with
  | nil => exact ⟨rec, hf, rfl⟩
  | cons c calls ih =>
      obtain ⟨hnow, hlater⟩ := List.forall_mem_cons.mp hkeeps
      have hs := perform_step h c
      obtain ⟨rec', hf', hsame⟩ := hs.keeps_candidate h hf hnow
      have hsize : rec'.regionSize = rec.regionSize := congrArg Candidate.size hsame
      obtain ⟨rec'', hf'', hsame'⟩ := ih (hs.inv h) hf' (hsize ▸ hlater)
      exact ⟨rec'', hf'', hsame'.trans hsame⟩

end Keeping

section Listings

variable {g g' : MemoryGovernor} {a b : Candidate}

/-- Every live record is recoverable exactly if it has a backing. -/
def Recoverable (g : MemoryGovernor) : Prop :=
  ∀ id rec, g.records.find? id = some rec → rec.recoverable = !rec.backingRef.isEmpty

theorem run_allRecoverable (domain : MemoryDomain) (hasBackend : Bool) (calls : List Call) :
    Recoverable (run perform (new domain hasBackend) calls) :=
  fun _ _ hf => run_recoverable domain hasBackend calls hf

theorem before_irrefl (a : Candidate) : ¬ a.before a = true := by
  simp [before_iff]

theorem before_asymm (h : a.before b = true) : ¬ b.before a = true := by
  rw [before_iff] at *
  grind

/-- Listings with the same candidates are the same. -/
theorem before_unique {l l' : List Candidate} (h : l.Pairwise (fun a b => a.before b = true))
    (h' : l'.Pairwise (fun a b => a.before b = true)) (hmem : ∀ c, c ∈ l ↔ c ∈ l') : l = l' := by
  have : Std.Irrefl (fun a b : Candidate => a.before b = true) := ⟨before_irrefl⟩
  have : Std.Antisymm (fun a b : Candidate => a.before b = true) :=
    ⟨fun _ _ hab hba => absurd hba (before_asymm hab)⟩
  exact h.eq_of_mem_iff h' hmem

/-- Two listings that agree on the candidates of the ids in `p` list these
ids in the same order. -/
theorem filter_agree {l l' : List Candidate} {p : AllocationId → Bool}
    (h : l.Pairwise (fun a b => a.before b = true))
    (h' : l'.Pairwise (fun a b => a.before b = true))
    (hsame : ∀ a ∈ l, ∀ b ∈ l', a.id = b.id → p a.id = true → a = b) :
    (l.map (·.id)).filter (fun id => p id && (l'.map (·.id)).contains id)
      = (l'.map (·.id)).filter (fun id => p id && (l.map (·.id)).contains id) := by
  rw [List.filter_map, List.filter_map]
  congr 1
  refine before_unique (h.sublist List.filter_sublist) (h'.sublist List.filter_sublist)
    (fun c => ?_)
  simp only [List.mem_filter, Function.comp_apply, Bool.and_eq_true, List.contains_iff_mem,
    List.mem_map]
  constructor
  · rintro ⟨hc, hp, c', hc', hid⟩
    obtain rfl := hsame c hc c' hc' hid.symm hp
    exact ⟨hc', hp, c, hc, rfl⟩
  · rintro ⟨hc, hp, c', hc', hid⟩
    obtain rfl := hsame c' hc' c hc hid (hid ▸ hp)
    exact ⟨hc', hp, c', hc, rfl⟩

/-- An undisturbed allocation in both listings is the same candidate. -/
theorem same_candidate (h : Inv g) (hrec : Recoverable g) {calls : List Call}
    (hrec' : Recoverable (run perform g calls)) (ha : a ∈ g.ranked)
    (hb : b ∈ (run perform g calls).ranked) (hid : a.id = b.id)
    (hkeeps : undisturbed g calls a.id = true) : a = b := by
  obtain ⟨ra, hfa, _, rfl⟩ := (mem_ranked_iff h hrec).mp ha
  obtain ⟨rb, hfb, _, rfl⟩ := (mem_ranked_iff (run_inv h calls) hrec').mp hb
  have hquiet : ∀ e ∈ trace perform g calls,
      disturbs (asCandidate ra).id ra.regionSize e = false := by
    intro e he
    have hall := List.all_eq_true.mp hkeeps e he
    rw [regionSize_of_find? hfa] at hall
    simpa using hall
  obtain ⟨r, hf, hsame⟩ := run_keeps_candidate h hfa hquiet
  rw [hid, hfb] at hf
  rw [← hsame, Option.some.inj hf]

/-- **The order of reclaim is kept.** From any reachable state on, over any
calls: the ids of two listings, before and after, that are in both and
undisturbed in between, come in the same order in both. -/
theorem order_keeps (domain : MemoryDomain) (hasBackend : Bool) (calls later : List Call)
    (max max' : UInt64) :
    let g := run perform (new domain hasBackend) calls
    let before := g.reclaimCandidates max
    let after := (run perform g later).reclaimCandidates max'
    before.filter (fun id => undisturbed g later id && after.contains id)
      = after.filter (fun id => undisturbed g later id && before.contains id) := by
  intro g before after
  have hinv : Inv g := run_inv (inv_new domain hasBackend) calls
  have hrec : Recoverable g := run_allRecoverable domain hasBackend calls
  have hrec' : Recoverable (run perform g later) := by
    rw [← run_append]
    exact run_allRecoverable domain hasBackend (calls ++ later)
  have hbefore : before = (g.ranked.take max.toNat).map (·.id) := List.map_take.symm
  have hafter : after = ((run perform g later).ranked.take max'.toNat).map (·.id) :=
    List.map_take.symm
  have hsame : ∀ a ∈ g.ranked.take max.toNat, ∀ b ∈ (run perform g later).ranked.take max'.toNat,
      a.id = b.id → undisturbed g later a.id = true → a = b := fun a ha b hb =>
    same_candidate hinv hrec hrec' (List.mem_of_mem_take ha) (List.mem_of_mem_take hb)
  rw [hbefore, hafter]
  exact filter_agree ((ranked_pairwise hinv hrec).sublist (List.take_sublist _ _))
    ((ranked_pairwise (run_inv hinv later) hrec').sublist (List.take_sublist _ _)) hsame

/-- A larger request comes first, a pinned candidate drops out, and a moved
one keeps its place. -/
example :
    let ask (bytes : UInt64) : Call := .request { bytes := bytes, reclaimability := .bestEffort }
    let g := run perform (new { managedCapacity := 1024 } true)
      [.initializeArena (.ok 4096), ask 8, ask 16, ask 24]
    g.reclaimCandidates 4 = [⟨3⟩, ⟨2⟩, ⟨1⟩] ∧
      (run perform g [ask 32, .pin ⟨3⟩ ⟨1⟩, .applyRelocation ⟨2⟩ ⟨1⟩ 512 16]).reclaimCandidates 4
        = [⟨4⟩, ⟨2⟩, ⟨1⟩] := by
  decide +kernel

end Listings

/-! ## Rounds -/

/-- Release all ids, with their current generations. -/
def releasing (g : MemoryGovernor) (ids : List AllocationId) : List Call :=
  ids.map (fun id => .release id (g.generationOf id))

/-- List at most `max` candidates, release them, and go on to the next
round. -/
def evicting : List UInt64 → MemoryGovernor → List Call
  | [], _ => []
  | max :: rounds, g =>
      let round := .reclaimCandidates max :: g.releasing (g.reclaimCandidates max)
      round ++ evicting rounds (run perform g round)

section Releases

variable {g g' : MemoryGovernor}

/-- The records of the ids are gone, all others are as before. -/
structure Shed (ids : List AllocationId) (g g' : MemoryGovernor) : Prop where
  gone : ∀ id ∈ ids, g'.records.find? id = none
  kept : ∀ id, id ∉ ids → g'.records.find? id = g.records.find? id

theorem Shed.refl (g : MemoryGovernor) : Shed [] g g :=
  ⟨fun _ hid => absurd hid List.not_mem_nil, fun _ _ => rfl⟩

/-- What is still recorded was recorded, and is not one of the ids. -/
theorem Shed.find?_some_iff {ids : List AllocationId} (h : Shed ids g g') {id : AllocationId}
    {rec : AllocationRecord} :
    g'.records.find? id = some rec ↔ id ∉ ids ∧ g.records.find? id = some rec := by
  by_cases hid : id ∈ ids
  · simp [h.gone id hid, hid]
  · simp [h.kept id hid, hid]

theorem Shed.forall_records {ids : List AllocationId} (h : Shed ids g g')
    {P : AllocationRecord → Prop} (hP : ∀ id rec, g.records.find? id = some rec → P rec) :
    ∀ id rec, g'.records.find? id = some rec → P rec :=
  fun id rec hf => hP id rec (h.find?_some_iff.mp hf).2

theorem Shed.trans {ids ids' : List AllocationId} {g'' : MemoryGovernor} (h : Shed ids g g')
    (h' : Shed ids' g' g'') : Shed (ids ++ ids') g g'' := by
  constructor
  · intro id hid
    by_cases hlater : id ∈ ids'
    · exact h'.gone id hlater
    · rw [h'.kept id hlater]
      exact h.gone id ((List.mem_append.mp hid).resolve_right hlater)
  · intro id hid
    rw [List.mem_append, not_or] at hid
    rw [h'.kept id hid.2, h.kept id hid.1]

/-- An idle allocation is released, and only its record goes. -/
theorem shed_release (h : Inv g) {id : AllocationId} {rec : AllocationRecord}
    (hf : g.records.find? id = some rec) (hpins : rec.pinCount = 0)
    (hactive : rec.residency ≠ .active) :
    Shed [id] g (g.perform (.release id rec.generation)).2 := by
  obtain ⟨_, _, region, hcur⟩ := h.current hf
  have hunset : ∀ {tag : GenTag}, ({} : TypedGeneration tag).isSet = false := by
    intro tag
    cases tag <;> rfl
  obtain ⟨arena, heq, heff⟩ := hcur.releaseForWorker h (w := {}) (s := {}) (by simp [hunset])
    (by simp [hunset]) (by simp [hpins]) (by simpa using hactive)
  have hstep : (g.perform (.release id rec.generation)).2 = g.retire id rec arena := by
    simp only [perform, release, heq]
  have hrecords := (released_update h hcur heff).records
  rw [hstep]
  constructor
  · intro i hi
    rw [hrecords, if_pos (List.mem_singleton.mp hi)]
  · intro i hi
    rw [hrecords, if_neg (fun heq => hi (List.mem_singleton.mpr heq))]

/-- Idle allocations are released one after the other, and only their
records go. -/
theorem shed_releases (gen : AllocationId → AllocationGeneration) {ids : List AllocationId}
    (h : Inv g) (hnodup : ids.Nodup)
    (hidle : ∀ id ∈ ids, ∃ rec, g.records.find? id = some rec ∧ rec.generation = gen id ∧
      rec.pinCount = 0 ∧ rec.residency ≠ .active) :
    Shed ids g (run perform g (ids.map (fun id => .release id (gen id)))) := by
  induction ids generalizing g with
  | nil => exact Shed.refl g
  | cons id ids ih =>
      obtain ⟨hnot, hnodup'⟩ := List.nodup_cons.mp hnodup
      obtain ⟨rec, hf, hgen, hpins, hactive⟩ := hidle id List.mem_cons_self
      have hone := shed_release h hf hpins hactive
      rw [hgen] at hone
      refine hone.trans (ih ((perform_step h _).inv h) hnodup' (fun i hi => ?_))
      have hother : i ∉ [id] := fun hmem => hnot (List.mem_singleton.mp hmem ▸ hi)
      rw [hone.kept i hother]
      exact hidle i (List.mem_cons_of_mem _ hi)

/-- Without the first candidates the others are listed in the same order. -/
theorem Shed.ranked {n : ℕ} (h : Inv g) (hrec : Recoverable g) (h' : Inv g')
    (hshed : Shed ((g.ranked.take n).map (·.id)) g g') : g'.ranked = g.ranked.drop n := by
  have hrec' : Recoverable g' := hshed.forall_records hrec
  have hsplit : ∀ c ∈ g.ranked, c ∈ g.ranked.drop n ↔ c.id ∉ (g.ranked.take n).map (·.id) := by
    have hids := ranked_nodup h hrec
    rw [← List.take_append_drop n g.ranked, List.map_append, List.nodup_append] at hids
    intro c hc
    constructor
    · exact fun hdrop htake => hids.2.2 _ htake _ (List.mem_map_of_mem hdrop) rfl
    · intro hnot
      rw [← List.take_append_drop n g.ranked, List.mem_append] at hc
      exact hc.resolve_left (fun htake => hnot (List.mem_map_of_mem htake))
  refine before_unique (ranked_pairwise h' hrec')
    ((ranked_pairwise h hrec).sublist (List.drop_sublist _ _)) (fun c => ?_)
  rw [mem_ranked_iff h' hrec']
  constructor
  · rintro ⟨rec, hf, hel, heq⟩
    obtain ⟨hnot, hf⟩ := hshed.find?_some_iff.mp hf
    exact (hsplit c ((mem_ranked_iff h hrec).mpr ⟨rec, hf, hel, heq⟩)).mpr hnot
  · intro hc
    have hmem := List.mem_of_mem_drop hc
    obtain ⟨rec, hf, hel, heq⟩ := (mem_ranked_iff h hrec).mp hmem
    exact ⟨rec, hshed.find?_some_iff.mpr ⟨(hsplit c hmem).mp hc, hf⟩, hel, heq⟩

end Releases

section Rounds

variable {g : MemoryGovernor}

theorem acceptsAll_append {cs ds : List Call} (h : g.AcceptsAll cs)
    (h' : (run perform g cs).AcceptsAll ds) : g.AcceptsAll (cs ++ ds) := by
  intro e he
  rw [trace_append] at he
  exact (List.mem_append.mp he).elim (h e) (h' e)

theorem releasing_targets (g : MemoryGovernor) (ids : List AllocationId) :
    (g.releasing ids).filterMap (·.target?) = ids := by
  rw [releasing, List.filterMap_map]
  exact List.filterMap_some

/-- A candidate is as large as its region. -/
theorem regionSize_ranked (h : Inv g) (hrec : Recoverable g) {c : Candidate} (hc : c ∈ g.ranked) :
    g.regionSize c.id = c.size := by
  obtain ⟨rec, hf, _, heq⟩ := (mem_ranked_iff h hrec).mp hc
  rw [regionSize_of_find? hf, heq]
  rfl

theorem sum_regionSize_ranked (h : Inv g) (hrec : Recoverable g) (n : ℕ) :
    (((g.ranked.take n).map (·.id)).map (fun id => (g.regionSize id).toNat)).sum
      = ((g.ranked.take n).map (·.size.toNat)).sum := by
  rw [List.map_map]
  congr 1
  refine List.map_congr_left (fun c hc => ?_)
  rw [Function.comp_apply, regionSize_ranked h hrec (List.mem_of_mem_take hc)]

/-- What evicting the first `n` candidates by the calls comes to. -/
structure Evicts (n : ℕ) (calls : List Call) (g : MemoryGovernor) : Prop where
  accepted : g.AcceptsAll calls
  targets : calls.filterMap (·.target?) = (g.ranked.take n).map (·.id)
  shed : Shed ((g.ranked.take n).map (·.id)) g (run perform g calls)
  freed : (run perform g calls).arena.freeBytes.toNat
    = g.arena.freeBytes.toNat + ((g.ranked.take n).map (·.size.toNat)).sum

/-- The others are still candidates, in the same order. -/
theorem Evicts.ranked {n : ℕ} {calls : List Call} (h : Inv g) (hrec : Recoverable g)
    (he : Evicts n calls g) : (run perform g calls).ranked = g.ranked.drop n :=
  he.shed.ranked h hrec (run_inv h calls)

/-- **One round.** -/
theorem evicts_round (h : Inv g) (hrec : Recoverable g) (max : UInt64) :
    Evicts max.toNat (.reclaimCandidates max :: g.releasing (g.reclaimCandidates max)) g := by
  have hids : g.reclaimCandidates max = (g.ranked.take max.toNat).map (·.id) := List.map_take.symm
  have hnodup : ((g.ranked.take max.toNat).map (·.id)).Nodup :=
    (ranked_nodup h hrec).sublist ((List.take_sublist _ _).map _)
  have hidle : ∀ id ∈ (g.ranked.take max.toNat).map (·.id), ∃ rec,
      g.records.find? id = some rec ∧ rec.pinCount = 0 ∧ rec.residency ≠ .active := by
    intro id hid
    obtain ⟨c, hc, rfl⟩ := List.mem_map.mp hid
    obtain ⟨rec, hf, hel, _⟩ := (mem_ranked_iff h hrec).mp (List.mem_of_mem_take hc)
    exact ⟨rec, hf, hel.pins, hel.residency⟩
  obtain ⟨haccepted, hfreed⟩ := release_ids h hnodup hidle
  rw [hids]
  constructor
  · intro e he
    rcases List.mem_cons.mp he with rfl | he
    · rfl
    · exact haccepted e he
  · exact releasing_targets g _
  · refine shed_releases g.generationOf h hnodup (fun id hid => ?_)
    obtain ⟨rec, hf, hrest⟩ := hidle id hid
    exact ⟨rec, hf, (generationOf_of_find? hf).symm, hrest⟩
  · rw [← sum_regionSize_ranked h hrec]
    exact hfreed

/-- Evicting in two parts evicts as many as the parts together. -/
theorem Evicts.append {n n' : ℕ} {cs ds : List Call} (h : Inv g) (hrec : Recoverable g)
    (hc : Evicts n cs g) (hd : Evicts n' ds (run perform g cs)) : Evicts (n + n') (cs ++ ds) g := by
  have hsplit : g.ranked.take (n + n')
      = g.ranked.take n ++ (run perform g cs).ranked.take n' := by
    rw [hc.ranked h hrec, List.take_add]
  refine ⟨acceptsAll_append hc.accepted hd.accepted, ?_, ?_, ?_⟩
  · rw [List.filterMap_append, hc.targets, hd.targets, hsplit, List.map_append]
  · rw [hsplit, List.map_append, run_append]
    exact hc.shed.trans hd.shed
  · rw [hsplit, List.map_append, List.sum_append, run_append, hd.freed, hc.freed, Nat.add_assoc]

/-- **All rounds.** -/
theorem evicts_rounds (rounds : List UInt64) (h : Inv g) (hrec : Recoverable g) :
    Evicts (rounds.map (·.toNat)).sum (evicting rounds g) g := by
  induction rounds generalizing g with
  | nil =>
      exact ⟨(fun e he => by cases he), rfl, Shed.refl g, rfl⟩
  | cons max rounds ih =>
      have hround := evicts_round h hrec max
      exact hround.append h hrec (ih (run_inv h _) (hround.shed.forall_records hrec))

/-- **Reclaim in rounds.** In every reachable state, and for rounds of any
lengths: listing and releasing in rounds is accepted throughout; it
releases the candidates of one long listing, in its order, as many as the
rounds ask for; what is then listed is the rest of that listing; and the
other records are untouched and the bytes of the released regions free. -/
theorem evicts_in_order (domain : MemoryDomain) (hasBackend : Bool) (calls : List Call)
    (rounds : List UInt64) :
    let g := run perform (new domain hasBackend) calls
    let g' := run perform g (evicting rounds g)
    let n := (rounds.map (·.toNat)).sum
    g.AcceptsAll (evicting rounds g) ∧
      ∃ full : List AllocationId, (∀ max, g.reclaimCandidates max = full.take max.toNat) ∧
        (evicting rounds g).filterMap (·.target?) = full.take n ∧
        (∀ max, g'.reclaimCandidates max = (full.drop n).take max.toNat) ∧
        (∀ id, g'.records.find? id = if id ∈ full.take n then none else g.records.find? id) ∧
        g'.arena.freeBytes.toNat = g.arena.freeBytes.toNat
          + ((full.take n).map (fun id => (g.regionSize id).toNat)).sum := by
  intro g g' n
  have hinv : Inv g := run_inv (inv_new domain hasBackend) calls
  have hrec : Recoverable g := run_allRecoverable domain hasBackend calls
  have hevicts : Evicts n (evicting rounds g) g := evicts_rounds rounds hinv hrec
  have hranked : g'.ranked = g.ranked.drop n := hevicts.ranked hinv hrec
  refine ⟨hevicts.accepted, g.ranked.map (·.id), reclaimCandidates_eq g, ?_, fun max => ?_,
    ?_, ?_⟩
  · rw [hevicts.targets, List.map_take]
  · rw [reclaimCandidates_eq, hranked, List.map_drop]
  · intro id
    rw [← List.map_take]
    split
    · exact hevicts.shed.gone id ‹_›
    · exact hevicts.shed.kept id ‹_›
  · rw [← List.map_take, sum_regionSize_ranked hinv hrec]
    exact hevicts.freed

end Rounds

end GpuMemoryService.MemoryGovernor
