/-
GpuMemoryService.GovernorRecovery — handles across a recovery.

A restore forgets every record and takes the id counter of the snapshot. So
a handle issued before the restore comes back to life exactly when a later
request draws its id again, since every allocation starts at the first
generation (`recovery_refuses_iff`). The ids at risk are those granted
between the snapshot and its restore, which the snapshot does not know of;
where none is, the counter of the snapshot is ahead of every id issued
before (`recovery_without_grants`).
-/
import GpuMemoryService.GovernorAgreement
import GpuMemoryService.GovernorHandles

namespace GpuMemoryService.MemoryGovernor

open Lib

/-! ## Issued handles -/

/-- Every id with an account, and every id ever handed out, was handed out
with the first generation. -/
structure Opened (t : List Event) : Prop where
  accounts : ∀ {id a}, account id t = some a → (id, TypedGeneration.first) ∈ issued t
  handles : ∀ {h}, h ∈ issued t → (h.1, TypedGeneration.first) ∈ issued t

section Opened

variable {g g' : MemoryGovernor} {t : List Event} {c : Call} {reply : Reply}

theorem mem_issued_concat {e : Event} {h : AllocationId × AllocationGeneration} :
    h ∈ issued (t ++ [e]) ↔ h ∈ issued t ∨ handedOut e = some h := by
  rw [issued_concat, List.mem_append, Option.mem_toList]

/-- A step that opens no account and hands out only ids that have one. -/
theorem Opened.keep (ho : Opened t)
    (hacc : ∀ {id a}, enter id (account id t) (c, reply) = some a → ∃ a', account id t = some a')
    (hout : ∀ {h}, handedOut (c, reply) = some h → ∃ a, account h.1 t = some a) :
    Opened (t ++ [(c, reply)]) where
  accounts := by
    intro id a ha
    rw [account_concat] at ha
    obtain ⟨a', ha'⟩ := hacc ha
    exact mem_issued_concat.mpr (Or.inl (ho.accounts ha'))
  handles := by
    intro h hin
    rcases mem_issued_concat.mp hin with hin | hnew
    · exact mem_issued_concat.mpr (Or.inl (ho.handles hin))
    · obtain ⟨a, ha⟩ := hout hnew
      exact mem_issued_concat.mpr (Or.inl (ho.accounts ha))

theorem Step.opened (ht : Tracks g t) (ho : Opened t) (hs : Step g c reply g') :
    Opened (t ++ [(c, reply)]) := by
  cases hs with
  | quiet _ hm _ =>
      refine ho.keep (fun {id a} ha => ⟨a, by rwa [enter_of_not_mutates hm] at ha⟩) ?_
      intro h hh
      rw [handedOut_of_not_mutates hm] at hh
      cases hh
  | granted hready hp =>
      refine ⟨fun {id a} ha => ?_, fun {h} hin => ?_⟩
      · rw [account_concat] at ha
        simp only [enter] at ha
        split at ha
        · rename_i hi
          rw [← hi]
          exact mem_issued_concat.mpr (Or.inr rfl)
        · exact mem_issued_concat.mpr (Or.inl (ho.accounts ha))
      · rcases mem_issued_concat.mp hin with hin | hnew
        · exact mem_issued_concat.mpr (Or.inl (ho.handles hin))
        · cases hnew
          exact mem_issued_concat.mpr (Or.inr rfl)
  | released hc _ _ _ _ _ =>
      refine ho.keep (fun ha => ?_) (fun hh => ?_)
      · rw [enter_release hc] at ha
        exact exists_of_enter_map ha
      · rcases hc with rfl | ⟨_, _, rfl⟩ <;> cases hh
  | pinned _ _ => exact ho.keep (fun ha => exists_of_enter_map ha) (fun hh => by cases hh)
  | unpinned _ _ _ => exact ho.keep (fun ha => exists_of_enter_map ha) (fun hh => by cases hh)
  | moved hcur _ _ _ =>
      refine ho.keep (fun ha => exists_of_enter_map ha) (fun hh => ?_)
      cases hh
      obtain ⟨a, ha, _⟩ := ht.current hcur
      exact ⟨a, ha⟩
  | restored s => exact ho.keep (fun ha => by cases ha) (fun hh => by cases hh)

theorem run_opened (domain : MemoryDomain) (hasBackend : Bool) (calls : List Call) :
    Opened (trace perform (new domain hasBackend) calls) := by
  induction calls using List.reverseRecOn with
  | nil => exact ⟨nofun, nofun⟩
  | append_singleton calls c ih =>
      rw [trace_concat]
      exact (perform_step (run_inv (inv_new domain hasBackend) calls) c).opened
        (run_tracks domain hasBackend calls) ih

end Opened

/-! ## After a restore -/

/-- An accepted request draws an id that is in no handle of `old`. -/
def DrawsNew (old : List (AllocationId × AllocationGeneration)) (g : MemoryGovernor) :
    Call → Prop
  | .request req => Accepted (g.request req).1 → ∀ gen, (⟨g.nextAllocId⟩, gen) ∉ old
  | _ => True

/-- No handle of `old` names a live record. -/
def Forgotten (old : List (AllocationId × AllocationGeneration)) (g : MemoryGovernor) : Prop :=
  ∀ h ∈ old, g.records.find? h.1 = none

section Recovery

variable {g g' : MemoryGovernor} {old : List (AllocationId × AllocationGeneration)}

theorem Forgotten.refuses (hf : Forgotten old g) {h : AllocationId × AllocationGeneration}
    (hin : h ∈ old) : Refuses g h.1 h.2 :=
  refuses_of_stale (fun rec hrec => by rw [hf h hin] at hrec; cases hrec)

/-- A step that adds no record forgets nothing less. -/
theorem Forgotten.keep (hf : Forgotten old g)
    (hrec : ∀ i r, g'.records.find? i = some r → ∃ r', g.records.find? i = some r') :
    Forgotten old g' := by
  intro h hin
  cases hfind : g'.records.find? h.1 with
  | none => rfl
  | some r =>
      obtain ⟨r', hr'⟩ := hrec _ _ hfind
      rw [hf h hin] at hr'
      cases hr'

/-- **One call** brings no forgotten id back unless it draws one. -/
theorem perform_forgotten (h : Inv g) (hf : Forgotten old g) {c : Call}
    (hd : DrawsNew old g c) : Forgotten old (g.perform c).2 := by
  have hs := perform_step h c
  generalize hreply : (g.perform c).1 = reply at hs
  generalize (g.perform c).2 = g' at hs
  cases hs with
  | quiet hq _ _ => exact hf.keep (fun i r hr => ⟨r, by rw [← hq.records]; exact hr⟩)
  | granted hready hp =>
      intro handle hin
      rw [(granted_update h hready hp).records, if_neg, hf handle hin]
      intro hid
      refine hd ⟨_, Reply.handle.inj hreply⟩ handle.2 ?_
      rw [← hid]
      exact hin
  | released _ hcur _ _ _ he =>
      exact hf.keep ((released_update h hcur he).keeps ⟨_, hcur.found⟩)
  | pinned hcur he => exact hf.keep ((pinned_update h hcur he).keeps ⟨_, hcur.found⟩)
  | unpinned hcur _ he => exact hf.keep ((unpinned_update h hcur he).keeps ⟨_, hcur.found⟩)
  | moved hcur _ _ he => exact hf.keep ((moved_update h hcur he).keeps ⟨_, hcur.found⟩)
  | restored s => exact fun _ _ => rfl

theorem run_forgotten (h : Inv g) (hf : Forgotten old g) {calls : List Call}
    (hd : Guarded perform (DrawsNew old) g calls) : Forgotten old (run perform g calls) := by
  have hboth := hd.run_inv (I := fun g => Inv g ∧ Forgotten old g) ⟨h, hf⟩
    (fun g c hg hc => ⟨(perform_step hg.1 c).inv hg.1, perform_forgotten hg.1 hg.2 hc⟩)
  exact hboth.2

/-- A restore forgets everything. -/
theorem forgotten_restored (calls : List Call) (s : PersistSnapshot) :
    Forgotten old (run perform g (calls ++ [.restore s])) := by
  rw [run_concat]
  exact fun _ _ => rfl

/-- A request that draws an id of `old` makes the first handle of that id
current. -/
theorem not_refuses_of_drawn (h : Inv g) {req : AllocationRequest}
    (hacc : Accepted (g.request req).1) :
    ¬ Refuses (g.perform (.request req)).2 ⟨g.nextAllocId⟩ .first := by
  intro hrefuses
  have hs := perform_step h (.request req)
  obtain ⟨handle, hok⟩ := hacc
  have hreply : (g.perform (.request req)).1 = .handle (.ok handle) := by
    simp only [perform, hok]
  rw [hreply] at hs
  have hinv := hs.inv h
  generalize (g.perform (.request req)).2 = g' at hs hinv hrefuses
  cases hs with
  | quiet _ hm _ => cases hm
  | granted hready hp =>
      have hcur := (granted_update h hready hp).current
      obtain ⟨rec, hget⟩ := (hinv.accepted_get ⟨g.nextAllocId⟩ .first).mpr ⟨_, hcur.found, rfl⟩
      have hrejected := (hrefuses (.get ⟨g.nextAllocId⟩ .first) rfl).1
      simp only [perform, hget, Reply.rejected] at hrejected
      cases hrejected

/-- **Recovery revives no handle** in exactly the runs in which no accepted
request after the restore draws an id that was handed out before it. The
restore may be of any snapshot, and further restores may follow. -/
theorem recovery_refuses_iff (domain : MemoryDomain) (hasBackend : Bool) (before : List Call)
    (s : PersistSnapshot) (post : List Call) :
    let recovered := run perform (new domain hasBackend) (before ++ [.restore s])
    let old := issued (trace perform (new domain hasBackend) before)
    Throughout perform (fun _ g => ∀ h ∈ old, Refuses g h.1 h.2) recovered post ↔
      Guarded perform (DrawsNew old) recovered post := by
  intro recovered old
  have hinv : Inv recovered := run_inv (inv_new domain hasBackend) _
  rw [guarded_iff_concat]
  constructor
  · intro hall pre c hpre
    cases c with
    | request req =>
        intro hacc gen hin
        have hfirst := (run_opened domain hasBackend before).handles hin
        refine not_refuses_of_drawn (run_inv hinv pre) hacc ?_
        have hrefuses := hall _ hpre _ hfirst
        rw [run_concat] at hrefuses
        exact hrefuses
    | _ => trivial
  · intro hguard pre hpre h hin
    have hdraws := guarded_iff_concat.mpr (fun p c hp => hguard p c (hp.trans hpre))
    exact (run_forgotten hinv (forgotten_restored before s) hdraws).refuses hin

/-- A grant between the snapshot and its restore, and a grant after it. -/
theorem grant_revived_by_recovery :
    let start := new { managedCapacity := 1024 } true
    let opened : List Call := [.initializeArena (.ok 4096)]
    let s := (run perform start opened).snapshot
    let before := opened ++ [.request { bytes := 8 }]
    let g := run perform start
      (before ++ [.restore s, .initializeArena (.ok 4096), .request { bytes := 16 }])
    (⟨1⟩, ⟨1⟩) ∈ issued (trace perform start before) ∧ ¬ Refuses g ⟨1⟩ ⟨1⟩ ∧
      (g.perform (.get ⟨1⟩ ⟨1⟩)).1.rejected = false ∧
      (g.perform (.release ⟨1⟩ ⟨1⟩)).1.rejected = false := by
  intro start opened s before g
  have hget : (g.perform (.get ⟨1⟩ ⟨1⟩)).1.rejected = false := by decide +kernel
  refine ⟨by decide +kernel, fun hrefuses => ?_, hget, by decide +kernel⟩
  have hrejected := (hrefuses (.get ⟨1⟩ ⟨1⟩) rfl).1
  rw [hget] at hrejected
  cases hrejected

end Recovery

/-! ## No grant between snapshot and restore -/

/-- The call is no restore and draws no id at the end of the counter. -/
structure IdFits (g : MemoryGovernor) (c : Call) : Prop where
  restore : ∀ s, c ≠ .restore s
  id : c.isRequest = true → g.nextAllocId.toNat + 1 < 2 ^ 64

/-- The event is an accepted request. -/
def isGrant : Event → Bool
  | (.request _, .handle (.ok _)) => true
  | _ => false

section Unborn

variable {g g' : MemoryGovernor} {t : List Event} {c : Call} {reply : Reply}

/-- The id counter does not fall. -/
theorem Step.next_le (hs : Step g c reply g') (hfit : IdFits g c) :
    g.nextAllocId.toNat ≤ g'.nextAllocId.toNat := by
  have hdraw : c.isRequest = true → g.nextAllocId.toNat ≤ (g.nextAllocId + 1).toNat := by
    intro hreq
    rw [toNat_add_of_lt (b := 1) (hfit.id hreq)]
    omega
  cases hs with
  | quiet _ _ hid =>
      rcases hid with hid | ⟨⟨req, rfl⟩, hid⟩
      · rw [hid]
      · rw [hid]
        exact hdraw rfl
  | granted _ _ => exact hdraw rfl
  | restored s => exact absurd rfl (hfit.restore s)
  | _ => exact le_rfl

/-- Only a grant hands out an id that was not handed out before. -/
theorem Step.issued_cases (ht : Tracks g t) (ho : Opened t) (hs : Step g c reply g')
    {h : AllocationId × AllocationGeneration} (hin : h ∈ issued (t ++ [(c, reply)])) :
    (∃ gen, (h.1, gen) ∈ issued t) ∨
      (isGrant (c, reply) = true ∧ h.1 = ⟨g.nextAllocId⟩ ∧ c.isRequest = true ∧
        g'.nextAllocId = g.nextAllocId + 1) := by
  rcases mem_issued_concat.mp hin with hin | hnew
  · exact Or.inl ⟨h.2, hin⟩
  · cases hs with
    | quiet _ hm _ =>
        rw [handedOut_of_not_mutates hm] at hnew
        cases hnew
    | granted _ _ =>
        cases hnew
        exact Or.inr ⟨rfl, rfl, rfl, rfl⟩
    | released hc _ _ _ _ _ => rcases hc with rfl | ⟨_, _, rfl⟩ <;> cases hnew
    | moved hcur _ _ _ =>
        cases hnew
        obtain ⟨a, ha, _⟩ := ht.current hcur
        exact Or.inl ⟨.first, ho.accounts ha⟩
    | pinned _ _ => cases hnew
    | unpinned _ _ _ => cases hnew
    | restored _ => cases hnew

/-- Every id handed out is behind the counter. -/
theorem run_issued_lt {domain : MemoryDomain} {hasBackend : Bool} {calls : List Call}
    (hfit : Guarded perform IdFits (new domain hasBackend) calls) :
    ∀ id gen, (id, gen) ∈ issued (trace perform (new domain hasBackend) calls) →
      id.value.toNat < (run perform (new domain hasBackend) calls).nextAllocId.toNat := by
  induction calls using List.reverseRecOn with
  | nil => exact nofun
  | append_singleton calls c ih =>
      obtain ⟨hpre, hc⟩ := guarded_concat.mp hfit
      have hs := perform_step (run_inv (inv_new domain hasBackend) calls) c
      intro id gen hin
      rw [trace_concat] at hin
      rw [run_concat]
      rcases hs.issued_cases (run_tracks domain hasBackend calls)
        (run_opened domain hasBackend calls) hin with ⟨gen', hold⟩ | ⟨_, hid, hreq, hnext⟩
      · exact lt_of_lt_of_le (ih hpre id gen' hold) (hs.next_le hc)
      · rw [hnext, toNat_add_of_lt (b := 1) (hc.id hreq)]
        show id.value.toNat < _
        rw [show id = _ from hid]
        exact Nat.lt_succ_self _

/-- Without a grant, calls hand out only ids that were handed out before. -/
theorem issued_of_no_grant {domain : MemoryDomain} {hasBackend : Bool} {pre mid : List Call}
    (hno : ∀ e ∈ trace perform (run perform (new domain hasBackend) pre) mid, isGrant e = false) :
    ∀ id gen, (id, gen) ∈ issued (trace perform (new domain hasBackend) (pre ++ mid)) →
      ∃ gen', (id, gen') ∈ issued (trace perform (new domain hasBackend) pre) := by
  induction mid using List.reverseRecOn with
  | nil =>
      intro id gen hin
      rw [List.append_nil] at hin
      exact ⟨gen, hin⟩
  | append_singleton mid c ih =>
      intro id gen hin
      rw [trace_concat] at hno
      rw [← List.append_assoc, trace_concat] at hin
      have hs := perform_step (run_inv (inv_new domain hasBackend) (pre ++ mid)) c
      rcases hs.issued_cases (run_tracks domain hasBackend (pre ++ mid))
        (run_opened domain hasBackend (pre ++ mid)) hin with ⟨gen', hold⟩ | ⟨hgrant, _⟩
      · exact ih (fun e he => hno e (List.mem_append_left _ he)) id gen' hold
      · rw [run_append] at hgrant
        rw [hno _ (List.mem_append_right _ (List.mem_singleton_self _))] at hgrant
        cases hgrant

/-- With the counter ahead of `old`, no further request draws an id of it. -/
theorem guarded_drawsNew {old : List (AllocationId × AllocationGeneration)} (h : Inv g)
    {calls : List Call} (hfit : Guarded perform IdFits g calls)
    (hahead : ∀ id gen, (id, gen) ∈ old → id.value.toNat < g.nextAllocId.toNat) :
    Guarded perform (DrawsNew old) g calls := by
  induction calls generalizing g with
  | nil => exact trivial
  | cons c calls ih =>
      obtain ⟨hc, hrest⟩ := hfit
      have hs := perform_step h c
      refine ⟨?_, ih (hs.inv h) hrest (fun id gen hin => ?_)⟩
      · cases c with
        | request req => exact fun _ gen hin => absurd (hahead _ gen hin) (lt_irrefl _)
        | _ => trivial
      · exact lt_of_lt_of_le (hahead id gen hin) (hs.next_le hc)

/-- **A recovery without grants in between** revives no handle: if no
request was granted between a snapshot and its restore, and the id counter
does not wrap, every handle issued before the restore is refused after it. -/
theorem recovery_without_grants {domain : MemoryDomain} {hasBackend : Bool}
    {pre mid post : List Call} (hpre : Guarded perform IdFits (new domain hasBackend) pre)
    (hno : ∀ e ∈ trace perform (run perform (new domain hasBackend) pre) mid, isGrant e = false)
    (hpost : Guarded perform IdFits (run perform (new domain hasBackend) ((pre ++ mid) ++
      [.restore (run perform (new domain hasBackend) pre).snapshot])) post) :
    ∀ h ∈ issued (trace perform (new domain hasBackend) (pre ++ mid)),
      Refuses (run perform (new domain hasBackend) ((pre ++ mid) ++
        [.restore (run perform (new domain hasBackend) pre).snapshot] ++ post)) h.1 h.2 := by
  intro h hin
  have hahead : ∀ id gen, (id, gen) ∈ issued (trace perform (new domain hasBackend) (pre ++ mid)) →
      id.value.toNat < (run perform (new domain hasBackend) ((pre ++ mid) ++
        [.restore (run perform (new domain hasBackend) pre).snapshot])).nextAllocId.toNat := by
    intro id gen hold
    obtain ⟨gen', hissued⟩ := issued_of_no_grant hno id gen hold
    rw [run_concat]
    exact run_issued_lt hpre id gen' hissued
  have hinv := run_inv (inv_new domain hasBackend) ((pre ++ mid) ++
    [.restore (run perform (new domain hasBackend) pre).snapshot])
  rw [run_append]
  exact (run_forgotten hinv (forgotten_restored (pre ++ mid) _)
    (guarded_drawsNew hinv hpost hahead)).refuses hin

end Unborn

end GpuMemoryService.MemoryGovernor
