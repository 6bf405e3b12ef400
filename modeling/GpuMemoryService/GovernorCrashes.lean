/-
GpuMemoryService.GovernorCrashes — what survives a crash.

A service runs a governor, saves it to a file now and then, and may die at
any moment, also in the middle of a save: then `write_file` has truncated
the file and appended some of the bytes. A new process loads what is on the
disk. `Service` is the governor with the disk, and a save says how many of
the file operations it got through.

`durable` reads off the log what should be on the disk: the snapshot of the
last save that got through, or nothing once a later one has begun and was
cut off. `recovers_durable`: a restart recovers exactly that, or nothing
where the decoder rejects it. The one assumption is that the lengths of the
strings and lists fit the four bytes they are written in.

`ids_outlive_restarts` is about services that save in time, that is, after
the last id was drawn: their ids increase over all lives, and a handle of
an earlier life is refused for ever.
-/
import GpuMemoryService.SnapshotFiles
import GpuMemoryService.GovernorArena
import GpuMemoryService.GovernorSaving
import GpuMemoryService.GovernorRecovery

namespace GpuMemoryService

open Lib Persist MemoryGovernor

/-! ## What was written is what is read -/

namespace Persist

/-- A list of written records is read back as it was, or not at all. -/
theorem many_exact {rs : List AllocationRecord}
    (howners : ∀ r ∈ rs, LengthFits r.owner.length)
    (hbacking : ∀ r ∈ rs, LengthFits r.backingRef.length) (rest : Bytes)
    {x : List AllocationRecord × Bytes}
    (h : (many readRecord rs.length).run (rs.flatMap writeRecord ++ rest) = some x) :
    x = (rs, rest) := by
  induction rs generalizing x with
  | nil =>
      have hx : some (([] : List AllocationRecord), rest) = some x := h
      exact (Option.some.inj hx).symm
  | cons r rs ih =>
      obtain ⟨howner, howners⟩ := List.forall_mem_cons.mp howners
      obtain ⟨hback, hbacking⟩ := List.forall_mem_cons.mp hbacking
      have hrun : (readRecord >>= fun a => many readRecord rs.length >>= fun as =>
          pure (a :: as)).run (writeRecord r ++ (rs.flatMap writeRecord ++ rest)) = some x := by
        rw [← List.append_assoc]
        exact h
      rw [StateT.run_bind] at hrun
      obtain ⟨⟨a, t⟩, hfirst, hrest⟩ := Option.bind_eq_some_iff.mp hrun
      rcases readRecord_written howner hback (rs.flatMap writeRecord ++ rest) with hnone | hsome
      · rw [hnone] at hfirst
        cases hfirst
      · rw [hsome] at hfirst
        cases hfirst
        rw [StateT.run_bind] at hrest
        obtain ⟨y, hmany, hpure⟩ := Option.bind_eq_some_iff.mp hrest
        rw [ih howners hbacking hmany] at hpure
        cases hpure
        rfl

/-- The reader gives the fields that were written. -/
theorem decodeFields_exact {s s' : PersistSnapshot} (hfit : SizesFit s) (hmagic : s.magic = kMagic)
    (hversion : s.version = kVersion) {stored : UInt32} {rest : Bytes}
    (h : decodeFields (encode s) = .ok (s', stored, rest)) : s' = s := by
  unfold encode encodeBody decodeFields at h
  simp only [List.append_assoc] at h
  rw [expect_append inverts_u32 rfl] at h
  obtain ⟨_, h⟩ := reject_bind_ok.mp h
  rw [expect_append inverts_u32 rfl] at h
  obtain ⟨_, h⟩ := reject_bind_ok.mp h
  rw [expect_append inverts_domain rfl] at h
  obtain ⟨_, h⟩ := reject_bind_ok.mp h
  rw [expect_append inverts_u32 rfl] at h
  obtain ⟨_, h⟩ := reject_bind_ok.mp h
  rw [hfit.records.toNat_ofNat] at h
  obtain ⟨⟨records, b⟩, hrecords, h⟩ := expect_bind_ok.mp h
  obtain ⟨rfl, rfl⟩ := Prod.mk.inj (many_exact (fun r hr => hfit.owners r (by simp [hr]))
    (fun r hr => hfit.backingRefs r (by simp [hr])) _ hrecords)
  rw [expect_append inverts_u32 rfl] at h
  obtain ⟨_, h⟩ := reject_bind_ok.mp h
  rw [hfit.retired.toNat_ofNat] at h
  obtain ⟨⟨retired, b'⟩, hretired, h⟩ := expect_bind_ok.mp h
  obtain ⟨rfl, rfl⟩ := Prod.mk.inj (many_exact (fun r hr => hfit.owners r (by simp [hr]))
    (fun r hr => hfit.backingRefs r (by simp [hr])) _ hretired)
  rw [expect_append inverts_u64 rfl, expect_append inverts_u64 rfl,
    ← List.append_nil (Writer.u32 _), expect_append inverts_u32 rfl] at h
  simp only [pure, Except.pure, Except.ok.injEq, Prod.mk.injEq] at h
  rw [← h.1]
  cases s
  simp_all

/-- What is on the disk after a complete save. -/
structure Written (s : PersistSnapshot) : Prop where
  sizes : SizesFit s
  magic : s.magic = kMagic
  version : s.version = kVersion

/-- A snapshot that was written in full is read back as it was, or rejected
by the checks of the decoder. -/
theorem Written.decode_iff {s : PersistSnapshot} (h : Written s) (s' : PersistSnapshot) :
    decode (encode s) = .ok s' ↔ Storable s' ∧ s = s' := by
  constructor
  · intro hok
    obtain ⟨w, hw, hb, _⟩ := decode_ok_iff.mp hok
    have hfields : decodeFields (encode s) = .ok (s', crc32 w, []) := by
      rw [hb, ← List.append_nil (Writer.u32 _)]
      exact decodeFields_append hw _ []
    have heq := decodeFields_exact h.sizes h.magic h.version hfields
    rw [heq] at hok ⊢
    exact ⟨decode_encode_iff.mp hok, rfl⟩
  · rintro ⟨hs, rfl⟩
    exact decode_encode_iff.mpr hs

/-- A written file is not empty. -/
theorem readFile_encode (s : PersistSnapshot) : readFile (encode s) = decode (encode s) := by
  have hlen : (encode s).length ≠ 0 := by
    unfold encode
    simp [length_u32]
  rw [readFile, if_neg hlen]

/-- A write that was cut off leaves a file that is rejected. -/
theorem cut_off {s : PersistSnapshot} (h : SizesFit s) {n : Nat} (hpos : n ≠ 0)
    (hshort : n < (writeFile s).length) (old : Bytes) (s' : PersistSnapshot) :
    readFile (contentAfter old ((writeFile s).take n)) ≠ .ok s' := by
  intro hread
  have hne : (writeFile s).take n ≠ [] := by simp [writeFile, hpos]
  have hall := decode_written h (crash_written (List.take_prefix _ _) hne old) (readFile_ok hread)
  obtain ⟨m, rfl⟩ := Nat.exists_eq_succ_of_ne_zero hpos
  have hlen := congrArg List.length hall
  rw [writeFile, List.take_succ_cons, ← List.map_take, contentAfter_append,
    List.length_take] at hlen
  simp only [writeFile, List.length_cons, List.length_map] at hshort
  omega

end Persist

/-! ## The service -/

/-- A governor and the file it is saved to, if there is one. -/
structure Service where
  governor : MemoryGovernor
  disk : Option Bytes := none

namespace Service

/-- What happens to a service. A save gets through a number of the file
operations of `write_file`; where that is not all of them, the disk was
full or the process died there. A restart is a new process, configured
anew, that loads the file. -/
inductive Act where
  | call (c : Call)
  | save (reached : Nat)
  | restart (domain : MemoryDomain) (hasBackend : Bool)

inductive Outcome where
  | reply (r : Reply)
  | saved (s : PersistSnapshot)
  | recovered (r : Result PersistSnapshot)

/-- What a process that opens the file sees. -/
def file (s : Service) : FileRead :=
  match s.disk with
  | none => .unopened
  | some b => .content b

/-- Opening the file for writing makes one. -/
def overwrite (disk : Option Bytes) : List FileOp → Option Bytes
  | [] => disk
  | op :: ops => some (contentAfter (disk.getD []) (op :: ops))

def step (s : Service) : Act → Outcome × Service
  | .call c => (.reply (s.governor.perform c).1, { s with governor := (s.governor.perform c).2 })
  | .save reached =>
      let snap := s.governor.snapshot
      (.saved snap, { s with disk := overwrite s.disk ((writeFile snap).take reached) })
  | .restart domain hasBackend =>
      (.recovered (readPath s.file), { s with governor := ((new domain hasBackend).load s.file).2 })

/-- What the log says is on the disk: a save that gets through all its
operations puts its snapshot there, one that gets through some of them
destroys what was there. -/
def settle (last : Option PersistSnapshot) : Act × Outcome → Option PersistSnapshot
  | (.save reached, .saved s) =>
      if reached = 0 then last else if (writeFile s).length ≤ reached then some s else none
  | _ => last

def durable (log : List (Act × Outcome)) : Option PersistSnapshot := log.foldl settle none

theorem durable_concat (log : List (Act × Outcome)) (e : Act × Outcome) :
    durable (log ++ [e]) = settle (durable log) e := by
  rw [durable, List.foldl_append]
  rfl

/-- The lengths of what is saved fit the bytes they are written in. -/
def SavesFit (s : Service) : Act → Prop
  | .save _ => SizesFit s.governor.snapshot
  | _ => True

/-- The disk holds what is durable, and otherwise nothing that reads. -/
def Holds (log : List (Act × Outcome)) (s : Service) : Prop :=
  match durable log with
  | some snap => s.disk = some (encode snap) ∧ Written snap
  | none => ∀ snap, readPath s.file ≠ .ok snap

section Durable

variable {s : Service} {log : List (Act × Outcome)}

theorem Holds.readPath_iff (h : Holds log s) (snap : PersistSnapshot) :
    readPath s.file = .ok snap ↔ Storable snap ∧ durable log = some snap := by
  unfold Holds at h
  cases hd : durable log with
  | none =>
      rw [hd] at h
      simp [h snap]
  | some last =>
      rw [hd] at h
      have hfile : s.file = .content (encode last) := by rw [file, h.1]
      rw [hfile, readPath, readFile_encode, h.2.decode_iff, Option.some.injEq]

/-- An act that neither writes nor logs a write. -/
theorem Holds.keep (h : Holds log s) {s' : Service} {e : Act × Outcome}
    (hsettle : ∀ last, settle last e = last) (hdisk : s'.disk = s.disk) :
    Holds (log ++ [e]) s' := by
  unfold Holds file at h ⊢
  rw [durable_concat, hsettle, hdisk]
  exact h

theorem overwrite_of_pos (disk : Option Bytes) (snap : PersistSnapshot) {n : Nat} (hpos : n ≠ 0) :
    overwrite disk ((writeFile snap).take n)
      = some (contentAfter (disk.getD []) ((writeFile snap).take n)) := by
  obtain ⟨m, rfl⟩ := Nat.exists_eq_succ_of_ne_zero hpos
  rfl

theorem Holds.save (h : Holds log s) (hfit : SizesFit s.governor.snapshot) (reached : Nat) :
    Holds (log ++ [(.save reached, (s.step (.save reached)).1)]) (s.step (.save reached)).2 := by
  by_cases hzero : reached = 0
  · rw [hzero]
    refine h.keep (fun last => ?_) rfl
    simp [step, settle]
  · -- the file was opened, so the old content is gone
    unfold Holds file
    rw [durable_concat]
    simp only [step, settle, if_neg hzero, overwrite_of_pos _ _ hzero]
    by_cases hall : (writeFile s.governor.snapshot).length ≤ reached
    · rw [if_pos hall, List.take_of_length_le hall]
      exact ⟨congrArg some (contentAfter_append _ _), hfit, rfl, rfl⟩
    · rw [if_neg hall]
      exact fun snap => cut_off hfit hzero (not_le.mp hall) _ snap

theorem Holds.step (h : Holds log s) {a : Act} (hfit : SavesFit s a) :
    Holds (log ++ [(a, (s.step a).1)]) (s.step a).2 := by
  cases a with
  | call c => exact h.keep (fun _ => rfl) rfl
  | save reached => exact h.save hfit reached
  | restart domain hasBackend => exact h.keep (fun _ => rfl) rfl

end Durable

/-- **What a restart recovers** is what the log says is durable: the
snapshot of the last save that got through, where no later save was begun
and cut off. It is recovered unchanged or refused by the checks of the
decoder; no older state comes back, and no part of one. Where nothing is
recovered, the new process starts empty and leaves the file alone. -/
theorem recovers_durable (g : MemoryGovernor) (acts : List Act)
    (hfit : Guarded step SavesFit { governor := g } acts) (domain : MemoryDomain)
    (hasBackend : Bool) :
    let s := run step { governor := g } acts
    let log := trace step { governor := g } acts
    (∀ snap, durable log = some snap → Storable snap →
      s.step (.restart domain hasBackend) = (.recovered (.ok snap),
        { governor := ((new domain hasBackend).restore snap).2, disk := some (encode snap) })) ∧
    ((∀ snap, durable log = some snap → ¬ Storable snap) →
      ∃ f, s.step (.restart domain hasBackend)
        = (.recovered (.error f), { s with governor := new domain hasBackend })) := by
  intro s log
  have hholds : Holds log s :=
    hfit.trace_inv (P := Holds) (fun snap => nofun) (fun t s' a h ha => h.step ha)
  constructor
  · intro snap hdurable hstorable
    have hread := (hholds.readPath_iff snap).mpr ⟨hstorable, hdurable⟩
    have hdisk : s.disk = some (encode snap) := by
      unfold Holds at hholds
      rw [hdurable] at hholds
      exact hholds.1
    simp only [step, load, hread, hdisk]
  · intro hnone
    cases hread : readPath s.file with
    | error f => exact ⟨f, by simp only [step, load, hread]⟩
    | ok snap =>
        obtain ⟨hstorable, hdurable⟩ := (hholds.readPath_iff snap).mp hread
        exact absurd hstorable (hnone snap hdurable)

/-- One allocation, saved in full, and a second one that is not saved. -/
def savedOnce : List Act :=
  [.call (.initializeArena (.ok 4096)), .call (.request { bytes := 100 }), .save 1000,
   .call (.request { bytes := 100 })]

theorem savedOnce_recovers :
    let g := new { managedCapacity := 1024 } true
    let snap := (run perform g [.initializeArena (.ok 4096), .request { bytes := 100 }]).snapshot
    let s := run step { governor := g } savedOnce
    let torn := run step { governor := g } (savedOnce ++ [.save 300])
    s.step (.restart { managedCapacity := 1024 } true) = (.recovered (.ok snap),
      { governor := (g.restore snap).2, disk := some (encode snap) }) ∧
    ∃ f, torn.step (.restart { managedCapacity := 1024 } true)
      = (.recovered (.error f), { torn with governor := g }) := by
  intro g snap s torn
  have hfit : ∀ reached, SavesFit (run step { governor := g } savedOnce) (.save reached) := by
    intro reached
    constructor <;> unfold LengthFits <;> decide +kernel
  have honce : Guarded step SavesFit { governor := g } savedOnce := by
    refine ⟨trivial, trivial, ?_, trivial, trivial⟩
    constructor <;> unfold LengthFits <;> decide +kernel
  constructor
  · exact (recovers_durable g savedOnce honce { managedCapacity := 1024 } true).1 snap
      (by decide +kernel) (by decide +kernel)
  · have htorn := guarded_concat.mpr ⟨honce, hfit 300⟩
    refine (recovers_durable g _ htorn { managedCapacity := 1024 } true).2 (fun snap' hd => ?_)
    have hnone : durable (trace step { governor := g } (savedOnce ++ [.save 300])) = none := by
      decide +kernel
    rw [hnone] at hd
    cases hd

/-! ## Ids over many lives -/

/-- The calls of a log, of all lives, with their replies. -/
def answered : Act × Outcome → Option MemoryGovernor.Event
  | (.call c, .reply r) => some (c, r)
  | _ => none

/-- Every handle handed out, in any life. -/
def handles (log : List (Act × Outcome)) : List (AllocationId × AllocationGeneration) :=
  issued (log.filterMap answered)

def grantedId : Act × Outcome → Option Nat
  | (.call (.request _), .reply (.handle (.ok h))) => some h.id.value.toNat
  | _ => none

/-- The ids granted, in any life, oldest first. -/
def grantedIds (log : List (Act × Outcome)) : List Nat := log.filterMap grantedId

/-- The id counter does not wrap, no snapshot is restored by hand, and a
restart finds a file that was saved since the last id was drawn. -/
def KeepsIds (s : Service) : Act → Prop
  | .call c => IdFits s.governor c
  | .save _ => True
  | .restart _ _ => ∃ snap, readPath s.file = .ok snap ∧
      s.governor.nextAllocId.toNat ≤ snap.nextAllocId.toNat

/-- Every id in use, and every id handed out in any life, is behind the
counter, and the ids were granted in order. -/
structure Numbered (log : List (Act × Outcome)) (s : Service) : Prop where
  inv : Inv s.governor
  live : ∀ i r, s.governor.records.find? i = some r →
    i.value.toNat < s.governor.nextAllocId.toNat
  handles : ∀ h ∈ handles log, h.1.value.toNat < s.governor.nextAllocId.toNat
  increasing : (grantedIds log).Pairwise (· < ·)

end Service

namespace MemoryGovernor

section Numbers

variable {g g' : MemoryGovernor} {c : Call} {reply : Reply}

/-- A step makes no id live but the one a grant draws. -/
theorem Step.live_cases (h : Inv g) (hs : Step g c reply g') {i : AllocationId}
    {r : AllocationRecord} (hr : g'.records.find? i = some r) :
    (∃ r', g.records.find? i = some r') ∨
      (i = ⟨g.nextAllocId⟩ ∧ c.isRequest = true ∧ g'.nextAllocId = g.nextAllocId + 1) := by
  cases hs with
  | quiet hq _ _ =>
      rw [hq.records] at hr
      exact .inl ⟨r, hr⟩
  | granted hready hp =>
      rw [(granted_update h hready hp).records] at hr
      split at hr
      · rename_i hi
        exact .inr ⟨hi, rfl, rfl⟩
      · exact .inl ⟨r, hr⟩
  | released _ hcur _ _ _ he =>
      exact .inl ((released_update h hcur he).keeps ⟨_, hcur.found⟩ _ _ hr)
  | pinned hcur he => exact .inl ((pinned_update h hcur he).keeps ⟨_, hcur.found⟩ _ _ hr)
  | unpinned hcur _ he => exact .inl ((unpinned_update h hcur he).keeps ⟨_, hcur.found⟩ _ _ hr)
  | moved hcur _ _ he => exact .inl ((moved_update h hcur he).keeps ⟨_, hcur.found⟩ _ _ hr)
  | restored s => cases hr

/-- A step hands out a live id, or grants the next one. -/
theorem Step.handedOut_cases (hs : Step g c reply g') {h : AllocationId × AllocationGeneration}
    (hh : handedOut (c, reply) = some h) :
    (isGrant (c, reply) = false ∧ ∃ r, g.records.find? h.1 = some r) ∨
      (isGrant (c, reply) = true ∧ h.1 = ⟨g.nextAllocId⟩ ∧ c.isRequest = true ∧
        g'.nextAllocId = g.nextAllocId + 1) := by
  cases hs with
  | quiet _ hm _ =>
      rw [handedOut_of_not_mutates hm] at hh
      cases hh
  | granted _ _ =>
      cases hh
      exact .inr ⟨rfl, rfl, rfl, rfl⟩
  | released hc _ _ _ _ _ => rcases hc with rfl | ⟨_, _, rfl⟩ <;> cases hh
  | moved hcur _ _ _ =>
      cases hh
      exact .inl ⟨rfl, _, hcur.found⟩
  | pinned _ _ => cases hh
  | unpinned _ _ _ => cases hh
  | restored _ => cases hh

theorem IdFits.succ_of_request (h : IdFits g c) (hreq : c.isRequest = true) :
    (g.nextAllocId + 1).toNat = g.nextAllocId.toNat + 1 :=
  toNat_add_of_lt (b := 1) (h.id hreq)

end Numbers

end MemoryGovernor

namespace Service

section Lives

variable {s : Service} {log : List (Act × Outcome)}

theorem handles_concat (e : Act × Outcome) :
    handles (log ++ [e]) = handles log ++ ((answered e).bind handedOut).toList := by
  cases h : answered e with
  | none => simp [handles, h]
  | some ev => simp [handles, h, issued_concat]

theorem grantedIds_concat (e : Act × Outcome) :
    grantedIds (log ++ [e]) = grantedIds log ++ (grantedId e).toList := by
  cases h : grantedId e <;> simp [grantedIds, h]

/-- A granted id is one of a handle handed out. -/
theorem handedOut_of_grantedId {e : Act × Outcome} {n : Nat} (h : grantedId e = some n) :
    ∃ ev x, answered e = some ev ∧ isGrant ev = true ∧ handedOut ev = some x ∧
      n = x.1.value.toNat := by
  unfold grantedId at h
  split at h
  · cases h
    exact ⟨_, _, rfl, rfl, rfl, rfl⟩
  · cases h

theorem exists_handle {n : Nat} (h : n ∈ grantedIds log) :
    ∃ x ∈ handles log, n = x.1.value.toNat := by
  obtain ⟨e, he, hn⟩ := List.mem_filterMap.mp h
  obtain ⟨ev, x, hev, _, hx, rfl⟩ := handedOut_of_grantedId hn
  exact ⟨x, List.mem_filterMap.mpr ⟨ev, List.mem_filterMap.mpr ⟨e, he, hev⟩, hx⟩, rfl⟩

/-- An act that hands nothing out and draws no id. -/
theorem Numbered.keep (h : Numbered log s) {s' : Service} {e : Act × Outcome}
    (hanswered : answered e = none) (hinv : Inv s'.governor)
    (hlive : ∀ i r, s'.governor.records.find? i = some r →
      ∃ r', s.governor.records.find? i = some r')
    (hnext : s.governor.nextAllocId.toNat ≤ s'.governor.nextAllocId.toNat) :
    Numbered (log ++ [e]) s' := by
  refine ⟨hinv, fun i r hr => ?_, fun x hx => ?_, ?_⟩
  · obtain ⟨r', hr'⟩ := hlive i r hr
    exact lt_of_lt_of_le (h.live i r' hr') hnext
  · rw [handles_concat, hanswered] at hx
    exact lt_of_lt_of_le (h.handles x (by simpa using hx)) hnext
  · rw [grantedIds_concat]
    cases hn : grantedId e with
    | none => simpa using h.increasing
    | some n =>
        obtain ⟨ev, _, hev, _⟩ := handedOut_of_grantedId hn
        rw [hanswered] at hev
        cases hev

theorem Numbered.call (h : Numbered log s) {c : Call} (hfit : IdFits s.governor c) :
    Numbered (log ++ [(.call c, (s.step (.call c)).1)]) (s.step (.call c)).2 := by
  have hs := perform_step h.inv c
  have hnext := hs.next_le hfit
  have hdrawn : c.isRequest = true →
      (s.governor.perform c).2.nextAllocId = s.governor.nextAllocId + 1 →
      s.governor.nextAllocId.toNat < (s.governor.perform c).2.nextAllocId.toNat := by
    intro hreq heq
    rw [heq, hfit.succ_of_request hreq]
    exact Nat.lt_succ_self _
  refine ⟨hs.inv h.inv, fun i r hr => ?_, fun x hx => ?_, ?_⟩
  · rcases hs.live_cases h.inv hr with ⟨r', hold⟩ | ⟨rfl, hreq, heq⟩
    · exact lt_of_lt_of_le (h.live i r' hold) hnext
    · exact hdrawn hreq heq
  · rw [handles_concat, List.mem_append, Option.mem_toList] at hx
    rcases hx with hx | hx
    · exact lt_of_lt_of_le (h.handles x hx) hnext
    · rcases hs.handedOut_cases hx with ⟨_, r, hr⟩ | ⟨_, hid, hreq, heq⟩
      · exact lt_of_lt_of_le (h.live _ r hr) hnext
      · rw [hid]
        exact hdrawn hreq heq
  · rw [grantedIds_concat, List.pairwise_append]
    refine ⟨h.increasing, ?_, fun m hm n hn => ?_⟩
    · cases grantedId (.call c, (s.step (.call c)).1) <;> simp
    · -- the new id is where the counter was, and every older one is behind it
      obtain ⟨x, hx, rfl⟩ := exists_handle hm
      obtain ⟨ev, y, hev, hgrant, hy, rfl⟩ := handedOut_of_grantedId (Option.mem_toList.mp hn)
      cases hev
      rcases hs.handedOut_cases hy with ⟨hno, _⟩ | ⟨_, hid, _, _⟩
      · rw [hgrant] at hno
        cases hno
      · rw [hid]
        exact h.handles x hx

/-- What a restart makes of a file that reads. -/
theorem restart_governor {snap : PersistSnapshot} (hread : readPath s.file = .ok snap)
    (domain : MemoryDomain) (hasBackend : Bool) :
    (s.step (.restart domain hasBackend)).2.governor
      = run perform (new domain hasBackend) [.restore snap] := by
  simp only [step, load, hread]
  rfl

theorem Numbered.step (h : Numbered log s) {a : Act} (ha : KeepsIds s a) :
    Numbered (log ++ [(a, (s.step a).1)]) (s.step a).2 := by
  cases a with
  | call c => exact h.call ha
  | save reached => exact h.keep rfl h.inv (fun i r hr => ⟨r, hr⟩) le_rfl
  | restart domain hasBackend =>
      obtain ⟨snap, hread, hnext⟩ := ha
      have hg := restart_governor hread domain hasBackend
      refine h.keep rfl ?_ (fun i r hr => ?_) ?_
      · rw [hg]
        exact run_inv (inv_new domain hasBackend) _
      · rw [hg] at hr
        cases hr
      · rw [hg]
        exact hnext

/-- The handles of earlier lives: handed out, behind the counter, and of no
live record. -/
def Bygone (old : List (AllocationId × AllocationGeneration)) (s : Service) : Prop :=
  ∃ log, Numbered log s ∧ old ⊆ handles log ∧ Forgotten old s.governor

/-- They stay so, also through further restarts. -/
theorem Bygone.step {old : List (AllocationId × AllocationGeneration)} (h : Bygone old s)
    {a : Act} (ha : KeepsIds s a) : Bygone old (s.step a).2 := by
  obtain ⟨log, hnum, hsub, hf⟩ := h
  refine ⟨_, hnum.step ha, ?_, ?_⟩
  · rw [handles_concat]
    exact List.subset_append_of_subset_left _ hsub
  · cases a with
    | call c =>
        refine perform_forgotten hnum.inv hf ?_
        cases c with
        | request req => exact fun _ gen hin => absurd (hnum.handles _ (hsub hin)) (lt_irrefl _)
        | _ => trivial
    | save reached => exact hf
    | restart domain hasBackend =>
        obtain ⟨snap, hread, _⟩ := ha
        rw [restart_governor hread]
        exact fun _ _ => rfl

end Lives

/-- **Ids over many lives.** In every run of a service whose restarts each
find a file saved since the last id was drawn, the ids granted increase
over all lives, and no handle of an earlier life is accepted again. -/
theorem ids_outlive_restarts (domain : MemoryDomain) (hasBackend : Bool) (acts : List Act)
    (hkeeps : Guarded step KeepsIds { governor := new domain hasBackend } acts) :
    let start : Service := { governor := new domain hasBackend }
    (grantedIds (trace step start acts)).Pairwise (· < ·) ∧
    ∀ pre d b post, acts = pre ++ .restart d b :: post →
      ∀ h ∈ handles (trace step start pre),
        Refuses (run step start acts).governor h.1 h.2 := by
  intro start
  have hstart : Numbered [] start := {
    inv := inv_new domain hasBackend
    live := fun i r hr => by simp [start, new] at hr
    handles := fun h hin => by cases hin
    increasing := .nil }
  have hnumbered : ∀ {cs}, Guarded step KeepsIds start cs →
      Numbered (trace step start cs) (run step start cs) :=
    fun hg => hg.trace_inv hstart (fun t s' a h ha => h.step ha)
  refine ⟨(hnumbered hkeeps).increasing, fun pre d b post heq h hin => ?_⟩
  rw [heq] at hkeeps ⊢
  obtain ⟨hpre, hrestart, hpost⟩ := guarded_append.mp hkeeps
  have hbygone : Bygone (handles (trace step start pre))
      ((run step start pre).step (.restart d b)).2 := by
    refine ⟨_, (hnumbered hpre).step hrestart, ?_, ?_⟩
    · rw [handles_concat]
      exact List.subset_append_left _ _
    · obtain ⟨snap, hread, _⟩ := hrestart
      rw [restart_governor hread]
      exact fun _ _ => rfl
  obtain ⟨_, _, _, hf⟩ := hpost.run_inv hbygone (fun s a h ha => h.step ha)
  rw [run_append]
  exact hf.refuses hin

/-- A restart right after a complete save of a state that can be loaded is
one that keeps the ids. -/
theorem keepsIds_saved {s : Service} {n : Nat} (hall : (writeFile s.governor.snapshot).length ≤ n)
    (hs : Storable s.governor.snapshot) (domain : MemoryDomain) (hasBackend : Bool) :
    KeepsIds (s.step (.save n)).2 (.restart domain hasBackend) := by
  have hpos : n ≠ 0 := by
    simp only [writeFile, List.length_cons] at hall
    omega
  have hdisk : (s.step (.save n)).2.disk = some (encode s.governor.snapshot) := by
    simp only [step]
    rw [overwrite_of_pos _ _ hpos, List.take_of_length_le hall]
    exact congrArg some (contentAfter_append _ _)
  refine ⟨s.governor.snapshot, ?_, le_rfl⟩
  rw [file, hdisk, readPath, readFile_encode]
  exact decode_encode_iff.mpr hs

/-- A life with one grant, and its save. -/
def oneGrant : List Act :=
  [.call (.initializeArena (.ok 4096)), .call (.request { bytes := 100 })]

def savedLife : List Act := oneGrant ++ [.save 2000]

theorem keepsIds_savedLife {s : Service} (hnext : s.governor.nextAllocId.toNat + 1 < 2 ^ 64) :
    Guarded step KeepsIds s savedLife := by
  have hsame : (s.governor.perform (.initializeArena (.ok 4096))).2.nextAllocId
      = s.governor.nextAllocId := by
    rcases s.governor.initializeArena_cases (.ok 4096) with
      ⟨_, heq⟩ | ⟨⟨f, heq⟩, _⟩ | ⟨base, _, _, _, _, heq⟩ <;>
    simp only [perform, heq, withArena]
  have hinit : IdFits s.governor (.initializeArena (.ok 4096)) :=
    ⟨fun _ hc => Call.noConfusion hc, fun hc => Bool.noConfusion hc⟩
  have hrequest : IdFits (s.governor.perform (.initializeArena (.ok 4096))).2
      (.request { bytes := 100 }) := by
    refine ⟨fun _ hc => Call.noConfusion hc, fun _ => ?_⟩
    rw [hsame]
    exact hnext
  exact ⟨hinit, hrequest, trivial, trivial⟩

theorem savedLife_ids :
    let start : Service := { governor := new { managedCapacity := 1024 } true }
    let lives := savedLife ++ .restart {} true :: savedLife
    grantedIds (trace step start lives) = [1, 2] ∧
    (grantedIds (trace step start lives)).Pairwise (· < ·) ∧
    ∀ h ∈ handles (trace step start savedLife),
      Refuses (run step start lives).governor h.1 h.2 := by
  intro start lives
  have hrestart : KeepsIds (run step start savedLife) (.restart {} true) := by
    rw [savedLife, run_concat]
    exact keepsIds_saved (by decide +kernel) (by decide +kernel) _ _
  have hkeeps : Guarded step KeepsIds start lives :=
    guarded_append.mpr ⟨keepsIds_savedLife (by decide +kernel), hrestart,
      keepsIds_savedLife (by decide +kernel)⟩
  obtain ⟨hsorted, hlives⟩ := ids_outlive_restarts { managedCapacity := 1024 } true lives hkeeps
  exact ⟨by decide +kernel, hsorted, hlives savedLife {} true _ rfl⟩

end Service

end GpuMemoryService
