/-
GpuMemoryService.GovernorLoading — the ids a governor issues after it has
loaded a snapshot file.

A restore files all ids of the snapshot under the retired records and takes
its counter over. The decoder compares neither with the other, so an id of
the snapshot is issued again as soon as the counter reaches it. Fewer than
2^63 requests reach the ids from the counter of the file on, and none of
them is an id of the file exactly if `CounterAhead` says so; where the
arena is not empty, every one of them is reached by some run
(`loaded_ids_fresh_iff`).
-/
import GpuMemoryService.GovernorRecovery
import GpuMemoryService.GovernorSaving
import GpuMemoryService.SnapshotBytes

namespace GpuMemoryService.RegionAllocator

open Lib

variable {ra : RegionAllocator}

@[simp] theorem alignUp_one (v : UInt64) : alignUp v 1 = v := by
  simp [alignUp]

/-- One byte fits wherever nothing is live. -/
theorem allocate_one (hinv : Inv ra) (hcap : 0 < ra.capacity.toNat)
    (hvacant : ∀ k r, ¬ ra.LiveAt k r) {req : AllocRequest} (hbytes : req.bytes = 1)
    (halign : req.alignment = 1) :
    ∃ live ra', ra.allocate req = (.ok live, ra') ∧ Placed ra req live ra' := by
  rcases allocate_cases hinv req with ⟨f, herror⟩ | hok
  swap
  · exact hok
  exfalso
  -- the region at the first byte is free
  obtain ⟨k, r, hf, hspan⟩ := (hinv.layout.part.covers 0).mp ⟨le_rfl, hcap⟩
  have hfree : r.live = false := by
    cases hlive : r.live with
    | false => rfl
    | true => exact absurd ⟨hf, hlive⟩ (hvacant k r)
  have hpos : 0 < r.size.toNat := hinv.layout.part.len_pos hf
  have hslot : (⟨r.size, k⟩ : FreeSlot) ∈ ra.freeSlots :=
    (hinv.layout.slots _).mpr ⟨r, hf, hfree, rfl⟩
  obtain ⟨u, hentry⟩ := OrdMap.mem_iff_find?.mp hslot
  have hsize : (1 : UInt64) ≤ r.size := UInt64.le_iff_toNat_le.mpr hpos
  have hle : (⟨1, 0⟩ : FreeSlot) ≤ ⟨r.size, k⟩ := by
    show toLex ((1 : UInt64), (0 : UInt64)) ≤ toLex (r.size, k)
    rw [Prod.Lex.toLex_le_toLex]
    rcases lt_or_eq_of_le hsize with hlt | heq
    · exact Or.inl hlt
    · exact Or.inr ⟨heq, UInt64.zero_le⟩
  have hfits : fits 1 1 ⟨r.size, k⟩ = true := by
    have hnonzero : ¬ r.size = 0 := toNat_pos_iff.mp hpos
    simp [fits, frontPad, hnonzero]
  have hfound : (ra.freeSlots.lowerBound ⟨1, 0⟩).find? (fun e => fits 1 1 e.1) ≠ none := by
    intro hnone
    have hmem : ((⟨r.size, k⟩ : FreeSlot), u) ∈ ra.freeSlots.lowerBound ⟨1, 0⟩ :=
      OrdMap.mem_lowerBound.mpr ⟨hentry, hle⟩
    exact List.find?_eq_none.mp hnone _ hmem hfits
  have hroom : ¬ (1 : UInt64) > ra.capacity := by
    rw [gt_iff_lt, UInt64.lt_iff_toNat_lt]
    exact not_lt.mpr hcap
  unfold allocate at herror
  rw [hbytes, halign, if_neg (by decide), if_neg (by decide), if_neg hroom] at herror
  simp only [alignUp_one] at herror
  rw [if_neg (by decide), if_neg hroom] at herror
  split at herror
  · cases herror
  · rename_i hnone
    exact hfound hnone

end GpuMemoryService.RegionAllocator

namespace GpuMemoryService.MemoryGovernor

open Lib Persist

/-! ## Issued ids and ids of the snapshot -/

/-- Every id the snapshot carries, live or retired. -/
def snapshotIds (s : PersistSnapshot) : List AllocationId := (s.records ++ s.retired).map (·.id)

/-- Since the restore of `s` every issued id is set and new to `s`, and no
id is live and retired at once. -/
structure IdsFresh (s : PersistSnapshot) (t : List Event) (g : MemoryGovernor) : Prop where
  issued : ∀ h ∈ issued t, h.1.value ≠ 0 ∧ h.1 ∉ snapshotIds s
  apart : ∀ i r, g.records.find? i = some r → g.retired.find? i = none

/-- The counter is set, and no id of the list is among those that fewer
than 2^63 draws from it reach. -/
structure CounterAhead (next : Nat) (ids : List Nat) : Prop where
  nonzero : next ≠ 0
  ahead : ∀ v ∈ ids, v < next ∨ next + (2 ^ 63 - 1) ≤ v

/-- The id was drawn since the counter stood at `start`. -/
def DrawnSince (start : Nat) (g : MemoryGovernor) (id : AllocationId) : Prop :=
  start ≤ id.value.toNat ∧ id.value.toNat < g.nextAllocId.toNat

/-- What holds between the restore of `s` and the events `t` after it. -/
structure Since (s : PersistSnapshot) (t : List Event) (g : MemoryGovernor) : Prop where
  lower : s.nextAllocId.toNat ≤ g.nextAllocId.toNat
  upper : g.nextAllocId.toNat ≤ s.nextAllocId.toNat + requests t
  issued : ∀ h ∈ issued t, DrawnSince s.nextAllocId.toNat g h.1
  live : ∀ i r, g.records.find? i = some r → DrawnSince s.nextAllocId.toNat g i
  gone : ∀ i r, g.retired.find? i = some r →
    i ∈ snapshotIds s ∨ DrawnSince s.nextAllocId.toNat g i
  apart : ∀ i r, g.records.find? i = some r → g.retired.find? i = none

section Since

variable {g g' : MemoryGovernor} {s : PersistSnapshot} {t : List Event}

theorem DrawnSince.mono {start : Nat} {id : AllocationId} (h : DrawnSince start g id)
    (hle : g.nextAllocId.toNat ≤ g'.nextAllocId.toNat) : DrawnSince start g' id :=
  ⟨h.1, lt_of_lt_of_le h.2 hle⟩

/-- A map built by filing records holds ids of the records and of the map
it started from. -/
theorem find?_filed {rs : List AllocationRecord} {m : OrdMap AllocationId AllocationRecord}
    {i : AllocationId} {q : AllocationRecord}
    (h : (rs.foldl (fun m r => m.insert r.id r) m).find? i = some q) :
    i ∈ rs.map (·.id) ∨ ∃ q', m.find? i = some q' := by
  induction rs generalizing m with
  | nil => exact Or.inr ⟨q, h⟩
  | cons r rs ih =>
      rcases ih h with hmem | ⟨q', hq'⟩
      · exact Or.inl (List.mem_cons_of_mem _ hmem)
      · rcases OrdMap.find?_insert_some_iff.mp hq' with ⟨hi, _⟩ | ⟨_, hold⟩
        · rw [hi]
          exact Or.inl List.mem_cons_self
        · exact Or.inr ⟨q', hold⟩

theorem since_restored (g : MemoryGovernor) (s : PersistSnapshot) :
    Since s [] (g.restore s).2 where
  lower := le_rfl
  upper := le_rfl
  issued := nofun
  live := fun i r hf => by simp [restore] at hf
  gone := by
    intro i r hf
    left
    rw [snapshotIds, List.map_append, List.mem_append]
    rw [retired_restore] at hf
    rcases find?_filed hf with hmem | ⟨q, hq⟩
    · exact Or.inr hmem
    · rcases find?_filed hq with hmem | ⟨q', hq'⟩
      · rw [List.map_map] at hmem
        exact Or.inl hmem
      · simp at hq'
  apart := fun i r hf => by simp [restore] at hf

/-- With the counter ahead of the snapshot, what is drawn is new to it. -/
theorem Since.idsFresh (h : Since s t g)
    (hahead : CounterAhead s.nextAllocId.toNat ((snapshotIds s).map (·.value.toNat)))
    (hreq : requests t < 2 ^ 63) : IdsFresh s t g := by
  refine ⟨fun handle hin => ?_, h.apart⟩
  have hupper := h.upper
  obtain ⟨hlo, hhi⟩ := h.issued handle hin
  have hnonzero := hahead.nonzero
  refine ⟨fun hzero => ?_, fun hmem => ?_⟩
  · rw [hzero] at hlo
    exact hnonzero (by simpa using hlo)
  · have hclear := hahead.ahead _ (List.mem_map.mpr ⟨_, hmem, rfl⟩)
    omega

/-- One more event: the counter does not fall, what is handed out or newly
live has been drawn, and what is newly retired was live. -/
theorem Since.extend (h : Since s t g) {e : Event}
    (hlower : g.nextAllocId.toNat ≤ g'.nextAllocId.toNat)
    (hupper : g'.nextAllocId.toNat ≤ s.nextAllocId.toNat + requests (t ++ [e]))
    (hissued : ∀ handle, handedOut e = some handle →
      DrawnSince s.nextAllocId.toNat g' handle.1)
    (hlive : ∀ i r, g'.records.find? i = some r →
      (∃ r', g.records.find? i = some r') ∨ DrawnSince s.nextAllocId.toNat g' i)
    (hgone : ∀ i r, g'.retired.find? i = some r →
      (∃ r', g.retired.find? i = some r') ∨ ∃ r', g.records.find? i = some r')
    (hapart : ∀ i r, g'.records.find? i = some r → g'.retired.find? i = none) :
    Since s (t ++ [e]) g' where
  lower := le_trans h.lower hlower
  upper := hupper
  issued := by
    intro handle hin
    rcases mem_issued_concat.mp hin with hin | hnew
    · exact (h.issued handle hin).mono hlower
    · exact hissued handle hnew
  live := by
    intro i r hf
    rcases hlive i r hf with ⟨r', hr'⟩ | hdrawn
    · exact (h.live i r' hr').mono hlower
    · exact hdrawn
  gone := by
    intro i r hf
    rcases hgone i r hf with ⟨r', hr'⟩ | ⟨r', hr'⟩
    · rcases h.gone i r' hr' with hmem | hdrawn
      · exact Or.inl hmem
      · exact Or.inr (hdrawn.mono hlower)
    · exact Or.inr ((h.live i r' hr').mono hlower)
  apart := hapart

/-- A call that draws no id, on live records or none. -/
theorem Since.keep (h : Since s t g) {e : Event} (hnext : g'.nextAllocId = g.nextAllocId)
    (hissued : ∀ handle, handedOut e = some handle → ∃ r, g.records.find? handle.1 = some r)
    (hlive : ∀ i r, g'.records.find? i = some r → ∃ r', g.records.find? i = some r')
    (hretired : g'.retired = g.retired) : Since s (t ++ [e]) g' := by
  have hle : g.nextAllocId.toNat ≤ g'.nextAllocId.toNat := by rw [hnext]
  refine h.extend hle ?_ (fun handle hh => ?_) (fun i r hf => Or.inl (hlive i r hf))
    (fun i r hf => Or.inl ⟨r, by rw [← hretired]; exact hf⟩) (fun i r hf => ?_)
  · have hupper := h.upper
    rw [hnext, requests_concat]
    omega
  · obtain ⟨r, hr⟩ := hissued handle hh
    exact (h.live _ r hr).mono hle
  · obtain ⟨r', hr'⟩ := hlive i r hf
    rw [hretired]
    exact h.apart i r' hr'

/-- The id the counter stands at is not retired: it is past every drawn one
and not in the snapshot. -/
theorem Since.next_unretired (h : Since s t g)
    (hahead : CounterAhead s.nextAllocId.toNat ((snapshotIds s).map (·.value.toNat)))
    (hreq : requests t + 1 < 2 ^ 63) : g.retired.find? ⟨g.nextAllocId⟩ = none := by
  have hlower := h.lower
  have hupper := h.upper
  cases hgone : g.retired.find? ⟨g.nextAllocId⟩ with
  | none => rfl
  | some q =>
      rcases h.gone _ q hgone with hmem | hdrawn
      · have hclear := hahead.ahead _ (List.mem_map.mpr ⟨_, hmem, rfl⟩)
        dsimp only at hclear
        omega
      · exact absurd hdrawn.2 (lt_irrefl _)

/-- A refused call: only a request may have drawn an id. -/
theorem Since.quiet (h : Since s t g) {c : Call} {reply : Reply} (hq : Quiet g g')
    (hm : mutates c reply = false) (hlower : g.nextAllocId.toNat ≤ g'.nextAllocId.toNat)
    (hupper : g'.nextAllocId.toNat ≤ s.nextAllocId.toNat + requests (t ++ [(c, reply)])) :
    Since s (t ++ [(c, reply)]) g' := by
  have hout := handedOut_of_not_mutates hm
  refine h.extend hlower hupper (fun handle hh => ?_) (fun i r hf => ?_) (fun i r hf => ?_)
    (fun i r hf => ?_)
  · rw [hout] at hh
    cases hh
  · exact Or.inl ⟨r, by rw [← hq.records]; exact hf⟩
  · exact Or.inl ⟨r, by rw [← hq.retired]; exact hf⟩
  · rw [hq.records] at hf
    rw [hq.retired]
    exact h.apart i r hf

/-- A granted request draws the id it hands out. -/
theorem Since.granted (hinv : Inv g) (h : Since s t g) {req : AllocationRequest}
    {live : RegionInfo} {arena : RegionAllocator} (hready : g.initialized = true)
    (hp : g.arena.Placed (arenaRequest req ⟨g.nextAllocId⟩) live arena) {e : Event}
    (hout : handedOut e = some (⟨g.nextAllocId⟩, .first))
    (hfresh : g.retired.find? ⟨g.nextAllocId⟩ = none)
    (hdraw : (g.nextAllocId + 1).toNat = g.nextAllocId.toNat + 1)
    (hcount : requests (t ++ [e]) = requests t + 1) :
    Since s (t ++ [e]) (g.nextId.2.grant req ⟨g.nextAllocId⟩ live arena) := by
  have hlower := h.lower
  have hupper := h.upper
  have hnext : (g.nextId.2.grant req ⟨g.nextAllocId⟩ live arena).nextAllocId = g.nextAllocId + 1 :=
    rfl
  have hnew : DrawnSince s.nextAllocId.toNat (g.nextId.2.grant req ⟨g.nextAllocId⟩ live arena)
      ⟨g.nextAllocId⟩ := by
    refine ⟨hlower, ?_⟩
    rw [hnext, hdraw]
    exact Nat.lt_succ_self _
  have hrecords := (granted_update hinv hready hp).records
  refine h.extend ?_ ?_ (fun handle hh => ?_) (fun i r hf => ?_) (fun i r hf => Or.inl ⟨r, hf⟩)
    (fun i r hf => ?_)
  · rw [hnext]
    omega
  · rw [hnext]
    omega
  · rw [hout] at hh
    cases hh
    exact hnew
  · rw [hrecords] at hf
    split at hf
    · rename_i hi
      rw [hi]
      exact Or.inr hnew
    · exact Or.inl ⟨r, hf⟩
  · show g.retired.find? i = none
    rw [hrecords] at hf
    split at hf
    · rename_i hi
      rw [hi]
      exact hfresh
    · exact h.apart i r hf

/-- A release moves one id from the live to the retired ones. -/
theorem Since.released (h : Since s t g) {id : AllocationId} {rec : AllocationRecord}
    {arena : RegionAllocator} (hfound : g.records.find? id = some rec) {e : Event}
    (hout : handedOut e = none) : Since s (t ++ [e]) (g.retire id rec arena) := by
  have hupper := h.upper
  refine h.extend le_rfl ?_ (fun handle hh => ?_) (fun i r hf => ?_) (fun i r hf => ?_)
    (fun i r hf => ?_)
  · rw [requests_concat]
    show g.nextAllocId.toNat ≤ _
    omega
  · rw [hout] at hh
    cases hh
  · exact Or.inl ⟨r, (OrdMap.find?_erase_some_iff.mp hf).2⟩
  · rcases OrdMap.find?_insert_some_iff.mp hf with ⟨hi, _⟩ | ⟨_, hold⟩
    · rw [hi]
      exact Or.inr ⟨rec, hfound⟩
    · exact Or.inl ⟨r, hold⟩
  · obtain ⟨hi, hold⟩ := OrdMap.find?_erase_some_iff.mp hf
    show (g.retired.insert id (releasedRecord rec)).find? i = none
    rw [OrdMap.find?_insert_ne _ _ hi]
    exact h.apart i r hold

/-- **One call** other than a restore, with the counter ahead of the
snapshot and within the bound on requests. -/
theorem Step.since (h : Inv g) {c : Call} {reply : Reply} (hs : Step g c reply g')
    (hsince : Since s t g) (hc : ∀ s', c ≠ .restore s')
    (hahead : CounterAhead s.nextAllocId.toNat ((snapshotIds s).map (·.value.toNat)))
    (hnext : s.nextAllocId.toNat ≤ 2 ^ 63) (hreq : requests (t ++ [(c, reply)]) < 2 ^ 63) :
    Since s (t ++ [(c, reply)]) g' := by
  have hupper := hsince.upper
  have hrequest : c.isRequest = true → requests (t ++ [(c, reply)]) = requests t + 1 ∧
      (g.nextAllocId + 1).toNat = g.nextAllocId.toNat + 1 := by
    intro hisreq
    have hcount : requests (t ++ [(c, reply)]) = requests t + 1 := by
      rw [requests_concat, if_pos hisreq]
    exact ⟨hcount, toNat_add_of_lt (b := 1) (by simp only [UInt64.toNat_one]; omega)⟩
  cases hs with
  | quiet hq hm hid =>
      rcases hid with hid | ⟨⟨req, rfl⟩, hid⟩
      · refine hsince.quiet hq hm (by rw [hid]) ?_
        rw [hid, requests_concat]
        omega
      · obtain ⟨hcount, hdraw⟩ := hrequest rfl
        rw [← hid] at hdraw
        exact hsince.quiet hq hm (by omega) (by omega)
  | @granted req live arena hready hp =>
      obtain ⟨hcount, hdraw⟩ := hrequest rfl
      have hfresh := hsince.next_unretired hahead (by omega)
      exact hsince.granted h hready hp rfl hfresh hdraw hcount
  | released hrel hcur _ _ _ _ =>
      refine hsince.released hcur.found ?_
      rcases hrel with rfl | ⟨_, _, rfl⟩ <;> rfl
  | pinned hcur he =>
      exact hsince.keep rfl (fun handle hh => by cases hh)
        ((pinned_update h hcur he).keeps ⟨_, hcur.found⟩) rfl
  | unpinned hcur _ he =>
      exact hsince.keep rfl (fun handle hh => by cases hh)
        ((unpinned_update h hcur he).keeps ⟨_, hcur.found⟩) rfl
  | moved hcur _ _ he =>
      refine hsince.keep rfl (fun handle hh => ?_)
        ((moved_update h hcur he).keeps ⟨_, hcur.found⟩) rfl
      cases hh
      exact ⟨_, hcur.found⟩
  | restored s' => exact absurd rfl (hc s')

theorem requests_trace (g : MemoryGovernor) (calls : List Call) :
    requests (trace perform g calls) = calls.countP (·.isRequest) := by
  induction calls using List.reverseRecOn with
  | nil => rfl
  | append_singleton calls c ih =>
      rw [trace_concat, requests_concat, ih, List.countP_append, List.countP_singleton]

/-- **Runs after a restore** of a snapshot whose counter is ahead. -/
theorem run_since (h : Inv (g.restore s).2)
    (hahead : CounterAhead s.nextAllocId.toNat ((snapshotIds s).map (·.value.toNat)))
    (hnext : s.nextAllocId.toNat ≤ 2 ^ 63) {calls : List Call}
    (hcalls : ∀ c ∈ calls, ∀ s', c ≠ .restore s')
    (hreq : calls.countP (·.isRequest) < 2 ^ 63) :
    Since s (trace perform (g.restore s).2 calls) (run perform (g.restore s).2 calls) := by
  induction calls using List.reverseRecOn with
  | nil => exact since_restored g s
  | append_singleton calls c ih =>
      rw [← requests_trace (g.restore s).2, trace_concat] at hreq
      have hreq' : calls.countP (·.isRequest) < 2 ^ 63 := by
        rw [requests_concat, requests_trace] at hreq
        omega
      have hinv := run_inv h calls
      rw [trace_concat, run_concat]
      exact (perform_step hinv c).since hinv
        (ih (fun c' hc' => hcalls c' (List.mem_append_left _ hc')) hreq')
        (hcalls c (List.mem_append_right _ (List.mem_singleton_self c))) hahead hnext hreq

/-- Without an arena nothing is handed out. -/
theorem Step.unmanaged (h : Inv g) (hzero : g.domain.managedCapacity.toNat = 0) {c : Call}
    {reply : Reply} (hs : Step g c reply g') (hc : ∀ s', c ≠ .restore s') :
    g'.domain.managedCapacity = g.domain.managedCapacity ∧ handedOut (c, reply) = none := by
  have hempty : ∀ {id gen rec region}, ¬ g.Current id gen rec region := fun hcur => by
    have hpos := (h.current hcur.found).1
    omega
  cases hs with
  | quiet hq hm _ => exact ⟨hq.managed, handedOut_of_not_mutates hm⟩
  | granted hready _ =>
      have hpos := h.pos_of_ready hready
      omega
  | released _ hcur _ _ _ _ => exact absurd hcur hempty
  | pinned hcur _ => exact absurd hcur hempty
  | unpinned hcur _ _ => exact absurd hcur hempty
  | moved hcur _ _ _ => exact absurd hcur hempty
  | restored s' => exact absurd rfl (hc s')

theorem run_unmanaged (h : Inv g) (hzero : g.domain.managedCapacity.toNat = 0) {calls : List Call}
    (hcalls : ∀ c ∈ calls, ∀ s', c ≠ .restore s') :
    (run perform g calls).domain.managedCapacity.toNat = 0 ∧
      issued (trace perform g calls) = [] := by
  induction calls using List.reverseRecOn with
  | nil => exact ⟨hzero, rfl⟩
  | append_singleton calls c ih =>
      obtain ⟨hmanaged, hissued⟩ := ih (fun c' hc' => hcalls c' (List.mem_append_left _ hc'))
      have hinv := run_inv h calls
      obtain ⟨hsame, hout⟩ := (perform_step hinv c).unmanaged hinv hmanaged
        (hcalls c (List.mem_append_right _ (List.mem_singleton_self c)))
      rw [run_concat, trace_concat, issued_concat, hsame, hissued, hout]
      exact ⟨hmanaged, rfl⟩

end Since

/-! ## Every id in reach is drawn -/

/-- One byte. -/
def oneByte : AllocationRequest := { bytes := 1 }

/-- The governor is ready and nothing is live. -/
structure Vacant (g : MemoryGovernor) : Prop where
  ready : g.initialized = true
  records : ∀ i, g.records.find? i = none
  arena : ∀ k r, ¬ g.arena.LiveAt k r

section Vacant

variable {g : MemoryGovernor}

/-- A vacant governor grants one byte. -/
theorem Vacant.accepts (h : Inv g) (hv : Vacant g) : Accepted (g.request oneByte).1 := by
  have hpos := h.pos_of_ready hv.ready
  have hcap : 0 < g.arena.capacity.toNat := by
    rw [h.capacity]
    exact hpos
  have hbytes : (arenaRequest oneByte ⟨g.nextAllocId⟩).bytes = 1 := rfl
  obtain ⟨live, arena, halloc, _⟩ :=
    RegionAllocator.allocate_one (h.arena hpos) hcap hv.arena hbytes rfl
  have hvalid : (validateRequest oneByte g.domain.managedCapacity).ok = true := by
    have hle : ¬ (1 : UInt64) > g.domain.managedCapacity := by
      rw [gt_iff_lt, UInt64.lt_iff_toNat_lt]
      exact not_lt.mpr hpos
    unfold validateRequest oneByte
    rw [if_neg (by decide), if_neg hle, if_neg (by decide), if_neg (by decide),
      if_neg (by decide)]
    rfl
  have hround : Detail.alignUp oneByte.bytes oneByte.alignment = 1 := by decide
  refine ⟨⟨⟨g.nextAllocId⟩, .first, live.offset, live.size, 1⟩, ?_⟩
  unfold request
  simp only [hvalid, hv.ready, hround, nextId, halloc]
  rfl

/-- It grants it with the next id, and after the release it is vacant
again. -/
theorem Vacant.cycle (h : Inv g) (hv : Vacant g) :
    handedOut (.request oneByte, (g.perform (.request oneByte)).1)
        = some (⟨g.nextAllocId⟩, .first) ∧
      Vacant (run perform g [.request oneByte, .release ⟨g.nextAllocId⟩ .first]) ∧
      (run perform g [.request oneByte, .release ⟨g.nextAllocId⟩ .first]).nextAllocId
        = g.nextAllocId + 1 := by
  obtain ⟨handle, hok⟩ := hv.accepts h
  have hreply : (g.perform (.request oneByte)).1 = .handle (.ok handle) := by
    simp only [perform, hok]
  have hs := perform_step h (.request oneByte)
  have hinv := hs.inv h
  show handedOut _ = _ ∧ Vacant ((g.perform (.request oneByte)).2.perform _).2 ∧
    ((g.perform (.request oneByte)).2.perform _).2.nextAllocId = _
  rw [hreply] at hs ⊢
  generalize (g.perform (.request oneByte)).2 = g' at hs hinv
  cases hs with
  | quiet _ hm _ => cases hm
  | @granted _ live arena hready hp =>
      refine ⟨rfl, ?_⟩
      have hupdate := granted_update h hready hp
      have hcur := hupdate.current
      obtain ⟨arena', hfree, heff⟩ := hcur.releaseForWorker hinv (w := {}) (s := {})
        Bool.false_ne_true Bool.false_ne_true (show ¬ (0 : UInt32) > 0 by decide)
        Bool.false_ne_true
      have hrelease : (g.nextId.2.grant oneByte ⟨g.nextAllocId⟩ live arena).release
          ⟨g.nextAllocId⟩ .first = _ := hfree
      simp only [perform, hrelease]
      refine ⟨⟨hv.ready, fun i => ?_, fun k r hlive => ?_⟩, rfl⟩
      · rw [(released_update hinv hcur heff).records, hupdate.records, hv.records]
        split <;> rfl
      · -- the one live region is the one just freed
        rcases (heff.live k r).mp hlive with ⟨hnone, _⟩ | ⟨hgranted, hother⟩
        · cases hnone
        · rcases (hp.effect.live k r).mp hgranted with ⟨hr, hk⟩ | ⟨hbefore, _⟩
          · cases hr
            exact hother _ rfl hk
          · exact hv.arena k r hbefore

/-- Requests and releases of one byte, from the id on. -/
def cycles (id : UInt64) : Nat → List Call
  | 0 => []
  | n + 1 => .request oneByte :: .release ⟨id⟩ .first :: cycles (id + 1) n

theorem run_cycles (h : Inv g) (hv : Vacant g) (n : Nat) :
    Vacant (run perform g (cycles g.nextAllocId n)) ∧
      (run perform g (cycles g.nextAllocId n)).nextAllocId = g.nextAllocId + UInt64.ofNat n := by
  induction n generalizing g with
  | zero => exact ⟨hv, (UInt64.add_zero _).symm⟩
  | succ n ih =>
      obtain ⟨_, hvacant, hnext⟩ := hv.cycle h
      have hinv := run_inv h [.request oneByte, .release ⟨g.nextAllocId⟩ .first]
      have hrest := ih hinv hvacant
      rw [hnext] at hrest
      refine ⟨hrest.1, hrest.2.trans ?_⟩
      rw [UInt64.ofNat_add, UInt64.add_assoc, UInt64.add_comm (UInt64.ofNat n)]
      rfl

theorem countP_cycles (id : UInt64) (n : Nat) : (cycles id n).countP (·.isRequest) = n := by
  induction n generalizing id with
  | zero => rfl
  | succ n ih =>
      rw [cycles, List.countP_cons_of_pos rfl, List.countP_cons_of_neg Bool.false_ne_true, ih]

theorem mem_cycles {c : Call} {id : UInt64} {n : Nat} (hc : c ∈ cycles id n)
    (s : PersistSnapshot) : c ≠ .restore s := by
  induction n generalizing id with
  | zero => simp [cycles] at hc
  | succ n ih =>
      rcases List.mem_cons.mp hc with rfl | hc
      · exact nofun
      · rcases List.mem_cons.mp hc with rfl | hc
        · exact nofun
        · exact ih hc

theorem vacant_restored {s : PersistSnapshot} (hpos : 0 < s.domain.managedCapacity.toNat) :
    let ready := run perform ((new {} true).restore s).2 [.initializeArena (.ok 1)]
    Vacant ready ∧ ready.nextAllocId = s.nextAllocId := by
  have hready : run perform ((new {} true).restore s).2 [.initializeArena (.ok 1)] =
      ((new {} true).restore s).2.withArena 1 := by
    show ((((new {} true).restore s).2).initializeArena (.ok 1)).2 = _
    rcases initializeArena_cases ((new {} true).restore s).2 (.ok 1) with
      ⟨hfirst, _⟩ | ⟨_, hwhy⟩ | ⟨base, hbase, _, _, _, heq⟩
    · cases hfirst
    · rcases hwhy 1 rfl with hbackend | hcap
      · cases hbackend
      · exact absurd hcap (toNat_pos_iff.mp hpos)
    · cases hbase
      rw [heq]
  intro ready
  rw [show ready = _ from hready]
  exact ⟨⟨rfl, fun _ => rfl, fun k r => RegionAllocator.not_liveAt_new _⟩, rfl⟩

/-- The calls that draw the ids up to the `k`th after the counter, and
issue that one. -/
def drawUpTo (s : PersistSnapshot) (k : Nat) : List Call :=
  .initializeArena (.ok 1) :: cycles s.nextAllocId k ++ [.request oneByte]

theorem issued_drawUpTo {s : PersistSnapshot} (hpos : 0 < s.domain.managedCapacity.toNat)
    (k : Nat) : (⟨s.nextAllocId + UInt64.ofNat k⟩, TypedGeneration.first) ∈
      issued (trace perform ((new {} true).restore s).2 (drawUpTo s k)) := by
  have hinv : Inv ((new {} true).restore s).2 := inv_of_fresh rfl rfl rfl
  obtain ⟨hvacant, hnext⟩ := vacant_restored hpos
  have hreached := run_cycles (run_inv hinv _) hvacant k
  rw [hnext, ← run_append] at hreached
  have hlast := (hreached.1.cycle (run_inv hinv _)).1
  rw [hreached.2] at hlast
  rw [drawUpTo, trace_concat]
  exact mem_issued_concat.mpr (Or.inr hlast)

end Vacant

/-! ## Loading a file -/

/-- After every restore of `s`, in every run without a further restore and
with fewer than 2^63 requests, ids are fresh. -/
def KeepsIdsFresh (s : PersistSnapshot) : Prop :=
  ∀ (domain : MemoryDomain) (hasBackend : Bool) (before post : List Call),
    (∀ c ∈ post, ∀ s', c ≠ .restore s') → post.countP (·.isRequest) < 2 ^ 63 →
      Throughout perform (IdsFresh s)
        (run perform (new domain hasBackend) (before ++ [.restore s])) post

section Loading

variable {s : PersistSnapshot}

theorem keepsIdsFresh_of_ahead (hnext : s.nextAllocId.toNat ≤ 2 ^ 63)
    (hahead : CounterAhead s.nextAllocId.toNat ((snapshotIds s).map (·.value.toNat))) :
    KeepsIdsFresh s := by
  intro domain hasBackend before post hcalls hreq pre hpre
  have hreq' : pre.countP (·.isRequest) < 2 ^ 63 := lt_of_le_of_lt hpre.sublist.countP_le hreq
  have hinv := run_inv (inv_new domain hasBackend) (before ++ [.restore s])
  rw [run_concat] at hinv ⊢
  have hsince := run_since hinv hahead hnext (fun c hc => hcalls c (hpre.subset hc)) hreq'
  exact hsince.idsFresh hahead (by rw [requests_trace]; exact hreq')

theorem keepsIdsFresh_of_unmanaged (hzero : s.domain.managedCapacity.toNat = 0) :
    KeepsIdsFresh s := by
  intro domain hasBackend before post hcalls _ pre hpre
  have hinv := run_inv (inv_new domain hasBackend) (before ++ [.restore s])
  rw [run_concat] at hinv ⊢
  obtain ⟨hmanaged, hissued⟩ :=
    run_unmanaged hinv hzero (fun c hc => hcalls c (hpre.subset hc))
  refine ⟨fun h hin => ?_, fun i r hf => ?_⟩
  · rw [show issued _ = [] from hissued] at hin
    cases hin
  · rw [((run_inv hinv pre).idle hmanaged).2] at hf
    simp at hf

/-- Some run issues each id within reach of the counter. -/
theorem KeepsIdsFresh.issues (h : KeepsIdsFresh s) (hpos : 0 < s.domain.managedCapacity.toNat)
    {k : Nat} (hk : k + 1 < 2 ^ 63) :
    s.nextAllocId + UInt64.ofNat k ≠ 0 ∧ ⟨s.nextAllocId + UInt64.ofNat k⟩ ∉ snapshotIds s := by
  have hcalls : ∀ c ∈ drawUpTo s k, ∀ s', c ≠ .restore s' := by
    intro c hc s'
    rcases List.mem_append.mp hc with hc | hc
    · rcases List.mem_cons.mp hc with rfl | hc
      · exact nofun
      · exact mem_cycles hc s'
    · rw [List.mem_singleton.mp hc]
      exact nofun
  have hcount : (drawUpTo s k).countP (·.isRequest) = k + 1 := by
    rw [drawUpTo, List.countP_append, List.countP_cons_of_neg Bool.false_ne_true, countP_cycles]
    rfl
  have hfresh := h {} true [] (drawUpTo s k) hcalls (by rw [hcount]; exact hk) _ (List.prefix_refl _)
  exact hfresh.issued _ (issued_drawUpTo hpos k)

theorem keepsIdsFresh_iff (hnext : s.nextAllocId.toNat ≤ 2 ^ 63) :
    KeepsIdsFresh s ↔ s.domain.managedCapacity.toNat = 0 ∨
      CounterAhead s.nextAllocId.toNat ((snapshotIds s).map (·.value.toNat)) := by
  constructor
  · intro h
    by_cases hzero : s.domain.managedCapacity.toNat = 0
    · exact Or.inl hzero
    · have hpos : 0 < s.domain.managedCapacity.toNat := by omega
      refine Or.inr ⟨fun hstart => ?_, fun v hv => ?_⟩
      · have hissued := (h.issues hpos (k := 0) (by decide)).1
        have hzeroth : s.nextAllocId + UInt64.ofNat 0 = s.nextAllocId := UInt64.add_zero _
        rw [hzeroth] at hissued
        exact hissued (UInt64.toNat_inj.mp hstart)
      · by_contra hreach
        obtain ⟨id, hid, rfl⟩ := List.mem_map.mp hv
        have hdrawn := (h.issues hpos (k := id.value.toNat - s.nextAllocId.toNat) (by omega)).2
        have hvalue : s.nextAllocId + UInt64.ofNat (id.value.toNat - s.nextAllocId.toNat)
            = id.value := by
          apply UInt64.toNat_inj.mp
          have hlt := id.value.toNat_lt
          rw [UInt64.toNat_add, UInt64.toNat_ofNat', Nat.mod_eq_of_lt (b := 2 ^ 64) (by omega)]
          omega
        rw [hvalue] at hdrawn
        exact hdrawn hid
  · rintro (hzero | hahead)
    · exact keepsIdsFresh_of_unmanaged hzero
    · exact keepsIdsFresh_of_ahead hnext hahead

/-- **Loaded snapshots keep ids fresh** exactly if the file manages no
memory, or its counter is set and no id in it is among those that fewer
than 2^63 draws from the counter reach. -/
theorem loaded_ids_fresh_iff (b : Bytes) (s : PersistSnapshot) (h : decode b = .ok s)
    (hnext : s.nextAllocId.toNat ≤ 2 ^ 63) :
    KeepsIdsFresh s ↔ fileManaged b = 0 ∨ CounterAhead (fileNext b) (fileIds b) := by
  obtain ⟨hmanaged, hcounter, hids⟩ := decode_words h
  have hmap : (snapshotIds s).map (·.value.toNat)
      = (s.records ++ s.retired).map (fun r => r.id.value.toNat) := by
    rw [snapshotIds, List.map_map]
    rfl
  rw [keepsIdsFresh_iff hnext, hmanaged, hcounter, hids, hmap]

theorem sampleSnapshot_ids_fresh :
    decode (encode sampleSnapshot) = .ok sampleSnapshot ∧ KeepsIdsFresh sampleSnapshot := by
  have hdecode := decode_encode_iff.mpr sampleSnapshot_storable
  obtain ⟨_, hcounter, hids⟩ := decode_words hdecode
  refine ⟨hdecode, (loaded_ids_fresh_iff _ _ hdecode (by decide)).mpr (Or.inr ?_)⟩
  rw [hcounter, hids]
  exact ⟨by decide, by decide +kernel⟩

/-- The counter stands at an id the snapshot carries. -/
def laggingSnapshot : PersistSnapshot := { sampleSnapshot with nextAllocId := 3 }

/-- The decoder takes it, and the first request after the restore is given
the id 3, which is then live and retired at once. -/
theorem laggingSnapshot_reuses_id :
    decode (encode laggingSnapshot) = .ok laggingSnapshot ∧
      laggingSnapshot.nextAllocId.toNat ≤ 2 ^ 63 ∧
      (let restored := run perform (new {} true) [.restore laggingSnapshot]
       let calls : List Call := [.initializeArena (.ok 1), .request oneByte]
       (⟨3⟩, .first) ∈ issued (trace perform restored calls) ∧ ⟨3⟩ ∈ snapshotIds laggingSnapshot ∧
         ((run perform restored calls).records.find? ⟨3⟩).isSome ∧
         ((run perform restored calls).retired.find? ⟨3⟩).isSome) ∧
      ¬ KeepsIdsFresh laggingSnapshot := by
  have hstorable : Storable laggingSnapshot := by decide +kernel
  refine ⟨decode_encode_iff.mpr hstorable, by decide, by decide +kernel, ?_⟩
  rw [keepsIdsFresh_iff (by decide)]
  rintro (hzero | hahead)
  · exact absurd hzero (by decide)
  · exact absurd (hahead.ahead 3 (by decide)) (by decide)

end Loading

end GpuMemoryService.MemoryGovernor
