/-
GpuMemoryService.GovernorHandles — stale handles are never honoured.

A handle is an id with a generation. In a run without a restore in which
neither the id counter nor a generation wraps (`NoWrap`), ids are drawn in
increasing order and the generations of one id grow with every move, so a
pair is handed out once (`Fenced`). A pair that a move or a release has
superseded is behind its account for good (`Expired`), and the governor
refuses whatever is not the current generation of a live record.
-/
import GpuMemoryService.GovernorLedger

namespace GpuMemoryService.MemoryGovernor

open Lib

/-! ## Handles in calls and replies -/

/-- The handle a call presents. -/
def Call.handle? : Call → Option (AllocationId × AllocationGeneration)
  | .release id gen => some (id, gen)
  | .releaseForWorker id gen _ _ => some (id, gen)
  | .pin id gen => some (id, gen)
  | .unpin id gen => some (id, gen)
  | .get id gen => some (id, gen)
  | .applyRelocation id gen _ _ => some (id, gen)
  | _ => none

def Call.isRequest : Call → Bool
  | .request _ => true
  | _ => false

/-- The call was refused. -/
def Reply.rejected : Reply → Bool
  | .done (.error _) => true
  | .handle (.error _) => true
  | .record (.error _) => true
  | _ => false

/-- The handle an event hands out. -/
def handedOut : Event → Option (AllocationId × AllocationGeneration)
  | (.request _, .handle (.ok h)) => some (h.id, h.generation)
  | (.applyRelocation _ _ _ _, .handle (.ok h)) => some (h.id, h.generation)
  | _ => none

/-- Every handle a trace hands out, in order. -/
def issued (t : List Event) : List (AllocationId × AllocationGeneration) := t.filterMap handedOut

/-- The event is an accepted move of `id`. -/
def isMove (id : AllocationId) : Event → Bool
  | (.applyRelocation i _ _ _, .handle (.ok _)) => i == id
  | _ => false

/-- Accepted moves of `id` in a trace. -/
def relocations (id : AllocationId) (t : List Event) : Nat := t.countP (isMove id)

/-- Request calls in a trace. -/
def requests (t : List Event) : Nat := t.countP (·.1.isRequest)

/-- The governor refuses the handle and stays as it is. -/
def Refuses (g : MemoryGovernor) (id : AllocationId) (gen : AllocationGeneration) : Prop :=
  ∀ c : Call, c.handle? = some (id, gen) →
    (g.perform c).1.rejected = true ∧ (g.perform c).2 = g

section Refusal

variable {g : MemoryGovernor} {id : AllocationId} {gen : AllocationGeneration}

theorem releaseForWorker_stale (h : ∀ rec, g.records.find? id = some rec → rec.generation ≠ gen)
    (w : WorkerBootId) (s : SourceBootId) :
    ∃ f, g.releaseForWorker id gen w s = (.error f, g) ∧
      (∀ rel, g.records.find? id = none → g.retired.find? id = some rel →
        f.reason = if rel.generation = gen then .doubleFree else .staleGeneration) := by
  unfold releaseForWorker
  cases hf : g.records.find? id with
  | none =>
      cases hr : g.retired.find? id with
      | none => exact ⟨_, rfl, fun rel _ hc => by cases hc⟩
      | some rel =>
          dsimp only
          by_cases hgen : rel.generation = gen
          · refine ⟨⟨.doubleFree, "double free of released allocation"⟩, by simp [hgen],
              fun rel' _ hrel => ?_⟩
            cases hrel
            rw [if_pos hgen]
          · refine ⟨⟨.staleGeneration, "stale generation on released allocation"⟩, by simp [hgen],
              fun rel' _ hrel => ?_⟩
            cases hrel
            rw [if_neg hgen]
  | some rec =>
      have hne := h rec hf
      exact ⟨⟨.staleGeneration, "stale allocation generation on release"⟩, by simp [hne],
        fun rel hc => by cases hc⟩

/-- A handle that is not the current generation of a live record is
refused by every operation. -/
theorem refuses_of_stale (h : ∀ rec, g.records.find? id = some rec → rec.generation ≠ gen) :
    Refuses g id gen := by
  have hlocate : ∀ stale, ∃ f, g.locate id gen stale = .error f := fun stale => by
    rcases locate_cases g id gen stale with ⟨f, _, _, heq⟩ | ⟨rec, hf, hgen, _⟩
    · exact ⟨f, heq⟩
    · exact absurd hgen (h rec hf)
  intro c hc
  cases c with
  | release i ge =>
      cases hc
      obtain ⟨f, heq, _⟩ := releaseForWorker_stale h {} {}
      simp [perform, release, heq, Reply.rejected]
  | releaseForWorker i ge w s =>
      cases hc
      obtain ⟨f, heq, _⟩ := releaseForWorker_stale h w s
      simp [perform, heq, Reply.rejected]
  | pin i ge =>
      cases hc
      obtain ⟨f, heq⟩ := hlocate "stale generation on pin"
      simp [perform, pin, heq, Reply.rejected]
  | unpin i ge =>
      cases hc
      obtain ⟨f, heq⟩ := hlocate "stale generation on unpin"
      simp [perform, unpin, heq, Reply.rejected]
  | get i ge =>
      cases hc
      obtain ⟨f, heq⟩ := hlocate "stale allocation generation on query"
      simp [perform, get, heq, Reply.rejected]
  | applyRelocation i ge o n =>
      cases hc
      obtain ⟨f, heq⟩ := hlocate "stale generation on relocate"
      simp [perform, applyRelocation, heq, Reply.rejected]
  | _ => cases hc

end Refusal

/-! ## No counter wraps -/

/-- The call is no restore, draws no id at the end of the counter, and
accepts no move at the end of an allocation's generations. -/
structure NoWrap (g : MemoryGovernor) (c : Call) (reply : Reply) : Prop where
  restore : ∀ s, c ≠ .restore s
  id : c.isRequest = true → g.nextAllocId.toNat + 1 < 2 ^ 64
  generation : ∀ id gen o n h, c = .applyRelocation id gen o n → reply = .handle (.ok h) →
    gen.value.toNat + 1 < 2 ^ 64

/-- The guard on calls that `NoWrap` amounts to. -/
def Unwrapped (g : MemoryGovernor) (c : Call) : Prop := NoWrap g c (g.perform c).1

/-- The counters are bounded by what the trace has used up. -/
structure Counted (g : MemoryGovernor) (t : List Event) : Prop where
  next : g.nextAllocId.toNat ≤ requests t + 1
  generation : ∀ id a, account id t = some a →
    a.generation.value.toNat ≤ relocations id t + 1

section Bounds

variable {g g' : MemoryGovernor} {t : List Event}

theorem requests_concat (t : List Event) (e : Event) :
    requests (t ++ [e]) = requests t + if e.1.isRequest then 1 else 0 := by
  simp only [requests, List.countP_append, List.countP_singleton]

theorem relocations_concat (id : AllocationId) (t : List Event) (e : Event) :
    relocations id (t ++ [e]) = relocations id t + if isMove id e then 1 else 0 := by
  simp only [relocations, List.countP_append, List.countP_singleton]

/-- The word after `next` is at most one larger, wrapping included. -/
theorem toNat_next_le {tag : GenTag} (gen : TypedGeneration tag) :
    gen.next.value.toNat ≤ gen.value.toNat + 1 := by
  unfold TypedGeneration.next
  split
  · exact Nat.zero_le _
  · rw [UInt64.toNat_add]
    exact Nat.mod_le _ _

/-- The counter after a draw is within the requests, this one included. -/
theorem Counted.next_draw (h : Counted g t) (req : AllocationRequest) (reply : Reply) :
    (g.nextAllocId + 1).toNat ≤ requests (t ++ [(.request req, reply)]) + 1 := by
  rw [requests_concat, UInt64.toNat_add]
  have hnext := h.next
  have hmod := Nat.mod_le (g.nextAllocId.toNat + (1 : UInt64).toNat) (2 ^ 64)
  simp only [Call.isRequest, if_true, UInt64.toNat_one] at *
  omega

theorem Counted.keep (h : Counted g t) {e : Event} (hnext : g'.nextAllocId = g.nextAllocId)
    (hacc : ∀ id a, enter id (account id t) e = some a →
      ∃ a', account id t = some a' ∧ a.generation = a'.generation) : Counted g' (t ++ [e]) where
  next := by
    rw [hnext, requests_concat]
    have := h.next
    omega
  generation := by
    intro id a ha
    rw [account_concat] at ha
    obtain ⟨a', ha', hgen⟩ := hacc id a ha
    have := h.generation id a' ha'
    rw [hgen, relocations_concat]
    omega

/-- An entry that rewrites an open account without moving it. -/
theorem enter_map_generation {id i : AllocationId} {a? : Option Account} {a : Account}
    {f : Account → Account} (h : (if i = id then a?.map f else a?) = some a)
    (hf : ∀ x, (f x).generation = x.generation) :
    ∃ a', a? = some a' ∧ a.generation = a'.generation := by
  obtain ⟨x, hx, rfl | ⟨_, rfl⟩⟩ := enter_map_cases h
  · exact ⟨a, hx, rfl⟩
  · exact ⟨x, hx, hf x⟩

theorem Step.counted (ht : Tracks g t) {c : Call} {reply : Reply}
    (hs : Step g c reply g') (hcnt : Counted g t) (hno : ∀ s, c ≠ .restore s) :
    Counted g' (t ++ [(c, reply)]) := by
  cases hs with
  | quiet hq hm hid =>
      rcases hid with hid | ⟨⟨req, rfl⟩, hid⟩
      · exact hcnt.keep hid (fun id a ha => ⟨a, by rwa [enter_of_not_mutates hm] at ha, rfl⟩)
      · refine ⟨?_, fun id a ha => ?_⟩
        · rw [hid]
          exact hcnt.next_draw req _
        · rw [account_concat, enter_of_not_mutates hm] at ha
          have := hcnt.generation id a ha
          rw [relocations_concat]
          omega
  | granted hready hp =>
      refine ⟨?_, fun id a ha => ?_⟩
      · exact hcnt.next_draw _ _
      · rw [account_concat] at ha
        simp only [enter] at ha
        rw [relocations_concat]
        split at ha
        · cases ha
          show (1 : UInt64).toNat ≤ _
          rw [UInt64.toNat_one]
          omega
        · have := hcnt.generation id a ha
          omega
  | released hc hcur _ _ _ he =>
      refine hcnt.keep rfl (fun id a ha => ?_)
      rw [enter_release hc] at ha
      exact enter_map_generation ha (fun _ => rfl)
  | pinned hcur he =>
      exact hcnt.keep rfl (fun id a ha => enter_map_generation ha (fun _ => rfl))
  | unpinned hcur _ he =>
      exact hcnt.keep rfl (fun id a ha => enter_map_generation ha (fun _ => rfl))
  | @moved i gen _ _ _ _ _ hcur _ _ he =>
      obtain ⟨a₀, ha₀, _, hgen⟩ := ht.generation hcur
      refine ⟨?_, fun id a ha => ?_⟩
      · show g.nextAllocId.toNat ≤ _
        have := hcnt.next
        rw [requests_concat]
        omega
      · rw [account_concat] at ha
        simp only [enter] at ha
        rw [relocations_concat]
        split at ha
        · rename_i hi
          subst hi
          rw [ha₀] at ha
          cases ha
          have h1 := hcnt.generation _ a₀ ha₀
          have h2 := toNat_next_le gen
          rw [hgen] at h1
          simp only [isMove, beq_self_eq_true, if_true]
          omega
        · have := hcnt.generation id a ha
          omega
  | restored s => exact absurd rfl (hno s)

/-- Fewer than 2^64 - 1 requests, and fewer than 2^64 - 1 moves of any one
allocation, never wrap. -/
theorem guarded_unwrapped {domain : MemoryDomain} {hasBackend : Bool} {calls : List Call}
    (hno : ∀ s, .restore s ∉ calls)
    (hreq : requests (trace perform (new domain hasBackend) calls) < 2 ^ 64 - 1)
    (hmoves : ∀ id, relocations id (trace perform (new domain hasBackend) calls) < 2 ^ 64 - 1) :
    Guarded perform Unwrapped (new domain hasBackend) calls ∧
      Counted (run perform (new domain hasBackend) calls)
        (trace perform (new domain hasBackend) calls) := by
  induction calls using List.reverseRecOn with
  | nil => exact ⟨trivial, le_rfl, fun id a ha => by cases ha⟩
  | append_singleton calls c ih =>
      rw [trace_concat] at hreq hmoves
      simp only [requests_concat, relocations_concat] at hreq hmoves
      obtain ⟨hguard, hcnt⟩ := ih (fun s hs => hno s (by simp [hs])) (by omega)
        (fun id => by have := hmoves id; omega)
      have hinv := run_inv (inv_new domain hasBackend) calls
      have htracks := run_tracks domain hasBackend calls
      rw [run_concat, trace_concat]
      have hstep := perform_step hinv c
      have hc : ∀ s, c ≠ .restore s := fun s hs => hno s (by simp [hs])
      refine ⟨guarded_concat.mpr ⟨hguard, ?_⟩, hstep.counted htracks hcnt hc⟩
      refine ⟨hc, fun hr => ?_, fun id gen o n h heq hok => ?_⟩
      · have := hcnt.next
        rw [if_pos hr] at hreq
        omega
      · subst heq
        have hm := hmoves id
        rw [hok] at hm hstep
        simp only [isMove, beq_self_eq_true, if_true] at hm
        generalize ((run perform (new domain hasBackend) calls).perform _).2 = g' at hstep
        cases hstep with
        | quiet _ hq _ => cases hq
        | moved hcur _ _ _ =>
            obtain ⟨a, ha, _, hgen⟩ := htracks.generation hcur
            have hbound := hcnt.generation id a ha
            rw [hgen] at hbound
            omega

end Bounds

/-! ## Accounts over time -/

/-- `a'` is `a` later on. -/
structure Extends (a a' : Account) : Prop where
  request : a'.request = a.request
  released : a.released = true → a' = a
  generation : a.generation.value.toNat ≤ a'.generation.value.toNat

theorem Extends.refl (a : Account) : Extends a a := ⟨rfl, fun _ => rfl, le_rfl⟩

theorem Extends.trans {a b c : Account} (h : Extends a b) (h' : Extends b c) : Extends a c where
  request := h'.request.trans h.request
  released := by
    intro hrel
    have hb := h.released hrel
    rw [h'.released (hb ▸ hrel), hb]
  generation := h.generation.trans h'.generation

/-- Ids grow, handles are handed out once and never run ahead of their
account, and the account of a granted id is the one its grant opened. -/
structure Fenced (g : MemoryGovernor) (t : List Event) : Prop where
  ids : ∀ {id a}, account id t = some a → id.value.toNat < g.nextAllocId.toNat
  gens : ∀ {h}, h ∈ issued t →
    ∃ a, account h.1 t = some a ∧ h.2.value.toNat ≤ a.generation.value.toNat
  nodup : (issued t).Nodup
  grants : ∀ {req h}, (Call.request req, Reply.handle (.ok h)) ∈ t →
    ∃ a, account h.id t = some a ∧ a.request = req

section Fences

variable {g g' : MemoryGovernor} {t : List Event} {c : Call} {reply : Reply}

/-- An entry that rewrites an open account, without a step back in its
generation, extends it. -/
theorem Extends.rewritten {id i : AllocationId} {a : Account} {f : Account → Account}
    (h : i = id → a.released = false ∧ (f a).request = a.request ∧
      a.generation.value.toNat ≤ (f a).generation.value.toNat) :
    ∃ a', (if i = id then (some a).map f else some a) = some a' ∧ Extends a a' := by
  by_cases hi : i = id
  · obtain ⟨hopen, hreq, hgen⟩ := h hi
    rw [if_pos hi]
    refine ⟨f a, rfl, hreq, fun hrel => ?_, hgen⟩
    rw [hopen] at hrel
    cases hrel
  · rw [if_neg hi]
    exact ⟨a, rfl, Extends.refl a⟩

/-- No step closes an account or takes anything back. -/
theorem Step.extends (ht : Tracks g t) (hf : Fenced g t) (hs : Step g c reply g')
    (hw : NoWrap g c reply) {id : AllocationId} {a : Account} (ha : account id t = some a) :
    ∃ a', account id (t ++ [(c, reply)]) = some a' ∧ Extends a a' := by
  rw [account_concat, ha]
  -- an event on this id is about a live account, which is `a`
  have hsame : ∀ {i gen rec region}, g.Current i gen rec region → i = id →
      a.released = false ∧ a.generation = gen := by
    intro i gen rec region hcur hi
    subst hi
    obtain ⟨a₀, ha₀, hrel, hgen⟩ := ht.generation hcur
    rw [ha] at ha₀
    cases ha₀
    exact ⟨hrel, hgen⟩
  cases hs with
  | quiet _ hm _ => exact ⟨a, enter_of_not_mutates hm _ _, Extends.refl a⟩
  | granted hready hp =>
      simp only [enter]
      split
      · rename_i hi
        have := hf.ids ha
        rw [← hi] at this
        exact absurd this (lt_irrefl _)
      · exact ⟨a, rfl, Extends.refl a⟩
  | released hc hcur _ _ _ he =>
      rw [enter_release hc]
      exact Extends.rewritten (fun hi => ⟨(hsame hcur hi).1, rfl, le_rfl⟩)
  | pinned hcur he => exact Extends.rewritten (fun hi => ⟨(hsame hcur hi).1, rfl, le_rfl⟩)
  | unpinned hcur _ he => exact Extends.rewritten (fun hi => ⟨(hsame hcur hi).1, rfl, le_rfl⟩)
  | moved hcur _ _ he =>
      refine Extends.rewritten (fun hi => ⟨(hsame hcur hi).1, rfl, ?_⟩)
      have hgen := (hsame hcur hi).2
      have hnext := TypedGeneration.toNat_next (hw.generation _ _ _ _ _ rfl rfl)
      simp only [hgen, hnext]
      omega
  | restored s => exact absurd rfl (hw.restore s)

theorem handedOut_of_not_mutates (hm : mutates c reply = false) :
    handedOut (c, reply) = none := by
  unfold handedOut
  split <;> first | rfl | simp_all [mutates]

theorem issued_concat (t : List Event) (e : Event) :
    issued (t ++ [e]) = issued t ++ (handedOut e).toList := by
  simp only [issued, List.filterMap_append, List.filterMap_cons, List.filterMap_nil]
  cases handedOut e <;> rfl

/-- The fences after a step: what was handed out before is still behind its
account, so only what the step itself adds has to be looked at. -/
theorem Fenced.extend (ht : Tracks g t) (hf : Fenced g t) (hs : Step g c reply g')
    (hw : NoWrap g c reply)
    (hids : ∀ {id a}, account id (t ++ [(c, reply)]) = some a →
      id.value.toNat < g'.nextAllocId.toNat)
    (hout : ∀ h, handedOut (c, reply) = some h → h ∉ issued t ∧
      ∃ a, account h.1 (t ++ [(c, reply)]) = some a ∧ h.2.value.toNat ≤ a.generation.value.toNat)
    (hgrant : ∀ req h, c = .request req → reply = .handle (.ok h) →
      ∃ a, account h.id (t ++ [(c, reply)]) = some a ∧ a.request = req) :
    Fenced g' (t ++ [(c, reply)]) where
  ids := hids
  gens := by
    intro h hin
    rw [issued_concat] at hin
    rcases List.mem_append.mp hin with hin | hin
    · obtain ⟨a, ha, hle⟩ := hf.gens hin
      obtain ⟨a', ha', hext⟩ := hs.extends ht hf hw ha
      exact ⟨a', ha', hle.trans hext.generation⟩
    · exact (hout h (Option.mem_toList.mp hin)).2
  nodup := by
    rw [issued_concat]
    cases hnew : handedOut (c, reply) with
    | none => simpa using hf.nodup
    | some h => simpa using List.Nodup.append hf.nodup (List.nodup_singleton h) (by
        simpa using (hout h hnew).1)
  grants := by
    intro req h hin
    rcases List.mem_append.mp hin with hin | hin
    · obtain ⟨a, ha, hreq⟩ := hf.grants hin
      obtain ⟨a', ha', hext⟩ := hs.extends ht hf hw ha
      exact ⟨a', ha', hext.request.trans hreq⟩
    · cases List.mem_singleton.mp hin
      exact hgrant req h rfl rfl

/-- An entry that rewrites accounts but opens none. -/
theorem exists_of_enter_map {id i : AllocationId} {a? : Option Account} {a : Account}
    {f : Account → Account} (h : (if i = id then a?.map f else a?) = some a) :
    ∃ a', a? = some a' := by
  obtain ⟨x, hx, _⟩ := enter_map_cases h
  exact ⟨x, hx⟩

/-- A step that draws no id, hands nothing out and opens no account. -/
theorem Fenced.keep (ht : Tracks g t) (hf : Fenced g t) (hs : Step g c reply g')
    (hw : NoWrap g c reply) (hnext : g.nextAllocId.toNat ≤ g'.nextAllocId.toNat)
    (hacc : ∀ {id a}, enter id (account id t) (c, reply) = some a → ∃ a', account id t = some a')
    (hout : handedOut (c, reply) = none) : Fenced g' (t ++ [(c, reply)]) := by
  refine hf.extend ht hs hw (fun {id a} ha => ?_) (fun h hh => ?_) (fun req h hc hr => ?_)
  · rw [account_concat] at ha
    obtain ⟨a', ha'⟩ := hacc ha
    exact lt_of_lt_of_le (hf.ids ha') hnext
  · rw [hout] at hh
    cases hh
  · subst hc hr
    cases hout

/-- **One step** keeps the fences. -/
theorem Step.fenced (ht : Tracks g t) (hf : Fenced g t) (hs : Step g c reply g')
    (hw : NoWrap g c reply) : Fenced g' (t ++ [(c, reply)]) := by
  have hs' := hs
  cases hs with
  | quiet hq hm hid =>
      refine hf.keep ht hs' hw ?_ (fun {id a} ha => ⟨a, by rwa [enter_of_not_mutates hm] at ha⟩) ?_
      · rcases hid with hid | ⟨⟨req, rfl⟩, hid⟩
        · rw [hid]
        · rw [hid, toNat_add_of_lt (b := 1) (hw.id rfl)]
          omega
      · exact handedOut_of_not_mutates hm
  | @granted req live arena hready hp =>
      have hnext : (g.nextAllocId + 1).toNat = g.nextAllocId.toNat + 1 :=
        toNat_add_of_lt (b := 1) (hw.id rfl)
      have hopened : account ⟨g.nextAllocId⟩ (t ++ [(.request req, .handle (.ok
          ⟨⟨g.nextAllocId⟩, .first, live.offset, live.size, req.alignment⟩))])
          = some { request := req, granted :=
            ⟨⟨g.nextAllocId⟩, .first, live.offset, live.size, req.alignment⟩ } := by
        rw [account_concat]
        simp only [enter, if_true]
      refine hf.extend ht hs' hw (fun {id a} ha => ?_) (fun h hh => ?_) (fun req' h hc hr => ?_)
      · show id.value.toNat < (g.nextAllocId + 1).toNat
        rw [account_concat] at ha
        simp only [enter] at ha
        split at ha
        · rename_i hi
          rw [← hi, hnext]
          exact Nat.lt_succ_self _
        · have := hf.ids ha
          omega
      · cases hh
        refine ⟨fun hin => ?_, _, hopened, le_rfl⟩
        obtain ⟨a, ha, _⟩ := hf.gens hin
        exact absurd (hf.ids ha) (lt_irrefl _)
      · cases hc
        cases hr
        exact ⟨_, hopened, rfl⟩
  | released hc hcur _ _ _ he =>
      refine hf.keep ht hs' hw le_rfl (fun {id a} ha => ?_) ?_
      · rw [enter_release hc] at ha
        exact exists_of_enter_map ha
      · rcases hc with rfl | ⟨_, _, rfl⟩ <;> rfl
  | pinned hcur he => exact hf.keep ht hs' hw le_rfl (fun ha => exists_of_enter_map ha) rfl
  | unpinned hcur _ he => exact hf.keep ht hs' hw le_rfl (fun ha => exists_of_enter_map ha) rfl
  | @moved i gen o n rec region arena hcur _ _ he =>
      obtain ⟨a₀, ha₀, _, hgen⟩ := ht.generation hcur
      have hnext := TypedGeneration.toNat_next (hw.generation _ _ _ _ _ rfl rfl)
      refine hf.extend ht hs' hw (fun {id a} ha => ?_) (fun h hh => ?_) (fun req' h hc _ => ?_)
      · rw [account_concat] at ha
        obtain ⟨a', ha'⟩ := exists_of_enter_map ha
        exact hf.ids ha'
      · cases hh
        refine ⟨fun hin => ?_, { a₀ with generation := gen.next, moves := a₀.moves + 1 }, ?_, le_rfl⟩
        · obtain ⟨a, ha, hle⟩ := hf.gens hin
          rw [ha₀] at ha
          cases ha
          rw [hgen] at hle
          simp only [hnext] at hle
          omega
        · rw [account_concat]
          simp only [enter, if_true, ha₀, Option.map_some]
      · cases hc
  | restored s => exact absurd rfl (hw.restore s)

theorem run_fenced {domain : MemoryDomain} {hasBackend : Bool} {calls : List Call}
    (hw : Guarded perform Unwrapped (new domain hasBackend) calls) :
    Fenced (run perform (new domain hasBackend) calls)
      (trace perform (new domain hasBackend) calls) := by
  have hall := hw.trace_inv (P := fun t g => (Inv g ∧ Tracks g t) ∧ Fenced g t)
    ⟨⟨inv_new domain hasBackend, tracks_new domain hasBackend⟩,
      ⟨nofun, nofun, List.nodup_nil, nofun⟩⟩
    (fun t g c hg hc =>
      have hs := perform_step hg.1.1 c
      ⟨⟨hs.inv hg.1.1, hs.tracks hg.1.1 hg.1.2⟩, hs.fenced hg.1.2 hg.2 hc⟩)
  exact hall.2

/-- An account lives on to the end of the run. -/
theorem run_extends {domain : MemoryDomain} {hasBackend : Bool} {pre post : List Call}
    (hw : Guarded perform Unwrapped (new domain hasBackend) (pre ++ post)) {id : AllocationId}
    {a : Account} (ha : account id (trace perform (new domain hasBackend) pre) = some a) :
    ∃ a', account id (trace perform (new domain hasBackend) (pre ++ post)) = some a' ∧
      Extends a a' := by
  induction post using List.reverseRecOn with
  | nil => exact ⟨a, by rw [List.append_nil]; exact ha, Extends.refl a⟩
  | append_singleton post c ih =>
      rw [← List.append_assoc] at hw ⊢
      obtain ⟨hw', hc⟩ := guarded_concat.mp hw
      obtain ⟨a', ha', hext⟩ := ih hw'
      rw [trace_concat]
      have hs := perform_step (run_inv (inv_new domain hasBackend) (pre ++ post)) c
      obtain ⟨a'', ha'', hext'⟩ :=
        hs.extends (run_tracks domain hasBackend (pre ++ post)) (run_fenced hw') hc ha'
      exact ⟨a'', ha'', hext.trans hext'⟩

end Fences

/-! ## Stale handles -/

/-- The handle an event supersedes: by a move or by a release. -/
def superseded : Event → Option (AllocationId × AllocationGeneration)
  | (.applyRelocation id gen _ _, .handle (.ok _)) => some (id, gen)
  | (.release id gen, .record (.ok _)) => some (id, gen)
  | (.releaseForWorker id gen _ _, .record (.ok _)) => some (id, gen)
  | _ => none

/-- The handle an event releases. -/
def releasedBy : Event → Option (AllocationId × AllocationGeneration)
  | (.release id gen, .record (.ok _)) => some (id, gen)
  | (.releaseForWorker id gen _ _, .record (.ok _)) => some (id, gen)
  | _ => none

/-- The account of the handle has gone past it. -/
def Expired (t : List Event) (id : AllocationId) (gen : AllocationGeneration) : Prop :=
  ∃ a, account id t = some a ∧
    (a.released = true ∨ gen.value.toNat < a.generation.value.toNat)

/-- The account is closed at this generation. -/
def Closed (t : List Event) (id : AllocationId) (gen : AllocationGeneration) : Prop :=
  ∃ a, account id t = some a ∧ a.released = true ∧ a.generation = gen

section Stale

variable {g g' : MemoryGovernor} {t : List Event} {id : AllocationId} {gen : AllocationGeneration}

theorem Expired.refuses (h : Inv g) (ht : Tracks g t) (he : Expired t id gen) :
    Refuses g id gen := by
  refine refuses_of_stale (fun rec hf hgen => ?_)
  obtain ⟨_, _, region, hcur⟩ := h.current hf
  obtain ⟨a, ha, hrel, hfol⟩ := ht.current hcur
  obtain ⟨a', ha', hexp⟩ := he
  rw [ha] at ha'
  cases ha'
  rcases hexp with hc | hlt
  · rw [hrel] at hc
    cases hc
  · rw [← hfol.generation, hgen] at hlt
    exact absurd hlt (lt_irrefl _)

theorem Step.closed (ht : Tracks g t) {c : Call} {reply : Reply} (hs : Step g c reply g')
    (hrel : releasedBy (c, reply) = some (id, gen)) : Closed (t ++ [(c, reply)]) id gen := by
  cases hs with
  | quiet _ hm _ =>
      unfold releasedBy at hrel
      split at hrel <;> simp_all [mutates]
  | @released c i ge rec _ _ hc hcur _ _ _ _ =>
      obtain ⟨a, ha, _, hgen⟩ := ht.generation hcur
      have heq : (i, ge) = (id, gen) := by
        rcases hc with rfl | ⟨_, _, rfl⟩ <;> simpa [releasedBy] using hrel
      cases heq
      refine ⟨{ a with released := true }, ?_, rfl, hgen⟩
      rw [account_concat, enter_release hc, if_pos rfl, ha]
      rfl
  | granted => cases hrel
  | pinned => cases hrel
  | unpinned => cases hrel
  | moved => cases hrel
  | restored => cases hrel

theorem Step.expired (ht : Tracks g t) {c : Call} {reply : Reply} (hs : Step g c reply g')
    (hw : NoWrap g c reply) (hsup : superseded (c, reply) = some (id, gen)) :
    Expired (t ++ [(c, reply)]) id gen := by
  have hs' := hs
  cases hs with
  | quiet _ hm _ =>
      unfold superseded at hsup
      split at hsup <;> simp_all [mutates]
  | released hc _ _ _ _ _ =>
      obtain ⟨a, ha, hrel, _⟩ := hs'.closed ht
        (by rcases hc with rfl | ⟨_, _, rfl⟩ <;> exact hsup)
      exact ⟨a, ha, Or.inl hrel⟩
  | moved hcur _ _ _ =>
      cases hsup
      obtain ⟨a, ha, _, hfol⟩ := ht.current hcur
      have hnext := TypedGeneration.toNat_next (hw.generation _ _ _ _ _ rfl rfl)
      refine ⟨{ a with generation := gen.next, moves := a.moves + 1 }, ?_, Or.inr ?_⟩
      · rw [account_concat]
        simp only [enter, if_true, ha, Option.map_some]
      · simp only [hnext]
        omega
  | granted => cases hsup
  | pinned => cases hsup
  | unpinned => cases hsup
  | restored => cases hsup

theorem Closed.release_verdict (ht : Tracks g t) (hc : Closed t id gen)
    (gen' : AllocationGeneration) :
    ∃ f, g.perform (.release id gen') = (.record (.error f), g) ∧
      f.reason = if gen' = gen then .doubleFree else .staleGeneration := by
  obtain ⟨a, ha, hrel, hgen⟩ := hc
  obtain ⟨hnone, rel, hretired, hrelgen⟩ := (ht id).gone ha hrel
  obtain ⟨f, heq, hreason⟩ := @releaseForWorker_stale g id gen'
    (fun rec hf => by rw [hnone] at hf; cases hf) {} {}
  refine ⟨f, by simp [perform, release, heq], ?_⟩
  rw [hreason rel hnone hretired, hrelgen, hgen]
  by_cases hg : gen' = gen
  · rw [if_pos hg, if_pos hg.symm]
  · rw [if_neg hg, if_neg (Ne.symm hg)]

/-- A release with a boot other than the recorded one. -/
theorem releaseForWorker_wrong_boot (h : Inv g) (ht : Tracks g t) {a : Account}
    (ha : account id t = some a) {w : WorkerBootId} {s : SourceBootId}
    (hboot : (w.isSet = true ∧ w ≠ a.request.workerBoot) ∨
      (s.isSet = true ∧ s ≠ a.request.sourceBoot)) :
    (g.perform (.releaseForWorker id gen w s)).1.rejected = true ∧
      (g.perform (.releaseForWorker id gen w s)).2 = g := by
  by_cases hstale : ∀ rec, g.records.find? id = some rec → rec.generation ≠ gen
  · exact refuses_of_stale hstale _ rfl
  · simp only [not_forall, not_not] at hstale
    obtain ⟨rec, hf, hgen⟩ := hstale
    obtain ⟨_, _, region, hcur⟩ := h.current hf
    obtain ⟨a', ha', _, hfol⟩ := ht.current hcur
    rw [ha] at ha'
    cases ha'
    rw [← hfol.workerBoot, ← hfol.sourceBoot] at hboot
    simp only [perform, releaseForWorker, hf, hgen, bne_self_eq_false, Bool.false_eq_true, if_false]
    by_cases hw : w.isSet = true ∧ w ≠ rec.workerBoot
    · simp [hw, Reply.rejected]
    · have hs : s.isSet = true ∧ s ≠ rec.sourceBoot := by
        rcases hboot with hc | hs
        · exact absurd hc hw
        · exact hs
      have hw' : (w.isSet && w != rec.workerBoot) = false := by
        by_contra hc
        exact hw (by simpa using hc)
      simp [hw', hs, Reply.rejected]

/-- An event in the middle of a run, as a step with its trace. -/
theorem step_of_mid {domain : MemoryDomain} {hasBackend : Bool} {calls pre post : List Call}
    {c : Call} (hw : Guarded perform Unwrapped (new domain hasBackend) calls)
    (hcalls : calls = pre ++ c :: post) :
    let g := run perform (new domain hasBackend) pre
    let t := trace perform (new domain hasBackend) pre
    Tracks g t ∧ Step g c (g.perform c).1 (g.perform c).2 ∧ NoWrap g c (g.perform c).1 ∧
      ∀ id a, account id (t ++ [(c, (g.perform c).1)]) = some a →
        ∃ a', account id (trace perform (new domain hasBackend) calls) = some a' ∧
          Extends a a' := by
  have hsplit : calls = (pre ++ [c]) ++ post := by rw [hcalls]; simp
  rw [hsplit] at hw ⊢
  have hpre := (guarded_append.mp hw).1
  refine ⟨run_tracks domain hasBackend pre,
    perform_step (run_inv (inv_new domain hasBackend) pre) c, (guarded_concat.mp hpre).2,
    fun id a ha => run_extends hw ?_⟩
  rw [trace_concat]
  exact ha

/-- A superseded handle is refused ever after. -/
theorem refuses_superseded {domain : MemoryDomain} {hasBackend : Bool} {calls pre post : List Call}
    {c : Call} (hw : Guarded perform Unwrapped (new domain hasBackend) calls)
    (hcalls : calls = pre ++ c :: post)
    (hsup : superseded (c, ((run perform (new domain hasBackend) pre).perform c).1)
      = some (id, gen)) : Refuses (run perform (new domain hasBackend) calls) id gen := by
  obtain ⟨ht, hs, hwc, hlater⟩ := step_of_mid hw hcalls
  obtain ⟨a, ha, hexp⟩ := hs.expired ht hwc hsup
  obtain ⟨a', ha', hext⟩ := hlater id a ha
  refine Expired.refuses (run_inv (inv_new domain hasBackend) calls)
    (run_tracks domain hasBackend calls) ⟨a', ha', ?_⟩
  rcases hexp with hrel | hlt
  · left
    rw [hext.released hrel]
    exact hrel
  · exact Or.inr (lt_of_lt_of_le hlt hext.generation)

/-- A released handle stays released, at the generation it had. -/
theorem closed_released {domain : MemoryDomain} {hasBackend : Bool} {calls pre post : List Call}
    {c : Call} (hw : Guarded perform Unwrapped (new domain hasBackend) calls)
    (hcalls : calls = pre ++ c :: post)
    (hrel : releasedBy (c, ((run perform (new domain hasBackend) pre).perform c).1)
      = some (id, gen)) : Closed (trace perform (new domain hasBackend) calls) id gen := by
  obtain ⟨ht, hs, _, hlater⟩ := step_of_mid hw hcalls
  obtain ⟨a, ha, hclosed, hgen⟩ := hs.closed ht hrel
  obtain ⟨a', ha', hext⟩ := hlater id a ha
  rw [hext.released hclosed] at ha'
  exact ⟨a, ha', hclosed, hgen⟩

/-- **Stale handles are never honoured.** In a run of a new governor without
a restore, with fewer than 2^64 - 1 requests and fewer than 2^64 - 1 moves
of any one allocation: every handle is handed out once; a handle superseded
by a move or a release is refused ever after; a released id answers a
further release with a double free exactly for the generation it was
released at; and a release under another boot is refused. -/
theorem stale_handles_refused (domain : MemoryDomain) (hasBackend : Bool) (calls : List Call)
    (hno : ∀ s, .restore s ∉ calls)
    (hreq : requests (trace perform (new domain hasBackend) calls) < 2 ^ 64 - 1)
    (hmoves : ∀ id, relocations id (trace perform (new domain hasBackend) calls) < 2 ^ 64 - 1) :
    let start := new domain hasBackend
    let g := run perform start calls
    (issued (trace perform start calls)).Nodup ∧
    (∀ pre c post id gen, calls = pre ++ c :: post →
      superseded (c, ((run perform start pre).perform c).1) = some (id, gen) → Refuses g id gen) ∧
    (∀ pre c post id gen, calls = pre ++ c :: post →
      releasedBy (c, ((run perform start pre).perform c).1) = some (id, gen) →
      ∀ gen', ∃ f, g.perform (.release id gen') = (.record (.error f), g) ∧
        f.reason = if gen' = gen then .doubleFree else .staleGeneration) ∧
    (∀ req h, (.request req, .handle (.ok h)) ∈ trace perform start calls →
      ∀ gen (w : WorkerBootId) (s : SourceBootId),
        (w.isSet = true ∧ w ≠ req.workerBoot) ∨ (s.isSet = true ∧ s ≠ req.sourceBoot) →
        (g.perform (.releaseForWorker h.id gen w s)).1.rejected = true ∧
          (g.perform (.releaseForWorker h.id gen w s)).2 = g) := by
  intro start g
  have hw := (guarded_unwrapped hno hreq hmoves).1
  have hinv : Inv g := run_inv (inv_new domain hasBackend) calls
  have htracks : Tracks g (trace perform start calls) := run_tracks domain hasBackend calls
  have hfenced := run_fenced hw
  refine ⟨hfenced.nodup, ?_, ?_, ?_⟩
  · intro pre c post id gen hcalls hsup
    exact refuses_superseded hw hcalls hsup
  · intro pre c post id gen hcalls hrel
    exact Closed.release_verdict htracks (closed_released hw hcalls hrel)
  · intro req h hin gen w s hboot
    obtain ⟨a, ha, hreq⟩ := hfenced.grants hin
    rw [← hreq] at hboot
    exact releaseForWorker_wrong_boot hinv htracks ha hboot

/-- An allocation that is moved and then released. -/
def staleRun : List Call :=
  [.initializeArena (.ok 4096),
   .request { bytes := 100, alignment := 64 },
   .applyRelocation ⟨1⟩ ⟨1⟩ 512 128,
   .release ⟨1⟩ ⟨2⟩]

theorem staleRun_refuses :
    let start := new { managedCapacity := 1024 } true
    let g := run perform start staleRun
    issued (trace perform start staleRun) = [(⟨1⟩, ⟨1⟩), (⟨1⟩, ⟨2⟩)] ∧
    Refuses g ⟨1⟩ ⟨1⟩ ∧ Refuses g ⟨1⟩ ⟨2⟩ ∧
    ∃ f, g.perform (.release ⟨1⟩ ⟨2⟩) = (.record (.error f), g) ∧ f.reason = .doubleFree := by
  intro start g
  have hmoves : ∀ id, relocations id (trace perform start staleRun) < 2 ^ 64 - 1 := fun id => by
    have hlen : (trace perform start staleRun).length = 4 := by decide +kernel
    have hle : relocations id (trace perform start staleRun) ≤ 4 := by
      rw [← hlen]
      exact List.countP_le_length
    omega
  obtain ⟨_, hrefused, hverdict, _⟩ := stale_handles_refused { managedCapacity := 1024 } true
    staleRun (by simp [staleRun]) (by decide +kernel) hmoves
  obtain ⟨f, hf, hreason⟩ := hverdict (staleRun.take 3) (.release ⟨1⟩ ⟨2⟩) [] ⟨1⟩ ⟨2⟩ rfl
    (by decide +kernel) ⟨2⟩
  refine ⟨by decide +kernel, ?_, ?_, f, hf, by simpa using hreason⟩
  · exact hrefused (staleRun.take 2) (.applyRelocation ⟨1⟩ ⟨1⟩ 512 128) [.release ⟨1⟩ ⟨2⟩] ⟨1⟩ ⟨1⟩ rfl
      (by decide +kernel)
  · exact hrefused (staleRun.take 3) (.release ⟨1⟩ ⟨2⟩) [] ⟨1⟩ ⟨2⟩ rfl (by decide +kernel)

end Stale

end GpuMemoryService.MemoryGovernor
