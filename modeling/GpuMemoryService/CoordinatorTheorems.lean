/-
GpuMemoryService.CoordinatorTheorems — boots over whole runs of the
coordinator.

`releases_stay_with_granter`: a RELEASE goes to the registered worker,
which is the one that answered the latest ALLOCATE of that id, with the
generation of that ALLOCATE. The argument is indirect: the boot a
controller sends is not looked at, but entries carry the boot of the
worker that answered, no entry has boot 0, and without a worker the boot
is 0 (`Accounted`).

`fenced_iff`: entries of a worker that was replaced or has failed are to
be no longer current. Only the handler of ALLOCATE fences; a new
registration and a failed answer to a RELEASE do not.
-/
import Mathlib.Data.List.Nodup
import GpuMemoryService.CoordinatorRounds
import GpuMemoryService.Worker

namespace GpuMemoryService.Coordinator

open Lib Mp

/-! ## Grants and registrations in a history -/

/-- An answered ALLOCATE: its generation, and the worker and boot it was
performed under. -/
structure Grant where
  gen : UInt64
  boot : UInt64
  conn : Option Conn
deriving DecidableEq, Repr

/-- The grant of an event, with its id. -/
def grantOf (x : Event × Coordinator × List Out) : Option (UInt64 × Grant) :=
  match x.2.1.forwarded x.1 with
  | some (.allocate id gen _, answer) =>
      (typed .allocateResult answer).map (fun _ => (id, ⟨gen, x.2.1.workerBoot, x.2.1.worker⟩))
  | _ => none

/-- The grant of the latest answered ALLOCATE of `id`. -/
def latestGrant (t : History) (id : UInt64) : Option Grant :=
  ((t.filterMap grantOf).reverse.find? (fun g => g.1 == id)).map (·.2)

/-- The workers registered so far, with their boots. -/
def registrations (t : History) : List (Conn × UInt64) :=
  t.filterMap (fun x => x.2.1.registers x.1)

section Histories

variable {t : History} {c : Coordinator} {e : Event} {out : List Out}

theorem latestGrant_concat (x : Event × Coordinator × List Out) (id : UInt64) :
    latestGrant (t ++ [x]) id =
      match grantOf x with
      | some (i, g) => if i = id then some g else latestGrant t id
      | none => latestGrant t id := by
  unfold latestGrant
  rw [List.filterMap_append, List.reverse_append]
  cases hg : grantOf x with
  | none => simp [hg]
  | some ig =>
      obtain ⟨i, g⟩ := ig
      by_cases hi : i = id
      · simp [hg, hi]
      · simp [hg, hi]

theorem grantOf_none (h : ∀ id gen bytes answer,
    c.forwarded e ≠ some (.allocate id gen bytes, answer)) : grantOf (e, c, out) = none := by
  unfold grantOf
  split
  · rename_i heq
    exact absurd heq (h _ _ _ _)
  · rfl

theorem mem_registrations_concat {r : Conn × UInt64} (x : Event × Coordinator × List Out) :
    r ∈ registrations (t ++ [x]) ↔ r ∈ registrations t ∨ x.2.1.registers x.1 = some r := by
  unfold registrations
  rw [List.filterMap_append, List.mem_append, List.mem_filterMap (l := [x])]
  simp

end Histories

/-! ## Releases stay with the worker that granted -/

section Releases

variable {t : History} {c : Coordinator}

/-- What ties the table, the socket and the boot to the history. -/
structure Accounted (t : History) (c : Coordinator) : Prop where
  idle : c.worker = none → c.workerBoot = 0
  known : ∀ w, c.worker = some w → (w, c.workerBoot) ∈ registrations t
  boots : ∀ id a, c.gAlloc.find? id = some a → a.boot ≠ 0
  grants : ∀ id a, c.gAlloc.find? id = some a →
    ∃ w, latestGrant t id = some ⟨a.gen, a.boot, some w⟩ ∧ (w, a.boot) ∈ registrations t

/-- An event that is no grant keeps the account of the entries it leaves
with their generation and boot. -/
theorem Accounted.entries (h : Accounted t c) (c' : Coordinator)
    {x : Event × Coordinator × List Out} (hgrant : grantOf x = none)
    (hsub : ∀ id a, c'.gAlloc.find? id = some a →
      ∃ a₀, c.gAlloc.find? id = some a₀ ∧ a₀.gen = a.gen ∧ a₀.boot = a.boot) :
    (∀ id a, c'.gAlloc.find? id = some a → a.boot ≠ 0) ∧
    ∀ id a, c'.gAlloc.find? id = some a →
      ∃ w, latestGrant (t ++ [x]) id = some ⟨a.gen, a.boot, some w⟩ ∧
        (w, a.boot) ∈ registrations (t ++ [x]) := by
  constructor
  · intro id a hf
    obtain ⟨a₀, hf₀, _, hboot⟩ := hsub id a hf
    rw [← hboot]
    exact h.boots id a₀ hf₀
  · intro id a hf
    obtain ⟨a₀, hf₀, hgen, hboot⟩ := hsub id a hf
    obtain ⟨w, hlatest, hreg⟩ := h.grants id a₀ hf₀
    refine ⟨w, ?_, (mem_registrations_concat x).mpr (Or.inl (hboot ▸ hreg))⟩
    rw [latestGrant_concat, hgrant, ← hgen, ← hboot]
    exact hlatest

/-- **One step** keeps the account. -/
theorem accounted_step (h : Accounted t c) (e : Event) :
    Accounted (t ++ [(e, (c.watch e).1)]) (c.watch e).2 := by
  have hround := step_round c e
  show Accounted (t ++ [(e, c, (c.step e).1)]) (c.step e).2
  generalize c.step e = r at hround ⊢
  obtain ⟨out, c'⟩ := r
  dsimp only at hround ⊢
  have hold : ∀ {r : Conn × UInt64}, r ∈ registrations t →
      r ∈ registrations (t ++ [(e, c, out)]) :=
    fun hr => (mem_registrations_concat _).mpr (Or.inl hr)
  cases hround with
  | quiet hreg hfwd hout hsame =>
      have hgrant : grantOf (e, c, out) = none := grantOf_none (by simp [hfwd])
      obtain ⟨hboots, hgrants⟩ := h.entries c' hgrant
        (fun id a hf => ⟨a, by rwa [← hsame.gAlloc], rfl, rfl⟩)
      refine ⟨?_, ?_, hboots, hgrants⟩
      · rw [hsame.worker, hsame.workerBoot]
        exact h.idle
      · rw [hsame.worker, hsame.workerBoot]
        exact fun w hw => hold (h.known w hw)
  | @registered conn boot hreg hfwd hout =>
      have hgrant : grantOf (e, c, out) = none := grantOf_none (by simp [hfwd])
      obtain ⟨hboots, hgrants⟩ := h.entries { c with worker := some conn, workerBoot := boot }
        hgrant (fun id a hf => ⟨a, hf, rfl, rfl⟩)
      refine ⟨fun hw => (by cases hw), fun w hw => ?_, hboots, hgrants⟩
      cases hw
      exact (mem_registrations_concat _).mpr (Or.inr hreg)
  | @granted id gen bytes answer res hreg hfwd hworker hboot hres hout =>
      obtain ⟨w, hw⟩ := Option.ne_none_iff_exists'.mp hworker
      have hgrant : grantOf (e, c, out) = some (id, ⟨gen, c.workerBoot, some w⟩) := by
        simp [grantOf, hfwd, hres, hw]
      refine ⟨h.idle, fun w hw => hold (h.known w hw), ?_, ?_⟩
      · intro i a hf
        rcases OrdMap.find?_insert_some_iff.mp hf with ⟨_, rfl⟩ | ⟨_, hf⟩
        · exact hboot
        · exact h.boots i a hf
      · intro i a hf
        rw [latestGrant_concat, hgrant]
        rcases OrdMap.find?_insert_some_iff.mp hf with ⟨rfl, rfl⟩ | ⟨hne, hf⟩
        · exact ⟨w, by simp, hold (h.known w hw)⟩
        · obtain ⟨w', hlatest, hreg'⟩ := h.grants i a hf
          exact ⟨w', by simpa [Ne.symm hne] using hlatest, hold hreg'⟩
  | @dead id gen bytes answer hreg hfwd hres hout =>
      have hgrant : grantOf (e, c, out) = none := by simp [grantOf, hfwd, hres]
      obtain ⟨hboots, hgrants⟩ := h.entries
        { c with gAlloc := c.gAlloc.mapValues (fence c.workerBoot), worker := none, workerBoot := 0 }
        hgrant (fun i a hf => by
          simp only [OrdMap.find?_mapValues, Option.map_eq_some_iff] at hf
          obtain ⟨a₀, hf₀, rfl⟩ := hf
          refine ⟨a₀, hf₀, ?_⟩
          unfold fence
          split <;> exact ⟨rfl, rfl⟩)
      exact ⟨fun _ => rfl, fun w hw => (by cases hw), hboots, hgrants⟩
  | released hreg hfwd hfound hgen hboot hout =>
      have hgrant : grantOf (e, c, out) = none := grantOf_none (by simp [hfwd])
      obtain ⟨hboots, hgrants⟩ := h.entries c hgrant (fun id a hf => ⟨a, hf, rfl, rfl⟩)
      exact ⟨h.idle, fun w hw => hold (h.known w hw), hboots, hgrants⟩

theorem run_accounted (events : List Event) :
    Accounted (trace watch {} events) (run watch {} events) :=
  trace_of_step (P := Accounted)
    ⟨fun _ => rfl, fun w hw => (by cases hw), fun id a hf => by simp at hf,
      fun id a hf => by simp at hf⟩
    (fun _ _ e h => accounted_step h e) events

/-- **No release crosses a worker boot.** Every RELEASE the coordinator
sends goes to the registered worker, whose boot is not 0 and which answered
the latest ALLOCATE of that id, with the same generation; and a worker frees
on a RELEASE only what it obtained itself for an ALLOCATE of that id and
generation. -/
theorem releases_stay_with_granter (events : List Event)
    (hdistinct : ((registrations (trace watch {} events)).map (·.2)).Nodup) :
    (∀ e dest payload,
      Out.send dest .release payload ∈ ((run watch {} events).step e).1 →
        ∃ w id gen boot, payload = triple id gen boot ∧ dest = some w ∧
          (run watch {} events).worker = some w ∧ (run watch {} events).workerBoot ≠ 0 ∧
          latestGrant (trace watch {} events) id
            = some ⟨gen, (run watch {} events).workerBoot, some w⟩) ∧
    (∀ (inputs : List Worker.Input) (i : Worker.Input) (f : Frame) (ptr : UInt64),
      i.frame = some f → f.type = .release →
      ptr ∈ ((run Worker.step {} inputs).step i).1.freed →
        ((readTriple f.payload).1, (readTriple f.payload).2.1, ptr)
          ∈ (trace Worker.step {} inputs).filterMap Worker.obtains) := by
  refine ⟨fun e dest payload hmem => ?_,
    fun inputs i f ptr hframe htype hfreed => Worker.freed_was_obtained inputs i hframe htype hfreed⟩
  have h := run_accounted events
  generalize run watch {} events = c at h hmem ⊢
  generalize trace watch {} events = t at h hdistinct ⊢
  have hround := step_round c e
  generalize c.step e = r at hround hmem
  obtain ⟨out, c'⟩ := r
  dsimp only at hround hmem
  cases hround with
  | quiet _ _ hout _ => exact absurd hmem (hout dest payload)
  | registered _ _ hout => exact absurd hmem (hout dest payload)
  | granted _ _ _ _ _ hout => exact absurd hmem (hout dest payload)
  | dead _ _ _ hout => exact absurd hmem (hout dest payload)
  | @released id gen boot answer a _ _ hfound hgen hboot hout =>
      obtain ⟨rfl, rfl⟩ := hout dest payload hmem
      have hne : c.workerBoot ≠ 0 := by
        rw [← hboot]
        exact h.boots id a hfound
      obtain ⟨w, hw⟩ : ∃ w, c.worker = some w :=
        Option.ne_none_iff_exists'.mp (fun hnone => hne (h.idle hnone))
      obtain ⟨w', hlatest, hreg⟩ := h.grants id a hfound
      rw [hboot] at hreg hlatest
      -- two registrations with one boot are one registration
      have hsame : (w', c.workerBoot) = (w, c.workerBoot) :=
        List.inj_on_of_nodup_map hdistinct hreg (h.known w hw) rfl
      refine ⟨w, id, gen, boot, rfl, hw, hw, hne, ?_⟩
      rw [hlatest, hgen, (Prod.mk.inj hsame).1]

end Releases

/-- A worker connects with a boot. -/
def workerJoins (conn : Conn) (boot : UInt64) : Event :=
  .accept
    { conn
      hello := some ⟨.hello, [2]⟩
      reg := some ⟨.register, appendU64 (appendU64 (appendStr [] (ascii "w")) boot) 1⟩
      cap := some ⟨.publishCapacity, []⟩ }

def controllerJoins (conn : Conn) : Event := .accept { conn, hello := some ⟨.hello, [1]⟩ }

/-- An ALLOCATE that the worker answers with `status`. -/
def allocates (id gen bytes : UInt64) (status : UInt32) : Event :=
  .request (some ⟨.allocate, triple id gen bytes⟩)
    (some ⟨.allocateResult, resultPayload id gen status []⟩)

/-- A RELEASE that the worker answers with success. -/
def releases (id gen boot : UInt64) : Event :=
  .request (some ⟨.release, triple id gen boot⟩)
    (some ⟨.releaseResult, resultPayload id gen 0 []⟩)

/-- Two workers, the second of boot 9 in the place of the first of boot 7,
and an ALLOCATE of id 5 at each. -/
def twoWorkers : List Event :=
  [workerJoins 1 7, controllerJoins 2, allocates 5 1 4096 0, workerJoins 3 9, allocates 5 2 64 0]

theorem releases_stay_with_granter_twoWorkers :
    ((registrations (trace watch {} twoWorkers)).map (·.2)).Nodup ∧
    ((run watch {} twoWorkers).step (releases 5 1 7)).1
      = [.send (some 2) .releaseResult (resultPayload 5 1 0xFFFFFFFF (ascii "stale or unknown"))] ∧
    Out.send (some 3) .release (triple 5 2 9) ∈ ((run watch {} twoWorkers).step (releases 5 2 9)).1 ∧
    ∃ w id gen boot, triple 5 2 9 = triple id gen boot ∧ some 3 = some w ∧
      (run watch {} twoWorkers).worker = some w ∧ (run watch {} twoWorkers).workerBoot ≠ 0 ∧
      latestGrant (trace watch {} twoWorkers) id
        = some ⟨gen, (run watch {} twoWorkers).workerBoot, some w⟩ :=
  ⟨by decide +kernel, by decide +kernel, by decide +kernel,
    (releases_stay_with_granter twoWorkers (by decide +kernel)).1 (releases 5 2 9) (some 3)
      (triple 5 2 9) (by decide +kernel)⟩

/-! ## Fencing -/

/-- The boot of the worker that the event replaces or finds failed. -/
def goneBoot (x : Event × Coordinator × List Out) : Option UInt64 :=
  match x.2.1.registers x.1, x.2.1.forwarded x.1 with
  | some _, _ => x.2.1.worker.map (fun _ => x.2.1.workerBoot)
  | none, some (p, answer) =>
      if (typed (resultType p) answer).isNone then some x.2.1.workerBoot else none
  | none, none => none

/-- The boots of the workers that were replaced or have failed. -/
def gone (t : History) : List UInt64 := t.filterMap goneBoot

/-- No entry of that boot is current. -/
def Idle (c : Coordinator) (boot : UInt64) : Prop :=
  ∀ id a, c.gAlloc.find? id = some a → a.boot = boot → a.current = false

/-- The coordinator without the entries of those boots. -/
def without (c : Coordinator) (boots : List UInt64) : Coordinator :=
  { c with gAlloc := c.gAlloc.restrict (fun a => decide (a.boot ∉ boots)) }

/-- No entry of a worker that is gone is current, and QUERY counts none. -/
def Fenced (t : History) (c : Coordinator) : Prop :=
  (∀ boot ∈ gone t, c.Idle boot) ∧ c.tally = (c.without (gone t)).tally

/-- When an event keeps the workers that are gone fenced: a registration
takes the place of a worker none of whose entries is current; a RELEASE
fails at a worker none of whose entries is current; and an ALLOCATE is
granted by a worker that has not failed before. -/
structure FencingSafe (t : History) (c : Coordinator) (e : Event) : Prop where
  replaced : (c.registers e).isSome → c.worker.isSome → c.Idle c.workerBoot
  released : ∀ id gen boot answer, c.forwarded e = some (.release id gen boot, answer) →
    typed .releaseResult answer = none → c.Idle c.workerBoot
  granted : ∀ id gen bytes answer res, c.forwarded e = some (.allocate id gen bytes, answer) →
    typed .allocateResult answer = some res → (readResult res.payload).1 = 0 →
      c.workerBoot ∉ gone t

section Fencing

variable {t : History} {c : Coordinator}

/-- Entries that are not current do not count. -/
theorem tally_without {boots : List UInt64} (h : ∀ boot ∈ boots, c.Idle boot) :
    c.tally = (c.without boots).tally := by
  unfold tally without OrdMap.restrict
  rw [List.foldl_filter]
  refine List.foldl_ext _ _ _ (fun acc e he => ?_)
  by_cases hmem : e.2.boot ∈ boots
  · have hfound : c.gAlloc.find? e.1 = some e.2 := OrdMap.find?_eq_some_iff.mpr he
    simp [hmem, h _ hmem e.1 e.2 hfound rfl]
  · simp [hmem]

theorem fenced_iff_idle : Fenced t c ↔ ∀ boot ∈ gone t, c.Idle boot :=
  ⟨fun h => h.1, fun h => ⟨h, tally_without h⟩⟩

theorem mem_gone_concat {boot : UInt64} (x : Event × Coordinator × List Out) :
    boot ∈ gone (t ++ [x]) ↔ boot ∈ gone t ∨ goneBoot x = some boot := by
  unfold gone
  rw [List.filterMap_append, List.mem_append, List.mem_filterMap (l := [x])]
  simp

/-- An event that leaves the table keeps the fences exactly when the worker
it drops, if any, has no current entry. -/
theorem fenced_same (h : Fenced t c) {c' : Coordinator} (hsame : c'.gAlloc = c.gAlloc)
    (x : Event × Coordinator × List Out) :
    Fenced (t ++ [x]) c' ↔ ∀ boot, goneBoot x = some boot → c.Idle boot := by
  have hidle : ∀ boot, c'.Idle boot ↔ c.Idle boot := by
    intro boot
    unfold Idle
    rw [hsame]
  rw [fenced_iff_idle]
  constructor
  · intro h' boot hgone
    exact (hidle boot).mp (h' boot ((mem_gone_concat x).mpr (Or.inr hgone)))
  · intro h' boot hmem
    rcases (mem_gone_concat x).mp hmem with hold | hnew
    · exact (hidle boot).mpr (h.1 boot hold)
    · exact (hidle boot).mpr (h' boot hnew)

/-- After the failure of a worker its entries are idle too. -/
theorem idle_of_fence {c' : Coordinator} (hc : c'.gAlloc = c.gAlloc.mapValues (fence c.workerBoot))
    {boot : UInt64} (h : c.Idle boot ∨ c.workerBoot = boot) : c'.Idle boot := by
  intro id a hf hboot
  rw [hc, OrdMap.find?_mapValues, Option.map_eq_some_iff] at hf
  obtain ⟨a₀, hf₀, rfl⟩ := hf
  unfold fence at hboot ⊢
  split at hboot
  · rename_i hfenced
    rw [if_pos hfenced]
  · rename_i hother
    rw [if_neg hother]
    rcases h with hidle | rfl
    · exact hidle id a₀ hf₀ hboot
    · simp [hboot] at hother

/-! What `FencingSafe` asks of each kind of event. -/

variable {e : Event}

theorem fencingSafe_quiet (hreg : c.registers e = none) (hfwd : c.forwarded e = none) :
    FencingSafe t c e :=
  ⟨by simp [hreg], by simp [hfwd], by simp [hfwd]⟩

theorem fencingSafe_registered {r : Conn × UInt64} (hreg : c.registers e = some r)
    (hfwd : c.forwarded e = none) :
    FencingSafe t c e ↔ (c.worker.isSome → c.Idle c.workerBoot) := by
  constructor
  · intro h
    exact h.replaced (by simp [hreg])
  · intro h
    exact ⟨fun _ => h, by simp [hfwd], by simp [hfwd]⟩

theorem fencingSafe_allocate {id gen bytes : UInt64} {answer : Option Frame}
    (hreg : c.registers e = none) (hfwd : c.forwarded e = some (.allocate id gen bytes, answer)) :
    FencingSafe t c e ↔ ∀ res, typed .allocateResult answer = some res →
      (readResult res.payload).1 = 0 → c.workerBoot ∉ gone t := by
  constructor
  · intro h res
    exact h.granted id gen bytes answer res hfwd
  · intro h
    refine ⟨by simp [hreg], by simp [hfwd], ?_⟩
    intro _ _ _ answer' res hfwd'
    obtain ⟨_, rfl⟩ : _ ∧ answer = answer' := by simpa [hfwd] using hfwd'
    exact h res

theorem fencingSafe_release {id gen boot : UInt64} {answer : Option Frame}
    (hreg : c.registers e = none) (hfwd : c.forwarded e = some (.release id gen boot, answer)) :
    FencingSafe t c e ↔ (typed .releaseResult answer = none → c.Idle c.workerBoot) := by
  constructor
  · intro h
    exact h.released id gen boot answer hfwd
  · intro h
    refine ⟨by simp [hreg], ?_, by simp [hfwd]⟩
    intro _ _ _ answer' hfwd'
    obtain ⟨_, rfl⟩ : _ ∧ answer = answer' := by simpa [hfwd] using hfwd'
    exact h

/-- **One step** keeps the fences exactly when it is safe. -/
theorem fenced_step (h : Fenced t c) (e : Event) :
    Fenced (t ++ [(e, (c.watch e).1)]) (c.watch e).2 ↔ FencingSafe t c e := by
  have hround := step_round c e
  show Fenced (t ++ [(e, c, (c.step e).1)]) (c.step e).2 ↔ _
  generalize c.step e = r at hround ⊢
  obtain ⟨out, c'⟩ := r
  dsimp only at hround ⊢
  cases hround with
  | quiet hreg hfwd _ hsame =>
      rw [fenced_same h hsame.gAlloc]
      refine iff_of_true (fun boot hgone => ?_) (fencingSafe_quiet hreg hfwd)
      simp [goneBoot, hreg, hfwd] at hgone
  | registered hreg hfwd _ =>
      have hgone : goneBoot (e, c, out) = c.worker.map (fun _ => c.workerBoot) := by
        simp [goneBoot, hreg]
      rw [fencingSafe_registered hreg hfwd]
      refine (fenced_same h rfl _).trans ?_
      rw [hgone]
      cases c.worker <;> simp
  | @granted id gen bytes answer res hreg hfwd _ _ hres _ =>
      have hgone : goneBoot (e, c, out) = none := by simp [goneBoot, hreg, hfwd, resultType, hres]
      rw [fenced_iff_idle, fencingSafe_allocate hreg hfwd]
      constructor
      · intro hidle res' hres' hok hmem
        obtain rfl : res = res' := by simpa [hres] using hres'
        have hcur := hidle c.workerBoot ((mem_gone_concat _).mpr (Or.inl hmem)) id _
          (OrdMap.find?_insert_self _ _ _) rfl
        simp [hok] at hcur
      · intro hsafe boot hmem i a hf hboot
        have hold : boot ∈ gone t := by simpa [mem_gone_concat, hgone] using hmem
        rcases OrdMap.find?_insert_some_iff.mp hf with ⟨rfl, rfl⟩ | ⟨_, hf⟩
        · refine beq_eq_false_iff_ne.mpr (fun hok => ?_)
          subst hboot
          exact hsafe res hres hok hold
        · exact h.1 boot hold i a hf hboot
  | dead hreg hfwd hres _ =>
      have hgone : goneBoot (e, c, out) = some c.workerBoot := by
        simp [goneBoot, hreg, hfwd, resultType, hres]
      rw [fenced_iff_idle, fencingSafe_allocate hreg hfwd]
      refine iff_of_true (fun boot hmem => idle_of_fence rfl ?_) (by simp [hres])
      rw [mem_gone_concat, hgone, Option.some.injEq] at hmem
      exact hmem.imp (h.1 boot) id
  | @released id gen boot answer a hreg hfwd _ _ _ _ =>
      have hgone : goneBoot (e, c, out) =
          if (typed .releaseResult answer).isNone then some c.workerBoot else none := by
        simp [goneBoot, hreg, hfwd, resultType]
      rw [fenced_same h rfl, fencingSafe_release hreg hfwd, hgone]
      cases typed .releaseResult answer <;> simp

/-- **Workers that are gone are fenced** throughout a run exactly when
every event of it is safe where it comes. -/
theorem fenced_iff (events : List Event) :
    Throughout watch Fenced {} events ↔
      ∀ pre e, pre ++ [e] <+: events →
        FencingSafe (trace watch {} pre) (run watch {} pre) e := by
  refine throughout_iff ?_ (fun pre e h => ?_)
  · exact fenced_iff_idle.mpr (fun boot hmem => by cases hmem)
  · rw [trace_concat, run_concat]
    exact fenced_step h e

end Fencing

/-- A second worker takes the place of one that holds 4096 bytes. -/
def replacement : List Event :=
  [workerJoins 1 7, controllerJoins 2, allocates 5 1 4096 0, workerJoins 3 9]

/-- The bytes of the first worker stay current, and QUERY counts them. -/
theorem replacement_not_fenced :
    registrations (trace watch {} replacement) = [(1, 7), (3, 9)] ∧
    7 ∈ gone (trace watch {} replacement) ∧
    ¬ Fenced (trace watch {} replacement) (run watch {} replacement) ∧
    ((run watch {} replacement).step (.request (some ⟨.query, []⟩) none)).1
      = [.send (some 2) .queryResult (appendU64 (appendU64 [] 4096) 1)] := by
  refine ⟨by decide +kernel, by decide +kernel, fun h => ?_, by decide +kernel⟩
  have hcur := h.1 7 (by decide +kernel) 5 ⟨5, 1, 7, 4096, true⟩ (by decide +kernel) rfl
  cases hcur

end GpuMemoryService.Coordinator
