/-
GpuMemoryService.GovernorVerdicts — pressure verdicts before there is an
arena.

`pressure.hpp` says that UNKNOWN never silently becomes NORMAL, and that a
caller without evidence gets UNKNOWN back. Until `initialize` has succeeded
nothing is allocated, and the evidence is 0 committed bytes.
`evaluate_pressure` takes these for a utilization of 0.0 unless the
capacity is 0 and does not look whether the prior verdict was UNKNOWN, so
the verdict before `initialize` is what the watermarks make of 0.0
(`pressure_unready`). `withheld_iff` says exactly when that is neither LOW
nor NORMAL.
-/
import GpuMemoryService.Lib.Binary64Integers
import GpuMemoryService.GovernorQueries
import GpuMemoryService.GovernorArena

namespace GpuMemoryService.MemoryGovernor

open Lib

/-! ## Readiness -/

/-- What one call and its reply make of it. -/
def readyAfter (ready : Bool) : Call × Reply → Bool
  | (.initializeArena _, .done (.ok _)) => true
  | (.restore _, _) => false
  | _ => ready

/-- `initialize` has succeeded since the start of the run or the last
`restore`. -/
def ready (t : List (Call × Reply)) : Bool := t.foldl readyAfter false

section Ready

variable {g : MemoryGovernor}

theorem initialized_of_ownership {g g' : MemoryGovernor} (h : g'.ownership = g.ownership) :
    g'.initialized = g.initialized := congrArg (·.2.2) h

/-- **One call** and the flag of the governor. -/
theorem initialized_perform (g : MemoryGovernor) (c : Call) :
    (g.perform c).2.initialized = readyAfter g.initialized (c, (g.perform c).1) := by
  cases c with
  | initializeArena answer =>
      rcases g.initializeArena_cases answer with ⟨hready, heq⟩ | ⟨⟨f, heq⟩, _⟩ | ⟨_, _, _, _, _, heq⟩
      · simp only [perform, heq, readyAfter, hready]
      · simp only [perform, heq, readyAfter]
      · simp only [perform, heq, readyAfter]
        rfl
  | request req => exact initialized_of_ownership (request_ownership g req)
  | release id gen => exact initialized_of_ownership (releaseForWorker_ownership g id gen {} {})
  | releaseForWorker id gen w s =>
      exact initialized_of_ownership (releaseForWorker_ownership g id gen w s)
  | pin id gen => exact initialized_of_ownership (pin_ownership g id gen)
  | unpin id gen => exact initialized_of_ownership (unpin_ownership g id gen)
  | applyRelocation id gen o n =>
      exact initialized_of_ownership (applyRelocation_ownership g id gen o n)
  | _ => rfl

/-- Without an initialized arena nothing is allocated. -/
def Unstarted (g : MemoryGovernor) : Prop :=
  g.initialized = false → g.records = .empty ∧ g.arena.liveBytes = 0

theorem perform_unstarted (h : Inv g) (hu : Unstarted g) (c : Call) :
    Unstarted (g.perform c).2 := by
  intro hready
  rw [initialized_perform] at hready
  have hs := perform_step h c
  generalize hreply : (g.perform c).1 = reply at hs hready
  generalize (g.perform c).2 = g' at hs
  -- a call on a live handle was made on an initialized governor
  have hno : ∀ {id gen rec region}, g.Current id gen rec region → g.initialized = true := by
    intro id gen rec region hcur
    by_contra hne
    have hfound := hcur.found
    rw [(hu (by simpa using hne)).1] at hfound
    simp at hfound
  cases hs with
  | quiet hq hm hid =>
      have hstart : g.initialized = false := by
        unfold readyAfter at hready
        split at hready
        · cases hready
        · rename_i heq
          cases heq
          simp [mutates] at hm
        · exact hready
      obtain ⟨hrec, hbytes⟩ := hu hstart
      refine ⟨hq.records.trans hrec, ?_⟩
      rcases hq.arena with ha | ha <;> simp [ha, hbytes]
  | granted hstart _ =>
      rw [show readyAfter g.initialized _ = g.initialized from rfl, hstart] at hready
      cases hready
  | released hc hcur _ _ _ _ =>
      rcases hc with rfl | ⟨_, _, rfl⟩ <;>
      · rw [show readyAfter g.initialized _ = g.initialized from rfl, hno hcur] at hready
        cases hready
  | pinned hcur _ =>
      rw [show readyAfter g.initialized _ = g.initialized from rfl, hno hcur] at hready
      cases hready
  | unpinned hcur _ _ =>
      rw [show readyAfter g.initialized _ = g.initialized from rfl, hno hcur] at hready
      cases hready
  | moved hcur _ _ _ =>
      rw [show readyAfter g.initialized _ = g.initialized from rfl, hno hcur] at hready
      cases hready
  | restored s => exact ⟨rfl, rfl⟩

/-- **Every run**: the flag is what the calls and replies say, and nothing
is allocated without it. -/
theorem run_ready (domain : MemoryDomain) (hasBackend : Bool) (calls : List Call) :
    ready (trace perform (new domain hasBackend) calls) =
        (run perform (new domain hasBackend) calls).initialized ∧
      Unstarted (run perform (new domain hasBackend) calls) := by
  have h := trace_of_step (P := fun t g => Inv g ∧ ready t = g.initialized ∧ Unstarted g)
    ⟨inv_new domain hasBackend, rfl, fun _ => ⟨rfl, rfl⟩⟩ (fun t g c hg => by
      refine ⟨(perform_step hg.1 c).inv hg.1, ?_, perform_unstarted hg.1 hg.2.2 c⟩
      rw [initialized_perform, ready, List.foldl_append, ← ready, hg.2.1]
      rfl) calls
  exact h.2

end Ready

/-! ## Verdicts -/

/-- The verdict before there is an arena is neither LOW nor NORMAL: the
capacity is 0, or 0.0 is not below the low watermark when the prior verdict
is held up, and at or above the critical or the high one when it is not. -/
def withheld (d : MemoryDomain) : Bool :=
  d.managedCapacity == 0 ||
    if held d.pressure then !(Binary64.zero false).lt d.watermarks.low
    else d.watermarks.critical.le (.zero false) || d.watermarks.high.le (.zero false)

section Verdicts

variable {g : MemoryGovernor}

theorem pressure_unready (h : g.arena.liveBytes = 0) (hcap : g.domain.managedCapacity ≠ 0) :
    g.pressure.1 = classifyPressure (.zero false) g.domain.watermarks g.domain.pressure := by
  have hcommitted : g.evidence.committed = 0 := by simp [evidence, h]
  have hmanaged : g.evidence.managedCapacity = g.domain.managedCapacity := rfl
  rw [pressure_eq, evaluatePressure, hcommitted, hmanaged,
    if_neg (by simpa using hcap), Binary64.zero_div_ofUInt64 hcap]
  rfl

/-- What the classification withholds. -/
theorem classifyPressure_withheld (u : Binary64) (w : WatermarkConfig) (last : PressureState) :
    (classifyPressure u w last ≠ .low ∧ classifyPressure u w last ≠ .normal) ↔
      (if held last then !u.lt w.low else w.critical.le u || w.high.le u) = true := by
  unfold classifyPressure held
  generalize (last == .high || last == .critical || last == .reclaiming) = up
  generalize u.lt w.low = low
  generalize w.low.le u = fromLow
  generalize u.lt (w.low.mul half) = belowHalf
  generalize w.critical.le u = critical
  generalize w.high.le u = high
  revert up low fromLow belowHalf critical high
  decide

/-- **No verdict without evidence, when.** At every point of every run at
which `initialize` has not succeeded since construction or the last
`restore`: `pressure()` and `summary().pressure` are neither LOW nor NORMAL
exactly if `withheld` holds of the domain. -/
theorem withheld_iff (domain : MemoryDomain) (hasBackend : Bool) (calls : List Call)
    (hunready : ready (trace perform (new domain hasBackend) calls) = false) :
    let g := run perform (new domain hasBackend) calls
    ((g.pressure.1 ≠ .low ∧ g.pressure.1 ≠ .normal) ∧
      (g.summary.1.pressure ≠ .low ∧ g.summary.1.pressure ≠ .normal)) ↔
      withheld g.domain = true := by
  intro g
  obtain ⟨hready, hu⟩ := run_ready domain hasBackend calls
  rw [hunready] at hready
  have hbytes : g.arena.liveBytes = 0 := (hu hready.symm).2
  have hsummary : g.summary.1.pressure = g.pressure.1 := rfl
  rw [hsummary, and_self]
  unfold withheld
  by_cases hcap : g.domain.managedCapacity = 0
  · have hunknown : g.pressure.1 = .unknown := by
      have hmanaged : g.evidence.managedCapacity = 0 := hcap
      rw [pressure_eq, evaluatePressure, hmanaged]
      rfl
    rw [hunknown, hcap]
    simp
  · have hne : (g.domain.managedCapacity == 0) = false := by simpa using hcap
    rw [pressure_unready hbytes hcap, hne, Bool.false_or]
    exact classifyPressure_withheld _ _ _

/-- A recovery into a domain of 1024 bytes whose low and high watermarks are
0, and a first look at it. -/
def recoveredAtZero : List Call :=
  [.initializeArena (.ok 4096),
   .request { bytes := 8 },
   .restore
     { domain :=
         { managedCapacity := 1024, watermarks := { low := .zero false, high := .zero false } }
       nextAllocId := 2 },
   .summary]

/-- There 0 committed bytes are HIGH, and stay so. -/
theorem withheld_iff_recoveredAtZero :
    let g := run perform (new { managedCapacity := 512 } true) recoveredAtZero
    g.domain.managedCapacity = 1024 ∧ g.domain.watermarks.valid = true ∧
      g.domain.pressure = .high ∧ g.pressure.1 ≠ .low ∧ g.summary.1.pressure ≠ .normal := by
  intro g
  have hunready : ready
      (trace perform (new { managedCapacity := 512 } true) recoveredAtZero) = false := by
    decide +kernel
  obtain ⟨hpressure, hsummary⟩ := (withheld_iff { managedCapacity := 512 } true recoveredAtZero
    hunready).mpr (by decide +kernel)
  refine ⟨?_, ?_, ?_, hpressure.1, hsummary.2⟩
  all_goals decide +kernel

/-- A governor of 100 bytes says LOW before it has an arena, and again after
a recovery that has set REVALIDATION_REQUIRED. -/
theorem unready_low :
    let g := new { managedCapacity := 100 } true
    let h := run perform g [.initializeArena (.ok 4096), .restore g.snapshot]
    (ready (trace perform g []) = false ∧ g.domain.pressure = .unknown ∧ g.pressure.1 = .low) ∧
      (ready (trace perform g [.initializeArena (.ok 4096), .restore g.snapshot]) = false ∧
        h.domain.pressure = .revalidationRequired ∧ h.summary.1.pressure = .low) := by
  decide +kernel

end Verdicts

end GpuMemoryService.MemoryGovernor
