/-
GpuMemoryService.GovernorPressure — pressure verdicts over whole runs.

The verdict is computed in doubles, from the rounded quotient of two
rounded integers. Rounding keeps order, so for a managed capacity and
watermarks in order every comparison is one of bytes: `byteMarks` are the
least numbers of committed bytes that reach the watermarks. Over every run
the verdicts are those of the classification in bytes, applied to the
committed bytes at the queries and to the verdict of the query before
(`verdicts_in_bytes`).

The low and high mark form a band with hysteresis. Each time the verdict
rises to HIGH or CRITICAL, the distance of the two marks has been handed out
again: `rises_paid` bounds the number of rises by the bytes handed out.
-/
import GpuMemoryService.Lib.Binary64Order
import GpuMemoryService.Lib.Hysteresis
import GpuMemoryService.GovernorLedger
import GpuMemoryService.GovernorQueries

namespace GpuMemoryService

open Lib

/-! ## Watermarks in bytes -/

section Bytes

variable {m : UInt64} {mark : Binary64}

/-- The utilization, as the double `evaluate_pressure` computes. -/
def utilization (m : UInt64) (bytes : ℕ) : Binary64 :=
  (Binary64.ofUInt64 (UInt64.ofNat bytes)).div (Binary64.ofUInt64 m)

/-- The least number of bytes that reach the mark, or one above the
capacity. -/
def leastReaching (m : UInt64) (mark : Binary64) : ℕ :=
  Nat.find (p := fun bytes => mark.le (utilization m bytes) = true ∨ m.toNat < bytes)
    ⟨m.toNat + 1, .inr (Nat.lt_succ_self _)⟩

theorem utilization_mono (hm : m ≠ 0) {a b : ℕ} (hab : a ≤ b) (hb : b ≤ m.toNat) :
    (utilization m a).le (utilization m b) = true := by
  have hfits := m.toNat_lt
  refine Binary64.div_ofUInt64_mono hm ?_
  rw [UInt64.toNat_ofNat', UInt64.toNat_ofNat', Nat.mod_eq_of_lt (by omega),
    Nat.mod_eq_of_lt (by omega)]
  exact hab

/-- Reaching a mark is a matter of bytes. -/
theorem reaches_iff (hm : m ≠ 0) {bytes : ℕ} (hbytes : bytes ≤ m.toNat) :
    mark.le (utilization m bytes) = decide (leastReaching m mark ≤ bytes) := by
  rw [Bool.eq_iff_iff, decide_eq_true_eq]
  constructor
  · intro h
    exact Nat.find_min' _ (.inl h)
  · intro h
    rcases Nat.find_spec (p := fun bytes => mark.le (utilization m bytes) = true ∨ m.toNat < bytes)
      ⟨m.toNat + 1, .inr (Nat.lt_succ_self _)⟩ with hreached | hbeyond
    · exact Binary64.le_trans' hreached (utilization_mono hm h hbytes)
    · have hleast : m.toNat < leastReaching m mark := hbeyond
      omega

/-- A smaller mark is reached no later. -/
theorem leastReaching_mono {mark' : Binary64} (h : mark.le mark' = true) :
    leastReaching m mark ≤ leastReaching m mark' := by
  refine Nat.find_min' _ ?_
  rcases Nat.find_spec (p := fun bytes => mark'.le (utilization m bytes) = true ∨ m.toNat < bytes)
    ⟨m.toNat + 1, .inr (Nat.lt_succ_self _)⟩ with hreached | hbeyond
  · exact .inl (Binary64.le_trans' h hreached)
  · exact .inr hbeyond

/-- The whole capacity reaches every mark up to 1.0. -/
theorem leastReaching_le (hm : m ≠ 0) (h : mark.le one = true) : leastReaching m mark ≤ m.toNat := by
  refine Nat.find_min' _ (.inl ?_)
  have hone : Binary64.round false 1 = one := by decide +kernel
  rw [utilization, UInt64.ofNat_toNat, Binary64.div_ofUInt64_self hm, hone]
  exact h

theorem utilization_ne_nan (hm : m ≠ 0) (bytes : ℕ) : (utilization m bytes).value ≠ .nan := by
  rw [utilization, (Binary64.div_ofUInt64 _ hm).2]
  exact Binary64.value_round_ne_nan _ _

end Bytes

/-- The watermarks in bytes of the managed capacity. -/
def byteMarks (m : UInt64) (w : WatermarkConfig) : Marks ℕ where
  low := leastReaching m w.low
  high := leastReaching m w.high
  critical := leastReaching m w.critical

/-- The classification of a number of bytes, by comparisons of integers. -/
def classifyBytes (m : UInt64) (w : WatermarkConfig) (last : PressureState) (bytes : ℕ) :
    PressureState :=
  classifyBy (fun a b => decide (a < b)) (fun a b => decide (a ≤ b))
    (fun _ => leastReaching m (w.low.mul half)) (byteMarks m w) last bytes

section Classification

variable {m : UInt64} {w : WatermarkConfig}

/-- What `valid` checks, as far as the classification needs it. -/
structure WatermarkConfig.Ordered (w : WatermarkConfig) : Prop where
  low : ∃ q, w.low.value = .finite q
  low_le : w.low.le w.high = true
  high_le : w.high.le w.critical = true
  critical_le : w.critical.le one = true

theorem WatermarkConfig.ordered_of_valid (h : w.valid = true) : w.Ordered := by
  unfold valid Binary64.isNaN Binary64.isInf at h
  simp only [Bool.and_eq_true, Bool.not_eq_true'] at h
  refine ⟨?_, by simp_all, by simp_all, by simp_all⟩
  cases hv : w.low.value with
  | nan => simp [hv] at h
  | infinite s => simp [hv] at h
  | finite q => exact ⟨q, rfl⟩

theorem byteMarks_ordered (hm : m ≠ 0) (h : w.Ordered) :
    (byteMarks m w).low ≤ (byteMarks m w).high ∧
      (byteMarks m w).high ≤ (byteMarks m w).critical ∧ (byteMarks m w).critical ≤ m.toNat :=
  ⟨leastReaching_mono h.low_le, leastReaching_mono h.high_le, leastReaching_le hm h.critical_le⟩

/-- Staying below a number is not reaching it. -/
theorem below_iff_bytes (hm : m ≠ 0) {mark : Binary64} (hmark : mark.value ≠ .nan) {bytes : ℕ}
    (hbytes : bytes ≤ m.toNat) :
    (utilization m bytes).lt mark = decide (bytes < leastReaching m mark) := by
  rw [Binary64.lt_eq_not_le (utilization_ne_nan hm bytes) hmark, reaches_iff hm hbytes,
    Bool.eq_iff_iff]
  simp

/-- **The verdict in doubles is the verdict in bytes.** -/
theorem evaluatePressure_bytes (ev : PressureEvidence) (hm : ev.managedCapacity ≠ 0)
    (h : ev.watermarks.Ordered) (hfit : ev.committed.toNat ≤ ev.managedCapacity.toNat)
    (last : PressureState) : evaluatePressure ev last
      = classifyBytes ev.managedCapacity ev.watermarks last ev.committed.toNat := by
  obtain ⟨q, hq⟩ := h.low
  have hlow : ev.watermarks.low.value ≠ .nan := by rw [hq]; exact nofun
  have hhalf : (ev.watermarks.low.mul half).value ≠ .nan := by
    have hvalue : half.value = .finite (1 / 2) := by decide +kernel
    simp only [Binary64.mul, hq, hvalue]
    exact Binary64.value_round_ne_nan _ _
  have hutil : (Binary64.ofUInt64 ev.committed).div (Binary64.ofUInt64 ev.managedCapacity)
      = utilization ev.managedCapacity ev.committed.toNat := by
    rw [utilization, UInt64.ofNat_toNat]
  unfold evaluatePressure
  rw [if_neg (by simpa using hm)]
  simp only [hutil]
  rw [classifyPressure_eq]
  simp only [classifyBytes, classifyBy, byteMarks, reaches_iff hm hfit,
    below_iff_bytes hm hlow hfit, below_iff_bytes hm hhalf hfit]
  rfl

end Classification

/-! ## Verdicts in the log -/

namespace MemoryGovernor

/-- The verdict a reply carries. -/
def Reply.verdict? : Reply → Option PressureState
  | .pressure p => some p
  | .summary s => some s.pressure
  | .explanation e => some e.summary.pressure
  | _ => none

/-- The verdict the next one is based on: a restore drops the last one. -/
def note (last : PressureState) : Event → PressureState
  | (.restore _, _) => .revalidationRequired
  | (_, reply) => reply.verdict?.getD last

/-- The last verdict of a log. -/
def lastVerdict (start : PressureState) (t : List Event) : PressureState := t.foldl note start

/-- How often the verdict rises to HIGH or CRITICAL. -/
def rises (last : PressureState) : List Event → ℕ
  | [] => 0
  | e :: t => (if held (note last e) && !held last then 1 else 0) + rises (note last e) t

/-- The bytes of a handle handed out, by a request or a relocation. -/
def Reply.handed : Reply → ℕ
  | .handle (.ok h) => h.size.toNat
  | _ => 0

def handedBytes (t : List Event) : ℕ := (t.map (·.2.handed)).sum

section Log

variable {g g' : MemoryGovernor} {c : Call} {reply : Reply}

theorem lastVerdict_concat (start : PressureState) (t : List Event) (e : Event) :
    lastVerdict start (t ++ [e]) = note (lastVerdict start t) e := by
  simp [lastVerdict]

theorem rises_concat (start : PressureState) (t : List Event) (e : Event) :
    rises start (t ++ [e]) = rises start t +
      if held (note (lastVerdict start t) e) && !held (lastVerdict start t) then 1 else 0 := by
  induction t generalizing start with
  | nil => simp [rises, lastVerdict]
  | cons a t ih =>
      rw [List.cons_append, rises, rises, ih, Nat.add_assoc]
      rfl

/-- Capacity, watermarks and last verdict of the domain. -/
def standing (g : MemoryGovernor) : UInt64 × WatermarkConfig × PressureState :=
  (g.domain.managedCapacity, g.domain.watermarks, g.domain.pressure)

theorem chargeDomain_standing (d : MemoryDomain) (mv : Movability) (n : UInt64) :
    (chargeDomain d mv n).managedCapacity = d.managedCapacity ∧
      (chargeDomain d mv n).watermarks = d.watermarks ∧
      (chargeDomain d mv n).pressure = d.pressure := by
  unfold chargeDomain
  dsimp only
  split
  · simp
  · split <;> simp

theorem dischargeDomain_standing (d : MemoryDomain) (rel : AllocationRecord) :
    (dischargeDomain d rel).managedCapacity = d.managedCapacity ∧
      (dischargeDomain d rel).watermarks = d.watermarks ∧
      (dischargeDomain d rel).pressure = d.pressure := by
  unfold dischargeDomain
  dsimp only
  split
  · simp
  · split <;> simp

theorem request_standing (g : MemoryGovernor) (req : AllocationRequest) :
    (g.request req).2.standing = g.standing := by
  unfold request
  extract_lets vf regionSize
  split
  · rfl
  split
  · rfl
  split
  · rfl
  dsimp only [nextId]
  split
  · rfl
  · simp [standing, grant, chargeDomain_standing]

theorem releaseForWorker_standing (g : MemoryGovernor) (id : AllocationId)
    (gen : AllocationGeneration) (w : WorkerBootId) (s : SourceBootId) :
    (g.releaseForWorker id gen w s).2.standing = g.standing := by
  unfold releaseForWorker
  split
  · split
    · split <;> rfl
    · rfl
  iterate 5
    split
    · rfl
  split
  · rfl
  · simp [standing, retire, dischargeDomain_standing]

theorem pin_standing (g : MemoryGovernor) (id : AllocationId) (gen : AllocationGeneration) :
    (g.pin id gen).2.standing = g.standing := by
  unfold pin
  split
  · rfl
  split <;> rfl

theorem unpin_standing (g : MemoryGovernor) (id : AllocationId) (gen : AllocationGeneration) :
    (g.unpin id gen).2.standing = g.standing := by
  unfold unpin
  split
  · rfl
  split
  · rfl
  · simp only [standing, recordUnpin]
    split <;> rfl

theorem applyRelocation_standing (g : MemoryGovernor) (id : AllocationId)
    (gen : AllocationGeneration) (o n : UInt64) :
    (g.applyRelocation id gen o n).2.standing = g.standing := by
  unfold applyRelocation
  split
  · rfl
  split
  · rfl
  split <;> rfl

theorem initializeArena_standing (g : MemoryGovernor) (answer : Except String UInt64) :
    (g.initializeArena answer).2.standing = g.standing := by
  rcases g.initializeArena_cases answer with ⟨_, heq⟩ | ⟨⟨f, heq⟩, _⟩ | ⟨_, _, _, _, _, heq⟩
  · rw [heq]
  · rw [heq]
  · rw [heq]
    rfl

/-- **One call** other than a restore leaves capacity and watermarks alone,
and notes its verdict if it has one. -/
theorem perform_standing (g : MemoryGovernor) (hc : ∀ s, c ≠ .restore s) :
    (g.perform c).2.standing = (g.domain.managedCapacity, g.domain.watermarks,
      note g.domain.pressure (c, (g.perform c).1)) := by
  cases c with
  | initializeArena answer => exact initializeArena_standing g answer
  | request req => exact request_standing g req
  | release id gen => exact releaseForWorker_standing g id gen {} {}
  | releaseForWorker id gen w s => exact releaseForWorker_standing g id gen w s
  | pin id gen => exact pin_standing g id gen
  | unpin id gen => exact unpin_standing g id gen
  | applyRelocation id gen o n => exact applyRelocation_standing g id gen o n
  | restore s => exact absurd rfl (hc s)
  | _ => rfl

/-- The last verdict of the log is the one the domain keeps. -/
theorem run_lastVerdict (domain : MemoryDomain) (hasBackend : Bool) (calls : List Call) :
    (run perform (new domain hasBackend) calls).domain.pressure
      = lastVerdict domain.pressure (trace perform (new domain hasBackend) calls) := by
  refine trace_of_step (s := new domain hasBackend)
    (P := fun t g => g.domain.pressure = lastVerdict domain.pressure t) rfl (fun t g c ih => ?_) calls
  rw [lastVerdict_concat, ← ih]
  by_cases hc : ∀ s, c ≠ .restore s
  · exact congrArg (·.2.2) (perform_standing g hc)
  · obtain ⟨s, rfl⟩ := not_forall_not.mp hc
    rfl

end Log

/-! ## Whole runs -/

/-- The calls that ask for a verdict. -/
def Call.asks : Call → Bool
  | .pressure => true
  | .summary => true
  | .explain => true
  | _ => false

section Runs

variable {g g' : MemoryGovernor} {c : Call} {reply : Reply}

theorem Inv.committed_le (h : Inv g) (hcap : g.domain.managedCapacity ≠ 0) :
    g.arena.liveBytes.toNat ≤ g.domain.managedCapacity.toNat := by
  have hpos : 0 < g.domain.managedCapacity.toNat :=
    Nat.pos_of_ne_zero (fun hz => hcap (UInt64.toNat_inj.mp hz))
  rw [← h.capacity]
  exact (h.arena hpos).liveBytes_le

/-- The verdict of a query, in bytes. -/
theorem verdict_bytes (h : Inv g) (hcap : g.domain.managedCapacity ≠ 0)
    (hmarks : g.domain.watermarks.Ordered) (hc : c.asks = true) :
    (g.perform c).1.verdict? = some (classifyBytes g.domain.managedCapacity g.domain.watermarks
      g.domain.pressure g.arena.liveBytes.toNat) := by
  have hverdict : g.pressure.1 = classifyBytes g.domain.managedCapacity g.domain.watermarks
      g.domain.pressure g.arena.liveBytes.toNat := by
    have hcommitted : g.evidence.committed = g.arena.liveBytes :=
      RegionAllocator.ensureSummary_liveBytes _
    have heq := evaluatePressure_bytes g.evidence hcap hmarks
      (by rw [hcommitted]; exact h.committed_le hcap) g.domain.pressure
    rw [pressure_eq, heq, hcommitted]
    rfl
  rw [← hverdict]
  cases c with
  | pressure => rfl
  | summary => rfl
  | explain => rfl
  | _ => cases hc

/-- **Verdicts in bytes.** After every run, restores included, the verdict
of the next query is the classification of the committed bytes by marks in
bytes, with the verdict of the query before. -/
theorem verdicts_in_bytes (domain : MemoryDomain) (hasBackend : Bool) (calls : List Call)
    (query : Call) (hquery : query.asks = true)
    (hcap : (run perform (new domain hasBackend) calls).domain.managedCapacity ≠ 0)
    (hvalid : (run perform (new domain hasBackend) calls).domain.watermarks.valid = true) :
    let g := run perform (new domain hasBackend) calls
    let marks := byteMarks g.domain.managedCapacity g.domain.watermarks
    marks.low ≤ marks.high ∧ marks.high ≤ marks.critical ∧
      marks.critical ≤ g.domain.managedCapacity.toNat ∧
    (g.perform query).1.verdict? = some (classifyBytes g.domain.managedCapacity g.domain.watermarks
      (lastVerdict domain.pressure (trace perform (new domain hasBackend) calls))
      g.arena.liveBytes.toNat) := by
  intro g marks
  have hmarks := WatermarkConfig.ordered_of_valid hvalid
  obtain ⟨hlow, hhigh, hcritical⟩ := byteMarks_ordered hcap hmarks
  refine ⟨hlow, hhigh, hcritical, ?_⟩
  rw [← run_lastVerdict]
  exact verdict_bytes (run_inv (inv_new domain hasBackend) calls) hcap hmarks hquery

/-- Pressure rises at 928 of 1024 bytes and is still up at 800. -/
def pressedRun : List Call :=
  [.initializeArena (.ok 4096), .request { bytes := 928, alignment := 16 }, .pressure,
   .release ⟨1⟩ ⟨1⟩, .request { bytes := 800, alignment := 16 }]

def pressed : MemoryGovernor := run perform (new { managedCapacity := 1024 } true) pressedRun

theorem pressed_verdict :
    (pressed.perform .summary).1.verdict? = some .high ∧
    classifyBytes 1024 {} (lastVerdict .unknown
      (trace perform (new { managedCapacity := 1024 } true) pressedRun)) 800 = .high := by
  have hcap : pressed.domain.managedCapacity = 1024 := by decide +kernel
  have hwatermarks : pressed.domain.watermarks = {} := by decide +kernel
  have hbytes : pressed.arena.liveBytes.toNat = 800 := by decide +kernel
  have hhigh : (pressed.perform .summary).1.verdict? = some .high := by decide +kernel
  obtain ⟨_, _, _, hspec⟩ := verdicts_in_bytes { managedCapacity := 1024 } true pressedRun .summary
    rfl (by decide +kernel) (by decide +kernel)
  rw [← pressed, hcap, hwatermarks, hbytes, hhigh] at hspec
  exact ⟨hhigh, (Option.some.inj hspec).symm⟩

/-- The committed bytes grow by what is handed out, at most. -/
theorem Step.committed_le (h : Inv g) (hs : Step g c reply g') (hc : ∀ s, c ≠ .restore s) :
    g'.arena.liveBytes.toNat ≤ g.arena.liveBytes.toNat + reply.handed := by
  cases hs with
  | quiet hq _ _ =>
      have hsame : g'.arena.liveBytes = g.arena.liveBytes := by
        rcases hq.arena with ha | ha <;> simp [ha]
      rw [hsame]
      exact Nat.le_add_right _ _
  | granted hready hp =>
      have hbytes := hp.effect.toNat_liveBytes (h.arena (h.pos_of_ready hready))
      exact hbytes.le
  | released _ hcur _ _ _ he =>
      have hbytes := he.toNat_liveBytes (h.current hcur.found).2.1
      simp only [Option.elim] at hbytes
      show _ ≤ g.arena.liveBytes.toNat + 0
      simp only [retire]
      omega
  | pinned hcur he =>
      have hbytes := he.toNat_liveBytes (h.current hcur.found).2.1
      exact (Nat.add_right_cancel hbytes).le
  | unpinned hcur _ he =>
      have hbytes := he.toNat_liveBytes (h.current hcur.found).2.1
      exact (Nat.add_right_cancel hbytes).le
  | moved hcur _ _ he =>
      have hbytes := he.toNat_liveBytes (h.current hcur.found).2.1
      exact (Nat.le_add_right _ _).trans hbytes.le
  | restored s => exact absurd rfl (hc s)

/-- Whether a verdict is held up depends on the band between the low and
the high mark. -/
theorem held_classifyBytes {m : UInt64} {w : WatermarkConfig} (hm : m ≠ 0) (hw : w.Ordered)
    (last : PressureState) (bytes : ℕ) : held (classifyBytes m w last bytes)
      = Band.look ⟨(byteMarks m w).low, (byteMarks m w).high⟩ (held last) bytes := by
  obtain ⟨hlow, hhigh, _⟩ := byteMarks_ordered hm hw
  unfold classifyBytes classifyBy Band.look
  cases hl : held last with
  | true =>
      unfold held at hl
      rw [if_pos hl, if_pos rfl]
      by_cases h1 : bytes < (byteMarks m w).low
      · have h2 : ¬ (byteMarks m w).low ≤ bytes := by omega
        simp only [h1, h2, decide_true, if_true, decide_false]
        split <;> rfl
      · have h2 : (byteMarks m w).low ≤ bytes := by omega
        simp only [h1, h2, decide_true, decide_false, Bool.false_eq_true, if_false]
        split
        · rfl
        · split <;> rfl
  | false =>
      unfold held at hl
      simp only [hl, Bool.false_eq_true, if_false, decide_eq_true_eq]
      by_cases h1 : (byteMarks m w).high ≤ bytes
      · simp only [h1, decide_true, if_true]
        split <;> rfl
      · have h2 : ¬ (byteMarks m w).critical ≤ bytes := by omega
        simp only [h1, h2, decide_false, if_false]
        split
        · rfl
        · split <;> rfl

/-- What the log and the governor show of the pressure. -/
def gauge (start : PressureState) (t : List Event) (g : MemoryGovernor) : Gauge where
  level := g.arena.liveBytes.toNat
  up := held g.domain.pressure
  rises := rises start t
  grown := handedBytes t

theorem note_of_verdict {last p : PressureState} (hc : c.asks = true)
    (hp : reply.verdict? = some p) : note last (c, reply) = p := by
  cases c with
  | restore s => cases hc
  | _ => simp [note, hp]

theorem note_of_not_asks (g : MemoryGovernor) (last : PressureState) (hask : c.asks = false)
    (hc : ∀ s, c ≠ .restore s) : note last (c, (g.perform c).1) = last := by
  cases c with
  | pressure => cases hask
  | summary => cases hask
  | explain => cases hask
  | restore s => exact absurd rfl (hc s)
  | _ => rfl

/-- A query hands out nothing and commits nothing. -/
theorem asks_quiet (g : MemoryGovernor) (hask : c.asks = true) :
    (g.perform c).1.handed = 0 ∧ (g.perform c).2.arena = g.arena.ensureSummary := by
  cases c with
  | pressure => exact ⟨rfl, rfl⟩
  | summary => exact ⟨rfl, rfl⟩
  | explain => exact ⟨rfl, rfl⟩
  | _ => cases hask

/-- **One call** is a step of the gauge: a query looks at the level, and
another call moves it. -/
theorem perform_gauge {start : PressureState} {t : List Event} (h : Inv g)
    (hcap : g.domain.managedCapacity ≠ 0) (hmarks : g.domain.watermarks.Ordered)
    (hlast : g.domain.pressure = lastVerdict start t) (hc : ∀ s, c ≠ .restore s) :
    let marks := byteMarks g.domain.managedCapacity g.domain.watermarks
    Gauge.Step ⟨marks.low, marks.high⟩ (gauge start t g)
      (gauge start (t ++ [(c, (g.perform c).1)]) (g.perform c).2) := by
  intro marks
  have hpressure : (g.perform c).2.domain.pressure = note g.domain.pressure (c, (g.perform c).1) :=
    congrArg (·.2.2) (perform_standing g hc)
  have hhanded : handedBytes (t ++ [(c, (g.perform c).1)])
      = handedBytes t + (g.perform c).1.handed := by simp [handedBytes]
  have hrises := rises_concat start t (c, (g.perform c).1)
  rw [← hlast] at hrises
  cases hask : c.asks with
  | true =>
      have hnote : note g.domain.pressure (c, (g.perform c).1) = _ :=
        note_of_verdict hask (verdict_bytes h hcap hmarks hask)
      obtain ⟨hzero, harena⟩ := asks_quiet g hask
      have hup := held_classifyBytes hcap hmarks g.domain.pressure g.arena.liveBytes.toNat
      have heq : gauge start (t ++ [(c, (g.perform c).1)]) (g.perform c).2
          = { gauge start t g with
              up := Band.look ⟨marks.low, marks.high⟩ (held g.domain.pressure)
                g.arena.liveBytes.toNat
              rises := rises start t + if Band.look ⟨marks.low, marks.high⟩
                (held g.domain.pressure) g.arena.liveBytes.toNat && !held g.domain.pressure
                then 1 else 0 } := by
        rw [gauge, harena, hhanded, hzero, hrises, hpressure, hnote, hup,
          RegionAllocator.ensureSummary_liveBytes]
        rfl
      rw [heq]
      exact .looked
  | false =>
      have hnote := note_of_not_asks g g.domain.pressure hask hc
      have hmoves := (perform_step h c).committed_le h hc
      have heq : gauge start (t ++ [(c, (g.perform c).1)]) (g.perform c).2
          = { gauge start t g with
              level := (g.perform c).2.arena.liveBytes.toNat
              grown := handedBytes t + (g.perform c).1.handed } := by
        rw [gauge, hhanded, hrises, hpressure, hnote]
        simp [gauge]
      rw [heq]
      exact .moved hmoves

/-- **Rises are paid for.** In every run without a restore, each time the
verdict rises to HIGH or CRITICAL the distance between the high and the low
mark has been handed out once more. -/
theorem rises_paid (domain : MemoryDomain) (hasBackend : Bool) (calls : List Call)
    (hcap : domain.managedCapacity ≠ 0) (hvalid : domain.watermarks.valid = true)
    (hcalls : ∀ c ∈ calls, ∀ s, c ≠ .restore s) :
    let marks := byteMarks domain.managedCapacity domain.watermarks
    let t := trace perform (new domain hasBackend) calls
    rises domain.pressure t * (marks.high - marks.low) ≤ handedBytes t := by
  intro marks t
  have hmarks := WatermarkConfig.ordered_of_valid hvalid
  have hguard : Guarded perform (fun _ c => ∀ s, c ≠ Call.restore s) (new domain hasBackend) calls :=
    guarded_of_forall_mem (fun c hc _ => hcalls c hc)
  have hpaid := hguard.trace_inv (P := fun t g => Inv g ∧
      g.standing = (domain.managedCapacity, domain.watermarks, lastVerdict domain.pressure t) ∧
      Gauge.Paid ⟨marks.low, marks.high⟩ (gauge domain.pressure t g)) ?_ ?_
  · exact hpaid.2.2.rises_le
  · refine ⟨inv_new domain hasBackend, rfl, ?_⟩
    constructor
    · intro _
      simp [gauge, rises]
    · intro _
      simp [gauge, rises, new, RegionAllocator.new]
  · rintro t g c ⟨hinv, hstanding, hp⟩ hc
    simp only [standing, Prod.mk.injEq] at hstanding
    obtain ⟨hm, hw, hlast⟩ := hstanding
    refine ⟨(perform_step hinv c).inv hinv, ?_, ?_⟩
    · rw [perform_standing g hc, hm, hw, hlast, lastVerdict_concat]
    · have hs := perform_gauge hinv (by rw [hm]; exact hcap) (by rw [hw]; exact hmarks) hlast hc
      rw [hm, hw] at hs
      exact hs.paid hp

/-- Two rises, and in between nothing is committed. -/
def twoRises : List Call :=
  [.initializeArena (.ok 4096), .request { bytes := 928, alignment := 16 }, .pressure,
   .release ⟨1⟩ ⟨1⟩, .summary, .request { bytes := 928, alignment := 16 }, .explain]

theorem twoRises_paid :
    let marks := byteMarks 1024 {}
    rises .unknown (trace perform (new { managedCapacity := 1024 } true) twoRises) = 2 ∧
      2 * (marks.high - marks.low) ≤ 2 * 928 := by
  intro marks
  have hrises : rises .unknown (trace perform (new { managedCapacity := 1024 } true) twoRises) = 2 := by
    decide +kernel
  have hhanded : handedBytes (trace perform (new { managedCapacity := 1024 } true) twoRises)
      = 2 * 928 := by decide +kernel
  have hpaid := rises_paid { managedCapacity := 1024 } true twoRises (by decide) (by decide +kernel)
    (by intro c hc s; simp only [twoRises, List.mem_cons, List.not_mem_nil, or_false] at hc
        rcases hc with rfl | rfl | rfl | rfl | rfl | rfl | rfl <;> exact nofun)
  refine ⟨hrises, ?_⟩
  rw [← hhanded, ← hrises]
  exact hpaid

end Runs

end MemoryGovernor

end GpuMemoryService
