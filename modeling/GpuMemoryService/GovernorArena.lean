/-
GpuMemoryService.GovernorArena — who owns the physical arena.

The arena taken from the backend is remembered in two fields,
`arena_base_` and `initialized_`. `initialize` sets both, the destructor
frees the base when both are set, and `restore` clears `initialized_`
alone: a recovery on a governor that holds an arena forgets it, and the
next `initialize` takes a second one over it.

A life of a governor is a list of `Use`s: the calls, `save`, `load` and
what the backend and the file system answered. `arenas_freed_iff`: every
arena taken is freed exactly once, with at most one held at a time,
exactly when no recovery finds the governor initialized and the backend
never hands out a null base.
-/
import GpuMemoryService.GovernorInvariant
import GpuMemoryService.Persistence

namespace GpuMemoryService

open Lib

/-! ## Files -/

namespace Persist

/-- How reading a file ends: it cannot be opened, breaks off, or gives its
content. -/
inductive FileRead where
  | unopened
  | broken
  | content (b : Bytes)

/-- `read_file`. -/
def readPath : FileRead → Result PersistSnapshot
  | .unopened => fail "cannot open file for read"
  | .broken => fail "read failed"
  | .content b => readFile b

/-- How writing a file ends. -/
inductive FileWrite where
  | unopened
  | broken
  | done

/-- The reply of `write_file`. -/
def writePath : FileWrite → Result Unit
  | .unopened => fail "cannot open file for write"
  | .broken => fail "write failed"
  | .done => .ok ()

end Persist

namespace MemoryGovernor

/-! ## Uses of a governor -/

/-- `save`: the snapshot goes to a file, the governor stays as it is. -/
def save (g : MemoryGovernor) (file : Persist.FileWrite) : Result Unit × MemoryGovernor :=
  (Persist.writePath file, g)

def load (g : MemoryGovernor) (file : Persist.FileRead) : Result Unit × MemoryGovernor :=
  match Persist.readPath file with
  | .error f => (.error f, g)
  | .ok s => g.restore s

/-- The destructor: the bases it passes to `free_arena`. -/
def destroy (g : MemoryGovernor) : List UInt64 :=
  if g.hasBackend && g.arenaBase != 0 && g.initialized then [g.arenaBase] else []

inductive Use where
  | call (c : Call)
  | save (file : Persist.FileWrite)
  | load (file : Persist.FileRead)

/-- The base a use takes from the backend: `allocate_arena` is reached only
by an `initialize` that passes its three checks. -/
def arenaTaken (g : MemoryGovernor) : Use → Option UInt64
  | .call (.initializeArena (.ok base)) =>
      if g.initialized || !g.hasBackend || g.domain.managedCapacity == 0 then none else some base
  | _ => none

/-- One use, with the base it takes. -/
def use (g : MemoryGovernor) (u : Use) : Option UInt64 × MemoryGovernor :=
  (g.arenaTaken u,
    match u with
    | .call c => (g.perform c).2
    | .save file => (g.save file).2
    | .load file => (g.load file).2)

/-- The bases a life has taken from the backend, oldest first. -/
def taken (t : List (Use × Option UInt64)) : List UInt64 := t.filterMap (·.2)

/-- The use is a recovery: a restore, or a load whose file is accepted. -/
def recovers : Use → Bool
  | .call (.restore _) => true
  | .load file => (Persist.readPath file).isOk
  | _ => false

/-- What keeps the arena owned: no recovery while initialized, and no null
base from the backend. -/
def KeepsArena (g : MemoryGovernor) (u : Use) : Prop :=
  (recovers u = true → g.initialized = false) ∧ g.arenaTaken u ≠ some 0

/-! ## One use -/

section OneUse

variable {g : MemoryGovernor}

/-- The three fields the destructor reads. -/
def ownership (g : MemoryGovernor) : Bool × UInt64 × Bool :=
  (g.hasBackend, g.arenaBase, g.initialized)

theorem request_ownership (g : MemoryGovernor) (req : AllocationRequest) :
    (g.request req).2.ownership = g.ownership := by
  unfold request
  extract_lets vf regionSize
  split
  · rfl
  split
  · rfl
  split
  · rfl
  dsimp only [nextId]
  split <;> rfl

theorem releaseForWorker_ownership (g : MemoryGovernor) (id : AllocationId)
    (gen : AllocationGeneration) (w : WorkerBootId) (s : SourceBootId) :
    (g.releaseForWorker id gen w s).2.ownership = g.ownership := by
  unfold releaseForWorker
  split
  · split
    · split <;> rfl
    · rfl
  split
  · rfl
  split
  · rfl
  split
  · rfl
  split
  · rfl
  split
  · rfl
  split <;> rfl

theorem pin_ownership (g : MemoryGovernor) (id : AllocationId) (gen : AllocationGeneration) :
    (g.pin id gen).2.ownership = g.ownership := by
  unfold pin
  split
  · rfl
  split <;> rfl

theorem unpin_ownership (g : MemoryGovernor) (id : AllocationId) (gen : AllocationGeneration) :
    (g.unpin id gen).2.ownership = g.ownership := by
  unfold unpin
  split
  · rfl
  split <;> rfl

theorem applyRelocation_ownership (g : MemoryGovernor) (id : AllocationId)
    (gen : AllocationGeneration) (o n : UInt64) :
    (g.applyRelocation id gen o n).2.ownership = g.ownership := by
  unfold applyRelocation
  split
  · rfl
  split
  · rfl
  split <;> rfl

/-- **Every use** takes an arena when none is held, forgets the arena, or
leaves the ownership alone. -/
theorem use_cases (g : MemoryGovernor) (u : Use) :
    (∃ base, (g.use u).1 = some base ∧ recovers u = false ∧ g.initialized = false ∧
      (g.use u).2.ownership = (true, base, true)) ∨
    ((g.use u).1 = none ∧ recovers u = true ∧
      (g.use u).2.ownership = (g.hasBackend, g.arenaBase, false)) ∨
    ((g.use u).1 = none ∧ recovers u = false ∧ (g.use u).2.ownership = g.ownership) := by
  have hkeep : g.arenaTaken u = none → recovers u = false →
      (g.use u).2.ownership = g.ownership →
      (∃ base, (g.use u).1 = some base ∧ recovers u = false ∧ g.initialized = false ∧
        (g.use u).2.ownership = (true, base, true)) ∨
      ((g.use u).1 = none ∧ recovers u = true ∧
        (g.use u).2.ownership = (g.hasBackend, g.arenaBase, false)) ∨
      ((g.use u).1 = none ∧ recovers u = false ∧ (g.use u).2.ownership = g.ownership) :=
    fun h1 h2 h3 => Or.inr (Or.inr ⟨h1, h2, h3⟩)
  cases u with
  | save file => exact hkeep rfl rfl rfl
  | load file =>
      cases hread : Persist.readPath file with
      | error f =>
          refine hkeep rfl (by simp [recovers, hread, Except.isOk, Except.toBool]) ?_
          simp only [use, load, hread]
      | ok s =>
          refine Or.inr (Or.inl ⟨rfl, by simp [recovers, hread, Except.isOk, Except.toBool], ?_⟩)
          simp only [use, load, hread]
          rfl
  | call c =>
      cases c with
      | initializeArena answer =>
          rcases g.initializeArena_cases answer with
            ⟨hready, heq⟩ | ⟨⟨f, heq⟩, hwhy⟩ | ⟨base, rfl, hready, hbackend, hcap, heq⟩
          · refine hkeep ?_ rfl ?_
            · cases answer <;> simp [arenaTaken, hready]
            · simp only [use, perform, heq]
          · refine hkeep ?_ rfl ?_
            · cases answer with
              | error err => rfl
              | ok base => rcases hwhy base rfl with h | h <;> simp [arenaTaken, h]
            · simp only [use, perform, heq]
          · refine Or.inl ⟨base, ?_, rfl, hready, ?_⟩
            · simp [use, arenaTaken, hready, hbackend, hcap]
            · simp [use, perform, heq, ownership, withArena, hbackend]
      | request req => exact hkeep rfl rfl (request_ownership g req)
      | release id gen =>
          exact hkeep rfl rfl (releaseForWorker_ownership g id gen {} {})
      | releaseForWorker id gen w s =>
          exact hkeep rfl rfl (releaseForWorker_ownership g id gen w s)
      | pin id gen => exact hkeep rfl rfl (pin_ownership g id gen)
      | unpin id gen => exact hkeep rfl rfl (unpin_ownership g id gen)
      | applyRelocation id gen o n =>
          exact hkeep rfl rfl (applyRelocation_ownership g id gen o n)
      | restore s => exact Or.inr (Or.inl ⟨rfl, rfl, rfl⟩)
      | get id gen => exact hkeep rfl rfl rfl
      | summary => exact hkeep rfl rfl rfl
      | pressure => exact hkeep rfl rfl rfl
      | allocations => exact hkeep rfl rfl rfl
      | reclaimCandidates max => exact hkeep rfl rfl rfl
      | planCompaction => exact hkeep rfl rfl rfl
      | regionSize id => exact hkeep rfl rfl rfl
      | explain => exact hkeep rfl rfl rfl
      | snapshot => exact hkeep rfl rfl rfl

end OneUse

/-! ## Arenas over a life -/

section Life

variable {g : MemoryGovernor} {t : List (Use × Option UInt64)}

/-- Every arena taken will be freed by the destructor, and nothing else. -/
def Owned (t : List (Use × Option UInt64)) (g : MemoryGovernor) : Prop := taken t = g.destroy

/-- Some arena taken will not be freed. -/
def Leaked (t : List (Use × Option UInt64)) (g : MemoryGovernor) : Prop :=
  g.destroy.length < (taken t).length

/-- An initialized governor has a backend and has taken an arena. -/
def Backed (t : List (Use × Option UInt64)) (g : MemoryGovernor) : Prop :=
  g.initialized = true → g.hasBackend = true ∧ taken t ≠ []

theorem taken_concat (t : List (Use × Option UInt64)) (u : Use) (base? : Option UInt64) :
    taken (t ++ [(u, base?)]) = taken t ++ base?.toList := by
  cases base? <;> simp [taken]

theorem destroy_eq {backend ready : Bool} {base : UInt64}
    (h : g.ownership = (backend, base, ready)) :
    g.destroy = if backend && base != 0 && ready then [base] else [] := by
  simp only [ownership, Prod.mk.injEq] at h
  obtain ⟨rfl, rfl, rfl⟩ := h
  rfl

theorem destroy_of_idle (h : g.initialized = false) : g.destroy = [] := by
  simp [destroy, h]

theorem length_destroy_le (g : MemoryGovernor) : g.destroy.length ≤ 1 := by
  unfold destroy
  split <;> simp

theorem destroy_congr {g' : MemoryGovernor} (h : g'.ownership = g.ownership) :
    g'.destroy = g.destroy := destroy_eq h

theorem Backed.use (h : Backed t g) (u : Use) : Backed (t ++ [(u, (g.use u).1)]) (g.use u).2 := by
  intro hready
  rw [taken_concat]
  rcases use_cases g u with ⟨base, hbase, _, _, hown⟩ | ⟨_, _, hown⟩ | ⟨hnone, _, hown⟩
  · simp only [ownership, Prod.mk.injEq] at hown
    exact ⟨hown.1, by simp [hbase]⟩
  · simp only [ownership, Prod.mk.injEq] at hown
    rw [hown.2.2] at hready
    cases hready
  · simp only [ownership, Prod.mk.injEq] at hown
    rw [hown.2.2] at hready
    obtain ⟨hbackend, htaken⟩ := h hready
    exact ⟨hown.1.trans hbackend, by simpa [hnone] using htaken⟩

/-- A use that keeps the arena keeps everything owned. -/
theorem Owned.use (h : Owned t g) {u : Use} (hk : KeepsArena g u) :
    Owned (t ++ [(u, (g.use u).1)]) (g.use u).2 := by
  unfold Owned at h ⊢
  rw [taken_concat, h]
  rcases use_cases g u with ⟨base, hbase, _, hidle, hown⟩ | ⟨hnone, hrec, hown⟩ | ⟨hnone, _, hown⟩
  · have hne : base ≠ 0 := fun hzero => hk.2 (hzero ▸ hbase)
    rw [hbase, destroy_of_idle hidle, destroy_eq hown]
    simp [hne]
  · rw [hnone, destroy_of_idle (hk.1 hrec), destroy_eq hown]
    simp
  · rw [hnone, destroy_congr hown]
    simp

/-- A use that does not keep the arena leaks one. -/
theorem Backed.leaks (hb : Backed t g) {u : Use} (hk : ¬ KeepsArena g u) :
    Leaked (t ++ [(u, (g.use u).1)]) (g.use u).2 := by
  unfold Leaked
  rw [taken_concat]
  rcases use_cases g u with ⟨base, hbase, hrec, _, hown⟩ | ⟨hnone, _, hown⟩ | ⟨hnone, hrec, _⟩
  · have hzero : base = 0 := by
      by_contra hne
      refine hk ⟨fun hr => (by rw [hrec] at hr; cases hr), fun h0 => hne ?_⟩
      have : (g.use u).1 = some 0 := h0
      rw [hbase] at this
      exact Option.some.inj this
    rw [hbase, destroy_eq hown, hzero]
    simp
  · have hready : g.initialized = true := by
      by_contra hidle
      refine hk ⟨fun _ => by simpa using hidle, fun h0 => ?_⟩
      have : (g.use u).1 = some 0 := h0
      rw [hnone] at this
      cases this
    rw [hnone, destroy_eq hown]
    simpa using List.length_pos_iff.mpr (hb hready).2
  · refine absurd ⟨fun hr => ?_, fun h0 => ?_⟩ hk
    · rw [hrec] at hr; cases hr
    · have : (g.use u).1 = some 0 := h0
      rw [hnone] at this
      cases this

/-- A leak is never made good. -/
theorem Leaked.use (h : Leaked t g) (u : Use) : Leaked (t ++ [(u, (g.use u).1)]) (g.use u).2 := by
  unfold Leaked at h ⊢
  rw [taken_concat, List.length_append]
  rcases use_cases g u with ⟨base, hbase, _, hidle, _⟩ | ⟨_, _, hown⟩ | ⟨_, _, hown⟩
  · have hle := length_destroy_le (g.use u).2
    rw [destroy_of_idle hidle] at h
    rw [hbase]
    simp only [List.length_nil, Option.toList_some, List.length_singleton] at h ⊢
    omega
  · rw [destroy_eq hown]
    simp only [Bool.and_false, Bool.false_eq_true, if_false, List.length_nil]
    omega
  · rw [destroy_congr hown]
    omega

/-- A life whose uses all keep the arena ends with everything owned; any
other life has leaked. -/
theorem owned_or_leaked (domain : MemoryDomain) (hasBackend : Bool) (uses : List Use) :
    let t := trace MemoryGovernor.use (new domain hasBackend) uses
    let g := run MemoryGovernor.use (new domain hasBackend) uses
    Backed t g ∧
      (Guarded MemoryGovernor.use KeepsArena (new domain hasBackend) uses ∧ Owned t g ∨
        ¬ Guarded MemoryGovernor.use KeepsArena (new domain hasBackend) uses ∧ Leaked t g) := by
  induction uses using List.reverseRecOn with
  | nil =>
      refine ⟨fun h => (by cases h), Or.inl ⟨trivial, ?_⟩⟩
      simp [Owned, taken, destroy, new]
  | append_singleton uses u ih =>
      obtain ⟨hbacked, hcases⟩ := ih
      simp only [trace_concat, run_concat, guarded_concat]
      refine ⟨hbacked.use u, ?_⟩
      rcases hcases with ⟨hguard, howned⟩ | ⟨hnot, hleaked⟩
      · by_cases hk : KeepsArena (run MemoryGovernor.use (new domain hasBackend) uses) u
        · exact Or.inl ⟨⟨hguard, hk⟩, howned.use hk⟩
        · exact Or.inr ⟨fun h => hk h.2, hbacked.leaks hk⟩
      · exact Or.inr ⟨fun h => hnot h.1, hleaked.use u⟩

/-- By the end of the destructor each arena taken has been freed once, and
along the way at most one is held; nothing frees one before the
destructor. -/
structure ArenasFreed (domain : MemoryDomain) (hasBackend : Bool) (uses : List Use) : Prop where
  freed : (run MemoryGovernor.use (new domain hasBackend) uses).destroy.Perm
    (taken (trace MemoryGovernor.use (new domain hasBackend) uses))
  single : ∀ pre, pre <+: uses →
    (taken (trace MemoryGovernor.use (new domain hasBackend) pre)).length ≤ 1

/-- **The arena is freed exactly once** in exactly the lives in which every
use keeps it. -/
theorem arenas_freed_iff (domain : MemoryDomain) (hasBackend : Bool) (uses : List Use) :
    ArenasFreed domain hasBackend uses ↔
      Guarded MemoryGovernor.use KeepsArena (new domain hasBackend) uses := by
  constructor
  · intro h
    rcases (owned_or_leaked domain hasBackend uses).2 with ⟨hguard, _⟩ | ⟨_, hleaked⟩
    · exact hguard
    · have hlen := h.freed.length_eq
      unfold Leaked at hleaked
      omega
  · intro hguard
    have howned : ∀ pre, pre <+: uses →
        Owned (trace MemoryGovernor.use (new domain hasBackend) pre)
          (run MemoryGovernor.use (new domain hasBackend) pre) := by
      rintro pre ⟨post, rfl⟩
      rcases (owned_or_leaked domain hasBackend pre).2 with ⟨_, howned⟩ | ⟨hnot, _⟩
      · exact howned
      · exact absurd (guarded_append.mp hguard).1 hnot
    refine ⟨?_, fun pre hpre => ?_⟩
    · rw [← howned uses (List.prefix_refl _)]
    · rw [howned pre hpre]
      exact length_destroy_le _

/-- A recovery on a governor that holds an arena, and a second start. -/
def recoveryWhileHeld : List Use :=
  [.call (.initializeArena (.ok 4096)),
   .call (.restore { domain := { managedCapacity := 100 }, nextAllocId := 1 }),
   .call (.initializeArena (.ok 8192))]

/-- The first arena is lost: two are held at once and the destructor frees
the second only. -/
theorem recoveryWhileHeld_leaks :
    taken (trace MemoryGovernor.use (new { managedCapacity := 100 } true) recoveryWhileHeld)
      = [4096, 8192] ∧
    (run MemoryGovernor.use (new { managedCapacity := 100 } true) recoveryWhileHeld).destroy
      = [8192] ∧
    ¬ ArenasFreed { managedCapacity := 100 } true recoveryWhileHeld := by
  refine ⟨by decide +kernel, by decide +kernel, fun h => ?_⟩
  have hlen := h.freed.length_eq
  revert hlen
  decide +kernel

end Life

end MemoryGovernor

end GpuMemoryService
