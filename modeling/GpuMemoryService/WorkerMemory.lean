/-
GpuMemoryService.WorkerMemory — the device memory of a worker.

`outstanding` adds up a history: the pointers obtained from `cudaMalloc` and
not yet given to `cudaFree`. `stored` is what the map of the worker holds.
A worker without a leak keeps the two equal.

`handled` says everything one ALLOCATE or RELEASE can do. Every stored
pointer is outstanding and no two entries share one, so a pointer is freed
only once (`run_kept`). The other inclusion fails exactly where an ALLOCATE
succeeds for an id that is held already: the entry is overwritten and its
pointer is lost (`no_leak_iff`).
-/
import Mathlib.Data.Finset.Option
import Mathlib.Data.Finset.SDiff
import GpuMemoryService.Worker

namespace GpuMemoryService.Worker

open Lib Mp

/-! ## Device memory in a history -/

/-- The pointers obtained and not yet freed. -/
def outstanding (t : List (Input × Turn)) : Finset UInt64 :=
  t.foldl (fun out e => (out ∪ e.2.obtained.toFinset) \ e.2.freed.toFinset) ∅

/-- The pointers in the map. -/
def stored (w : Worker) : Finset UInt64 := (w.allocs.entries.map (·.2.ptr)).toFinset

/-- Every free is of a pointer that is outstanding, and of no pointer twice. -/
def FreedOnce (t : List (Input × Turn)) : Prop :=
  ∀ pre e, pre ++ [e] <+: t → e.2.freed.Nodup ∧ ∀ ptr ∈ e.2.freed, ptr ∈ outstanding pre

/-- An ALLOCATE or a RELEASE comes in. -/
def IsRequest (i : Input) : Prop := ∃ f ∈ i.frame, f.type = .allocate ∨ f.type = .release

instance (i : Input) : Decidable (IsRequest i) :=
  inferInstanceAs (Decidable (∃ f ∈ i.frame, f.type = .allocate ∨ f.type = .release))

/-- The id and the pointer of an ALLOCATE for which `cudaMalloc` succeeds. -/
def grants (i : Input) : Option (UInt64 × UInt64) :=
  match i.frame, i.cuda with
  | some f, .ok ptr => if f.type = .allocate then some ((readTriple f.payload).1, ptr) else none
  | _, _ => none

/-- Requests only, and `cudaMalloc` fails or returns a pointer that is not
outstanding. -/
def Served (inputs : List Input) : Prop :=
  ∀ pre i, pre ++ [i] <+: inputs →
    IsRequest i ∧ ∀ g ∈ grants i, g.2 ∉ outstanding (trace step {} pre)

/-- An ALLOCATE succeeds for an id that is in the map. -/
def Overwrites (w : Worker) (i : Input) : Prop :=
  ∃ g ∈ grants i, (w.allocs.find? g.1).isSome = true

instance (w : Worker) (i : Input) : Decidable (Overwrites w i) :=
  decidable_of_iff ((grants i).any (fun g => (w.allocs.find? g.1).isSome) = true)
    (by cases h : grants i <;> simp [Overwrites, h])

/-- A grant is looked at by evaluating it, not by going through all words. -/
theorem forall_grants {i : Input} {t : List (Input × Turn)}
    (h : (grants i).all (fun g => decide (g.2 ∉ outstanding t)) = true) :
    ∀ g ∈ grants i, g.2 ∉ outstanding t := by
  intro g hg
  rw [Option.mem_def.mp hg, Option.all_some] at h
  exact of_decide_eq_true h

theorem outstanding_concat (t : List (Input × Turn)) (e : Input × Turn) :
    outstanding (t ++ [e]) = (outstanding t ∪ e.2.obtained.toFinset) \ e.2.freed.toFinset := by
  simp only [outstanding, List.foldl_append, List.foldl_cons, List.foldl_nil]

theorem mem_stored {w : Worker} {ptr : UInt64} :
    ptr ∈ stored w ↔ ∃ id a, w.allocs.find? id = some a ∧ a.ptr = ptr := by
  simp [stored, OrdMap.find?_eq_some_iff]

/-! ## One request -/

/-- What a request does to the map and to the device. -/
inductive Handled (w : Worker) (i : Input) : Turn → Worker → Prop
  | refused {turn} (hgrant : grants i = none) (hobtained : turn.obtained = none)
      (hfreed : turn.freed = []) : Handled w i turn w
  | obtained {turn id gen bytes ptr} (hgrant : grants i = some (id, ptr))
      (hobtained : turn.obtained = some ptr) (hfreed : turn.freed = []) :
      Handled w i turn { w with allocs := w.allocs.insert id ⟨gen, bytes, ptr⟩ }
  | freed {turn id a} (hgrant : grants i = none) (hfound : w.allocs.find? id = some a)
      (hobtained : turn.obtained = none) (hfreed : turn.freed = [a.ptr]) :
      Handled w i turn { w with allocs := w.allocs.erase id }

theorem handled {w : Worker} {i : Input} (hrun : w.exited = false) (hreq : IsRequest i) :
    Handled w i (w.step i).1 (w.step i).2 := by
  obtain ⟨f, hmem, hkind⟩ := hreq
  have hframe : i.frame = some f := Option.mem_def.mp hmem
  rcases hread : readTriple f.payload with ⟨id, gen, last⟩
  rw [step, if_neg (by simp [hrun])]
  rcases hkind with htype | htype
  · simp only [hframe, htype, allocate, hread]
    cases hcuda : i.cuda with
    | error e =>
        have hgrant : grants i = none := by simp [grants, hframe, hcuda]
        exact .refused hgrant rfl rfl
    | ok ptr =>
        have hgrant : grants i = some (id, ptr) := by simp [grants, hframe, hcuda, htype, hread]
        exact .obtained hgrant rfl rfl
  · have hgrant : grants i = none := by
      cases hcuda : i.cuda <;> simp [grants, hframe, hcuda, htype]
    simp only [hframe, htype, release, hread]
    cases hfound : w.allocs.find? id with
    | none => exact .refused hgrant rfl rfl
    | some a =>
        by_cases hgen : a.gen = gen
        · simp only [hgen, bne_self_eq_false, Bool.false_eq_true, if_false]
          exact .freed hgrant hfound rfl rfl
        · simp only [bne_iff_ne.mpr hgen, if_true]
          exact .refused hgrant rfl rfl

/-! ## Whole runs -/

/-- What holds whether or not memory leaks: every stored pointer is
outstanding, no two entries share one, and nothing is freed twice. -/
structure Kept (t : List (Input × Turn)) (w : Worker) : Prop where
  running : w.exited = false
  sub : stored w ⊆ outstanding t
  inj : ∀ id a id' a', w.allocs.find? id = some a → w.allocs.find? id' = some a' →
    a.ptr = a'.ptr → id = id'
  once : FreedOnce t

theorem FreedOnce.concat {t : List (Input × Turn)} {e : Input × Turn} (h : FreedOnce t)
    (hnodup : e.2.freed.Nodup) (hout : ∀ ptr ∈ e.2.freed, ptr ∈ outstanding t) :
    FreedOnce (t ++ [e]) := by
  intro pre e' hpre
  rcases List.prefix_concat_iff.mp hpre with heq | hshort
  · obtain ⟨rfl, rfl⟩ := List.append_singleton_inj.mp heq
    exact ⟨hnodup, hout⟩
  · exact h pre e' hshort

section Step

variable {t : List (Input × Turn)} {w w' : Worker} {i : Input} {turn : Turn}

/-- After a free the pointer is stored nowhere. -/
theorem Kept.not_stored (h : Kept t w) {id : UInt64} {a : Alloc}
    (hfound : w.allocs.find? id = some a) :
    stored { w with allocs := w.allocs.erase id } = stored w \ {a.ptr} := by
  ext ptr
  simp only [Finset.mem_sdiff, Finset.mem_singleton, mem_stored]
  constructor
  · rintro ⟨id', a', hf, rfl⟩
    obtain ⟨hne, hf⟩ := OrdMap.find?_erase_some_iff.mp hf
    exact ⟨⟨id', a', hf, rfl⟩, fun heq => hne (h.inj id' a' id a hf hfound heq)⟩
  · rintro ⟨⟨id', a', hf, rfl⟩, hne⟩
    refine ⟨id', a', OrdMap.find?_erase_some_iff.mpr ⟨?_, hf⟩, rfl⟩
    rintro rfl
    rw [hfound] at hf
    cases hf
    exact hne rfl

/-- **One request** keeps the stored pointers outstanding and apart. -/
theorem Kept.step (h : Kept t w) (hh : Handled w i turn w')
    (hfresh : ∀ g ∈ grants i, g.2 ∉ outstanding t) :
    Kept (t ++ [(i, turn)]) w' := by
  cases hh with
  | refused _ hobtained hfreed =>
      refine ⟨h.running, ?_, h.inj, h.once.concat (by simp [hfreed]) (by simp [hfreed])⟩
      rw [outstanding_concat]
      simpa [hobtained, hfreed] using h.sub
  | @obtained id gen bytes ptr hgrant hobtained hfreed =>
      have hnew : ptr ∉ outstanding t := hfresh (id, ptr) hgrant
      refine ⟨h.running, ?_, ?_, h.once.concat (by simp [hfreed]) (by simp [hfreed])⟩
      · rw [outstanding_concat]
        intro p hp
        obtain ⟨id', a', hf, rfl⟩ := mem_stored.mp hp
        rcases OrdMap.find?_insert_some_iff.mp hf with ⟨_, rfl⟩ | ⟨_, hold⟩
        · simp [hobtained, hfreed]
        · have := h.sub (mem_stored.mpr ⟨id', a', hold, rfl⟩)
          simp [hobtained, hfreed, this]
      · -- the new pointer is not outstanding, so no old entry has it
        have hother : ∀ id' a', w.allocs.find? id' = some a' → a'.ptr ≠ ptr :=
          fun id' a' hf heq => hnew (heq ▸ h.sub (mem_stored.mpr ⟨id', a', hf, rfl⟩))
        intro i₁ a₁ i₂ a₂ hf₁ hf₂ heq
        rcases OrdMap.find?_insert_some_iff.mp hf₁ with ⟨rfl, rfl⟩ | ⟨_, hold₁⟩
        · rcases OrdMap.find?_insert_some_iff.mp hf₂ with ⟨rfl, _⟩ | ⟨_, hold₂⟩
          · rfl
          · exact absurd heq.symm (hother i₂ a₂ hold₂)
        · rcases OrdMap.find?_insert_some_iff.mp hf₂ with ⟨_, rfl⟩ | ⟨_, hold₂⟩
          · exact absurd heq (hother i₁ a₁ hold₁)
          · exact h.inj i₁ a₁ i₂ a₂ hold₁ hold₂ heq
  | @freed id a hgrant hfound hobtained hfreed =>
      have hout : a.ptr ∈ outstanding t := h.sub (mem_stored.mpr ⟨id, a, hfound, rfl⟩)
      refine ⟨h.running, ?_, ?_, h.once.concat (by simp [hfreed]) (by simpa [hfreed] using hout)⟩
      · rw [outstanding_concat, h.not_stored hfound]
        rw [hobtained, hfreed, Option.toFinset_none, Finset.union_empty]
        exact Finset.sdiff_subset_sdiff h.sub (by simp)
      · intro i₁ a₁ i₂ a₂ hf₁ hf₂
        exact h.inj i₁ a₁ i₂ a₂ (OrdMap.find?_erase_some_iff.mp hf₁).2
          (OrdMap.find?_erase_some_iff.mp hf₂).2

theorem not_overwrites (hgrant : grants i = none) : ¬ Overwrites w i := by
  rintro ⟨g, hg, _⟩
  rw [hgrant] at hg
  cases hg

/-- A new entry adds its pointer to the map. -/
theorem stored_insert {id : UInt64} {a : Alloc} (hnone : w.allocs.find? id = none) :
    stored { w with allocs := w.allocs.insert id a } = stored w ∪ {a.ptr} := by
  ext p
  rw [Finset.mem_union, Finset.mem_singleton, mem_stored, mem_stored]
  constructor
  · rintro ⟨id', a', hf, hp⟩
    rcases OrdMap.find?_insert_some_iff.mp hf with ⟨_, rfl⟩ | ⟨_, hold⟩
    · exact Or.inr hp.symm
    · exact Or.inl ⟨id', a', hold, hp⟩
  · rintro (⟨id', a', hf, hp⟩ | rfl)
    · refine ⟨id', a', OrdMap.find?_insert_some_iff.mpr (Or.inr ⟨?_, hf⟩), hp⟩
      rintro rfl
      rw [hnone] at hf
      cases hf
    · exact ⟨id, a, OrdMap.find?_insert_self _ _ _, rfl⟩

/-- The pointer of an overwritten entry is in the map no more. -/
theorem Kept.not_stored_insert (h : Kept t w) {id : UInt64} {a a' : Alloc}
    (hfound : w.allocs.find? id = some a) (hne : a'.ptr ≠ a.ptr) :
    a.ptr ∉ stored { w with allocs := w.allocs.insert id a' } := by
  intro hmem
  obtain ⟨id', b, hf, hptr⟩ := mem_stored.mp hmem
  rcases OrdMap.find?_insert_some_iff.mp hf with ⟨_, rfl⟩ | ⟨hother, hold⟩
  · exact hne hptr
  · exact hother (h.inj id' b id a hold hfound hptr)

/-- **Where memory leaks.** After a request the map holds all that is
outstanding exactly if the request did not overwrite an entry. -/
theorem Kept.leaks_iff (h : Kept t w) (hh : Handled w i turn w')
    (hfresh : ∀ g ∈ grants i, g.2 ∉ outstanding t)
    (hall : outstanding t = stored w) :
    outstanding (t ++ [(i, turn)]) = stored w' ↔ ¬ Overwrites w i := by
  rw [outstanding_concat]
  cases hh with
  | refused hgrant hobtained hfreed =>
      refine iff_of_true ?_ (not_overwrites hgrant)
      simpa [hobtained, hfreed] using hall
  | @obtained id gen bytes ptr hgrant hobtained hfreed =>
      have hnew : ptr ∉ outstanding t := hfresh (id, ptr) hgrant
      simp only [hobtained, hfreed, List.toFinset_nil, Finset.sdiff_empty]
      constructor
      · rintro heq ⟨g, hg, hheld⟩
        rw [hgrant] at hg
        cases hg
        obtain ⟨a, hf⟩ := Option.isSome_iff_exists.mp hheld
        -- the old pointer of `id` is outstanding and no entry has it any more
        have hout : a.ptr ∈ outstanding t := h.sub (mem_stored.mpr ⟨id, a, hf, rfl⟩)
        have hne : ptr ≠ a.ptr := fun hsame => hnew (by rw [hsame]; exact hout)
        have hlost : a.ptr ∉ stored { w with allocs := w.allocs.insert id ⟨gen, bytes, ptr⟩ } :=
          h.not_stored_insert hf hne
        rw [← heq] at hlost
        exact hlost (Finset.mem_union_left _ hout)
      · intro hkeep
        have hnone : w.allocs.find? id = none := by
          cases hf : w.allocs.find? id with
          | none => rfl
          | some a => exact absurd ⟨(id, ptr), hgrant, by rw [hf]; rfl⟩ hkeep
        rw [hall, stored_insert hnone, Option.toFinset_some]
  | @freed id a hgrant hfound hobtained hfreed =>
      refine iff_of_true ?_ (not_overwrites hgrant)
      rw [h.not_stored hfound, ← hall]
      simp [hobtained, hfreed]

end Step

theorem served_nil : Served [] := fun pre i hpre => by simp at hpre

theorem served_concat {l : List Input} {i : Input} :
    Served (l ++ [i]) ↔ Served l ∧ IsRequest i ∧
      ∀ g ∈ grants i, g.2 ∉ outstanding (trace step {} l) := by
  constructor
  · intro h
    exact ⟨fun pre j hpre => h pre j (hpre.trans (List.prefix_append _ _)),
      h l i (List.prefix_refl _)⟩
  · rintro ⟨h, hi⟩ pre j hpre
    rcases List.prefix_concat_iff.mp hpre with heq | hshort
    · obtain ⟨rfl, rfl⟩ := List.append_singleton_inj.mp heq
      exact hi
    · exact h pre j hshort

/-- **Every run** of requests keeps the stored pointers outstanding and
apart, and frees nothing twice. -/
theorem run_kept {inputs : List Input} (h : Served inputs) :
    Kept (trace step {} inputs) (run step {} inputs) := by
  induction inputs using List.reverseRecOn with
  | nil =>
      refine ⟨rfl, by simp [stored, OrdMap.empty], fun id a id' a' hf => by simp at hf, ?_⟩
      intro pre e hpre
      simp at hpre
  | append_singleton inputs i ih =>
      obtain ⟨hpast, hreq, hfresh⟩ := served_concat.mp h
      have hkept := ih hpast
      rw [trace_concat, run_concat]
      exact hkept.step (handled hkept.running hreq) hfresh

/-- **Memory leaks exactly where an entry is overwritten.** For every
sequence of ALLOCATE and RELEASE frames, with `cudaMalloc` failing or
returning a pointer that is not outstanding: at every moment the outstanding
pointers are those in the map and none has been freed twice, if and only if
no ALLOCATE succeeds for an id that is in the map. -/
theorem no_leak_iff (inputs : List Input) (hserved : Served inputs) :
    Throughout step (fun t w => outstanding t = stored w ∧ FreedOnce t) {} inputs ↔
      Guarded step (fun w i => ¬ Overwrites w i) {} inputs := by
  rw [guarded_iff_concat]
  refine throughout_iff_within (G := fun _ w i => ¬ Overwrites w i) ⟨rfl, ?_⟩ ?_
  · intro pre e hpre
    simp at hpre
  · intro pre i hpre hgood
    have hnow : Served (pre ++ [i]) := fun p j hp => hserved p j (hp.trans hpre)
    obtain ⟨hpast, hreq, hfresh⟩ := served_concat.mp hnow
    have hkept := run_kept hpast
    rw [← hkept.leaks_iff (handled hkept.running hreq) hfresh hgood.1, ← trace_concat,
      ← run_concat]
    exact and_iff_left (run_kept hnow).once

/-- An ALLOCATE for which `cudaMalloc` returns `ptr`. -/
def allocateFrame (id gen bytes ptr : UInt64) : Input :=
  ⟨some ⟨.allocate, triple id gen bytes⟩, .ok ptr⟩

def releaseFrame (id gen : UInt64) : Input :=
  ⟨some ⟨.release, triple id gen 1⟩, .error (ascii "unused")⟩

/-- The id comes again after its release, and with the same pointer. -/
def releasedFirst : List Input :=
  [allocateFrame 1 1 64 4096, releaseFrame 1 1, allocateFrame 1 2 64 4096]

theorem no_leak_releasedFirst :
    Served releasedFirst ∧
      Throughout step (fun t w => outstanding t = stored w ∧ FreedOnce t) {} releasedFirst := by
  have hserved : Served releasedFirst := by
    refine served_concat (l := [_, _]).mpr ⟨served_concat (l := [_]).mpr
      ⟨served_concat (l := []).mpr ⟨served_nil, ?_⟩, ?_⟩, ?_⟩
    · exact ⟨by decide, forall_grants (by decide +kernel)⟩
    · exact ⟨by decide, forall_grants (by decide +kernel)⟩
    · exact ⟨by decide, forall_grants (by decide +kernel)⟩
  exact ⟨hserved, (no_leak_iff releasedFirst hserved).mpr (by decide +kernel)⟩

/-- The id comes again, with the next generation, while it is held. -/
def heldTwice : List Input := [allocateFrame 1 1 64 4096, allocateFrame 1 2 64 8192]

/-- The first pointer is lost: no entry has it and nothing will free it. -/
theorem heldTwice_leaks :
    Served heldTwice ∧ ¬ Throughout step
      (fun t w => outstanding t = stored w ∧ FreedOnce t) {} heldTwice := by
  constructor
  · refine served_concat (l := [_]).mpr ⟨served_concat (l := []).mpr ⟨served_nil, ?_⟩, ?_⟩
    · exact ⟨by decide, forall_grants (by decide +kernel)⟩
    · exact ⟨by decide, forall_grants (by decide +kernel)⟩
  · intro h
    have hend := (h heldTwice (List.prefix_refl _)).1
    revert hend
    decide +kernel

end GpuMemoryService.Worker
