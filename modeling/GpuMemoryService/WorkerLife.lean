/-
GpuMemoryService.WorkerLife — the device memory of a worker over its whole
life (`worker.cpp`).

The message loop ends in one of two ways. SHUTDOWN frees every pointer in
the map; a lost connection, or a frame that cannot be read, frees nothing.
Other frames are passed over. `life_accounted` follows every pointer through
any life: none is freed twice or without having been obtained, and those
never freed are exactly the ones whose entry was overwritten by a later
ALLOCATE of the same id, and, unless SHUTDOWN came, those in the map.
-/
import GpuMemoryService.Lib.Lifetimes
import GpuMemoryService.WorkerMemory

namespace GpuMemoryService.Worker

open Lib Mp

/-! ## Pointers in a life -/

/-- A turn that also reports the state it was made in. -/
def watch (w : Worker) (i : Input) : (Worker × Turn) × Worker := ((w, (w.step i).1), (w.step i).2)

/-- The turns so far, each with its input and the state before it. -/
abbrev History := List (Input × Worker × Turn)

def turnUses (turn : Turn) : List (Use UInt64) :=
  turn.obtained.toList.map .acquire ++ turn.freed.map .release

def uses (t : History) : List (Use UInt64) := t.flatMap (fun x => turnUses x.2.2)

/-- The pointer whose entry a turn overwrites. -/
def lostBy (x : Input × Worker × Turn) : Option UInt64 :=
  if x.2.2.obtained.isSome then
    (grants x.1).bind (fun g => (x.2.1.allocs.find? g.1).map (·.ptr))
  else none

/-- The pointers whose entries were overwritten. -/
def lost (t : History) : Finset UInt64 := (t.filterMap lostBy).toFinset

/-- The turn handles SHUTDOWN. -/
def clears (x : Input × Worker × Turn) : Bool :=
  !x.2.1.exited && x.1.frame.any (fun f => f.type == .shutdown)

def cleared (t : History) : Bool := t.any clears

/-- What the worker still has in its map, unless SHUTDOWN has freed it. -/
def keeps (t : History) (w : Worker) : Finset UInt64 := if cleared t then ∅ else stored w

/-- While the worker runs, `cudaMalloc` returns no pointer that is live. -/
def FreshPointers (inputs : List Input) : Prop :=
  ∀ pre i, pre ++ [i] <+: inputs → (run watch {} pre).exited = false →
    ∀ g ∈ grants i, ∀ s, live ∅ (uses (trace watch {} pre)) = some s → g.2 ∉ s

theorem uses_concat (t : History) (x : Input × Worker × Turn) :
    uses (t ++ [x]) = uses t ++ turnUses x.2.2 := by
  simp [uses]

theorem lost_concat (t : History) (x : Input × Worker × Turn) :
    lost (t ++ [x]) = lost t ∪ (lostBy x).toFinset := by
  ext p
  cases h : lostBy x <;> simp [lost, h]

theorem cleared_concat (t : History) (x : Input × Worker × Turn) :
    cleared (t ++ [x]) = (cleared t || clears x) := by
  simp [cleared]

/-! ## One turn -/

/-- Everything a turn can do. -/
inductive TurnOf (w : Worker) (i : Input) : Turn → Worker → Prop
  | passed {turn w'} (hobtained : turn.obtained = none) (hfreed : turn.freed = [])
      (hallocs : w'.allocs = w.allocs) (hexit : w.exited = true → w'.exited = true)
      (hclears : clears (i, w, turn) = false) : TurnOf w i turn w'
  | obtained {turn id gen bytes ptr} (hrun : w.exited = false) (hgrant : grants i = some (id, ptr))
      (hobtained : turn.obtained = some ptr) (hfreed : turn.freed = [])
      (hclears : clears (i, w, turn) = false) :
      TurnOf w i turn { w with allocs := w.allocs.insert id ⟨gen, bytes, ptr⟩ }
  | freed {turn id a} (hrun : w.exited = false) (hfound : w.allocs.find? id = some a)
      (hobtained : turn.obtained = none) (hfreed : turn.freed = [a.ptr])
      (hclears : clears (i, w, turn) = false) :
      TurnOf w i turn { w with allocs := w.allocs.erase id }
  | shutdown {turn} (hrun : w.exited = false) (hobtained : turn.obtained = none)
      (hfreed : turn.freed = w.allocs.entries.map (·.2.ptr))
      (hclears : clears (i, w, turn) = true) : TurnOf w i turn { w with exited := true }

theorem step_turn (w : Worker) (i : Input) : TurnOf w i (w.step i).1 (w.step i).2 := by
  cases hrun : w.exited with
  | true =>
      simp only [step, hrun, if_true]
      exact .passed rfl rfl rfl id (by simp [clears, hrun])
  | false =>
      cases hframe : i.frame with
      | none =>
          simp only [step, hrun, hframe, Bool.false_eq_true, if_false]
          exact .passed rfl rfl rfl (fun _ => rfl) (by simp [clears, hframe])
      | some f =>
          have hnot : ∀ turn, f.type ≠ .shutdown → clears (i, w, turn) = false := by
            intro turn hne
            simp [clears, hframe, hne]
          have hserved : IsRequest i → TurnOf w i (w.step i).1 (w.step i).2 := by
            rintro ⟨f', hf', hkind⟩
            obtain rfl : f = f' := Option.some.inj (hframe.symm.trans (Option.mem_def.mp hf'))
            have hne : f.type ≠ .shutdown := by
              rcases hkind with h | h <;> rw [h] <;> decide
            have h := handled hrun ⟨f, hf', hkind⟩
            generalize w.step i = r at h ⊢
            obtain ⟨turn, w'⟩ := r
            cases h with
            | refused _ hobtained hfreed => exact .passed hobtained hfreed rfl id (hnot _ hne)
            | obtained hgrant hobtained hfreed => exact .obtained hrun hgrant hobtained hfreed (hnot _ hne)
            | freed _ hfound hobtained hfreed => exact .freed hrun hfound hobtained hfreed (hnot _ hne)
          cases htype : f.type with
          | allocate => exact hserved ⟨f, by rw [hframe]; rfl, Or.inl htype⟩
          | release => exact hserved ⟨f, by rw [hframe]; rfl, Or.inr htype⟩
          | shutdown =>
              simp only [step, hrun, hframe, htype, Bool.false_eq_true, if_false]
              exact .shutdown hrun rfl rfl (by simp [clears, hrun, hframe, htype])
          | _ =>
              simp only [step, hrun, hframe, htype, Bool.false_eq_true, if_false]
              exact .passed rfl rfl rfl (fun h => h ▸ hrun.symm ▸ rfl) (hnot _ (by simp [htype]))

/-! ## A whole life -/

/-- What is live, against the history and the map. -/
structure Life (t : History) (w : Worker) : Prop where
  live : live ∅ (uses t) = some (lost t ∪ keeps t w)
  apart : ∀ p ∈ lost t, p ∉ stored w
  inj : ∀ id a id' a', w.allocs.find? id = some a → w.allocs.find? id' = some a' →
    a.ptr = a'.ptr → id = id'
  ended : cleared t = true → w.exited = true

section Step

variable {t : History} {w w' : Worker} {i : Input} {turn : Turn}

theorem stored_congr (h : w'.allocs = w.allocs) : stored w' = stored w := by
  rw [stored, stored, h]

/-- A running worker has not handled SHUTDOWN. -/
theorem Life.keeps_running (h : Life t w) (hrun : w.exited = false) : keeps t w = stored w := by
  have hnot : cleared t ≠ true := fun hc => by
    rw [h.ended hc] at hrun
    cases hrun
  rw [keeps, if_neg hnot]

/-- The entry an ALLOCATE overwrites. -/
theorem lostBy_obtained {id ptr : UInt64} (hgrant : grants i = some (id, ptr))
    (hobtained : turn.obtained = some ptr) :
    lostBy (i, w, turn) = (w.allocs.find? id).map (·.ptr) := by
  simp [lostBy, hobtained, hgrant]

theorem lostBy_none (hobtained : turn.obtained = none) : lostBy (i, w, turn) = none := by
  simp [lostBy, hobtained]

/-- The pointers of the map after an entry was written. -/
theorem stored_write (hinj : ∀ id a id' a', w.allocs.find? id = some a →
      w.allocs.find? id' = some a' → a.ptr = a'.ptr → id = id') (id : UInt64) (a : Alloc)
    (p : UInt64) :
    p ∈ stored { w with allocs := w.allocs.insert id a } ↔
      p = a.ptr ∨ (p ∈ stored w ∧ ∀ b, w.allocs.find? id = some b → p ≠ b.ptr) := by
  simp only [mem_stored]
  constructor
  · rintro ⟨id', b, hf, rfl⟩
    rcases OrdMap.find?_insert_some_iff.mp hf with ⟨_, rfl⟩ | ⟨hne, hold⟩
    · exact Or.inl rfl
    · exact Or.inr ⟨⟨id', b, hold, rfl⟩, fun c hc heq => hne (hinj id' b id c hold hc heq)⟩
  · rintro (rfl | ⟨⟨id', b, hf, rfl⟩, hother⟩)
    · exact ⟨id, a, OrdMap.find?_insert_self _ _ _, rfl⟩
    · refine ⟨id', b, OrdMap.find?_insert_some_iff.mpr (Or.inr ⟨?_, hf⟩), rfl⟩
      rintro rfl
      exact hother b hf rfl

/-- No two entries of the map have the same pointer. -/
theorem Life.nodup_ptrs (h : Life t w) : (w.allocs.entries.map (·.2.ptr)).Nodup := by
  refine List.Nodup.map_on (fun x hx y hy heq => ?_) (List.Nodup.of_map _ w.allocs.nodup_keys)
  have hx' : w.allocs.find? x.1 = some x.2 := OrdMap.find?_eq_some_iff.mpr hx
  have hy' : w.allocs.find? y.1 = some y.2 := OrdMap.find?_eq_some_iff.mpr hy
  have hid := h.inj _ _ _ _ hx' hy' heq
  rw [hid, hy'] at hx'
  exact Prod.ext hid (Option.some.inj hx').symm

/-- After a turn of a running worker that is not SHUTDOWN, the map is kept. -/
theorem Life.keeps_next (h : Life t w) (hrun : w.exited = false)
    (hclears : clears (i, w, turn) = false) (w' : Worker) :
    cleared (t ++ [(i, w, turn)]) = false ∧ keeps (t ++ [(i, w, turn)]) w' = stored w' := by
  have hnot : cleared (t ++ [(i, w, turn)]) = false := by
    rw [cleared_concat, hclears, Bool.or_false]
    refine Bool.eq_false_iff.mpr (fun hc => ?_)
    rw [h.ended hc] at hrun
    cases hrun
  exact ⟨hnot, by rw [keeps, hnot]; rfl⟩

/-- A pointer comes into the map, and may take the place of another. -/
theorem Life.obtain (h : Life t w) {id gen bytes ptr : UInt64} (hrun : w.exited = false)
    (hgrant : grants i = some (id, ptr)) (hobtained : turn.obtained = some ptr)
    (hfreed : turn.freed = []) (hclears : clears (i, w, turn) = false)
    (hnew : ptr ∉ lost t ∪ stored w) :
    Life (t ++ [(i, w, turn)]) { w with allocs := w.allocs.insert id ⟨gen, bytes, ptr⟩ } := by
  have hnotLost : ptr ∉ lost t := fun hp => hnew (Finset.mem_union_left _ hp)
  have hnotStored : ptr ∉ stored w := fun hp => hnew (Finset.mem_union_right _ hp)
  have hother : ∀ {j b}, w.allocs.find? j = some b → b.ptr ≠ ptr :=
    fun hb hp => hnotStored (hp ▸ mem_stored.mpr ⟨_, _, hb, rfl⟩)
  have hstored := stored_write h.inj id ⟨gen, bytes, ptr⟩
  have hlost : ∀ p, p ∈ lost (t ++ [(i, w, turn)]) ↔
      p ∈ lost t ∨ ∃ b, w.allocs.find? id = some b ∧ b.ptr = p := by
    intro p
    rw [lost_concat, lostBy_obtained hgrant hobtained, Finset.mem_union]
    cases w.allocs.find? id <;> simp [eq_comm]
  obtain ⟨hcleared, hkeeps⟩ := h.keeps_next hrun hclears
    { w with allocs := w.allocs.insert id ⟨gen, bytes, ptr⟩ }
  refine ⟨?_, ?_, ?_, fun hc => absurd hc (by simp [hcleared])⟩
  · rw [uses_concat, live_append, h.live, h.keeps_running hrun, hkeeps]
    simp only [Option.bind_some, turnUses, hobtained, hfreed, Option.toList_some, List.map_cons,
      List.map_nil, List.append_nil]
    rw [live_acquire hnew, live_nil]
    congr 1
    ext p
    simp only [Finset.mem_insert, Finset.mem_union, hlost, hstored]
    constructor
    · rintro (rfl | hp | hp)
      · exact Or.inr (Or.inl rfl)
      · exact Or.inl (Or.inl hp)
      · by_cases hold : ∃ b, w.allocs.find? id = some b ∧ b.ptr = p
        · exact Or.inl (Or.inr hold)
        · exact Or.inr (Or.inr ⟨hp, fun b hb heq => hold ⟨b, hb, heq.symm⟩⟩)
    · rintro ((hp | ⟨b, hb, rfl⟩) | rfl | ⟨hp, _⟩)
      · exact Or.inr (Or.inl hp)
      · exact Or.inr (Or.inr (mem_stored.mpr ⟨id, b, hb, rfl⟩))
      · exact Or.inl rfl
      · exact Or.inr (Or.inr hp)
  · intro p hp hin
    rcases (hlost p).mp hp, (hstored p).mp hin with ⟨hp | ⟨b, hb, rfl⟩, rfl | ⟨hin, hne⟩⟩
    · exact hnotLost hp
    · exact h.apart p hp hin
    · exact hother hb rfl
    · exact hne b hb rfl
  · intro i₁ a₁ i₂ a₂ hf₁ hf₂ heq
    rcases OrdMap.find?_insert_some_iff.mp hf₁ with ⟨rfl, rfl⟩ | ⟨_, hold₁⟩
    · rcases OrdMap.find?_insert_some_iff.mp hf₂ with ⟨rfl, _⟩ | ⟨_, hold₂⟩
      · rfl
      · exact absurd heq.symm (hother hold₂)
    · rcases OrdMap.find?_insert_some_iff.mp hf₂ with ⟨_, rfl⟩ | ⟨_, hold₂⟩
      · exact absurd heq (hother hold₁)
      · exact h.inj i₁ a₁ i₂ a₂ hold₁ hold₂ heq

/-- A turn that obtains nothing loses nothing. -/
theorem lost_keep (hobtained : turn.obtained = none) : lost (t ++ [(i, w, turn)]) = lost t := by
  rw [lost_concat, lostBy_none hobtained]
  simp

/-- A pointer leaves the map and is freed. -/
theorem Life.free (h : Life t w) {id : UInt64} {a : Alloc} (hrun : w.exited = false)
    (hfound : w.allocs.find? id = some a) (hobtained : turn.obtained = none)
    (hfreed : turn.freed = [a.ptr]) (hclears : clears (i, w, turn) = false) :
    Life (t ++ [(i, w, turn)]) { w with allocs := w.allocs.erase id } := by
  have hmem : a.ptr ∈ stored w := mem_stored.mpr ⟨id, a, hfound, rfl⟩
  have hnotLost : a.ptr ∉ lost t := fun hp => h.apart _ hp hmem
  have hstored : ∀ p, p ∈ stored { w with allocs := w.allocs.erase id } ↔
      p ≠ a.ptr ∧ p ∈ stored w := by
    intro p
    simp only [mem_stored]
    constructor
    · rintro ⟨id', b, hf, rfl⟩
      obtain ⟨hne, hold⟩ := OrdMap.find?_erase_some_iff.mp hf
      exact ⟨fun heq => hne (h.inj id' b id a hold hfound heq), id', b, hold, rfl⟩
    · rintro ⟨hne, id', b, hf, rfl⟩
      refine ⟨id', b, OrdMap.find?_erase_some_iff.mpr ⟨?_, hf⟩, rfl⟩
      rintro rfl
      rw [hfound] at hf
      cases hf
      exact hne rfl
  obtain ⟨hcleared, hkeeps⟩ := h.keeps_next hrun hclears { w with allocs := w.allocs.erase id }
  refine ⟨?_, ?_, ?_, fun hc => absurd hc (by simp [hcleared])⟩
  · rw [uses_concat, live_append, h.live, h.keeps_running hrun, hkeeps, lost_keep hobtained]
    simp only [Option.bind_some, turnUses, hobtained, hfreed, Option.toList_none, List.map_cons,
      List.map_nil, List.nil_append]
    rw [live_release (Finset.mem_union_right _ hmem), live_nil]
    congr 1
    ext p
    simp only [Finset.mem_erase, Finset.mem_union, hstored]
    constructor
    · rintro ⟨hne, hp | hp⟩
      · exact Or.inl hp
      · exact Or.inr ⟨hne, hp⟩
    · rintro (hp | ⟨hne, hp⟩)
      · exact ⟨fun heq => hnotLost (heq ▸ hp), Or.inl hp⟩
      · exact ⟨hne, Or.inr hp⟩
  · intro p hp hin
    rw [lost_keep hobtained] at hp
    exact h.apart p hp ((hstored p).mp hin).2
  · intro i₁ a₁ i₂ a₂ hf₁ hf₂
    exact h.inj i₁ a₁ i₂ a₂ (OrdMap.find?_erase_some_iff.mp hf₁).2
      (OrdMap.find?_erase_some_iff.mp hf₂).2

/-- SHUTDOWN frees all that is in the map. -/
theorem Life.shutdown (h : Life t w) (hrun : w.exited = false) (hobtained : turn.obtained = none)
    (hfreed : turn.freed = w.allocs.entries.map (·.2.ptr))
    (hclears : clears (i, w, turn) = true) :
    Life (t ++ [(i, w, turn)]) { w with exited := true } := by
  have hcleared : cleared (t ++ [(i, w, turn)]) = true := by
    rw [cleared_concat, hclears, Bool.or_true]
  refine ⟨?_, ?_, h.inj, fun _ => rfl⟩
  · rw [uses_concat, live_append, h.live, h.keeps_running hrun, lost_keep hobtained, keeps,
      if_pos hcleared, Finset.union_empty]
    simp only [Option.bind_some, turnUses, hobtained, hfreed, Option.toList_none, List.map_nil,
      List.nil_append, stored]
    rw [live_releases h.nodup_ptrs (fun p hp => Finset.mem_union_right _ (List.mem_toFinset.mpr hp))]
    congr 1
    refine Finset.union_sdiff_cancel_right (Finset.disjoint_left.mpr (fun p hp => ?_))
    exact h.apart p hp
  · rw [lost_keep hobtained]
    exact h.apart

/-- **One turn** keeps the account of a life. -/
theorem Life.step (h : Life t w) (ht : TurnOf w i turn w')
    (hfresh : w.exited = false → ∀ g ∈ grants i, g.2 ∉ lost t ∪ keeps t w) :
    Life (t ++ [(i, w, turn)]) w' := by
  cases ht with
  | passed hobtained hfreed hallocs hexit hclears =>
      refine ⟨?_, ?_, ?_, ?_⟩
      · rw [uses_concat, lost_keep hobtained, keeps, cleared_concat, hclears, Bool.or_false,
          stored_congr hallocs]
        simpa [turnUses, hobtained, hfreed, keeps] using h.live
      · rw [lost_keep hobtained, stored_congr hallocs]
        exact h.apart
      · rw [hallocs]
        exact h.inj
      · rw [cleared_concat, hclears, Bool.or_false]
        exact fun hc => hexit (h.ended hc)
  | @obtained id gen bytes ptr hrun hgrant hobtained hfreed hclears =>
      have hnew := hfresh hrun (id, ptr) hgrant
      rw [h.keeps_running hrun] at hnew
      exact h.obtain hrun hgrant hobtained hfreed hclears hnew
  | freed hrun hfound hobtained hfreed hclears => exact h.free hrun hfound hobtained hfreed hclears
  | shutdown hrun hobtained hfreed hclears => exact h.shutdown hrun hobtained hfreed hclears

end Step

/-- **Every life** keeps the account. -/
theorem run_life {inputs : List Input} (hfresh : FreshPointers inputs) :
    Life (trace watch {} inputs) (run watch {} inputs) := by
  induction inputs using List.reverseRecOn with
  | nil =>
      refine ⟨?_, fun p hp => by simp [lost] at hp, fun id a id' a' hf => by simp at hf, nofun⟩
      simp [uses, lost, keeps, stored, cleared, OrdMap.empty]
  | append_singleton inputs i ih =>
      have hpast : FreshPointers inputs :=
        fun pre j hpre => hfresh pre j (hpre.trans (List.prefix_append _ _))
      have hlife := ih hpast
      rw [trace_concat, run_concat]
      exact hlife.step (step_turn _ i) (fun hrun g hg => hfresh inputs i (List.prefix_refl _) hrun g hg
        _ hlife.live)

/-- **Device memory over a whole life.** For every sequence of frames of any
type, read errors and disconnects, with `cudaMalloc` returning no pointer
that is live: nothing is freed that is not live, and what is live is what was
overwritten and, unless SHUTDOWN was handled, what is in the map; so each
pointer was freed as often as it was obtained, but for those. -/
theorem life_accounted (inputs : List Input) (hfresh : FreshPointers inputs) :
    live ∅ (uses (trace watch {} inputs))
        = some (lost (trace watch {} inputs) ∪
          if cleared (trace watch {} inputs) then ∅ else stored (run watch {} inputs)) ∧
      ∀ ptr, (uses (trace watch {} inputs)).count (.acquire ptr)
        = (uses (trace watch {} inputs)).count (.release ptr) +
          if ptr ∈ lost (trace watch {} inputs) ∨ (cleared (trace watch {} inputs) = false ∧
            ptr ∈ stored (run watch {} inputs)) then 1 else 0 := by
  have hlive := (run_life hfresh).live
  refine ⟨hlive, fun ptr => ?_⟩
  have hcount := live_count hlive ptr
  rw [if_neg (Finset.notMem_empty _), Nat.add_zero] at hcount
  rw [hcount]
  congr 2
  rw [Finset.mem_union, keeps]
  cases cleared (trace watch {} inputs) <;> simp

/-- The pointers of a life are looked at one by one. -/
theorem freshPointers_concat {l : List Input} {i : Input} (h : FreshPointers l)
    (hi : (grants i).all (fun g => (live ∅ (uses (trace watch {} l))).all
      (fun s => decide (g.2 ∉ s))) = true) : FreshPointers (l ++ [i]) := by
  intro pre j hpre hrun g hg s hs
  rcases List.prefix_concat_iff.mp hpre with heq | hshort
  · obtain ⟨rfl, rfl⟩ := List.append_singleton_inj.mp heq
    rw [Option.mem_def.mp hg, Option.all_some, hs, Option.all_some] at hi
    exact of_decide_eq_true hi
  · exact h pre j hshort hrun g hg s hs

theorem freshPointers_nil : FreshPointers [] := fun pre i hpre => by simp at hpre

/-- An entry is overwritten, another is kept, and SHUTDOWN comes. -/
def overwritingLife : List Input :=
  [allocateFrame 1 1 64 4096, allocateFrame 1 2 64 8192, allocateFrame 2 1 64 12288,
   ⟨some ⟨.shutdown, []⟩, .error []⟩]

theorem life_accounted_overwritingLife :
    FreshPointers overwritingLife ∧
      live ∅ (uses (trace watch {} overwritingLife)) = some {4096} := by
  have hfresh : FreshPointers overwritingLife := by
    refine freshPointers_concat (l := [_, _, _]) (freshPointers_concat (l := [_, _])
      (freshPointers_concat (l := [_]) (freshPointers_concat (l := []) freshPointers_nil ?_) ?_) ?_) ?_
    · decide +kernel
    · decide +kernel
    · decide +kernel
    · decide +kernel
  exact ⟨hfresh, (life_accounted overwritingLife hfresh).1.trans (by decide +kernel)⟩

end GpuMemoryService.Worker
