/-
GpuMemoryService.Lib.Images — maps that agree under a function.

Two maps agree under `f` if they have the same keys and `f` makes their
values equal. A program that only looks at `f` of the values cannot tell
them apart: what it finds in one it finds, up to `f`, in the other, and
updates that agree under `f` keep the agreement.
-/
import GpuMemoryService.Lib.OrdMap

namespace GpuMemoryService.Lib.OrdMap

universe u v

variable {κ : Type u} [LinearOrder κ] {ν μ : Type v} {f : ν → μ} {m m' : OrdMap κ ν}

/-- The same keys, and values that are equal under `f`. -/
def Agree (f : ν → μ) (m m' : OrdMap κ ν) : Prop := m.mapValues f = m'.mapValues f

theorem Agree.refl (f : ν → μ) (m : OrdMap κ ν) : Agree f m m := rfl

/-! ## What is found -/

/-- Equal under a function: both absent, or both there with equal images. -/
theorem map_eq_cases {α β : Type*} {g : α → β} {x y : Option α} (h : x.map g = y.map g) :
    (x = none ∧ y = none) ∨ ∃ a b, x = some a ∧ y = some b ∧ g a = g b := by
  cases x with
  | none =>
      cases y with
      | none => exact Or.inl ⟨rfl, rfl⟩
      | some b => cases h
  | some a =>
      cases y with
      | none => cases h
      | some b => exact Or.inr ⟨a, b, rfl, rfl, Option.some.inj h⟩

theorem Agree.find? (h : Agree f m m') (k : κ) :
    (m.find? k = none ∧ m'.find? k = none) ∨
      ∃ v v', m.find? k = some v ∧ m'.find? k = some v' ∧ f v = f v' := by
  refine map_eq_cases ?_
  rw [← find?_mapValues, ← find?_mapValues]
  exact congrArg (fun m => OrdMap.find? m k) h

omit [LinearOrder κ] in
/-- Entries that agree have one key. -/
theorem entry_cases {x y : Option (κ × ν)}
    (h : x.map (fun e => (e.1, f e.2)) = y.map (fun e => (e.1, f e.2))) :
    (x = none ∧ y = none) ∨ ∃ k v v', x = some (k, v) ∧ y = some (k, v') ∧ f v = f v' := by
  rcases map_eq_cases h with hnone | ⟨⟨k, v⟩, ⟨k', v'⟩, hx, hy, heq⟩
  · exact Or.inl hnone
  · obtain ⟨rfl, hval⟩ := Prod.mk.inj heq
    exact Or.inr ⟨k, v, v', hx, hy, hval⟩

/-- The last entry before a key. -/
theorem Agree.getLast?_below (h : Agree f m m') (k : κ) :
    ((m.below k).getLast? = none ∧ (m'.below k).getLast? = none) ∨
      ∃ k' v v', (m.below k).getLast? = some (k', v) ∧ (m'.below k).getLast? = some (k', v') ∧
        f v = f v' := by
  refine entry_cases ?_
  rw [← List.getLast?_map, ← List.getLast?_map, ← below_mapValues, ← below_mapValues]
  exact congrArg (fun m => (OrdMap.below m k).getLast?) h

/-- The first entry from a key on. -/
theorem Agree.head?_lowerBound (h : Agree f m m') (k : κ) :
    ((m.lowerBound k).head? = none ∧ (m'.lowerBound k).head? = none) ∨
      ∃ k' v v', (m.lowerBound k).head? = some (k', v) ∧
        (m'.lowerBound k).head? = some (k', v') ∧ f v = f v' := by
  refine entry_cases ?_
  rw [← List.head?_map, ← List.head?_map, ← lowerBound_mapValues, ← lowerBound_mapValues]
  exact congrArg (fun m => (OrdMap.lowerBound m k).head?) h

/-- The values in order. -/
theorem Agree.values (h : Agree f m m') :
    (m.entries.map (·.2)).map f = (m'.entries.map (·.2)).map f := by
  have hentries := congrArg (fun m => (OrdMap.entries m).map (·.2)) h
  simpa only [mapValues, List.map_map, Function.comp_def] using hentries

/-! ## Updates -/

theorem Agree.insert (h : Agree f m m') (k : κ) {v v' : ν} (hv : f v = f v') :
    Agree f (m.insert k v) (m'.insert k v') := by
  unfold Agree at *
  rw [mapValues_insert, mapValues_insert, h, hv]

theorem Agree.emplace (h : Agree f m m') (k : κ) {v v' : ν} (hv : f v = f v') :
    Agree f (m.emplace k v) (m'.emplace k v') := by
  unfold Agree at *
  rw [mapValues_emplace, mapValues_emplace, h, hv]

theorem Agree.erase (h : Agree f m m') (k : κ) : Agree f (m.erase k) (m'.erase k) := by
  unfold Agree at *
  rw [mapValues_erase, mapValues_erase, h]

/-! ## Functions of the image -/

/-- The entries, pair by pair. -/
theorem Agree.forall₂ (h : Agree f m m') :
    List.Forall₂ (fun e e' => e.1 = e'.1 ∧ f e.2 = f e'.2) m.entries m'.entries := by
  have hentries : m.entries.map (fun e => (e.1, f e.2)) = m'.entries.map (fun e => (e.1, f e.2)) :=
    congrArg OrdMap.entries h
  rw [← List.forall₂_eq_eq_eq, List.forall₂_map_left_iff, List.forall₂_map_right_iff] at hentries
  exact hentries.imp (fun _ _ heq => Prod.mk.inj heq)

/-- A loop over the entries that only looks at the image. -/
theorem Agree.foldl_eq {σ : Type*} {step : σ → κ × ν → σ} (h : Agree f m m')
    (hstep : ∀ s k {v v'}, f v = f v' → step s (k, v) = step s (k, v')) (s : σ) :
    m.entries.foldl step s = m'.entries.foldl step s := by
  have hall := h.forall₂
  generalize m.entries = l at hall
  generalize m'.entries = l' at hall
  induction hall generalizing s with
  | nil => rfl
  | @cons e e' l l' he _ ih =>
      obtain ⟨k, v⟩ := e
      obtain ⟨k', v'⟩ := e'
      obtain ⟨rfl, hv⟩ := he
      rw [List.foldl_cons, List.foldl_cons, hstep s k hv, ih]

/-- A sum of weights that only look at the image. -/
theorem Agree.weigh_eq {g : κ → ν → Nat} (h : Agree f m m')
    (hg : ∀ k {v v'}, f v = f v' → g k v = g k v') : m.weigh g = m'.weigh g := by
  have hweights : List.Forall₂ Eq (m.entries.map (fun e => g e.1 e.2))
      (m'.entries.map (fun e => g e.1 e.2)) := by
    rw [List.forall₂_map_left_iff, List.forall₂_map_right_iff]
    refine h.forall₂.imp (fun e e' he => ?_)
    rw [he.1, hg e'.1 he.2]
  unfold weigh
  rw [List.forall₂_eq_eq_eq] at hweights
  rw [hweights]

end GpuMemoryService.Lib.OrdMap
