/-
GpuMemoryService.Lib.OrdMap — finite maps kept in key order.

A map is the list of its entries in strictly increasing key order, with
the order carried as a field. Iterating the map is reading the list; the
position a lower-bound search returns is the suffix of entries whose key
is not below the bound (`lowerBound`), and stepping back from it is the
last entry of the complementary prefix (`below`).

Every operation is a filter of the entry list plus at most one new entry,
so a lookup after an update is decided by `find?_insert` / `find?_erase`
and no caller ever unfolds the list. `weigh` is the sum of a weight over
the entries; `weigh_insert` and `weigh_erase` are its two update rules.
-/
import Mathlib.Order.Basic
import Mathlib.Order.Defs.LinearOrder
import Mathlib.Data.List.Pairwise
import Mathlib.Algebra.BigOperators.Group.List.Basic
import Mathlib.Algebra.Order.BigOperators.Group.List
import Mathlib.Algebra.Order.Ring.Nat
import Mathlib.Tactic.Common

namespace GpuMemoryService.Lib

universe u v

/-- A finite map as its entries in strictly increasing key order. -/
@[ext]
structure OrdMap (κ : Type u) (ν : Type v) [LinearOrder κ] where
  entries : List (κ × ν)
  sorted : entries.Pairwise (fun a b => a.1 < b.1)

/-- A finite set in order: a map that stores nothing at its keys. -/
abbrev OrdSet (κ : Type u) [LinearOrder κ] := OrdMap κ Unit

namespace OrdMap

variable {κ : Type u} {ν : Type v} [LinearOrder κ]

/-! ## Operations -/

def empty : OrdMap κ ν := ⟨[], List.Pairwise.nil⟩

def find? (m : OrdMap κ ν) (k : κ) : Option ν :=
  (m.entries.find? (fun e => decide (e.1 = k))).map (·.2)

/-- The entries before the lower bound of `k`. -/
def below (m : OrdMap κ ν) (k : κ) : List (κ × ν) :=
  m.entries.filter (fun e => decide (e.1 < k))

/-- The entries from the lower bound of `k` on. -/
def lowerBound (m : OrdMap κ ν) (k : κ) : List (κ × ν) :=
  m.entries.filter (fun e => decide (k ≤ e.1))

def erase (m : OrdMap κ ν) (k : κ) : OrdMap κ ν :=
  ⟨m.entries.filter (fun e => decide (e.1 ≠ k)), m.sorted.filter _⟩

/-- Assign `v` at `k`, replacing the entry that is there. -/
def insert (m : OrdMap κ ν) (k : κ) (v : ν) : OrdMap κ ν where
  entries := m.below k ++ (k, v) :: m.entries.filter (fun e => decide (k < e.1))
  sorted := by
    have hlow : ∀ e ∈ m.below k, e.1 < k := by
      intro e he; simpa [below] using (List.mem_filter.mp he).2
    have hhigh : ∀ e ∈ m.entries.filter (fun e => decide (k < e.1)), k < e.1 := by
      intro e he; simpa using (List.mem_filter.mp he).2
    refine List.pairwise_append.mpr ⟨m.sorted.filter _, ?_, ?_⟩
    · exact List.pairwise_cons.mpr ⟨hhigh, m.sorted.filter _⟩
    · intro a ha b hb
      rcases List.mem_cons.mp hb with rfl | hb
      · exact hlow a ha
      · exact lt_trans (hlow a ha) (hhigh b hb)

/-- Store `v` at `k` unless `k` already has an entry. -/
def emplace (m : OrdMap κ ν) (k : κ) (v : ν) : OrdMap κ ν :=
  if (m.find? k).isSome then m else m.insert k v

def size (m : OrdMap κ ν) : Nat := m.entries.length

/-- The sum of a weight over the entries. -/
def weigh (f : κ → ν → Nat) (m : OrdMap κ ν) : Nat :=
  (m.entries.map (fun e => f e.1 e.2)).sum

instance : Membership κ (OrdMap κ ν) := ⟨fun m k => (m.find? k).isSome⟩

instance (m : OrdMap κ ν) (k : κ) : Decidable (k ∈ m) :=
  inferInstanceAs (Decidable ((m.find? k).isSome = true))

instance [DecidableEq ν] : DecidableEq (OrdMap κ ν) := fun m m' =>
  decidable_of_iff (m.entries = m'.entries)
    ⟨fun h => OrdMap.ext h, fun h => congrArg entries h⟩

/-! ## Lookups and entries -/

theorem mem_iff_find? {m : OrdMap κ ν} {k : κ} : k ∈ m ↔ ∃ v, m.find? k = some v := by
  show (m.find? k).isSome = true ↔ _
  rw [Option.isSome_iff_exists]

/-- In a strictly sorted list two entries of one key are the same entry. -/
theorem entry_unique {m : OrdMap κ ν} {k : κ} {v w : ν}
    (hv : (k, v) ∈ m.entries) (hw : (k, w) ∈ m.entries) : v = w := by
  by_contra hne
  have hne' : (k, v) ≠ (k, w) := fun h => hne (Prod.mk.inj h).2
  have hkeys : m.entries.Pairwise (fun a b => a.1 ≠ b.1) := m.sorted.imp ne_of_lt
  have hsymm : Std.Symm (fun a b : κ × ν => a.1 ≠ b.1) := ⟨fun _ _ h => h.symm⟩
  exact hkeys.forall hv hw hne' rfl

theorem find?_eq_some_iff {m : OrdMap κ ν} {k : κ} {v : ν} :
    m.find? k = some v ↔ (k, v) ∈ m.entries := by
  unfold find?
  constructor
  · intro h
    obtain ⟨⟨k', v'⟩, hfind, hv⟩ := Option.map_eq_some_iff.mp h
    have hk : k' = k := by simpa using List.find?_some hfind
    simp only at hv
    subst hk; subst hv
    exact List.mem_of_find?_eq_some hfind
  · intro h
    cases hfind : m.entries.find? (fun e => decide (e.1 = k)) with
    | none =>
        have := List.find?_eq_none.mp hfind (k, v) h
        simp at this
    | some e =>
        obtain ⟨k', v'⟩ := e
        have hk : k' = k := by simpa using List.find?_some hfind
        subst hk
        have := entry_unique h (List.mem_of_find?_eq_some hfind)
        simp [this]

theorem find?_eq_none_iff {m : OrdMap κ ν} {k : κ} :
    m.find? k = none ↔ ∀ v, (k, v) ∉ m.entries := by
  constructor
  · intro h v hv
    rw [find?_eq_some_iff.mpr hv] at h
    cases h
  · intro h
    cases hf : m.find? k with
    | none => rfl
    | some v => exact absurd (find?_eq_some_iff.mp hf) (h v)

/-- Two maps with the same lookups are the same map. -/
theorem ext_find? {m m' : OrdMap κ ν} (h : ∀ k, m.find? k = m'.find? k) : m = m' := by
  apply OrdMap.ext
  have hnodup : ∀ m : OrdMap κ ν, m.entries.Nodup := fun m =>
    m.sorted.imp (fun hlt heq => absurd (congrArg Prod.fst heq) (ne_of_lt hlt))
  have hmem : ∀ e, e ∈ m.entries ↔ e ∈ m'.entries := by
    rintro ⟨k, v⟩
    rw [← find?_eq_some_iff, ← find?_eq_some_iff, h k]
  have hperm : m.entries.Perm m'.entries :=
    (List.perm_ext_iff_of_nodup (hnodup m) (hnodup m')).mpr hmem
  exact hperm.eq_of_pairwise (fun a b _ _ hab hba => absurd hab (lt_asymm hba)) m.sorted m'.sorted

@[simp] theorem find?_empty (k : κ) : (empty : OrdMap κ ν).find? k = none := rfl

theorem find?_erase (m : OrdMap κ ν) (k k' : κ) :
    (m.erase k).find? k' = if k' = k then none else m.find? k' := by
  split
  · rename_i h
    subst h
    exact find?_eq_none_iff.mpr (fun v hv => by simp [erase] at hv)
  · rename_i h
    cases hf : m.find? k' with
    | none =>
        refine find?_eq_none_iff.mpr (fun v hv => ?_)
        exact find?_eq_none_iff.mp hf v (List.mem_filter.mp hv).1
    | some v =>
        refine find?_eq_some_iff.mpr (List.mem_filter.mpr ⟨find?_eq_some_iff.mp hf, ?_⟩)
        simpa using h

theorem find?_insert (m : OrdMap κ ν) (k k' : κ) (v : ν) :
    (m.insert k v).find? k' = if k' = k then some v else m.find? k' := by
  have hmem : ∀ w, (k', w) ∈ (m.insert k v).entries ↔
      (k' < k ∧ (k', w) ∈ m.entries) ∨ (k' = k ∧ w = v) ∨ (k < k' ∧ (k', w) ∈ m.entries) := by
    intro w
    simp [insert, below, and_comm]
  split
  · rename_i h
    subst h
    exact find?_eq_some_iff.mpr ((hmem v).mpr (Or.inr (Or.inl ⟨rfl, rfl⟩)))
  · rename_i h
    cases hf : m.find? k' with
    | none =>
        refine find?_eq_none_iff.mpr (fun w hw => ?_)
        have hnot := find?_eq_none_iff.mp hf w
        rcases (hmem w).mp hw with ⟨_, hw⟩ | ⟨hk, _⟩ | ⟨_, hw⟩
        · exact hnot hw
        · exact h hk
        · exact hnot hw
    | some w =>
        have hw := find?_eq_some_iff.mp hf
        refine find?_eq_some_iff.mpr ((hmem w).mpr ?_)
        rcases lt_or_gt_of_ne h with hlt | hgt
        · exact Or.inl ⟨hlt, hw⟩
        · exact Or.inr (Or.inr ⟨hgt, hw⟩)

@[simp] theorem find?_erase_self (m : OrdMap κ ν) (k : κ) : (m.erase k).find? k = none := by
  rw [find?_erase, if_pos rfl]

@[simp] theorem find?_insert_self (m : OrdMap κ ν) (k : κ) (v : ν) :
    (m.insert k v).find? k = some v := by
  rw [find?_insert, if_pos rfl]

theorem find?_insert_some_iff {m : OrdMap κ ν} {k k' : κ} {v w : ν} :
    (m.insert k v).find? k' = some w ↔ (k' = k ∧ w = v) ∨ (k' ≠ k ∧ m.find? k' = some w) := by
  rw [find?_insert]
  split
  · rename_i h
    simp [h, eq_comm]
  · rename_i h
    simp [h]

theorem find?_erase_some_iff {m : OrdMap κ ν} {k k' : κ} {w : ν} :
    (m.erase k).find? k' = some w ↔ k' ≠ k ∧ m.find? k' = some w := by
  rw [find?_erase]
  split
  · rename_i h
    simp [h]
  · rename_i h
    simp [h]

theorem find?_erase_ne (m : OrdMap κ ν) {k k' : κ} (h : k' ≠ k) :
    (m.erase k).find? k' = m.find? k' := by
  rw [find?_erase, if_neg h]

theorem find?_insert_ne (m : OrdMap κ ν) {k k' : κ} (v : ν) (h : k' ≠ k) :
    (m.insert k v).find? k' = m.find? k' := by
  rw [find?_insert, if_neg h]

theorem mem_insert {m : OrdMap κ ν} {k k' : κ} {v : ν} :
    k' ∈ m.insert k v ↔ k' = k ∨ k' ∈ m := by
  rw [mem_iff_find?, mem_iff_find?, find?_insert]
  by_cases h : k' = k <;> simp [h]

theorem mem_erase {m : OrdMap κ ν} {k k' : κ} : k' ∈ m.erase k ↔ k' ≠ k ∧ k' ∈ m := by
  rw [mem_iff_find?, mem_iff_find?, find?_erase]
  by_cases h : k' = k <;> simp [h]

theorem emplace_of_none {m : OrdMap κ ν} {k : κ} (v : ν) (h : m.find? k = none) :
    m.emplace k v = m.insert k v := by
  simp [emplace, h]

/-- Erasing a key that is absent changes nothing. -/
theorem erase_of_none {m : OrdMap κ ν} {k : κ} (h : m.find? k = none) : m.erase k = m := by
  refine ext_find? (fun k' => ?_)
  rw [find?_erase]
  split
  · rename_i hk; rw [hk, h]
  · rfl

/-- The key of an entry occurs nowhere else in the list. -/
theorem ne_of_split {m : OrdMap κ ν} {l r : List (κ × ν)} {k : κ} {v : ν}
    (hsplit : m.entries = l ++ (k, v) :: r) : (∀ e ∈ l, e.1 ≠ k) ∧ ∀ e ∈ r, e.1 ≠ k := by
  have hsorted := m.sorted
  rw [hsplit] at hsorted
  constructor
  · intro e he
    exact ne_of_lt ((List.pairwise_append.mp hsorted).2.2 e he (k, v) (by simp))
  · intro e he
    exact ne_of_gt ((List.pairwise_cons.mp (List.pairwise_append.mp hsorted).2.1).1 e he)

/-- Erasing a key takes its entry out of the list. -/
theorem entries_erase {m : OrdMap κ ν} {l r : List (κ × ν)} {k : κ} {v : ν}
    (hsplit : m.entries = l ++ (k, v) :: r) : (m.erase k).entries = l ++ r := by
  obtain ⟨hbefore, hbehind⟩ := ne_of_split hsplit
  have hl : l.filter (fun e => decide (e.1 ≠ k)) = l := by
    refine List.filter_eq_self.mpr (fun e he => ?_)
    simpa using hbefore e he
  have hr : r.filter (fun e => decide (e.1 ≠ k)) = r := by
    refine List.filter_eq_self.mpr (fun e he => ?_)
    simpa using hbehind e he
  simp only [erase, hsplit, List.filter_append, List.filter_cons, hl, hr]
  simp

/-- Assigning at a key forgets what stood there. -/
theorem insert_erase (m : OrdMap κ ν) (k : κ) (v : ν) :
    (m.erase k).insert k v = m.insert k v := by
  refine ext_find? (fun k' => ?_)
  rw [find?_insert, find?_insert, find?_erase]
  split <;> rfl

theorem insert_comm (m : OrdMap κ ν) {k k' : κ} (v v' : ν) (h : k ≠ k') :
    (m.insert k v).insert k' v' = (m.insert k' v').insert k v := by
  refine ext_find? (fun j => ?_)
  simp only [find?_insert]
  by_cases hk : j = k
  · rw [if_pos hk, if_neg (fun hk' => h (hk.symm.trans hk')), if_pos hk]
  · simp [hk]

/-! ## Rebuilding a map entry by entry -/

/-- An entry whose key does not occur in `l` may be assigned before or
after the entries of `l`. -/
theorem foldl_insert_comm (l : List (κ × ν)) (m : OrdMap κ ν) (k : κ) (v : ν)
    (h : ∀ e ∈ l, e.1 ≠ k) :
    l.foldl (fun m e => m.insert e.1 e.2) (m.insert k v)
      = (l.foldl (fun m e => m.insert e.1 e.2) m).insert k v := by
  induction l generalizing m with
  | nil => rfl
  | cons e l ih =>
      rw [List.foldl_cons, List.foldl_cons, insert_comm m v e.2 (h e (by simp)).symm]
      exact ih (m.insert e.1 e.2) (fun e' he' => h e' (by simp [he']))

/-- Entries with distinct keys, assigned one after the other. -/
theorem find?_foldl_insert (l : List (κ × ν)) (m : OrdMap κ ν) (k : κ)
    (hl : l.Pairwise (fun a b => a.1 ≠ b.1)) :
    (l.foldl (fun m e => m.insert e.1 e.2) m).find? k
      = ((l.find? (fun e => decide (e.1 = k))).map (·.2)).or (m.find? k) := by
  induction l generalizing m with
  | nil => simp
  | cons e l ih =>
      obtain ⟨he, hl⟩ := List.pairwise_cons.mp hl
      rw [List.foldl_cons, ih _ hl, find?_insert, List.find?_cons]
      by_cases hk : e.1 = k
      · have hnone : l.find? (fun e => decide (e.1 = k)) = none := by
          refine List.find?_eq_none.mpr (fun e' he' => ?_)
          simp only [decide_eq_true_eq]
          exact fun hc => he e' he' (hk.trans hc.symm)
        simp [hnone, hk]
      · simp [hk, Ne.symm hk]

/-- Assigning the entries of a map one after the other gives the map. -/
theorem foldl_insert_entries (m : OrdMap κ ν) :
    m.entries.foldl (fun m e => m.insert e.1 e.2) empty = m := by
  refine ext_find? (fun k => ?_)
  rw [find?_foldl_insert _ _ _ (m.sorted.imp ne_of_lt), find?_empty, Option.or_none]
  rfl

/-- Leaving one entry out gives the map without its key. -/
theorem foldl_insert_split {m : OrdMap κ ν} {l r : List (κ × ν)} {k : κ} {v : ν}
    (hsplit : m.entries = l ++ (k, v) :: r) :
    r.foldl (fun m e => m.insert e.1 e.2) (l.foldl (fun m e => m.insert e.1 e.2) empty)
      = m.erase k := by
  rw [← List.foldl_append, ← entries_erase hsplit]
  exact foldl_insert_entries _

/-! ## Neighbours of a bound -/

theorem mem_below {m : OrdMap κ ν} {k : κ} {e : κ × ν} :
    e ∈ m.below k ↔ m.find? e.1 = some e.2 ∧ e.1 < k := by
  rw [find?_eq_some_iff]
  simp [below]

theorem mem_lowerBound {m : OrdMap κ ν} {k : κ} {e : κ × ν} :
    e ∈ m.lowerBound k ↔ m.find? e.1 = some e.2 ∧ k ≤ e.1 := by
  rw [find?_eq_some_iff]
  simp [lowerBound]

/-- A scan upward from a bound that stops at the first key not below `hi`
sees every entry in between. -/
theorem mem_takeWhile_lowerBound {m : OrdMap κ ν} {k hi : κ} {e : κ × ν} :
    e ∈ (m.lowerBound k).takeWhile (fun e => decide (e.1 < hi)) ↔
      m.find? e.1 = some e.2 ∧ k ≤ e.1 ∧ e.1 < hi := by
  rw [← and_assoc, ← mem_lowerBound]
  have hsorted : (m.lowerBound k).Pairwise (fun a b => a.1 < b.1) := m.sorted.filter _
  generalize m.lowerBound k = l at *
  induction l with
  | nil => simp
  | cons a l ih =>
      obtain ⟨ha, hl⟩ := List.pairwise_cons.mp hsorted
      by_cases hlt : a.1 < hi
      · have hrest : e ∈ l.takeWhile (fun e => decide (e.1 < hi)) ↔ e ∈ l ∧ e.1 < hi := ih hl
        rw [List.takeWhile_cons_of_pos (by simpa using hlt), List.mem_cons, List.mem_cons, hrest]
        constructor
        · rintro (rfl | ⟨hin, hbelow⟩)
          · exact ⟨Or.inl rfl, hlt⟩
          · exact ⟨Or.inr hin, hbelow⟩
        · rintro ⟨rfl | hin, hbelow⟩
          · exact Or.inl rfl
          · exact Or.inr ⟨hin, hbelow⟩
      · rw [List.takeWhile_cons_of_neg (by simpa using hlt)]
        refine iff_of_false (by simp) ?_
        rintro ⟨hin, hbelow⟩
        rcases List.mem_cons.mp hin with rfl | hin
        · exact hlt hbelow
        · exact hlt (lt_trans (ha e hin) hbelow)

/-- The entry just before the bound is the greatest entry below it. -/
theorem getLast?_below {m : OrdMap κ ν} {k : κ} {e : κ × ν}
    (h : (m.below k).getLast? = some e) :
    m.find? e.1 = some e.2 ∧ e.1 < k ∧
      ∀ k' v', m.find? k' = some v' → k' < k → k' ≤ e.1 := by
  have he := mem_below.mp (List.mem_of_getLast? h)
  refine ⟨he.1, he.2, fun k' v' hf hlt => ?_⟩
  have hmem : (k', v') ∈ m.below k := mem_below.mpr ⟨hf, hlt⟩
  have hsorted : (m.below k).Pairwise (fun a b => a.1 < b.1) := m.sorted.filter _
  obtain ⟨init, hinit⟩ := List.getLast?_eq_some_iff.mp h
  rw [hinit] at hmem hsorted
  rcases List.mem_append.mp hmem with hin | hin
  · exact le_of_lt ((List.pairwise_append.mp hsorted).2.2 _ hin e (by simp))
  · have : (k', v') = e := by simpa using hin
    exact le_of_eq (congrArg Prod.fst this)

theorem getLast?_below_none {m : OrdMap κ ν} {k : κ} (h : (m.below k).getLast? = none)
    (k' : κ) (v' : ν) (hf : m.find? k' = some v') : k ≤ k' := by
  have hnil : m.below k = [] := List.getLast?_eq_none_iff.mp h
  by_contra hlt
  have : (k', v') ∈ m.below k := mem_below.mpr ⟨hf, not_le.mp hlt⟩
  rw [hnil] at this
  cases this

/-- The entry at the bound is the least entry not below it. -/
theorem head?_lowerBound {m : OrdMap κ ν} {k : κ} {e : κ × ν}
    (h : (m.lowerBound k).head? = some e) :
    m.find? e.1 = some e.2 ∧ k ≤ e.1 ∧
      ∀ k' v', m.find? k' = some v' → k ≤ k' → e.1 ≤ k' := by
  have he := mem_lowerBound.mp (List.mem_of_head? h)
  refine ⟨he.1, he.2, fun k' v' hf hle => ?_⟩
  have hmem : (k', v') ∈ m.lowerBound k := mem_lowerBound.mpr ⟨hf, hle⟩
  have hsorted : (m.lowerBound k).Pairwise (fun a b => a.1 < b.1) := m.sorted.filter _
  obtain ⟨tail, htail⟩ := List.head?_eq_some_iff.mp h
  rw [htail] at hmem hsorted
  rcases List.mem_cons.mp hmem with hin | hin
  · exact le_of_eq (congrArg Prod.fst hin).symm
  · exact le_of_lt ((List.pairwise_cons.mp hsorted).1 _ hin)

theorem head?_lowerBound_none {m : OrdMap κ ν} {k : κ} (h : (m.lowerBound k).head? = none)
    (k' : κ) (v' : ν) (hf : m.find? k' = some v') : k' < k := by
  have hnil : m.lowerBound k = [] := List.head?_eq_none_iff.mp h
  by_contra hge
  have : (k', v') ∈ m.lowerBound k := mem_lowerBound.mpr ⟨hf, not_lt.mp hge⟩
  rw [hnil] at this
  cases this

/-- The first entry from the bound on that satisfies `p` is the least of
them. -/
theorem first_lowerBound {m : OrdMap κ ν} {k : κ} {p : κ × ν → Bool} {e : κ × ν}
    (h : (m.lowerBound k).find? p = some e) :
    m.find? e.1 = some e.2 ∧ p e = true ∧
      ∀ k' v', m.find? k' = some v' → k ≤ k' → p (k', v') = true → e.1 ≤ k' := by
  have he := mem_lowerBound.mp (List.mem_of_find?_eq_some h)
  refine ⟨he.1, List.find?_some h, fun k' v' hf hle hp => ?_⟩
  obtain ⟨_, skipped, rest, heq, hskip⟩ := List.find?_eq_some_iff_append.mp h
  have hmem : (k', v') ∈ m.lowerBound k := mem_lowerBound.mpr ⟨hf, hle⟩
  have hsorted : (m.lowerBound k).Pairwise (fun a b => a.1 < b.1) := m.sorted.filter _
  rw [heq] at hmem hsorted
  rcases List.mem_append.mp hmem with hin | hin
  · have := hskip _ hin
    simp [hp] at this
  · rcases List.mem_cons.mp hin with rfl | hin
    · exact le_rfl
    · have htail := (List.pairwise_append.mp hsorted).2.1
      exact le_of_lt ((List.pairwise_cons.mp htail).1 _ hin)

/-! ## Weights -/

/-- An entry contributes its weight on top of the rest. -/
theorem weigh_erase (f : κ → ν → Nat) {m : OrdMap κ ν} {k : κ} {v : ν}
    (h : m.find? k = some v) : weigh f m = f k v + weigh f (m.erase k) := by
  obtain ⟨l, r, hsplit⟩ := List.append_of_mem (find?_eq_some_iff.mp h)
  have herase := entries_erase hsplit
  simp only [weigh, herase, hsplit, List.map_append, List.map_cons, List.sum_append,
    List.sum_cons]
  omega

theorem weigh_insert (f : κ → ν → Nat) {m : OrdMap κ ν} {k : κ} (v : ν)
    (h : m.find? k = none) : weigh f (m.insert k v) = f k v + weigh f m := by
  have herase : (m.insert k v).erase k = m := by
    refine ext_find? (fun k' => ?_)
    rw [find?_erase]
    split
    · rename_i hk; rw [hk, h]
    · rename_i hk; exact find?_insert_ne m v hk
  rw [weigh_erase f (find?_insert_self m k v), herase]

/-- Assigning over an entry that weighs nothing adds the new weight. -/
theorem weigh_insert_over (f : κ → ν → Nat) {m : OrdMap κ ν} {k : κ} (v : ν)
    (h : ∀ w, m.find? k = some w → f k w = 0) : weigh f (m.insert k v) = f k v + weigh f m := by
  rw [← insert_erase, weigh_insert f v (find?_erase_self m k)]
  cases hf : m.find? k with
  | none => rw [erase_of_none hf]
  | some w => rw [weigh_erase f hf, h w hf, Nat.zero_add]

/-- Reassigning a key exchanges one weight for the other. -/
theorem weigh_update (f : κ → ν → Nat) {m : OrdMap κ ν} {k : κ} {v : ν} (w : ν)
    (h : m.find? k = some v) : weigh f (m.insert k w) + f k v = f k w + weigh f m := by
  rw [← insert_erase, weigh_insert f w (find?_erase_self m k), weigh_erase f h]
  omega

theorem weigh_entry_le (f : κ → ν → Nat) {m : OrdMap κ ν} {k : κ} {v : ν}
    (h : m.find? k = some v) : f k v ≤ weigh f m := by
  rw [weigh_erase f h]
  omega

theorem weigh_le_weigh {f g : κ → ν → Nat} {m : OrdMap κ ν}
    (h : ∀ k v, m.find? k = some v → f k v ≤ g k v) : weigh f m ≤ weigh g m := by
  refine List.sum_le_sum (fun e he => ?_)
  exact h e.1 e.2 (find?_eq_some_iff.mpr he)

/-- Of two weights, one below the other, the totals agree exactly if the
weights of all entries do. -/
theorem weigh_eq_weigh_iff {f g : κ → ν → Nat} {m : OrdMap κ ν}
    (h : ∀ k v, m.find? k = some v → f k v ≤ g k v) :
    weigh f m = weigh g m ↔ ∀ k v, m.find? k = some v → f k v = g k v := by
  constructor
  · intro heq k v hf
    have hrest : weigh f (m.erase k) ≤ weigh g (m.erase k) :=
      weigh_le_weigh (fun k' v' hf' => h k' v' (find?_erase_some_iff.mp hf').2)
    have hle := h k v hf
    rw [weigh_erase f hf, weigh_erase g hf] at heq
    omega
  · intro heq
    exact Nat.le_antisymm (weigh_le_weigh h)
      (weigh_le_weigh (fun k v hf => (heq k v hf).symm.le))

/-- The entries whose value satisfies `p`. -/
def restrict (p : ν → Bool) (m : OrdMap κ ν) : OrdMap κ ν :=
  ⟨m.entries.filter (fun e => p e.2), m.sorted.filter _⟩

theorem find?_restrict {p : ν → Bool} {m : OrdMap κ ν} {k : κ} {v : ν} :
    (m.restrict p).find? k = some v ↔ m.find? k = some v ∧ p v = true := by
  rw [find?_eq_some_iff, find?_eq_some_iff]
  exact List.mem_filter

/-- A weight that vanishes off `p` only sees the entries in `p`. -/
theorem weigh_restrict {f : κ → ν → Nat} {p : ν → Bool}
    (hzero : ∀ k v, p v = false → f k v = 0) (m : OrdMap κ ν) :
    weigh f (m.restrict p) = weigh f m := by
  have hlist : ∀ l : List (κ × ν),
      ((l.filter (fun e => p e.2)).map (fun e => f e.1 e.2)).sum
        = (l.map (fun e => f e.1 e.2)).sum := by
    intro l
    induction l with
    | nil => rfl
    | cons e l ih =>
        rw [List.filter_cons, List.map_cons, List.sum_cons]
        cases hp : p e.2 with
        | true => simp [ih]
        | false => simp [ih, hzero e.1 e.2 hp]
  exact hlist m.entries

theorem weigh_congr {f : κ → ν → Nat} {p : ν → Bool}
    (hzero : ∀ k v, p v = false → f k v = 0) {m m' : OrdMap κ ν}
    (h : ∀ k v, p v = true → (m.find? k = some v ↔ m'.find? k = some v)) :
    weigh f m = weigh f m' := by
  have hsame : m.restrict p = m'.restrict p := by
    refine ext_find? (fun k => Option.ext (fun v => ?_))
    rw [find?_restrict, find?_restrict]
    constructor
    · rintro ⟨hf, hp⟩; exact ⟨(h k v hp).mp hf, hp⟩
    · rintro ⟨hf, hp⟩; exact ⟨(h k v hp).mpr hf, hp⟩
  rw [← weigh_restrict hzero m, ← weigh_restrict hzero m', hsame]

/-! ## Rewriting the values -/

/-- Apply `f` to every value. -/
def mapValues {μ : Type v} (f : ν → μ) (m : OrdMap κ ν) : OrdMap κ μ :=
  ⟨m.entries.map (fun e => (e.1, f e.2)), List.pairwise_map.mpr m.sorted⟩

theorem find?_mapValues {μ : Type v} (f : ν → μ) (m : OrdMap κ ν) (k : κ) :
    (m.mapValues f).find? k = (m.find? k).map f := by
  simp [find?, mapValues, List.find?_map, Function.comp_def]

@[simp] theorem mapValues_empty {μ : Type v} (f : ν → μ) :
    (empty : OrdMap κ ν).mapValues f = empty := rfl

theorem mapValues_insert {μ : Type v} (f : ν → μ) (m : OrdMap κ ν) (k : κ) (v : ν) :
    (m.insert k v).mapValues f = (m.mapValues f).insert k (f v) := by
  refine ext_find? (fun k' => ?_)
  simp only [find?_mapValues, find?_insert]
  split <;> rfl

theorem mapValues_erase {μ : Type v} (f : ν → μ) (m : OrdMap κ ν) (k : κ) :
    (m.erase k).mapValues f = (m.mapValues f).erase k := by
  refine ext_find? (fun k' => ?_)
  simp only [find?_mapValues, find?_erase]
  split <;> rfl

theorem mapValues_emplace {μ : Type v} (f : ν → μ) (m : OrdMap κ ν) (k : κ) (v : ν) :
    (m.emplace k v).mapValues f = (m.mapValues f).emplace k (f v) := by
  unfold emplace
  rw [find?_mapValues, Option.isSome_map]
  split
  · rfl
  · exact mapValues_insert f m k v

theorem below_mapValues {μ : Type v} (f : ν → μ) (m : OrdMap κ ν) (k : κ) :
    (m.mapValues f).below k = (m.below k).map (fun e => (e.1, f e.2)) := by
  simp only [below, mapValues, List.filter_map]
  rfl

theorem lowerBound_mapValues {μ : Type v} (f : ν → μ) (m : OrdMap κ ν) (k : κ) :
    (m.mapValues f).lowerBound k = (m.lowerBound k).map (fun e => (e.1, f e.2)) := by
  simp only [lowerBound, mapValues, List.filter_map]
  rfl

/-! ## Renaming the keys -/

/-- Move every entry along `ρ` and apply `f` to its value. -/
def rekey (ρ : Equiv.Perm κ) (f : ν → ν) (m : OrdMap κ ν) : OrdMap κ ν :=
  (m.entries.map (fun e => (ρ e.1, f e.2))).foldl (fun m e => m.insert e.1 e.2) empty

section Rekey

variable (ρ : Equiv.Perm κ) (f : ν → ν)

theorem find?_rekey (m : OrdMap κ ν) (k : κ) : (m.rekey ρ f).find? (ρ k) = (m.find? k).map f := by
  have hdistinct : (m.entries.map (fun e => (ρ e.1, f e.2))).Pairwise (fun a b => a.1 ≠ b.1) :=
    List.pairwise_map.mpr (m.sorted.imp (fun h => ρ.injective.ne (ne_of_lt h)))
  rw [rekey, find?_foldl_insert _ _ _ hdistinct, find?_empty, Option.or_none, find?]
  simp [List.find?_map, Function.comp_def]

/-- Maps that agree at the images of all keys are equal. -/
theorem ext_rekey {m m' : OrdMap κ ν} (h : ∀ k, m.find? (ρ k) = m'.find? (ρ k)) : m = m' := by
  refine ext_find? (fun k => ?_)
  obtain ⟨k, rfl⟩ := ρ.surjective k
  exact h k

@[simp] theorem rekey_empty : (empty : OrdMap κ ν).rekey ρ f = empty := rfl

theorem rekey_insert (m : OrdMap κ ν) (k : κ) (v : ν) :
    (m.insert k v).rekey ρ f = (m.rekey ρ f).insert (ρ k) (f v) := by
  refine ext_rekey ρ (fun k' => ?_)
  simp only [find?_rekey, find?_insert, ρ.injective.eq_iff]
  split <;> rfl

theorem rekey_erase (m : OrdMap κ ν) (k : κ) :
    (m.erase k).rekey ρ f = (m.rekey ρ f).erase (ρ k) := by
  refine ext_rekey ρ (fun k' => ?_)
  simp only [find?_rekey, find?_erase, ρ.injective.eq_iff]
  split <;> rfl

/-- Where the renaming keeps the order, the entries stay in place. -/
theorem entries_rekey (m : OrdMap κ ν) (hmono : StrictMonoOn ρ {k | k ∈ m}) :
    (m.rekey ρ f).entries = m.entries.map (fun e => (ρ e.1, f e.2)) := by
  have hmem : ∀ e ∈ m.entries, e.1 ∈ m :=
    fun e he => mem_iff_find?.mpr ⟨e.2, find?_eq_some_iff.mpr he⟩
  have hsorted : (m.entries.map (fun e => (ρ e.1, f e.2))).Pairwise (fun a b => a.1 < b.1) :=
    List.pairwise_map.mpr (m.sorted.imp_of_mem
      (fun ha hb h => hmono (hmem _ ha) (hmem _ hb) h))
  exact congrArg entries (foldl_insert_entries ⟨_, hsorted⟩)

end Rekey

/-! ## Sizes -/

theorem weigh_one (m : OrdMap κ ν) : weigh (fun _ _ => 1) m = m.size := by
  simp [weigh, size]

theorem size_insert_of_none {m : OrdMap κ ν} {k : κ} (v : ν) (h : m.find? k = none) :
    (m.insert k v).size = m.size + 1 := by
  rw [← weigh_one, ← weigh_one, weigh_insert _ v h, Nat.add_comm]

theorem size_insert_of_some {m : OrdMap κ ν} {k : κ} {v : ν} (w : ν) (h : m.find? k = some v) :
    (m.insert k w).size = m.size := by
  have hweigh := weigh_update (fun _ _ => 1) w h
  rw [weigh_one, weigh_one] at hweigh
  omega

theorem size_erase_le (m : OrdMap κ ν) (k : κ) : (m.erase k).size ≤ m.size :=
  List.length_filter_le _ _

/-! ## Values and keys -/

theorem mem_values {m : OrdMap κ ν} {v : ν} :
    v ∈ m.entries.map (·.2) ↔ ∃ k, m.find? k = some v := by
  simp [find?_eq_some_iff]

theorem nodup_keys (m : OrdMap κ ν) : (m.entries.map (·.1)).Nodup :=
  List.pairwise_map.mpr (m.sorted.imp ne_of_lt)

theorem mem_keys {m : OrdMap κ ν} {k : κ} : k ∈ m.entries.map (·.1) ↔ ∃ v, m.find? k = some v := by
  simp [find?_eq_some_iff]

/-- Entries that have each their own entry in another map, weighing as much
at least, weigh no more than the other map. -/
theorem weigh_le_of_key {κ' : Type*} {ν' : Type*} [LinearOrder κ'] {f : κ → ν → Nat}
    {g : κ' → ν' → Nat} {m : OrdMap κ ν} {m' : OrdMap κ' ν'} (key : ν' → κ)
    (h : ∀ k v, m.find? k = some v → ∃ k' v', m'.find? k' = some v' ∧ key v' = k ∧ f k v ≤ g k' v') :
    weigh f m ≤ weigh g m' := by
  -- entry by entry, taking its partner out of the other map
  have hlist : ∀ (l : List (κ × ν)) (m' : OrdMap κ' ν'), (l.map (·.1)).Nodup →
      (∀ e ∈ l, ∃ k' v', m'.find? k' = some v' ∧ key v' = e.1 ∧ f e.1 e.2 ≤ g k' v') →
      (l.map (fun e => f e.1 e.2)).sum ≤ weigh g m' := by
    intro l
    induction l with
    | nil => exact fun _ _ _ => Nat.zero_le _
    | cons e l ih =>
        intro m' hnodup hpartner
        obtain ⟨hnot, hnodup'⟩ := List.nodup_cons.mp hnodup
        obtain ⟨k', v', hf', hkey, hle⟩ := hpartner e List.mem_cons_self
        rw [List.map_cons, List.sum_cons, weigh_erase g hf']
        refine Nat.add_le_add hle (ih (m'.erase k') hnodup' (fun e₂ he₂ => ?_))
        obtain ⟨k₂, v₂, hf₂, hkey₂, hle₂⟩ := hpartner e₂ (List.mem_cons_of_mem _ he₂)
        refine ⟨k₂, v₂, find?_erase_some_iff.mpr ⟨?_, hf₂⟩, hkey₂, hle₂⟩
        rintro rfl
        rw [hf'] at hf₂
        cases hf₂
        exact hnot (List.mem_map.mpr ⟨e₂, he₂, hkey₂.symm.trans hkey⟩)
  exact hlist m.entries m' m.nodup_keys (fun e he => h e.1 e.2 (find?_eq_some_iff.mpr he))

end OrdMap

end GpuMemoryService.Lib
