/-
GpuMemoryService.Lib.Partition — interval maps that partition a set of
positions.

An ordered map whose keys are start positions and whose values have a
length is read as a family of half-open intervals. `Partitions m S` says
that these intervals are nonempty, pairwise disjoint and cover exactly
`S`. The set `S` need not be an interval: an algorithm that takes an
interval out of the map and puts others back works on maps with holes,
and `Partitions.erase` / `Partitions.insert` are the two rules every such
algorithm is reduced to.

`Separated p m` is the canonical-form condition: no two touching intervals
both satisfy `p`. Over a whole interval the two together give back the
sequential reading of the map: `Partitions.tiles` (each entry starts where
the previous one ends) and `Separated.isChain`.
-/
import Mathlib.Order.Interval.Set.Basic
import Mathlib.Order.Monotone.Basic
import GpuMemoryService.Lib.OrdMap

namespace GpuMemoryService.Lib

universe u v

variable {κ : Type u} {ν : Type v} [LinearOrder κ]

section

variable (pos : κ → Nat) (len : ν → Nat)

/-- The positions an entry occupies. -/
def span (k : κ) (v : ν) : Set Nat := Set.Ico (pos k) (pos k + len v)

/-- The intervals of `m` are nonempty, disjoint and cover exactly `S`. -/
structure Partitions (m : OrdMap κ ν) (S : Set Nat) : Prop where
  len_pos : ∀ {k v}, m.find? k = some v → 0 < len v
  apart : ∀ {k v k' v'}, m.find? k = some v → m.find? k' = some v' →
    pos k < pos k' → pos k + len v ≤ pos k'
  covers : ∀ b, b ∈ S ↔ ∃ k v, m.find? k = some v ∧ b ∈ span pos len k v

/-- No two touching intervals both satisfy `p`. -/
def Separated (p : ν → Prop) (m : OrdMap κ ν) : Prop :=
  ∀ k v k' v', m.find? k = some v → m.find? k' = some v' → p v → p v' →
    pos k + len v ≠ pos k'

/-- The entries follow one another from `lo` to `hi` without a gap. -/
def Tiles : Nat → List (κ × ν) → Nat → Prop
  | lo, [], hi => lo = hi
  | lo, e :: es, hi => pos e.1 = lo ∧ 0 < len e.2 ∧ Tiles (lo + len e.2) es hi

end

variable {pos : κ → Nat} {len : ν → Nat}

omit [LinearOrder κ] in
theorem mem_span {k : κ} {v : ν} {b : Nat} :
    b ∈ span pos len k v ↔ pos k ≤ b ∧ b < pos k + len v := Iff.rfl

omit [LinearOrder κ] in
/-- The lengths of a tiling add up to the interval. -/
theorem Tiles.sum_len {lo hi : Nat} {es : List (κ × ν)} (h : Tiles pos len lo es hi) :
    lo + (es.map (fun e => len e.2)).sum = hi := by
  induction es generalizing lo with
  | nil => simpa [Tiles] using h
  | cons e es ih =>
      have := ih h.2.2
      rw [List.map_cons, List.sum_cons]
      omega

namespace Partitions

variable {m : OrdMap κ ν} {S : Set Nat}

theorem start_mem (h : Partitions pos len m S) {k : κ} {v : ν} (hf : m.find? k = some v) :
    pos k ∈ S :=
  (h.covers _).mpr ⟨k, v, hf, mem_span.mpr ⟨le_rfl, by have := h.len_pos hf; omega⟩⟩

theorem span_subset (h : Partitions pos len m S) {k : κ} {v : ν} (hf : m.find? k = some v)
    {b : Nat} (hlo : pos k ≤ b) (hhi : b < pos k + len v) : b ∈ S :=
  (h.covers _).mpr ⟨k, v, hf, mem_span.mpr ⟨hlo, hhi⟩⟩

/-- One position belongs to one interval. -/
theorem same_start (h : Partitions pos len m S) {k k' : κ} {v v' : ν}
    (hf : m.find? k = some v) (hf' : m.find? k' = some v') {b : Nat}
    (hb : b ∈ span pos len k v) (hb' : b ∈ span pos len k' v') : pos k = pos k' := by
  rw [mem_span] at hb hb'
  rcases Nat.lt_trichotomy (pos k) (pos k') with hlt | heq | hgt
  · have := h.apart hf hf' hlt; omega
  · exact heq
  · have := h.apart hf' hf hgt; omega

/-- Taking an entry out leaves a hole where it stood. -/
theorem erase (hpos : Function.Injective pos) (h : Partitions pos len m S) {k : κ} {v : ν}
    (hf : m.find? k = some v) :
    Partitions pos len (m.erase k) (S \ span pos len k v) where
  len_pos := by
    intro k' v' hf'
    exact h.len_pos (OrdMap.find?_erase_some_iff.mp hf').2
  apart := by
    intro k₁ v₁ k₂ v₂ hf₁ hf₂ hlt
    have hold₁ := (OrdMap.find?_erase_some_iff.mp hf₁).2
    have hold₂ := (OrdMap.find?_erase_some_iff.mp hf₂).2
    exact h.apart hold₁ hold₂ hlt
  covers := by
    intro b
    constructor
    · rintro ⟨hb, hout⟩
      obtain ⟨k', v', hf', hb'⟩ := (h.covers b).mp hb
      have hne : k' ≠ k := by
        rintro rfl
        rw [hf] at hf'
        cases hf'
        exact hout hb'
      exact ⟨k', v', by rw [OrdMap.find?_erase_ne m hne]; exact hf', hb'⟩
    · rintro ⟨k', v', hf', hb'⟩
      obtain ⟨hne, hold⟩ := OrdMap.find?_erase_some_iff.mp hf'
      refine ⟨(h.covers b).mpr ⟨k', v', hold, hb'⟩, fun hin => hne ?_⟩
      exact hpos (h.same_start hold hf hb' hin)

/-- An entry put into a hole must fit there; then it fills it. -/
theorem insert (h : Partitions pos len m S) {k : κ} {v : ν} (hlen : 0 < len v)
    (hhole : ∀ b ∈ span pos len k v, b ∉ S) :
    Partitions pos len (m.insert k v) (S ∪ span pos len k v) := by
  have hstart : pos k ∈ span pos len k v := mem_span.mpr ⟨le_rfl, by omega⟩
  have hleft : ∀ {k' v'}, m.find? k' = some v' → pos k' < pos k → pos k' + len v' ≤ pos k := by
    intro k' v' hf' hlt
    by_contra hover
    exact hhole (pos k) hstart (h.span_subset hf' (by omega) (by omega))
  have hright : ∀ {k' v'}, m.find? k' = some v' → pos k < pos k' → pos k + len v ≤ pos k' := by
    intro k' v' hf' hlt
    by_contra hover
    exact hhole (pos k') (mem_span.mpr ⟨by omega, by omega⟩) (h.start_mem hf')
  have hfresh : ∀ {v'}, m.find? k ≠ some v' := fun hf' =>
    hhole (pos k) hstart (h.start_mem hf')
  refine ⟨?_, ?_, ?_⟩
  · intro k' v' hf'
    rcases OrdMap.find?_insert_some_iff.mp hf' with ⟨_, hv⟩ | ⟨_, hold⟩
    · rw [hv]
      exact hlen
    · exact h.len_pos hold
  · intro k₁ v₁ k₂ v₂ hf₁ hf₂ hlt
    rcases OrdMap.find?_insert_some_iff.mp hf₁ with ⟨hk₁, hv₁⟩ | ⟨_, hold₁⟩
    · rcases OrdMap.find?_insert_some_iff.mp hf₂ with ⟨hk₂, _⟩ | ⟨_, hold₂⟩
      · rw [hk₁, hk₂] at hlt
        omega
      · rw [hk₁] at hlt ⊢
        rw [hv₁]
        exact hright hold₂ hlt
    · rcases OrdMap.find?_insert_some_iff.mp hf₂ with ⟨hk₂, _⟩ | ⟨_, hold₂⟩
      · rw [hk₂] at hlt ⊢
        exact hleft hold₁ hlt
      · exact h.apart hold₁ hold₂ hlt
  · intro b
    constructor
    · rintro (hb | hb)
      · obtain ⟨k', v', hf', hb'⟩ := (h.covers b).mp hb
        have hne : k' ≠ k := by
          rintro rfl
          exact hfresh hf'
        exact ⟨k', v', by rw [OrdMap.find?_insert_ne m v hne]; exact hf', hb'⟩
      · exact ⟨k, v, OrdMap.find?_insert_self m k v, hb⟩
    · rintro ⟨k', v', hf', hb'⟩
      rcases OrdMap.find?_insert_some_iff.mp hf' with ⟨hk, hv⟩ | ⟨_, hold⟩
      · rw [hk, hv] at hb'
        exact Or.inr hb'
      · exact Or.inl ((h.covers b).mpr ⟨k', v', hold, hb'⟩)

theorem congr_set (h : Partitions pos len m S) {T : Set Nat} (hST : ∀ b, b ∈ S ↔ b ∈ T) :
    Partitions pos len m T :=
  ⟨h.len_pos, h.apart, fun b => (hST b).symm.trans (h.covers b)⟩

/-- Read in order, the entries of a partitioned interval tile it. -/
theorem tiles (hpos : StrictMono pos) {lo hi : Nat} (hle : lo ≤ hi)
    (h : Partitions pos len m (Set.Ico lo hi)) : Tiles pos len lo m.entries hi := by
  induction hes : m.entries generalizing m lo with
  | nil =>
      have hnone : ∀ k v, m.find? k ≠ some v := by
        intro k v hf
        have := OrdMap.find?_eq_some_iff.mp hf
        rw [hes] at this
        cases this
      by_contra hne
      have hlt : lo < hi := lt_of_le_of_ne hle hne
      obtain ⟨k, v, hf, _⟩ := (h.covers lo).mp ⟨le_rfl, hlt⟩
      exact hnone k v hf
  | cons e es ih =>
      obtain ⟨k, v⟩ := e
      have hf : m.find? k = some v := OrdMap.find?_eq_some_iff.mpr (by rw [hes]; simp)
      have hsorted := m.sorted
      rw [hes] at hsorted
      have hleast : ∀ k' v', m.find? k' = some v' → k ≤ k' := by
        intro k' v' hf'
        have hmem := OrdMap.find?_eq_some_iff.mp hf'
        rw [hes] at hmem
        rcases List.mem_cons.mp hmem with heq | hin
        · exact le_of_eq (congrArg Prod.fst heq).symm
        · exact le_of_lt ((List.pairwise_cons.mp hsorted).1 _ hin)
      have hin : lo ≤ pos k ∧ pos k < hi := h.start_mem hf
      -- `lo` is covered by some entry, and no entry starts before the first one
      obtain ⟨k', v', hf', hb'⟩ := (h.covers lo).mp ⟨le_rfl, by omega⟩
      rw [mem_span] at hb'
      have hmono := hpos.monotone (hleast k' v' hf')
      have hstart : pos k = lo := by omega
      have hlen := h.len_pos hf
      have hend : pos k + len v ≤ hi := by
        have : pos k + len v - 1 < hi :=
          (h.span_subset (b := pos k + len v - 1) hf (by omega) (by omega)).2
        omega
      have hrest : (m.erase k).entries = es := OrdMap.entries_erase (l := []) hes
      have hpart : Partitions pos len (m.erase k) (Set.Ico (lo + len v) hi) := by
        refine (h.erase hpos.injective hf).congr_set (fun b => ?_)
        simp only [Set.mem_sdiff, Set.mem_Ico, mem_span]
        omega
      exact ⟨hstart, hlen, ih (by dsimp only; omega) hpart hrest⟩

/-- Two intervals that share a position are one. -/
theorem shared (hpos : Function.Injective pos) (h : Partitions pos len m S) {k k' : κ} {v v' : ν}
    {b : Nat} (hf : m.find? k = some v) (hf' : m.find? k' = some v')
    (hb : b ∈ span pos len k v) (hb' : b ∈ span pos len k' v') : k = k' := by
  rw [mem_span] at hb hb'
  apply hpos
  rcases Nat.lt_trichotomy (pos k) (pos k') with hlt | heq | hgt
  · have := h.apart hf hf' hlt
    omega
  · exact heq
  · have := h.apart hf' hf hgt
    omega

/-- A range that meets only intervals satisfying `p` lies inside one of
them: two such intervals would touch. -/
theorem inside_one (hpos : Function.Injective pos) {p : ν → Prop} (hsep : Separated pos len p m)
    (h : Partitions pos len m S) {a n : Nat} (hn : 0 < n)
    (hin : ∀ b, a ≤ b → b < a + n → b ∈ S)
    (hmeet : ∀ k v, m.find? k = some v → pos k < a + n → a < pos k + len v → p v) :
    ∃ k v, m.find? k = some v ∧ p v ∧ pos k ≤ a ∧ a + n ≤ pos k + len v := by
  obtain ⟨k, v, hf, hb⟩ := (h.covers a).mp (hin a le_rfl (by omega))
  rw [mem_span] at hb
  have hp : p v := hmeet k v hf (by omega) hb.2
  refine ⟨k, v, hf, hp, hb.1, ?_⟩
  by_contra hshort
  obtain ⟨k', v', hf', hb'⟩ := (h.covers (pos k + len v)).mp (hin _ (by omega) (by omega))
  rw [mem_span] at hb'
  have hp' : p v' := hmeet k' v' hf' (by omega) (by omega)
  have htouch : pos k + len v = pos k' := by
    rcases Nat.lt_trichotomy (pos k) (pos k') with hlt | heq | hgt
    · have := h.apart hf hf' hlt; omega
    · have hk := hpos heq
      subst hk
      rw [hf] at hf'
      cases hf'
      omega
    · have := h.apart hf' hf hgt
      have := h.len_pos hf
      omega
  exact hsep k v k' v' hf hf' hp hp' htouch

/-- The positions covered by intervals satisfying `p`. -/
def coveredBy (pos : κ → Nat) (len : ν → Nat) (p : ν → Prop) (m : OrdMap κ ν) : Set Nat :=
  {b | ∃ k v, m.find? k = some v ∧ p v ∧ b ∈ span pos len k v}

/-- An interval satisfying `p` lies inside one of the other map, when the
two maps cover the same positions with such intervals. -/
theorem inside_other (hpos : Function.Injective pos) {p : ν → Prop} {m' : OrdMap κ ν}
    (h : Partitions pos len m S) (h' : Partitions pos len m' S)
    (hsep' : Separated pos len p m')
    (hsame : coveredBy pos len p m ⊆ coveredBy pos len p m') {k : κ} {v : ν}
    (hf : m.find? k = some v) (hp : p v) :
    ∃ k' v', m'.find? k' = some v' ∧ p v' ∧ pos k' ≤ pos k ∧
      pos k + len v ≤ pos k' + len v' := by
  refine h'.inside_one hpos hsep' (h.len_pos hf) ?_ ?_
  · exact fun b h1 h2 => h.span_subset hf h1 h2
  · intro k' v' hf' h1 h2
    have hlen := h.len_pos hf
    have hlen' := h'.len_pos hf'
    -- a position both intervals have
    have hb : max (pos k) (pos k') ∈ span pos len k v := mem_span.mpr ⟨by omega, by omega⟩
    have hb' : max (pos k) (pos k') ∈ span pos len k' v' := mem_span.mpr ⟨by omega, by omega⟩
    obtain ⟨k'', v'', hf'', hp'', hb''⟩ := hsame ⟨k, v, hf, hp, hb⟩
    obtain rfl := h'.shared hpos hf'' hf' hb'' hb'
    rw [hf'] at hf''
    cases hf''
    exact hp''

/-- **Canonical form.** Two partitions of one set whose intervals with `p`
are separated and cover the same positions have the same intervals with
`p`. -/
theorem canonical (hpos : Function.Injective pos) {p : ν → Prop} {m' : OrdMap κ ν}
    (h : Partitions pos len m S) (h' : Partitions pos len m' S)
    (hsep : Separated pos len p m) (hsep' : Separated pos len p m')
    (hsame : coveredBy pos len p m = coveredBy pos len p m') {k : κ} {v : ν}
    (hf : m.find? k = some v) (hp : p v) :
    ∃ v', m'.find? k = some v' ∧ p v' ∧ len v' = len v := by
  obtain ⟨k', v', hf', hp', hlo, hhi⟩ := h.inside_other hpos h' hsep' hsame.le hf hp
  obtain ⟨k₂, v₂, hf₂, _, hlo₂, hhi₂⟩ := h'.inside_other hpos h hsep hsame.ge hf' hp'
  have hlen := h.len_pos hf
  -- the two steps lead from the interval to one that contains it, so to itself
  obtain rfl := h.shared hpos hf₂ hf (b := pos k) (mem_span.mpr ⟨by omega, by omega⟩)
    (mem_span.mpr ⟨le_rfl, by omega⟩)
  rw [hf] at hf₂
  cases hf₂
  have hk' : k' = k₂ := hpos (by omega)
  subst hk'
  exact ⟨v', hf', hp', by omega⟩

/-- The weights of the entries of a partitioned interval add up to it. -/
theorem weigh_len (hpos : StrictMono pos) {lo hi : Nat} (hle : lo ≤ hi)
    (h : Partitions pos len m (Set.Ico lo hi)) : lo + m.weigh (fun _ v => len v) = hi :=
  (h.tiles hpos hle).sum_len

end Partitions

omit [LinearOrder κ] in
/-- In a tiling, neighbours in the list are intervals that touch. -/
theorem Tiles.isChain {p : ν → Prop} {lo hi : Nat} {es : List (κ × ν)}
    (h : Tiles pos len lo es hi)
    (hsep : ∀ a ∈ es, ∀ b ∈ es, p a.2 → p b.2 → pos a.1 + len a.2 ≠ pos b.1) :
    es.IsChain (fun a b => ¬ (p a.2 ∧ p b.2)) := by
  induction es generalizing lo with
  | nil => exact List.IsChain.nil
  | cons a es ih =>
      obtain ⟨ha, _, hrest⟩ := h
      have htail := ih hrest (fun x hx y hy => hsep x (by simp [hx]) y (by simp [hy]))
      cases es with
      | nil => exact List.IsChain.singleton a
      | cons b es =>
          refine List.IsChain.cons_cons ?_ htail
          rintro ⟨hpa, hpb⟩
          refine hsep a (by simp) b (by simp) hpa hpb ?_
          rw [hrest.1, ha]

/-- Where no two neighbours satisfy `p`, the entries that do outnumber the
others by one at most. -/
theorem countP_le_of_isChain {α : Type*} {p : α → Bool} {l : List α}
    (h : l.IsChain (fun a b => ¬ (p a = true ∧ p b = true))) :
    l.countP p ≤ l.countP (fun a => !p a) + 1 := by
  -- a list that does not start with such an entry has no surplus at all
  have hboth : l.countP p ≤ l.countP (fun a => !p a) + 1 ∧
      ((∀ a ∈ l.head?, p a = false) → l.countP p ≤ l.countP (fun a => !p a)) := by
    induction l with
    | nil => simp
    | cons a l ih =>
        have htail : l.IsChain (fun a b => ¬ (p a = true ∧ p b = true)) ∧
            (p a = true → ∀ b ∈ l.head?, p b = false) := by
          cases l with
          | nil => exact ⟨List.IsChain.nil, by simp⟩
          | cons b l =>
              obtain ⟨hab, hrest⟩ := List.isChain_cons_cons.mp h
              refine ⟨hrest, fun hp c hc => ?_⟩
              cases hc
              simpa [hp] using hab
        obtain ⟨hone, hnone⟩ := ih htail.1
        by_cases hp : p a = true
        · have := hnone (htail.2 hp)
          simp [hp]
          omega
        · simp [hp]
          omega
  exact hboth.1

/-! ## Entries end to end, empty ones allowed -/

section Abuts

variable (pos : κ → Nat) (len : ν → Nat)

/-- Each entry starts where the one before it ends, from `lo` to `hi`. -/
def Abuts : Nat → List (κ × ν) → Nat → Prop
  | lo, [], hi => lo = hi
  | lo, e :: es, hi => pos e.1 = lo ∧ Abuts (lo + len e.2) es hi

end Abuts

namespace Abuts

variable {lo hi : Nat} {es : List (κ × ν)}

omit [LinearOrder κ]

theorem sum_len (h : Abuts pos len lo es hi) : lo + (es.map (fun e => len e.2)).sum = hi := by
  induction es generalizing lo with
  | nil => simpa [Abuts] using h
  | cons e es ih =>
      have := ih h.2
      rw [List.map_cons, List.sum_cons]
      omega

theorem le (h : Abuts pos len lo es hi) : lo ≤ hi := by
  have := h.sum_len
  omega

/-- Every entry lies between the two ends. -/
theorem inside (h : Abuts pos len lo es hi) :
    ∀ e ∈ es, lo ≤ pos e.1 ∧ pos e.1 + len e.2 ≤ hi := by
  induction es generalizing lo with
  | nil => exact fun e he => by cases he
  | cons e es ih =>
      obtain ⟨hpos, hrest⟩ := h
      intro x hx
      rcases List.mem_cons.mp hx with rfl | hin
      · have := hrest.le
        omega
      · have := ih hrest x hin
        omega

/-- Every position between the ends lies in an entry. -/
theorem exists_covering (h : Abuts pos len lo es hi) {b : Nat} (hlo : lo ≤ b) (hhi : b < hi) :
    ∃ e ∈ es, b ∈ span pos len e.1 e.2 := by
  induction es generalizing lo with
  | nil =>
      have heq : lo = hi := h
      omega
  | cons e es ih =>
      obtain ⟨hpos, hrest⟩ := h
      by_cases hb : b < lo + len e.2
      · refine ⟨e, List.mem_cons_self, ?_⟩
        rw [mem_span, hpos]
        exact ⟨hlo, hb⟩
      · obtain ⟨x, hx, hin⟩ := ih hrest (by omega)
        exact ⟨x, List.mem_cons_of_mem e hx, hin⟩

/-- Two entries that share a position are one entry. -/
theorem eq_of_shared (h : Abuts pos len lo es hi) {a b : κ × ν} (ha : a ∈ es) (hb : b ∈ es)
    {x : Nat} (hxa : x ∈ span pos len a.1 a.2) (hxb : x ∈ span pos len b.1 b.2) : a = b := by
  rw [mem_span] at hxa hxb
  induction es generalizing lo with
  | nil => cases ha
  | cons e es ih =>
      obtain ⟨hpos, hrest⟩ := h
      rcases List.mem_cons.mp ha with rfl | hina
      · rcases List.mem_cons.mp hb with rfl | hinb
        · rfl
        · have := (hrest.inside b hinb).1
          omega
      · rcases List.mem_cons.mp hb with rfl | hinb
        · have := (hrest.inside a hina).1
          omega
        · exact ih hrest hina hinb

end Abuts

end GpuMemoryService.Lib
