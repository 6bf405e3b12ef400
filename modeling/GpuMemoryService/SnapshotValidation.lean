/-
GpuMemoryService.SnapshotValidation — what the checks of the snapshot
decoder say about the snapshot.

`validate_record` is read as a statement in exact arithmetic
(`WellFormed`). The two validation loops together say that every record is
well-formed and that no id occurs twice. The overlap check sorts the
intervals and compares neighbours, which finds every overlap; the sum of
the live sizes is accumulated modulo 2^64, but intervals that do not
overlap cannot add up to more than the arena, so the sum is exact and its
check never fails by itself. `checkSnapshot_ok_iff` states the outcome:
the checks pass exactly on the snapshots that are `Sound`.
-/
import Mathlib.Data.Set.BooleanAlgebra
import Mathlib.Order.CompletePartialOrder
import Mathlib.Order.Interval.Set.Disjoint
import GpuMemoryService.RegionLayout
import GpuMemoryService.SnapshotFormat

namespace GpuMemoryService.Persist

open Lib

/-! ## One record -/

/-- The interval of a record lies in the arena and holds the request, its
alignment is a power of two that divides its offset, its six enumerations
are declared and its generation is set. -/
structure WellFormed (managed : UInt64) (r : AllocationRecord) : Prop where
  requested : 0 < r.requestedBytes.toNat
  alignment : isPow2 r.alignment = true
  covers : r.requestedBytes.toNat ≤ r.regionSize.toNat
  inside : r.offset.toNat + r.regionSize.toNat ≤ managed.toNat
  aligned : r.alignment.toNat ∣ r.offset.toNat
  memClass : Declared r.memClass
  reclaimability : Declared r.reclaimability
  movability : Declared r.movability
  residency : Declared r.residency
  lifecycle : Declared r.lifecycle
  provenance : Declared r.provenance
  generation : r.generation.value ≠ 0

theorem enumOk_iff {E : Type} [ByteEnum E] {e last : E}
    (hlast : (toByte last).toNat + 1 = (ByteEnum.enumerators (E := E)).length) :
    ¬ (!enumOk e (toByte last)) = true ↔ Declared e := by
  rw [Bool.not_eq_true', Bool.not_eq_false, enumOk, decide_eq_true_iff, UInt8.le_iff_toNat_le,
    declared_iff_toByte, ← hlast]
  omega

/-- One of the checks that end in `return false`. -/
theorem guard_iff {c : Prop} [Decidable c] {b : Bool} :
    (if c then false else b) = true ↔ ¬ c ∧ b = true := by
  split <;> simp [*]

/-- The subtraction in the bounds check does not wrap. -/
theorem interval_inside_iff {offset size managed : UInt64} :
    ¬ (decide (offset > managed) || decide (size > managed - offset)) = true ↔
      offset.toNat + size.toNat ≤ managed.toNat := by
  simp only [Bool.or_eq_true, decide_eq_true_eq, not_or, gt_iff_lt, not_lt,
    UInt64.le_iff_toNat_le]
  constructor
  · rintro ⟨hoff, hsize⟩
    rw [toNat_sub_of_ge hoff] at hsize
    omega
  · intro h
    have hoff : offset.toNat ≤ managed.toNat := by omega
    refine ⟨hoff, ?_⟩
    rw [toNat_sub_of_ge hoff]
    omega

theorem alignment_ok_iff {a : UInt64} : ¬ (a == 0 || (a &&& (a - 1)) != 0) = true ↔
    isPow2 a = true := by
  simp [isPow2]

theorem offset_aligned_iff {offset a : UInt64} :
    ¬ (offset % a != 0) = true ↔ a.toNat ∣ offset.toNat := by
  rw [Nat.dvd_iff_mod_eq_zero, ← UInt64.toNat_mod]
  simp [← UInt64.toNat_inj]

theorem validateRecord_iff {r : AllocationRecord} {managed : UInt64} :
    validateRecord r managed = true ↔ WellFormed managed r := by
  have hlt : ¬ r.regionSize < r.requestedBytes ↔ r.requestedBytes.toNat ≤ r.regionSize.toNat := by
    rw [UInt64.lt_iff_toNat_lt, not_lt]
  have hpos : ¬ (r.requestedBytes == 0) = true ↔ 0 < r.requestedBytes.toNat := by
    rw [toNat_pos_iff]
    simp
  have hgen : ¬ (r.generation.value == 0) = true ↔ r.generation.value ≠ 0 := by simp
  unfold validateRecord
  simp only [guard_iff, hpos, hlt, hgen, alignment_ok_iff, interval_inside_iff, offset_aligned_iff]
  rw [enumOk_iff (by decide), enumOk_iff (by decide), enumOk_iff (by decide),
    enumOk_iff (by decide), enumOk_iff (by decide), enumOk_iff (by decide)]
  constructor
  · rintro ⟨h1, h2, h3, h4, h5, h6, h7, h8, h9, h10, h11, h12, _⟩
    exact ⟨h1, h2, h3, h4, h5, h6, h7, h8, h9, h10, h11, h12⟩
  · rintro ⟨h1, h2, h3, h4, h5, h6, h7, h8, h9, h10, h11, h12⟩
    exact ⟨h1, h2, h3, h4, h5, h6, h7, h8, h9, h10, h11, h12, trivial⟩

/-! ## The loops -/

theorem admitRecord_ok_iff {invalid : String} {managed : UInt64} {seen out : List AllocationId}
    {r : AllocationRecord} :
    admitRecord invalid managed seen r = .ok out ↔
      WellFormed managed r ∧ r.id ∉ seen ∧ out = r.id :: seen := by
  unfold admitRecord
  rw [reject_bind_ok, reject_bind_ok, ← validateRecord_iff]
  simp only [pure, Except.pure, Except.ok.injEq, Bool.not_eq_false', decide_eq_false_iff_not,
    eq_comm (a := r.id :: seen)]

/-- A loop passes exactly if its records are well-formed and bring new and
different ids. -/
theorem foldlM_admitRecord_ok_iff {invalid : String} {managed : UInt64}
    {rs : List AllocationRecord} {seen out : List AllocationId} :
    rs.foldlM (admitRecord invalid managed) seen = .ok out ↔
      (∀ r ∈ rs, WellFormed managed r) ∧ (rs.map (·.id)).Nodup ∧ (∀ r ∈ rs, r.id ∉ seen) ∧
        out = (rs.map (·.id)).reverse ++ seen := by
  induction rs generalizing seen with
  | nil => simp [pure, Except.pure, eq_comm]
  | cons r rs ih =>
      rw [List.foldlM_cons, bind_ok]
      simp only [admitRecord_ok_iff, ih]
      constructor
      · rintro ⟨_, ⟨hr, hnew, rfl⟩, hrs, hnodup, hseen, rfl⟩
        have hfresh : ∀ q ∈ rs, q.id ≠ r.id ∧ q.id ∉ seen := by
          intro q hq
          simpa using hseen q hq
        refine ⟨by simpa using ⟨hr, hrs⟩, ?_, ?_, by simp⟩
        · rw [List.map_cons, List.nodup_cons]
          refine ⟨?_, hnodup⟩
          intro hmem
          obtain ⟨q, hq, heq⟩ := List.mem_map.mp hmem
          exact (hfresh q hq).1 heq
        · simpa using ⟨hnew, fun q hq => (hfresh q hq).2⟩
      · rintro ⟨hall, hnodup, hseen, rfl⟩
        rw [List.map_cons, List.nodup_cons] at hnodup
        refine ⟨_, ⟨hall r (by simp), hseen r (by simp), rfl⟩, fun q hq => hall q (by simp [hq]),
          hnodup.2, fun q hq => ?_, by simp⟩
        have hne : q.id ≠ r.id := fun heq => hnodup.1 (List.mem_map.mpr ⟨q, hq, heq⟩)
        simpa using ⟨hne, hseen q (by simp [hq])⟩

/-! ## Live intervals -/

/-- The bytes of a record's region. -/
def region (r : AllocationRecord) : Set Nat :=
  Set.Ico r.offset.toNat (r.offset.toNat + r.regionSize.toNat)

/-- The same interval by its ends. -/
def ends (r : AllocationRecord) : Nat × Nat :=
  (r.offset.toNat, r.offset.toNat + r.regionSize.toNat)

section Live

variable {managed : UInt64} {r : AllocationRecord} {rs : List AllocationRecord}

theorem WellFormed.size_pos (h : WellFormed managed r) : 0 < r.regionSize.toNat := by
  have h1 := h.requested
  have h2 := h.covers
  omega

/-- The end of the interval does not wrap. -/
theorem WellFormed.toNat_end (h : WellFormed managed r) :
    (r.offset + r.regionSize).toNat = r.offset.toNat + r.regionSize.toNat := by
  have h1 := h.inside
  have h2 := managed.toNat_lt
  exact toNat_add_of_lt (by omega)

theorem disjoint_region_iff {q : AllocationRecord} (hr : WellFormed managed r)
    (hq : WellFormed managed q) : Disjoint (region r) (region q) ↔ Apart (ends r) (ends q) := by
  have hr' := hr.size_pos
  have hq' := hq.size_pos
  unfold region ends Apart
  rw [Set.Ico_disjoint_Ico]
  dsimp only
  omega

/-- The words of the overlap check are apart when the exact ends are. -/
theorem apart_words_iff {q : AllocationRecord} (hr : WellFormed managed r)
    (hq : WellFormed managed q) :
    Apart (r.offset, r.offset + r.regionSize) (q.offset, q.offset + q.regionSize) ↔
      Apart (ends r) (ends q) := by
  unfold Apart ends
  dsimp only
  rw [UInt64.le_iff_toNat_le, UInt64.le_iff_toNat_le, hr.toNat_end, hq.toNat_end]

/-- The overlap check finds every overlap. -/
theorem overlapsNext_intervals_iff (h : ∀ r ∈ rs, WellFormed managed r) :
    overlapsNext (sortIntervals (intervals rs)) = false ↔
      rs.Pairwise (fun r q => Disjoint (region r) (region q)) := by
  have hne : ∀ p ∈ intervals rs, p.1 < p.2 := by
    intro p hp
    obtain ⟨r, hr, rfl⟩ := List.mem_map.mp hp
    have hpos := (h r hr).size_pos
    show r.offset < r.offset + r.regionSize
    rw [UInt64.lt_iff_toNat_lt, (h r hr).toNat_end]
    omega
  rw [overlapsNext_sort_iff hne, intervals, List.pairwise_map]
  refine List.Pairwise.iff_of_mem (fun {r q} hr hq => ?_)
  rw [apart_words_iff (h r hr) (h q hq), disjoint_region_iff (h r hr) (h q hq)]

/-- The exact sum of the live sizes is at most the capacity. -/
theorem sum_sizes_le (h : ∀ r ∈ rs, WellFormed managed r)
    (hd : rs.Pairwise (fun r q => Disjoint (region r) (region q))) :
    (rs.map (·.regionSize.toNat)).sum ≤ managed.toNat := by
  have hin : ∀ p ∈ rs.map ends, p.1 < p.2 ∧ p.2 ≤ managed.toNat := by
    intro p hp
    obtain ⟨r, hr, rfl⟩ := List.mem_map.mp hp
    have hpos := (h r hr).size_pos
    exact ⟨by simpa [ends] using hpos, (h r hr).inside⟩
  have hapart : (rs.map ends).Pairwise Apart := by
    rw [List.pairwise_map]
    exact hd.imp_of_mem (fun hr hq hrq => (disjoint_region_iff (h _ hr) (h _ hq)).mp hrq)
  have hsum := sum_length_le hin hapart
  simpa [ends, Function.comp_def] using hsum

theorem sumLive_eq (rs : List AllocationRecord) :
    sumLive rs = UInt64.ofNat (rs.map (·.regionSize.toNat)).sum := by
  have hfold : ∀ (s : UInt64), rs.foldl (fun sum r => sum + r.regionSize) s
      = s + UInt64.ofNat (rs.map (·.regionSize.toNat)).sum := by
    induction rs with
    | nil => simp
    | cons r rs ih =>
        intro s
        rw [List.foldl_cons, ih, List.map_cons, List.sum_cons, UInt64.ofNat_add,
          UInt64.ofNat_toNat, UInt64.add_assoc]
  rw [sumLive, hfold, UInt64.zero_add]

/-- The check of the sum never fails by itself. -/
theorem sumLive_le (h : ∀ r ∈ rs, WellFormed managed r)
    (hd : rs.Pairwise (fun r q => Disjoint (region r) (region q))) : ¬ sumLive rs > managed := by
  have hsum := sum_sizes_le h hd
  have hlt := managed.toNat_lt
  rw [gt_iff_lt, UInt64.lt_iff_toNat_lt, sumLive_eq, UInt64.toNat_ofNat',
    Nat.mod_eq_of_lt (by omega)]
  omega

end Live

/-! ## The snapshot -/

/-- What the checks establish. -/
structure Sound (s : PersistSnapshot) : Prop where
  records : ∀ r ∈ s.records, WellFormed s.domain.managedCapacity r
  retired : ∀ r ∈ s.retired, WellFormed s.domain.managedCapacity r
  ids : ((s.records ++ s.retired).map (·.id)).Nodup
  apart : s.records.Pairwise (fun r q => Disjoint (region r) (region q))

theorem Sound.wellFormed {s : PersistSnapshot} (h : Sound s) {r : AllocationRecord}
    (hr : r ∈ s.records ++ s.retired) : WellFormed s.domain.managedCapacity r := by
  rcases List.mem_append.mp hr with hr | hr
  · exact h.records r hr
  · exact h.retired r hr

theorem checkSnapshot_ok_iff {s : PersistSnapshot} : checkSnapshot s = .ok () ↔ Sound s := by
  have hlast : ∀ {bad : Bool} {message : String}, reject bad message = .ok () ↔ bad = false := by
    intro bad message
    cases bad <;> simp [reject, fail]
  unfold checkSnapshot
  rw [bind_ok]
  constructor
  · rintro ⟨seen, hseen, h⟩
    obtain ⟨out, hout, hchecks⟩ := bind_ok.mp h
    obtain ⟨_, hfinal⟩ := reject_bind_ok.mp hchecks
    obtain ⟨hrecords, hnodup, _, rfl⟩ := foldlM_admitRecord_ok_iff.mp hseen
    obtain ⟨hretired, hnodup', hnew, _⟩ := foldlM_admitRecord_ok_iff.mp hout
    refine ⟨hrecords, hretired, ?_, (overlapsNext_intervals_iff hrecords).mp (hlast.mp hfinal)⟩
    rw [List.map_append, List.nodup_append]
    refine ⟨hnodup, hnodup', fun i hi j hj hij => ?_⟩
    obtain ⟨r, hr, rfl⟩ := List.mem_map.mp hj
    exact hnew r hr (by rw [← hij]; simpa using hi)
  · intro h
    have hids := h.ids
    rw [List.map_append, List.nodup_append] at hids
    refine ⟨_, foldlM_admitRecord_ok_iff.mpr ⟨h.records, hids.1, by simp, rfl⟩, ?_⟩
    refine bind_ok.mpr ⟨_, foldlM_admitRecord_ok_iff.mpr ⟨h.retired, hids.2.1, ?_, rfl⟩, ?_⟩
    · intro r hr hmem
      have hmem' : r.id ∈ s.records.map (·.id) := by simpa using hmem
      exact hids.2.2 _ hmem' _ (List.mem_map.mpr ⟨r, hr, rfl⟩) rfl
    · refine reject_bind_ok.mpr ⟨?_, hlast.mpr ((overlapsNext_intervals_iff h.records).mpr h.apart)⟩
      exact decide_eq_false (sumLive_le h.records h.apart)

/-- A snapshot that is written and read back. -/
structure Storable (s : PersistSnapshot) : Prop where
  readable : Readable s
  strings : ∀ r ∈ s.records ++ s.retired, RecordFits r
  sound : Sound s

theorem forall₂_write {rs : List AllocationRecord} (h : ∀ r ∈ rs, RecordFits r) :
    List.Forall₂ RecordEncoding rs (rs.map writeRecord) := by
  induction rs with
  | nil => exact .nil
  | cons r rs ih =>
      exact .cons (recordEncoding_write (h r (by simp))) (ih (fun q hq => h q (by simp [hq])))

theorem forall₂_fits {rs : List AllocationRecord} {ws : List Bytes}
    (h : List.Forall₂ RecordEncoding rs ws) : ∀ r ∈ rs, RecordFits r := by
  induction h with
  | nil => simp
  | cons hr _ ih => simpa using ⟨hr.1, ih⟩

/-- Both lists of a storable snapshot are written as the reader reads
them. -/
theorem Storable.encodings {s : PersistSnapshot} (h : Storable s) :
    List.Forall₂ RecordEncoding s.records (s.records.map writeRecord) ∧
      List.Forall₂ RecordEncoding s.retired (s.retired.map writeRecord) :=
  ⟨forall₂_write (fun r hr => h.strings r (List.mem_append_left _ hr)),
    forall₂_write (fun r hr => h.strings r (List.mem_append_right _ hr))⟩

/-- A decoded snapshot can be stored again. -/
theorem storable_of_decode {b : Bytes} {s : PersistSnapshot} (h : decode b = .ok s) :
    Storable s := by
  obtain ⟨w, ⟨hread, live, retired, hlive, hretired, _⟩, _, hcheck⟩ := decode_ok_iff.mp h
  refine ⟨hread, fun r hr => ?_, checkSnapshot_ok_iff.mp hcheck⟩
  rcases List.mem_append.mp hr with hr | hr
  · exact forall₂_fits hlive r hr
  · exact forall₂_fits hretired r hr

/-- **Exactly the storable snapshots round trip.** -/
theorem decode_encode_iff {s : PersistSnapshot} : decode (encode s) = .ok s ↔ Storable s := by
  constructor
  · exact storable_of_decode
  · intro h
    obtain ⟨hlive, hretired⟩ := h.encodings
    exact decode_ok_iff.mpr ⟨encodeBody s, ⟨h.readable, _, _, hlive, hretired, encodeBody_eq s⟩, rfl,
      checkSnapshot_ok_iff.mpr h.sound⟩

/-- The decoder's own checks decide it. -/
instance instDecidableStorable (s : PersistSnapshot) : Decidable (Storable s) :=
  decidable_of_iff
    ((s.magic = kMagic ∧ s.version = kVersion ∧ s.domain.watermarks.valid = true ∧
      s.records.length ≤ 0x100000 ∧ s.retired.length ≤ 0x100000) ∧
      (∀ r ∈ s.records ++ s.retired,
        r.owner.length ≤ 0x100000 ∧ r.backingRef.length ≤ 0x100000) ∧
      checkSnapshot s = .ok ())
    ⟨fun ⟨⟨h1, h2, h3, h4, h5⟩, hstrings, hcheck⟩ =>
      ⟨⟨h1, h2, h3, h4, h5⟩, hstrings, checkSnapshot_ok_iff.mp hcheck⟩,
    fun ⟨⟨h1, h2, h3, h4, h5⟩, hstrings, hsound⟩ =>
      ⟨⟨h1, h2, h3, h4, h5⟩, hstrings, checkSnapshot_ok_iff.mpr hsound⟩⟩

/-! ## Round trip and soundness -/

/-- **Round trip.** A snapshot with the default magic and version, valid
watermarks, lists and strings within their bounds, valid records, distinct
ids and disjoint live regions is read back as it was written. -/
theorem snapshot_round_trip (s : PersistSnapshot) (hmagic : s.magic = kMagic)
    (hversion : s.version = kVersion) (hwatermarks : s.domain.watermarks.valid = true)
    (hrecords : s.records.length ≤ 2 ^ 20) (hretired : s.retired.length ≤ 2 ^ 20)
    (hstrings : ∀ r ∈ s.records ++ s.retired,
      r.owner.length ≤ 2 ^ 20 ∧ r.backingRef.length ≤ 2 ^ 20)
    (hvalid : ∀ r ∈ s.records ++ s.retired, validateRecord r s.domain.managedCapacity = true)
    (hids : ((s.records ++ s.retired).map (·.id)).Nodup)
    (hdisjoint : s.records.Pairwise (fun r q => Disjoint (region r) (region q))) :
    decode (encode s) = .ok s := by
  refine decode_encode_iff.mpr ⟨⟨hmagic, hversion, hwatermarks, hrecords, hretired⟩, hstrings, ?_⟩
  refine ⟨fun r hr => ?_, fun r hr => ?_, hids, hdisjoint⟩
  · exact validateRecord_iff.mp (hvalid r (by simp [hr]))
  · exact validateRecord_iff.mp (hvalid r (by simp [hr]))

/-- Two live records side by side and a retired one where the first is now. -/
def sampleSnapshot : PersistSnapshot :=
  let record : AllocationRecord :=
    { id := ⟨3⟩, generation := ⟨1⟩, requestedBytes := 4000, regionSize := 4096, alignment := 4096
      memClass := .userBuffer, residency := .resident, lifecycle := .resident, owner := [97, 98] }
  { domain := { managedCapacity := 0x100000, provenance := .measured }
    records := [record, { record with id := ⟨4⟩, offset := 4096, recoverable := true }]
    retired := [{ record with id := ⟨2⟩, lifecycle := .released }]
    nextAllocId := 5
    historyCount := 1 }

theorem sampleSnapshot_storable : Storable sampleSnapshot := by
  decide +kernel

theorem sampleSnapshot_round_trip : decode (encode sampleSnapshot) = .ok sampleSnapshot :=
  snapshot_round_trip sampleSnapshot rfl rfl (by decide +kernel) (by decide +kernel)
    (by decide +kernel) (by decide +kernel) (by decide +kernel) (by decide +kernel)
    sampleSnapshot_storable.sound.apart

/-- The exact-arithmetic content of an accepted snapshot. -/
structure Validated (s : PersistSnapshot) : Prop where
  ids : ((s.records ++ s.retired).map (·.id)).Nodup
  generations : ∀ r ∈ s.records ++ s.retired, r.generation.value ≠ 0
  alignments : ∀ r ∈ s.records ++ s.retired,
    (∃ k, r.alignment.toNat = 2 ^ k) ∧ r.alignment.toNat ∣ r.offset.toNat
  bounds : ∀ r ∈ s.records ++ s.retired,
    0 < r.requestedBytes.toNat ∧ r.requestedBytes.toNat ≤ r.regionSize.toNat ∧
      r.offset.toNat + r.regionSize.toNat ≤ s.domain.managedCapacity.toNat
  enums : ∀ r ∈ s.records ++ s.retired,
    Declared r.memClass ∧ Declared r.reclaimability ∧ Declared r.movability ∧
      Declared r.residency ∧ Declared r.lifecycle ∧ Declared r.provenance
  disjoint : s.records.Pairwise (fun r q => Disjoint (region r) (region q))
  total : (s.records.map (·.regionSize.toNat)).sum ≤ s.domain.managedCapacity.toNat

/-- **Soundness of the decoder**: what it accepts is a valid snapshot. -/
theorem decode_validated (b : Bytes) (s : PersistSnapshot) (h : decode b = .ok s) :
    Validated s := by
  have hsound := (storable_of_decode h).sound
  have hall : ∀ r ∈ s.records ++ s.retired, WellFormed s.domain.managedCapacity r :=
    fun r hr => hsound.wellFormed hr
  refine ⟨hsound.ids, fun r hr => (hall r hr).generation, fun r hr => ?_, fun r hr => ?_,
    fun r hr => ?_, hsound.apart, sum_sizes_le hsound.records hsound.apart⟩
  · obtain ⟨k, _, hk⟩ := RegionAllocator.exists_pow_of_isPow2 (hall r hr).alignment
    exact ⟨⟨k, hk⟩, (hall r hr).aligned⟩
  · exact ⟨(hall r hr).requested, (hall r hr).covers, (hall r hr).inside⟩
  · have hr' := hall r hr
    exact ⟨hr'.memClass, hr'.reclaimability, hr'.movability, hr'.residency, hr'.lifecycle,
      hr'.provenance⟩

theorem sampleSnapshot_validated :
    decode (encode sampleSnapshot) = .ok sampleSnapshot ∧ Validated sampleSnapshot := by
  have hdecode := decode_encode_iff.mpr sampleSnapshot_storable
  exact ⟨hdecode, decode_validated _ _ hdecode⟩

end GpuMemoryService.Persist
