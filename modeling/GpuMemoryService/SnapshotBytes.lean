/-
GpuMemoryService.SnapshotBytes — what a stored file can hide from the
decoder: bytes that read as the same flag, and bytes it casts to an
enumeration and never checks.

The conditions are read off the file. The bytes before the first count have
fixed places; `liveSpans` and `retiredSpans` cut the two lists into the
bytes of their records, with the reader of the code deciding where each
record ends. Inside a record the places are fixed up to the owner string.

* The managed capacity, the id counter and the ids can be read off the
  file (`decode_words`).
* A file is what `encode` writes for its snapshot exactly if every flag
  byte is 0 or 1 (`encode_decode_iff`).
* A decoded snapshot holds only declared enumerators and no live record
  that was released or retired exactly if three bytes of the domain and the
  lifecycle bytes of the live records say so (`decode_possible_iff`).
-/
import GpuMemoryService.SnapshotValidation

namespace GpuMemoryService.Persist

open Lib

/-! ## Cutting a file into records -/

/-- The bytes of the next `n` records, and what follows them. -/
def recordSpans : Nat → Bytes → List Bytes × Bytes
  | 0, b => ([], b)
  | n + 1, b =>
      match readRecord.run b with
      | none => ([], b)
      | some (_, rest) =>
          let (spans, rest') := recordSpans n rest
          (b.take (b.length - rest.length) :: spans, rest')

/-- The little-endian count at the front. -/
def countAt (b : Bytes) : Nat := gather (b.take 4)

/-- Magic, version and domain. -/
def headLength : Nat := 163

def liveSpans (b : Bytes) : List Bytes :=
  (recordSpans (countAt (b.drop headLength)) (b.drop (headLength + 4))).1

/-- The file from the count of retired records on. -/
def afterLive (b : Bytes) : Bytes :=
  (recordSpans (countAt (b.drop headLength)) (b.drop (headLength + 4))).2

def retiredSpans (b : Bytes) : List Bytes :=
  (recordSpans (countAt (afterLive b)) ((afterLive b).drop 4)).1

theorem recordSpans_append {rs : List AllocationRecord} {ws : List Bytes}
    (h : List.Forall₂ RecordEncoding rs ws) (rest : Bytes) :
    recordSpans rs.length (ws.flatten ++ rest) = (ws, rest) := by
  induction h with
  | nil => rfl
  | @cons r w rs ws hr _ ih =>
      have hread := record_recognizes.run_append hr (ws.flatten ++ rest)
      have hspan : (w ++ (ws.flatten ++ rest)).take
          ((w ++ (ws.flatten ++ rest)).length - (ws.flatten ++ rest).length) = w := by
        rw [List.length_append, Nat.add_sub_cancel]
        exact List.take_left
      rw [List.flatten_cons, List.append_assoc, List.length_cons, recordSpans, hread]
      simp only [ih, hspan]

theorem length_u8 (v : UInt8) : (Writer.u8 v).length = 1 := length_putU8 v

theorem length_u32 (v : UInt32) : (Writer.u32 v).length = 4 := length_putU32 v

theorem length_u64 (v : UInt64) : (Writer.u64 v).length = 8 := length_putU64 v

@[simp] theorem length_writeDomain (d : MemoryDomain) : (writeDomain d).length = 155 := by
  unfold writeDomain
  simp [length_u64, length_u8]

theorem countAt_append {n : Nat} (hn : n ≤ 0x100000) (rest : Bytes) :
    countAt (Writer.u32 (UInt32.ofNat n) ++ rest) = n := by
  have hfit : (UInt32.ofNat n).toNat = n := by
    rw [UInt32.toNat_ofNat']
    exact Nat.mod_eq_of_lt (by omega)
  have hmod : n % 256 ^ 4 = n := Nat.mod_eq_of_lt (by omega)
  rw [countAt, List.take_left' (length_u32 _), Writer.u32, putU32, hfit, gather_spread, hmod]

section Spans

variable {s : PersistSnapshot} {live retired : List Bytes}

/-- The head of a body. -/
theorem bodyBytes_split (s : PersistSnapshot) (live retired : List Bytes) (rest : Bytes) :
    bodyBytes s live retired ++ rest
      = (Writer.u32 kMagic ++ Writer.u32 kVersion ++ writeDomain s.domain) ++
        (Writer.u32 (UInt32.ofNat s.records.length) ++ (live.flatten ++
          (Writer.u32 (UInt32.ofNat s.retired.length) ++ (retired.flatten ++
            (Writer.u64 s.nextAllocId ++ (Writer.u64 s.historyCount ++ rest)))))) := by
  unfold bodyBytes
  simp only [List.append_assoc]

theorem length_head (d : MemoryDomain) :
    (Writer.u32 kMagic ++ Writer.u32 kVersion ++ writeDomain d).length = headLength := by
  simp [length_u32, headLength]

theorem recordSpans_body (hs : Readable s) (hlive : List.Forall₂ RecordEncoding s.records live)
    (rest : Bytes) :
    recordSpans (countAt ((bodyBytes s live retired ++ rest).drop headLength))
        ((bodyBytes s live retired ++ rest).drop (headLength + 4))
      = (live, Writer.u32 (UInt32.ofNat s.retired.length) ++ (retired.flatten ++
          (Writer.u64 s.nextAllocId ++ (Writer.u64 s.historyCount ++ rest)))) := by
  rw [bodyBytes_split, ← List.drop_drop, List.drop_left' (length_head s.domain),
    countAt_append hs.records_le, List.drop_left' (length_u32 _)]
  exact recordSpans_append hlive _

theorem liveSpans_body (hs : Readable s) (hlive : List.Forall₂ RecordEncoding s.records live)
    (rest : Bytes) : liveSpans (bodyBytes s live retired ++ rest) = live := by
  rw [liveSpans, recordSpans_body hs hlive]

theorem retiredSpans_body (hs : Readable s) (hlive : List.Forall₂ RecordEncoding s.records live)
    (hretired : List.Forall₂ RecordEncoding s.retired retired) (rest : Bytes) :
    retiredSpans (bodyBytes s live retired ++ rest) = retired := by
  have hafter : afterLive (bodyBytes s live retired ++ rest)
      = Writer.u32 (UInt32.ofNat s.retired.length) ++ (retired.flatten ++
          (Writer.u64 s.nextAllocId ++ (Writer.u64 s.historyCount ++ rest))) := by
    rw [afterLive, recordSpans_body hs hlive]
  rw [retiredSpans, hafter, countAt_append hs.retired_le, List.drop_left' (length_u32 _),
    recordSpans_append hretired]

end Spans

/-- The file of a decoded snapshot, with the spans of its records. -/
theorem decode_spans {b : Bytes} {s : PersistSnapshot} (h : decode b = .ok s) :
    List.Forall₂ RecordEncoding s.records (liveSpans b) ∧
      List.Forall₂ RecordEncoding s.retired (retiredSpans b) ∧
      b = bodyBytes s (liveSpans b) (retiredSpans b) ++
        Writer.u32 (crc32 (bodyBytes s (liveSpans b) (retiredSpans b))) := by
  obtain ⟨w, ⟨hs, live, retired, hlive, hretired, hw⟩, hb, _⟩ := decode_ok_iff.mp h
  have h1 : liveSpans b = live := by
    rw [hb, hw]
    exact liveSpans_body hs hlive _
  have h2 : retiredSpans b = retired := by
    rw [hb, hw]
    exact retiredSpans_body hs hlive hretired _
  rw [h1, h2, ← hw]
  exact ⟨hlive, hretired, hb⟩

/-! ## Words at their places -/

/-- The little-endian word at a place. -/
def wordAt (b : Bytes) (place : Nat) : Nat := gather ((b.drop place).take 8)

/-- The managed capacity in the domain. -/
def fileManaged (b : Bytes) : Nat := wordAt b 64

/-- The counter stands before the history count and the checksum. -/
def fileNext (b : Bytes) : Nat := wordAt b (b.length - 20)

/-- A record starts with its id. -/
def fileIds (b : Bytes) : List Nat := (liveSpans b ++ retiredSpans b).map (fun span => wordAt span 0)

theorem wordAt_append {w : Bytes} {place : Nat} (hw : w.length = place) (v : UInt64)
    (rest : Bytes) : wordAt (w ++ (Writer.u64 v ++ rest)) place = v.toNat := by
  have hfit : v.toNat % 256 ^ 8 = v.toNat := Nat.mod_eq_of_lt v.toNat_lt
  rw [wordAt, List.drop_left' hw, List.take_left' (length_u64 v), Writer.u64, putU64, gather_spread,
    hfit]

theorem fileManaged_body (s : PersistSnapshot) (live retired : List Bytes) (rest : Bytes) :
    fileManaged (bodyBytes s live retired ++ rest) = s.domain.managedCapacity.toNat := by
  obtain ⟨w, rest', hw, hsplit⟩ : ∃ w rest', w.length = 64 ∧
      bodyBytes s live retired ++ rest
        = w ++ (Writer.u64 s.domain.managedCapacity ++ rest') := by
    refine ⟨Writer.u32 kMagic ++ Writer.u32 kVersion ++ Writer.u64 s.domain.domainId.value ++
      Writer.u64 s.domain.domainGeneration.value ++ Writer.u64 s.domain.deviceId.value ++
      Writer.u64 s.domain.deviceGeneration.value ++ Writer.u64 s.domain.totalCapacity ++
      Writer.u64 s.domain.allocatorVisibleCapacity ++ Writer.u64 s.domain.reservedHeadroom, ?_⟩
    rw [bodyBytes_split]
    unfold writeDomain
    simp only [List.append_assoc]
    exact ⟨_, by simp [length_u32, length_u64], rfl⟩
  rw [hsplit]
  exact wordAt_append hw _ _

theorem fileNext_body (s : PersistSnapshot) (live retired : List Bytes) (stored : UInt32) :
    fileNext (bodyBytes s live retired ++ Writer.u32 stored) = s.nextAllocId.toNat := by
  obtain ⟨w, hsplit⟩ : ∃ w, bodyBytes s live retired ++ Writer.u32 stored
      = w ++ (Writer.u64 s.nextAllocId ++ (Writer.u64 s.historyCount ++ Writer.u32 stored)) := by
    unfold bodyBytes
    exact ⟨_, by rw [List.append_assoc, List.append_assoc]⟩
  have hlen : (bodyBytes s live retired ++ Writer.u32 stored).length - 20 = w.length := by
    rw [hsplit]
    simp [length_u64, length_u32]
  rw [fileNext, hlen, hsplit]
  exact wordAt_append rfl _ _

theorem wordAt_spans {rs : List AllocationRecord} {ws : List Bytes}
    (h : List.Forall₂ RecordEncoding rs ws) :
    ws.map (fun span => wordAt span 0) = rs.map (fun r => r.id.value.toNat) := by
  induction h with
  | nil => rfl
  | @cons r w _ _ hr _ ih =>
      obtain ⟨_, flag, _, hw⟩ := hr
      have hid : wordAt w 0 = r.id.value.toNat := by
        rw [hw]
        unfold recordBytes
        simp only [List.append_assoc]
        exact wordAt_append (w := []) rfl _ _
      rw [List.map_cons, List.map_cons, hid, ih]

/-- The words of a file are those of the snapshot it is read as. -/
theorem decode_words {b : Bytes} {s : PersistSnapshot} (h : decode b = .ok s) :
    fileManaged b = s.domain.managedCapacity.toNat ∧ fileNext b = s.nextAllocId.toNat ∧
      fileIds b = (s.records ++ s.retired).map (fun r => r.id.value.toNat) := by
  obtain ⟨hlive, hretired, hb⟩ := decode_spans h
  refine ⟨?_, ?_, ?_⟩
  · rw [hb]
    exact fileManaged_body _ _ _ _
  · rw [hb]
    exact fileNext_body _ _ _ _
  · rw [fileIds, List.map_append, wordAt_spans hlive, wordAt_spans hretired, List.map_append]

/-! ## Flags -/

/-- The flag byte is the last of a record. -/
def FlagCanonical (span : Bytes) : Prop := span.getLast? = some 0 ∨ span.getLast? = some 1

theorem getLast?_recordBytes (r : AllocationRecord) (flag : UInt8) :
    (recordBytes r flag).getLast? = some flag := by
  unfold recordBytes Writer.u8 putU8
  exact List.getLast?_concat

/-- A record is encoded as the writer would exactly if its flag byte is 0
or 1. -/
theorem RecordEncoding.eq_write_iff {r : AllocationRecord} {w : Bytes} (h : RecordEncoding r w) :
    w = writeRecord r ↔ FlagCanonical w := by
  obtain ⟨_, flag, hflag, hw⟩ := h
  rw [FlagCanonical, hw, getLast?_recordBytes]
  constructor
  · intro heq
    have hlast := congrArg List.getLast? heq
    rw [writeRecord, getLast?_recordBytes, getLast?_recordBytes] at hlast
    rw [hlast]
    cases r.recoverable <;> simp
  · rintro (h0 | h1)
    · rw [Option.some.injEq] at h0
      rw [writeRecord, hflag, h0]
      rfl
    · rw [Option.some.injEq] at h1
      rw [writeRecord, hflag, h1]
      rfl

theorem map_write_iff {rs : List AllocationRecord} {ws : List Bytes}
    (h : List.Forall₂ RecordEncoding rs ws) :
    ws = rs.map writeRecord ↔ ∀ w ∈ ws, FlagCanonical w := by
  induction h with
  | nil => simp
  | cons hr _ ih => rw [List.map_cons, List.cons.injEq, hr.eq_write_iff, ih, List.forall_mem_cons]

/-- Every flag byte of the file is 0 or 1. -/
def FlagsCanonical (b : Bytes) : Prop :=
  ∀ span ∈ liveSpans b ++ retiredSpans b, FlagCanonical span

theorem encode_eq_iff {b : Bytes} {s : PersistSnapshot} (h : decode b = .ok s) :
    encode s = b ↔ FlagsCanonical b := by
  obtain ⟨hlive, hretired, hb⟩ := decode_spans h
  have hfits := storable_of_decode h
  have hall : FlagsCanonical b ↔
      liveSpans b = s.records.map writeRecord ∧ retiredSpans b = s.retired.map writeRecord := by
    rw [FlagsCanonical, List.forall_mem_append, map_write_iff hlive, map_write_iff hretired]
  rw [hall]
  constructor
  · intro heq
    -- cut what the encoder wrote into records as well
    obtain ⟨hrecords, hgone⟩ := hfits.encodings
    rw [← heq, encode, encodeBody_eq]
    exact ⟨liveSpans_body hfits.readable hrecords _,
      retiredSpans_body hfits.readable hrecords hgone _⟩
  · rintro ⟨h1, h2⟩
    rw [hb, h1, h2, ← encodeBody_eq]
    rfl

/-- **When a file is canonical**: it is what the encoder writes for its
snapshot exactly if its flag bytes are 0 and 1, and there is one such file
for a snapshot. -/
theorem encode_decode_iff (b : Bytes) (s : PersistSnapshot) (h : decode b = .ok s) :
    (encode s = b ↔ FlagsCanonical b) ∧
      ∀ b', decode b' = .ok s → FlagsCanonical b → FlagsCanonical b' → b' = b := by
  constructor
  · exact encode_eq_iff h
  · intro b' h' hb hb'
    rw [← (encode_eq_iff h).mpr hb, ← (encode_eq_iff h').mpr hb']

theorem sampleSnapshot_canonical :
    decode (encode sampleSnapshot) = .ok sampleSnapshot ∧
      FlagsCanonical (encode sampleSnapshot) := by
  have hdecode := decode_encode_iff.mpr sampleSnapshot_storable
  exact ⟨hdecode, (encode_decode_iff _ _ hdecode).1.mp rfl⟩

/-- The sample's records, the flag of the first written as 2. -/
def looseSpans : List Bytes :=
  match sampleSnapshot.records with
  | [] => []
  | r :: rs => recordBytes r 2 :: rs.map writeRecord

def looseFile : Bytes :=
  let w := bodyBytes sampleSnapshot looseSpans (sampleSnapshot.retired.map writeRecord)
  w ++ Writer.u32 (crc32 w)

theorem looseSpans_encoding : List.Forall₂ RecordEncoding sampleSnapshot.records looseSpans := by
  have hstrings := sampleSnapshot_storable.strings
  refine .cons ⟨hstrings _ (by decide +kernel), 2, by decide +kernel, rfl⟩ (forall₂_write ?_)
  intro r hr
  exact hstrings r (by simp [sampleSnapshot] at hr ⊢; simp [hr])

/-- Two files of one snapshot: a flag byte of 2 reads as false. -/
theorem looseFile_not_canonical :
    decode looseFile = .ok sampleSnapshot ∧ decode (encode sampleSnapshot) = .ok sampleSnapshot ∧
      encode sampleSnapshot ≠ looseFile := by
  have hstorable := sampleSnapshot_storable
  have hdecode : decode looseFile = .ok sampleSnapshot :=
    decode_ok_iff.mpr ⟨_, ⟨hstorable.readable, _, _, looseSpans_encoding, hstorable.encodings.2, rfl⟩,
      rfl, checkSnapshot_ok_iff.mpr hstorable.sound⟩
  refine ⟨hdecode, decode_encode_iff.mpr hstorable, fun heq => ?_⟩
  have hflags := (encode_eq_iff hdecode).mp heq
  have hlive : liveSpans looseFile = looseSpans :=
    liveSpans_body hstorable.readable looseSpans_encoding _
  have hfirst : FlagCanonical (recordBytes (sampleSnapshot.records.head (by decide)) 2) :=
    hflags _ (by
      rw [hlive]
      exact List.mem_append_left _ List.mem_cons_self)
  rw [FlagCanonical, getLast?_recordBytes] at hfirst
  simp at hfirst

/-! ## Enumerations -/

/-- What the decoder is said to reject did not happen: every enumeration
holds a declared enumerator and no live record was released or retired. -/
structure Possible (s : PersistSnapshot) : Prop where
  pressure : Declared s.domain.pressure
  health : Declared s.domain.health
  provenance : Declared s.domain.provenance
  enums : ∀ r ∈ s.records ++ s.retired,
    Declared r.memClass ∧ Declared r.reclaimability ∧ Declared r.movability ∧
      Declared r.residency ∧ Declared r.lifecycle ∧ Declared r.provenance
  live : ∀ r ∈ s.records, r.lifecycle ≠ .released ∧ r.lifecycle ≠ .retired

/-- The byte at this place is that of a declared enumerator. -/
def DeclaredAt (E : Type) [ByteEnum E] (b : Bytes) (place : Nat) : Prop :=
  ∀ v, b[place]? = some v → v.toNat < (ByteEnum.enumerators (E := E)).length

/-- The same read off the file: the three bytes of the domain that are cast
and not checked, and the lifecycle bytes of the live records. -/
structure PossibleBytes (b : Bytes) : Prop where
  pressure : DeclaredAt PressureState b 128
  health : DeclaredAt DeviceHealth b 129
  provenance : DeclaredAt Provenance b 130
  live : ∀ span ∈ liveSpans b,
    span[72]? ≠ some (toByte LifecycleState.released) ∧
      span[72]? ≠ some (toByte LifecycleState.retired)

theorem declaredAt_iff {E : Type} [ByteEnum E] {b : Bytes} {place : Nat} {e : E}
    (h : b[place]? = some (toByte e)) : DeclaredAt E b place ↔ Declared e := by
  rw [declared_iff_toByte, DeclaredAt, h]
  simp

theorem toByte_eq_iff {E : Type} [ByteEnum E] (e e' : E) : toByte e = toByte e' ↔ e = e' := by
  constructor
  · intro h
    rw [← ByteEnum.ofByte_toByte e, h, ByteEnum.ofByte_toByte]
  · exact congrArg toByte

theorem getElem?_skip {w rest : Bytes} {n i : Nat} (hw : w.length = n) (hi : n ≤ i) :
    (w ++ rest)[i]? = rest[i - n]? := by
  rw [List.getElem?_append_right (by omega), hw]

/-- Where the three enumerations of a domain stand. -/
theorem getElem?_writeDomain (d : MemoryDomain) (rest : Bytes) :
    (writeDomain d ++ rest)[120]? = some (toByte d.pressure) ∧
      (writeDomain d ++ rest)[121]? = some (toByte d.health) ∧
      (writeDomain d ++ rest)[122]? = some (toByte d.provenance) := by
  unfold writeDomain
  simp only [List.append_assoc]
  iterate 15 rw [getElem?_skip (length_u64 _) (by decide), getElem?_skip (length_u64 _) (by decide),
    getElem?_skip (length_u64 _) (by decide)]
  exact ⟨rfl, rfl, rfl⟩

/-- Where the lifecycle of a record stands. -/
theorem getElem?_recordBytes (r : AllocationRecord) (flag : UInt8) :
    (recordBytes r flag)[72]? = some (toByte r.lifecycle) := by
  unfold recordBytes
  simp only [List.append_assoc]
  iterate 8 rw [getElem?_skip (length_u64 _) (by decide)]
  iterate 3 rw [getElem?_skip (length_u8 _) (by decide)]
  rw [getElem?_skip (length_u32 _) (by decide), getElem?_skip (length_u8 _) (by decide)]
  rfl

theorem getElem?_body (s : PersistSnapshot) (live retired : List Bytes) (rest : Bytes) :
    (bodyBytes s live retired ++ rest)[128]? = some (toByte s.domain.pressure) ∧
      (bodyBytes s live retired ++ rest)[129]? = some (toByte s.domain.health) ∧
      (bodyBytes s live retired ++ rest)[130]? = some (toByte s.domain.provenance) := by
  rw [bodyBytes_split]
  simp only [List.append_assoc]
  iterate 2 rw [getElem?_skip (length_u32 _) (by decide), getElem?_skip (length_u32 _) (by decide),
    getElem?_skip (length_u32 _) (by decide)]
  exact getElem?_writeDomain s.domain _

/-- The lifecycle bytes of the spans are those of the records. -/
theorem live_iff {rs : List AllocationRecord} {ws : List Bytes}
    (h : List.Forall₂ RecordEncoding rs ws) (e : LifecycleState) :
    (∀ w ∈ ws, w[72]? ≠ some (toByte e)) ↔ ∀ r ∈ rs, r.lifecycle ≠ e := by
  induction h with
  | nil => simp
  | cons hr _ ih =>
      obtain ⟨_, flag, _, hw⟩ := hr
      rw [List.forall_mem_cons, List.forall_mem_cons, ih, hw, getElem?_recordBytes, ne_eq,
        Option.some.injEq, toByte_eq_iff]

/-- **When a file is possible**: exactly if the unchecked bytes of its
domain are enumerators and no live record has the lifecycle of a released
or retired one. The enumerations of the records are always checked. -/
theorem decode_possible_iff (b : Bytes) (s : PersistSnapshot) (h : decode b = .ok s) :
    Possible s ↔ PossibleBytes b := by
  obtain ⟨hlive, _, hb⟩ := decode_spans h
  have hsound := (storable_of_decode h).sound
  have hdomain := getElem?_body s (liveSpans b) (retiredSpans b)
    (Writer.u32 (crc32 (bodyBytes s (liveSpans b) (retiredSpans b))))
  rw [← hb] at hdomain
  obtain ⟨hpressure, hhealth, hprovenance⟩ := hdomain
  constructor
  · intro hs
    refine ⟨(declaredAt_iff hpressure).mpr hs.pressure, (declaredAt_iff hhealth).mpr hs.health,
      (declaredAt_iff hprovenance).mpr hs.provenance, fun span hspan => ⟨?_, ?_⟩⟩
    · exact (live_iff hlive _).mpr (fun r hr => (hs.live r hr).1) span hspan
    · exact (live_iff hlive _).mpr (fun r hr => (hs.live r hr).2) span hspan
  · intro hbytes
    refine ⟨(declaredAt_iff hpressure).mp hbytes.pressure,
      (declaredAt_iff hhealth).mp hbytes.health,
      (declaredAt_iff hprovenance).mp hbytes.provenance, fun r hr => ?_, fun r hr => ⟨?_, ?_⟩⟩
    · have hr' := hsound.wellFormed hr
      exact ⟨hr'.memClass, hr'.reclaimability, hr'.movability, hr'.residency, hr'.lifecycle,
        hr'.provenance⟩
    · exact (live_iff hlive _).mp (fun w hw => (hbytes.live w hw).1) r hr
    · exact (live_iff hlive _).mp (fun w hw => (hbytes.live w hw).2) r hr

theorem sampleSnapshot_possible :
    decode (encode sampleSnapshot) = .ok sampleSnapshot ∧
      PossibleBytes (encode sampleSnapshot) := by
  have hdecode := decode_encode_iff.mpr sampleSnapshot_storable
  have hpossible : Possible sampleSnapshot :=
    ⟨by decide, by decide, by decide, by decide +kernel, by decide +kernel⟩
  exact ⟨hdecode, (decode_possible_iff _ _ hdecode).mp hpossible⟩

/-- A domain whose pressure byte is 200, and a released record among the
live ones. -/
def impossibleSnapshot : PersistSnapshot :=
  { sampleSnapshot with
    domain := { sampleSnapshot.domain with pressure := .undeclared 200 (by decide) }
    records := sampleSnapshot.retired
    retired := [] }

theorem impossibleSnapshot_accepted :
    decode (encode impossibleSnapshot) = .ok impossibleSnapshot ∧
      ¬ Declared impossibleSnapshot.domain.pressure ∧
      ∃ r ∈ impossibleSnapshot.records, r.lifecycle = .released := by
  have hstorable : Storable impossibleSnapshot := by decide +kernel
  exact ⟨decode_encode_iff.mpr hstorable, by decide, by decide +kernel⟩

end GpuMemoryService.Persist
