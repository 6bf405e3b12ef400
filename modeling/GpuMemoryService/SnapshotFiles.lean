/-
GpuMemoryService.SnapshotFiles — what is read back after a crash in the
middle of writing a snapshot file.

No accepted buffer is a proper prefix of another: the reader takes the same
fields from both and then sees the bytes behind the checksum. A crash leaves
a prefix of what `encode` writes. When every list and string of the snapshot
has a length the four length bytes can hold, the reader either stops early
or takes all of it, so a shorter file is never accepted (`torn_rejected`).

The writer does not check lengths. A string of 2^32 bytes is announced as
empty, its bytes are read as the rest of the file, and they may spell a file
that is accepted when the write is cut off there (`oversized_torn`).
-/
import GpuMemoryService.SnapshotBytes

namespace GpuMemoryService.Persist

open Lib

/-! ## Prefixes and extensions -/

/-- What follows an accepted buffer is seen as garbage. -/
theorem decode_extension {b t : Bytes} {s : PersistSnapshot} (h : decode b = .ok s) (ht : t ≠ [])
    (s' : PersistSnapshot) : decode (b ++ t) ≠ .ok s' := by
  intro h'
  obtain ⟨w, hw, hb, _⟩ := decode_ok_iff.mp h
  obtain ⟨w', hw', hb', _⟩ := decode_ok_iff.mp h'
  have hshort : decodeFields (b ++ t) = .ok (s, crc32 w, t) := by
    rw [hb, List.append_assoc]
    exact decodeFields_append hw _ t
  have hlong : decodeFields (b ++ t) = .ok (s', crc32 w', []) := by
    rw [hb', ← List.append_nil (Writer.u32 _)]
    exact decodeFields_append hw' _ []
  rw [hshort] at hlong
  simp only [Except.ok.injEq, Prod.mk.injEq] at hlong
  exact ht hlong.2.2

theorem decode_prefix {b p : Bytes} {s : PersistSnapshot} (h : decode b = .ok s) (hp : p <+: b)
    (hne : p ≠ b) (s' : PersistSnapshot) : decode p ≠ .ok s' := by
  intro h'
  obtain ⟨t, ht⟩ := hp
  have hnil : t ≠ [] := by
    intro hnil
    rw [hnil, List.append_nil] at ht
    exact hne ht
  exact decode_extension h' hnil s (by rw [ht]; exact h)

/-! ## Reading what the encoder wrote -/

/-- The length bytes can hold it. -/
def LengthFits (n : Nat) : Prop := n < 2 ^ 32

structure SizesFit (s : PersistSnapshot) : Prop where
  records : LengthFits s.records.length
  retired : LengthFits s.retired.length
  owners : ∀ r ∈ s.records ++ s.retired, LengthFits r.owner.length
  backingRefs : ∀ r ∈ s.records ++ s.retired, LengthFits r.backingRef.length

theorem LengthFits.toNat_ofNat {n : Nat} (h : LengthFits n) : (UInt32.ofNat n).toNat = n := by
  rw [UInt32.toNat_ofNat']
  exact Nat.mod_eq_of_lt h

section Written

variable {β : Type}

/-- A string over the bound of the reader stops it. -/
theorem run_str_long (f : Bytes → Reader β) {s : Bytes} (hlen : LengthFits s.length)
    (hlong : ¬ StrFits s) (rest : Bytes) : (Read.str >>= f).run (Writer.str s ++ rest) = none := by
  have hbig : UInt32.ofNat s.length > 0x100000 := by
    rw [gt_iff_lt, UInt32.lt_iff_toNat_lt, hlen.toNat_ofNat]
    unfold StrFits at hlong
    exact not_le.mp hlong
  have hstr : Read.str.run (Writer.str s ++ rest) = none := by
    show (Read.u32 >>= fun n => if n > 0x100000 then failure else takeBytes n.toNat).run _ = _
    rw [Writer.str, List.append_assoc, run_u32, if_pos hbig]
    rfl
  rw [StateT.run_bind, hstr]
  rfl

/-- The reader takes a written record whole or fails. -/
theorem readRecord_written {r : AllocationRecord} (howner : LengthFits r.owner.length)
    (hbacking : LengthFits r.backingRef.length) (rest : Bytes) :
    readRecord.run (writeRecord r ++ rest) = none ∨
      readRecord.run (writeRecord r ++ rest) = some (r, rest) := by
  by_cases hfit : RecordFits r
  · exact .inr (record_recognizes.run_append (recordEncoding_write hfit) rest)
  · left
    unfold writeRecord readRecord recordBytes
    simp only [List.append_assoc]
    iterate 8 rw [run_u64]
    iterate 3 rw [run_enum]
    rw [run_u32]
    iterate 2 rw [run_enum]
    by_cases hfit' : StrFits r.owner
    · rw [run_str _ hfit']
      iterate 10 rw [run_u64]
      exact run_str_long _ hbacking (fun h => hfit ⟨hfit', h⟩) _
    · exact run_str_long _ howner hfit' _

/-- So does a list of them. -/
theorem many_written {rs : List AllocationRecord}
    (howners : ∀ r ∈ rs, LengthFits r.owner.length)
    (hbacking : ∀ r ∈ rs, LengthFits r.backingRef.length) (rest : Bytes)
    {x : List AllocationRecord × Bytes}
    (h : (many readRecord rs.length).run (rs.flatMap writeRecord ++ rest) = some x) :
    x.2 = rest := by
  induction rs generalizing x with
  | nil =>
      have hx : some (([] : List AllocationRecord), rest) = some x := h
      rw [← Option.some.inj hx]
  | cons r rs ih =>
      obtain ⟨howner, howners⟩ := List.forall_mem_cons.mp howners
      obtain ⟨hback, hbacking⟩ := List.forall_mem_cons.mp hbacking
      have hrun : (readRecord >>= fun a => many readRecord rs.length >>= fun as =>
          pure (a :: as)).run (writeRecord r ++ (rs.flatMap writeRecord ++ rest)) = some x := by
        rw [← List.append_assoc]
        exact h
      rw [StateT.run_bind] at hrun
      obtain ⟨⟨a, t⟩, hfirst, hrest⟩ := Option.bind_eq_some_iff.mp hrun
      rcases readRecord_written howner hback (rs.flatMap writeRecord ++ rest) with hnone | hsome
      · rw [hnone] at hfirst
        cases hfirst
      · rw [hsome] at hfirst
        cases hfirst
        rw [StateT.run_bind] at hrest
        obtain ⟨y, hmany, hpure⟩ := Option.bind_eq_some_iff.mp hrest
        cases hpure
        have htail : y.2 = rest := ih howners hbacking hmany
        exact htail

end Written

theorem expect_append {α β : Type} {r : Reader α} {E : α → Bytes → Prop} (h : Recognizes r E)
    {a : α} {w : Bytes} (hw : E a w) (message : String) (rest : Bytes)
    (f : α × Bytes → Result β) :
    (expect message (r.run (w ++ rest)) >>= f) = f (a, rest) := by
  rw [h.run_append hw]
  rfl

/-- When the lengths fit the reader never stops before the end. -/
theorem decodeFields_written {s s' : PersistSnapshot} (hfit : SizesFit s) {stored : UInt32}
    {rest : Bytes} (h : decodeFields (encode s) = .ok (s', stored, rest)) : rest = [] := by
  unfold encode encodeBody decodeFields at h
  simp only [List.append_assoc] at h
  rw [expect_append inverts_u32 rfl] at h
  obtain ⟨_, h⟩ := reject_bind_ok.mp h
  rw [expect_append inverts_u32 rfl] at h
  obtain ⟨_, h⟩ := reject_bind_ok.mp h
  rw [expect_append inverts_domain rfl] at h
  obtain ⟨_, h⟩ := reject_bind_ok.mp h
  rw [expect_append inverts_u32 rfl] at h
  obtain ⟨_, h⟩ := reject_bind_ok.mp h
  rw [hfit.records.toNat_ofNat] at h
  obtain ⟨⟨records, b⟩, hrecords, h⟩ := expect_bind_ok.mp h
  have hb := many_written (fun r hr => hfit.owners r (by simp [hr]))
    (fun r hr => hfit.backingRefs r (by simp [hr])) _ hrecords
  rw [show b = _ from hb, expect_append inverts_u32 rfl] at h
  obtain ⟨_, h⟩ := reject_bind_ok.mp h
  rw [hfit.retired.toNat_ofNat] at h
  obtain ⟨⟨retired, b'⟩, hretired, h⟩ := expect_bind_ok.mp h
  have hb' := many_written (fun r hr => hfit.owners r (by simp [hr]))
    (fun r hr => hfit.backingRefs r (by simp [hr])) _ hretired
  rw [show b' = _ from hb', expect_append inverts_u64 rfl, expect_append inverts_u64 rfl,
    ← List.append_nil (Writer.u32 _), expect_append inverts_u32 rfl] at h
  simp only [pure, Except.pure, Except.ok.injEq, Prod.mk.injEq] at h
  exact h.2.2.symm

/-- A prefix of what the encoder wrote is accepted only if it is all of it. -/
theorem decode_written {s s' : PersistSnapshot} (hfit : SizesFit s) {p : Bytes}
    (hp : p <+: encode s) (h : decode p = .ok s') : p = encode s := by
  obtain ⟨t, ht⟩ := hp
  obtain ⟨w, hw, hb, _⟩ := decode_ok_iff.mp h
  have hfields : decodeFields (encode s) = .ok (s', crc32 w, t) := by
    rw [← ht, hb, List.append_assoc]
    exact decodeFields_append hw _ t
  rw [← ht, decodeFields_written hfit hfields, List.append_nil]

/-! ## Crash points -/

/-- After the truncation the file holds what has been appended. -/
theorem contentAfter_append (old w : Bytes) :
    contentAfter old (.truncate :: w.map .append) = w := by
  have hgrow : ∀ c : Bytes, (w.map FileOp.append).foldl FileOp.apply c = c ++ w := by
    induction w with
    | nil => simp
    | cons b w ih =>
        intro c
        rw [List.map_cons, List.foldl_cons, ih, FileOp.apply, List.append_assoc]
        rfl
  exact hgrow []

/-- A crash point of `write_file`, once the file is open: some of the bytes
have reached it. -/
theorem crash_written {s : PersistSnapshot} {ops : List FileOp} (h : ops <+: writeFile s)
    (hne : ops ≠ []) (old : Bytes) : contentAfter old ops <+: encode s := by
  cases ops with
  | nil => exact absurd rfl hne
  | cons op ops =>
      obtain ⟨hop, hrest⟩ := List.cons_prefix_cons.mp h
      obtain ⟨w, hw, hops⟩ := List.prefix_map_iff.mp hrest
      rw [hop, hops, contentAfter_append]
      exact hw

theorem readFile_ok {content : Bytes} {s : PersistSnapshot} (h : readFile content = .ok s) :
    decode content = .ok s := by
  unfold readFile at h
  split at h
  · cases h
  · exact h

/-- **Torn and padded files.** No proper prefix and no proper extension of
an accepted buffer is accepted; and where every length of a snapshot fits
its four bytes, each crash point of writing it leaves a file that is
rejected or reads as the complete one. -/
theorem torn_rejected (b : Bytes) (s : PersistSnapshot) :
    (decode b = .ok s →
      (∀ p s', p <+: b → p ≠ b → decode p ≠ .ok s') ∧
        ∀ t s', t ≠ [] → decode (b ++ t) ≠ .ok s') ∧
    (SizesFit s → ∀ old ops, ops <+: writeFile s → ops ≠ [] →
      (∃ e, readFile (contentAfter old ops) = .error e) ∨
        readFile (contentAfter old ops) = decode (encode s)) := by
  constructor
  · intro h
    exact ⟨fun p s' hp hne => decode_prefix h hp hne s', fun t s' ht => decode_extension h ht s'⟩
  · intro hfit old ops hops hne
    cases hread : readFile (contentAfter old ops) with
    | error e => exact .inl ⟨e, rfl⟩
    | ok s' =>
        right
        have haccepted := readFile_ok hread
        have hall := decode_written hfit (crash_written hops hne old) haccepted
        rw [← hall, haccepted]

theorem sampleSnapshot_torn :
    SizesFit sampleSnapshot ∧ decode (encode sampleSnapshot) = .ok sampleSnapshot ∧
      (∀ s', decode (encode sampleSnapshot ++ [0]) ≠ .ok s') ∧
      ((∃ e, readFile (contentAfter [] ((writeFile sampleSnapshot).take 100)) = .error e) ∨
        readFile (contentAfter [] ((writeFile sampleSnapshot).take 100))
          = decode (encode sampleSnapshot)) := by
  have hfit : SizesFit sampleSnapshot := by
    constructor <;> unfold LengthFits <;> decide +kernel
  have hdecode := decode_encode_iff.mpr sampleSnapshot_storable
  obtain ⟨hpadded, htorn⟩ := torn_rejected (encode sampleSnapshot) sampleSnapshot
  refine ⟨hfit, hdecode, fun s' => (hpadded hdecode).2 [0] s' (by decide), ?_⟩
  exact htorn hfit [] _ (List.take_prefix _ _) (by simp [writeFile])

/-! ## A length that does not fit -/

/-- The fields before the owner. -/
def recordHead (r : AllocationRecord) : Bytes :=
  Writer.u64 r.id.value ++ Writer.u64 r.generation.value ++
  Writer.u64 r.requestedBytes ++ Writer.u64 r.regionSize ++ Writer.u64 r.offset ++
  Writer.u64 r.alignment ++
  Writer.u64 r.regionId.value ++ Writer.u64 r.regionGeneration.value ++
  Writer.u8 (toByte r.memClass) ++
  Writer.u8 (toByte r.reclaimability) ++
  Writer.u8 (toByte r.movability) ++
  Writer.u32 r.pinCount ++
  Writer.u8 (toByte r.residency) ++
  Writer.u8 (toByte r.lifecycle)

/-- Only the owner field of a written record depends on the owner. -/
theorem recordBytes_owner (r : AllocationRecord) (flag : UInt8) :
    ∃ tail, ∀ owner, recordBytes { r with owner } flag
      = recordHead r ++ (Writer.u32 (UInt32.ofNat owner.length) ++ (owner ++ tail)) := by
  unfold recordBytes recordHead Writer.str
  simp only [List.append_assoc]
  exact ⟨_, fun _ => rfl⟩

theorem length_recordHead (r : AllocationRecord) : (recordHead r).length = 73 := by
  unfold recordHead
  simp [length_u8, length_u32, length_u64]

def ownedRecord (owner : Bytes) : AllocationRecord :=
  { id := ⟨3⟩, generation := ⟨1⟩, requestedBytes := 4096, regionSize := 4096, alignment := 4096
    lifecycle := .resident, owner }

/-- One live record, with the given owner. -/
def ownedBy (owner : Bytes) : PersistSnapshot :=
  { domain := { managedCapacity := 0x100000 }, records := [ownedRecord owner], nextAllocId := 4 }

/-- Before the checksum only the owner field depends on the owner. -/
theorem encodeBody_ownedBy : ∃ head tail, head.length = 240 ∧ ∀ owner,
    encodeBody (ownedBy owner)
      = head ++ (Writer.u32 (UInt32.ofNat owner.length) ++ (owner ++ tail)) := by
  obtain ⟨tail, htail⟩ := recordBytes_owner (ownedRecord []) 0
  refine ⟨Writer.u32 kMagic ++ Writer.u32 kVersion ++ writeDomain (ownedBy []).domain ++
    Writer.u32 1 ++ recordHead (ownedRecord []),
    tail ++ (Writer.u32 0 ++ (Writer.u64 4 ++ Writer.u64 0)), ?_, fun owner => ?_⟩
  · simp [length_u32, length_recordHead]
  · have hrecord : writeRecord (ownedRecord owner)
        = recordHead (ownedRecord []) ++
          (Writer.u32 (UInt32.ofNat owner.length) ++ (owner ++ tail)) := htail owner
    have hdomain : (ownedBy owner).domain = (ownedBy []).domain := rfl
    have hrecords : (ownedBy owner).records = [ownedRecord owner] := rfl
    have hretired : (ownedBy owner).retired = [] := rfl
    have hnext : (ownedBy owner).nextAllocId = 4 := rfl
    have hcount : (ownedBy owner).historyCount = 0 := rfl
    unfold encodeBody
    rw [hdomain, hrecords, hretired, hnext, hcount, List.flatMap_singleton, hrecord]
    simp only [List.append_assoc, List.flatMap_nil, List.nil_append]
    rfl

/-- The rest of the file with the empty owner, filled up to 2^32 bytes. -/
def oversizedOwner : Bytes :=
  let rest := (encode (ownedBy [])).drop 244
  rest ++ List.replicate (2 ^ 32 - rest.length) 0

theorem length_oversizedOwner : oversizedOwner.length = 2 ^ 32 := by
  have hshort : ((encode (ownedBy [])).drop 244).length ≤ 2 ^ 32 := by decide +kernel
  unfold oversizedOwner
  rw [List.length_append, List.length_replicate]
  omega

/-- The complete file of the empty owner is a beginning of the file of the
oversized one. -/
theorem encode_ownedBy_prefix : ∃ t, t ≠ [] ∧
    encode (ownedBy oversizedOwner) = encode (ownedBy []) ++ t := by
  obtain ⟨head, tail, hlen, hbody⟩ := encodeBody_ownedBy
  have hwrap : Writer.u32 (UInt32.ofNat oversizedOwner.length) = Writer.u32 0 := by
    rw [length_oversizedOwner]
    rfl
  have hempty : encode (ownedBy []) = (head ++ Writer.u32 0) ++
      (tail ++ Writer.u32 (crc32 (encodeBody (ownedBy [])))) := by
    have h := hbody []
    unfold encode
    rw [h]
    simp only [List.append_assoc, List.nil_append]
    rfl
  have hrest : (encode (ownedBy [])).drop 244
      = tail ++ Writer.u32 (crc32 (encodeBody (ownedBy []))) := by
    rw [hempty]
    exact List.drop_left' (by rw [List.length_append, hlen, length_u32])
  obtain ⟨zeros, howner⟩ : ∃ zeros, oversizedOwner
      = (tail ++ Writer.u32 (crc32 (encodeBody (ownedBy [])))) ++ zeros := by
    unfold oversizedOwner
    rw [← hrest]
    exact ⟨_, rfl⟩
  refine ⟨zeros ++ (tail ++ Writer.u32 (crc32 (encodeBody (ownedBy oversizedOwner)))), ?_, ?_⟩
  · intro hnil
    have hzero := congrArg List.length hnil
    simp [length_u32] at hzero
  · have hfull := hbody oversizedOwner
    rw [hwrap] at hfull
    rw [hempty, encode, hfull, howner]
    simp only [List.append_assoc]

/-- Cut off at the right byte, the file of a record with an owner of 2^32
bytes reads as a snapshot without an owner. -/
theorem oversized_torn :
    writeFile (ownedBy []) <+: writeFile (ownedBy oversizedOwner) ∧
      readFile (contentAfter [] (writeFile (ownedBy []))) = .ok (ownedBy []) ∧
      decode (encode (ownedBy oversizedOwner)) ≠ .ok (ownedBy []) := by
  obtain ⟨t, ht, hpart⟩ := encode_ownedBy_prefix
  have hstorable : Storable (ownedBy []) := by decide +kernel
  have hdecode := decode_encode_iff.mpr hstorable
  refine ⟨?_, ?_, ?_⟩
  · rw [writeFile, writeFile, hpart, List.map_append]
    exact ⟨t.map .append, rfl⟩
  · have hcontent : contentAfter [] (writeFile (ownedBy [])) = encode (ownedBy []) :=
      contentAfter_append [] _
    have hlen : (encode (ownedBy [])).length ≠ 0 := by
      unfold encode
      simp [length_u32]
    rw [hcontent, readFile, if_neg hlen, hdecode]
  · rw [hpart]
    exact decode_extension hdecode ht _

end GpuMemoryService.Persist
