/-
GpuMemoryService.SnapshotFormat — what the snapshot decoder accepts, byte
for byte.

Each reader of the format recognizes exactly the encodings of its values.
For words, strings, enumerations and the domain there is one encoding each;
a record has as many as there are bytes that read as its `recoverable`
flag (`RecordEncoding`), since every byte but 1 reads as false.
`decode_ok_iff` puts them together: `decode` accepts a buffer as `s`
exactly if the buffer is an encoding of `s` with its checksum and `s`
passes the checks. Round trip, canonicality and what a torn file does are
read off this one statement.
-/
import GpuMemoryService.Persistence

namespace GpuMemoryService.Persist

open Lib

/-! ## Fields -/

theorem inverts_u8 : Inverts Read.u8 Writer.u8 := inverts_getU8

theorem inverts_u32 : Inverts Read.u32 Writer.u32 := inverts_getU32

theorem inverts_u64 : Inverts Read.u64 Writer.u64 := inverts_getU64

theorem inverts_enum (E : Type) [ByteEnum E] :
    Inverts (Read.enum E) (fun e => Writer.u8 (toByte e)) := by
  intro bs e rest
  show (Read.u8 >>= fun b => pure (ofByte b)).run bs = _ ↔ _
  rw [inverts_u8.bind_iff]
  constructor
  · rintro ⟨b, rest', rfl, hpure⟩
    obtain ⟨rfl, rfl⟩ := pure_run_eq_some.mp hpure
    exact ⟨_, rfl, by simp⟩
  · rintro ⟨_, rfl, rfl⟩
    exact ⟨toByte e, rest, rfl, pure_run_eq_some.mpr ⟨by simp, rfl⟩⟩

/-- A string the reader takes. -/
def StrFits (s : Bytes) : Prop := s.length ≤ 0x100000

theorem str_recognizes : Recognizes Read.str (fun s w => w = Writer.str s ∧ StrFits s) := by
  intro bs s rest
  show (Read.u32 >>= fun n => if n > 0x100000 then failure else takeBytes n.toNat).run bs = _ ↔ _
  rw [inverts_u32.bind_iff]
  constructor
  · rintro ⟨n, rest', rfl, hrest⟩
    split at hrest
    · simp at hrest
    · rename_i hle
      have hfit : n.toNat ≤ 0x100000 := by simpa [UInt32.lt_iff_toNat_lt] using hle
      obtain ⟨_, ⟨rfl, hlen⟩, rfl⟩ := (takeBytes_recognizes _ _ _ _).mp hrest
      refine ⟨_, ⟨rfl, by rw [StrFits, hlen]; exact hfit⟩, ?_⟩
      rw [Writer.str, hlen, UInt32.ofNat_toNat, List.append_assoc]
  · rintro ⟨_, ⟨rfl, hfit⟩, rfl⟩
    have hnat : (UInt32.ofNat s.length).toNat = s.length := by
      rw [UInt32.toNat_ofNat']
      unfold StrFits at hfit
      exact Nat.mod_eq_of_lt (by omega)
    refine ⟨UInt32.ofNat s.length, s ++ rest, by simp [Writer.str], ?_⟩
    have hle : ¬ UInt32.ofNat s.length > 0x100000 := by
      rw [gt_iff_lt, UInt32.lt_iff_toNat_lt, hnat]
      exact not_lt.mpr hfit
    rw [if_neg hle, hnat]
    exact (takeBytes_recognizes _).run_append ⟨rfl, rfl⟩ rest

/-! One field in front of the others: `run_*` reads it off its encoding,
`*_iff` tells where a successful read started. -/

section Sequence

variable {β : Type} {bs : Bytes} {x : β × Bytes}

theorem run_u8 (f : UInt8 → Reader β) (v : UInt8) (rest : Bytes) :
    (Read.u8 >>= f).run (Writer.u8 v ++ rest) = (f v).run rest :=
  inverts_u8.bind_append f v rest

theorem run_u32 (f : UInt32 → Reader β) (v : UInt32) (rest : Bytes) :
    (Read.u32 >>= f).run (Writer.u32 v ++ rest) = (f v).run rest :=
  inverts_u32.bind_append f v rest

theorem run_u64 (f : UInt64 → Reader β) (v : UInt64) (rest : Bytes) :
    (Read.u64 >>= f).run (Writer.u64 v ++ rest) = (f v).run rest :=
  inverts_u64.bind_append f v rest

theorem run_enum {E : Type} [ByteEnum E] (f : E → Reader β) (e : E) (rest : Bytes) :
    (Read.enum E >>= f).run (Writer.u8 (toByte e) ++ rest) = (f e).run rest :=
  (inverts_enum E).bind_append f e rest

theorem run_str (f : Bytes → Reader β) {s : Bytes} (hfit : StrFits s) (rest : Bytes) :
    (Read.str >>= f).run (Writer.str s ++ rest) = (f s).run rest := by
  rw [StateT.run_bind, str_recognizes.run_append ⟨rfl, hfit⟩]
  rfl

theorem u8_iff (f : UInt8 → Reader β) : (Read.u8 >>= f).run bs = some x ↔
    ∃ v rest, bs = Writer.u8 v ++ rest ∧ (f v).run rest = some x :=
  inverts_u8.bind_iff f

theorem u32_iff (f : UInt32 → Reader β) : (Read.u32 >>= f).run bs = some x ↔
    ∃ v rest, bs = Writer.u32 v ++ rest ∧ (f v).run rest = some x :=
  inverts_u32.bind_iff f

theorem u64_iff (f : UInt64 → Reader β) : (Read.u64 >>= f).run bs = some x ↔
    ∃ v rest, bs = Writer.u64 v ++ rest ∧ (f v).run rest = some x :=
  inverts_u64.bind_iff f

theorem enum_iff {E : Type} [ByteEnum E] (f : E → Reader β) : (Read.enum E >>= f).run bs = some x ↔
    ∃ e rest, bs = Writer.u8 (toByte e) ++ rest ∧ (f e).run rest = some x :=
  (inverts_enum E).bind_iff f

theorem str_iff (f : Bytes → Reader β) : (Read.str >>= f).run bs = some x ↔
    ∃ s rest, StrFits s ∧ bs = Writer.str s ++ rest ∧ (f s).run rest = some x := by
  rw [str_recognizes.bind_iff]
  constructor
  · rintro ⟨s, w, rest, ⟨rfl, hfit⟩, hbs, hf⟩
    exact ⟨s, rest, hfit, hbs, hf⟩
  · rintro ⟨s, rest, hfit, hbs, hf⟩
    exact ⟨s, Writer.str s, rest, ⟨rfl, hfit⟩, hbs, hf⟩

end Sequence

/-! ## Domain and records -/

theorem readDomain_append (d : MemoryDomain) (rest : Bytes) :
    readDomain.run (writeDomain d ++ rest) = some (d, rest) := by
  unfold readDomain writeDomain
  simp only [List.append_assoc]
  iterate 15 rw [run_u64]
  iterate 3 rw [run_enum]
  iterate 4 rw [run_u64]
  rfl

theorem readDomain_inv {bs rest : Bytes} {d : MemoryDomain}
    (h : readDomain.run bs = some (d, rest)) : bs = writeDomain d ++ rest := by
  unfold readDomain at h
  obtain ⟨v1, b1, h1, h⟩ := (u64_iff _).mp h
  obtain ⟨v2, b2, h2, h⟩ := (u64_iff _).mp h
  obtain ⟨v3, b3, h3, h⟩ := (u64_iff _).mp h
  obtain ⟨v4, b4, h4, h⟩ := (u64_iff _).mp h
  obtain ⟨v5, b5, h5, h⟩ := (u64_iff _).mp h
  obtain ⟨v6, b6, h6, h⟩ := (u64_iff _).mp h
  obtain ⟨v7, b7, h7, h⟩ := (u64_iff _).mp h
  obtain ⟨v8, b8, h8, h⟩ := (u64_iff _).mp h
  obtain ⟨v9, b9, h9, h⟩ := (u64_iff _).mp h
  obtain ⟨v10, b10, h10, h⟩ := (u64_iff _).mp h
  obtain ⟨v11, b11, h11, h⟩ := (u64_iff _).mp h
  obtain ⟨v12, b12, h12, h⟩ := (u64_iff _).mp h
  obtain ⟨v13, b13, h13, h⟩ := (u64_iff _).mp h
  obtain ⟨v14, b14, h14, h⟩ := (u64_iff _).mp h
  obtain ⟨v15, b15, h15, h⟩ := (u64_iff _).mp h
  obtain ⟨v16, b16, h16, h⟩ := (enum_iff _).mp h
  obtain ⟨v17, b17, h17, h⟩ := (enum_iff _).mp h
  obtain ⟨v18, b18, h18, h⟩ := (enum_iff _).mp h
  obtain ⟨v19, b19, h19, h⟩ := (u64_iff _).mp h
  obtain ⟨v20, b20, h20, h⟩ := (u64_iff _).mp h
  obtain ⟨v21, b21, h21, h⟩ := (u64_iff _).mp h
  obtain ⟨v22, b22, h22, h⟩ := (u64_iff _).mp h
  obtain ⟨hd, hrest⟩ := pure_run_eq_some.mp h
  unfold writeDomain
  simp only [List.append_assoc]
  rw [h1, h2, h3, h4, h5, h6, h7, h8, h9, h10, h11, h12, h13, h14, h15, h16, h17, h18, h19, h20,
    h21, h22, hd, hrest]

theorem inverts_domain : Inverts readDomain writeDomain := by
  intro bs d rest
  constructor
  · intro h
    exact ⟨writeDomain d, rfl, readDomain_inv h⟩
  · rintro ⟨w, hw, hbs⟩
    rw [hbs, hw]
    exact readDomain_append d rest

/-- A record that can be read back: its strings are within the bound. -/
def RecordFits (r : AllocationRecord) : Prop := StrFits r.owner ∧ StrFits r.backingRef

/-- The encodings a record is read from: the last byte is any that reads as
its flag. -/
def RecordEncoding (r : AllocationRecord) (w : Bytes) : Prop :=
  RecordFits r ∧ ∃ flag, r.recoverable = (flag == 1) ∧ w = recordBytes r flag

theorem readRecord_append {r : AllocationRecord} (hfit : RecordFits r) {flag : UInt8}
    (hflag : r.recoverable = (flag == 1)) (rest : Bytes) :
    readRecord.run (recordBytes r flag ++ rest) = some (r, rest) := by
  unfold readRecord recordBytes
  simp only [List.append_assoc]
  iterate 8 rw [run_u64]
  iterate 3 rw [run_enum]
  rw [run_u32]
  iterate 2 rw [run_enum]
  rw [run_str _ hfit.1]
  iterate 10 rw [run_u64]
  rw [run_str _ hfit.2, run_enum, run_u8, ← hflag]
  rfl

theorem readRecord_inv {bs rest : Bytes} {r : AllocationRecord}
    (h : readRecord.run bs = some (r, rest)) :
    RecordFits r ∧ ∃ flag, r.recoverable = (flag == 1) ∧ bs = recordBytes r flag ++ rest := by
  unfold readRecord at h
  obtain ⟨v1, b1, h1, h⟩ := (u64_iff _).mp h
  obtain ⟨v2, b2, h2, h⟩ := (u64_iff _).mp h
  obtain ⟨v3, b3, h3, h⟩ := (u64_iff _).mp h
  obtain ⟨v4, b4, h4, h⟩ := (u64_iff _).mp h
  obtain ⟨v5, b5, h5, h⟩ := (u64_iff _).mp h
  obtain ⟨v6, b6, h6, h⟩ := (u64_iff _).mp h
  obtain ⟨v7, b7, h7, h⟩ := (u64_iff _).mp h
  obtain ⟨v8, b8, h8, h⟩ := (u64_iff _).mp h
  obtain ⟨v9, b9, h9, h⟩ := (enum_iff _).mp h
  obtain ⟨v10, b10, h10, h⟩ := (enum_iff _).mp h
  obtain ⟨v11, b11, h11, h⟩ := (enum_iff _).mp h
  obtain ⟨v12, b12, h12, h⟩ := (u32_iff _).mp h
  obtain ⟨v13, b13, h13, h⟩ := (enum_iff _).mp h
  obtain ⟨v14, b14, h14, h⟩ := (enum_iff _).mp h
  obtain ⟨v15, b15, fit15, h15, h⟩ := (str_iff _).mp h
  obtain ⟨v16, b16, h16, h⟩ := (u64_iff _).mp h
  obtain ⟨v17, b17, h17, h⟩ := (u64_iff _).mp h
  obtain ⟨v18, b18, h18, h⟩ := (u64_iff _).mp h
  obtain ⟨v19, b19, h19, h⟩ := (u64_iff _).mp h
  obtain ⟨v20, b20, h20, h⟩ := (u64_iff _).mp h
  obtain ⟨v21, b21, h21, h⟩ := (u64_iff _).mp h
  obtain ⟨v22, b22, h22, h⟩ := (u64_iff _).mp h
  obtain ⟨v23, b23, h23, h⟩ := (u64_iff _).mp h
  obtain ⟨v24, b24, h24, h⟩ := (u64_iff _).mp h
  obtain ⟨v25, b25, h25, h⟩ := (u64_iff _).mp h
  obtain ⟨v26, b26, fit26, h26, h⟩ := (str_iff _).mp h
  obtain ⟨v27, b27, h27, h⟩ := (enum_iff _).mp h
  obtain ⟨v28, b28, h28, h⟩ := (u8_iff _).mp h
  obtain ⟨hr, hrest⟩ := pure_run_eq_some.mp h
  rw [hr]
  refine ⟨⟨fit15, fit26⟩, v28, rfl, ?_⟩
  unfold recordBytes
  simp only [List.append_assoc]
  rw [h1, h2, h3, h4, h5, h6, h7, h8, h9, h10, h11, h12, h13, h14, h15, h16, h17, h18, h19, h20,
    h21, h22, h23, h24, h25, h26, h27, h28, hrest]

theorem record_recognizes : Recognizes readRecord RecordEncoding := by
  intro bs r rest
  constructor
  · intro h
    obtain ⟨hfit, flag, hflag, hbs⟩ := readRecord_inv h
    exact ⟨recordBytes r flag, ⟨hfit, flag, hflag, rfl⟩, hbs⟩
  · rintro ⟨w, ⟨hfit, flag, hflag, hw⟩, hbs⟩
    rw [hbs, hw]
    exact readRecord_append hfit hflag rest

/-- What the writer writes is one of the encodings. -/
theorem recordEncoding_write {r : AllocationRecord} (hfit : RecordFits r) :
    RecordEncoding r (writeRecord r) :=
  ⟨hfit, _, by cases r.recoverable <;> rfl, rfl⟩

/-! ## The fields of a buffer -/

section Checks

variable {α β : Type}

theorem bind_ok {r : Result α} {f : α → Result β} {x : β} :
    (r >>= f) = .ok x ↔ ∃ a, r = .ok a ∧ f a = .ok x := by
  cases r <;> simp [bind, Except.bind]

theorem expect_bind_ok {message : String} {o : Option α} {f : α → Result β} {x : β} :
    (expect message o >>= f) = .ok x ↔ ∃ a, o = some a ∧ f a = .ok x := by
  cases o with
  | none => simp [expect, fail, bind, Except.bind]
  | some a => simp [expect, bind, Except.bind]

theorem reject_bind_ok {bad : Bool} {message : String} {f : Unit → Result β} {x : β} :
    (reject bad message >>= f) = .ok x ↔ bad = false ∧ f () = .ok x := by
  cases bad <;> simp [reject, fail, bind, Except.bind]

end Checks

/-- The bytes before the checksum, with the given encodings of the records. -/
def bodyBytes (s : PersistSnapshot) (live retired : List Bytes) : Bytes :=
  Writer.u32 kMagic ++ Writer.u32 kVersion ++
  writeDomain s.domain ++
  Writer.u32 (UInt32.ofNat s.records.length) ++ live.flatten ++
  Writer.u32 (UInt32.ofNat s.retired.length) ++ retired.flatten ++
  Writer.u64 s.nextAllocId ++ Writer.u64 s.historyCount

theorem encodeBody_eq (s : PersistSnapshot) :
    encodeBody s = bodyBytes s (s.records.map writeRecord) (s.retired.map writeRecord) := by
  unfold encodeBody bodyBytes
  simp only [List.flatMap_def]

/-- The snapshot is one the reader can return. -/
structure Readable (s : PersistSnapshot) : Prop where
  magic : s.magic = kMagic
  version : s.version = kVersion
  watermarks : s.domain.watermarks.valid = true
  records_le : s.records.length ≤ 0x100000
  retired_le : s.retired.length ≤ 0x100000

/-- The bytes are a body the reader reads as `s`. -/
def BodyEncoding (s : PersistSnapshot) (w : Bytes) : Prop :=
  Readable s ∧ ∃ live retired, List.Forall₂ RecordEncoding s.records live ∧
    List.Forall₂ RecordEncoding s.retired retired ∧ w = bodyBytes s live retired

theorem decodeFields_append {s : PersistSnapshot} {w : Bytes} (h : BodyEncoding s w)
    (stored : UInt32) (rest : Bytes) :
    decodeFields (w ++ (Writer.u32 stored ++ rest)) = .ok (s, stored, rest) := by
  obtain ⟨hs, live, retired, hlive, hretired, hw⟩ := h
  have hcount : ∀ n, n ≤ 0x100000 → (UInt32.ofNat n).toNat = n := by
    intro n hn
    rw [UInt32.toNat_ofNat']
    exact Nat.mod_eq_of_lt (by omega)
  have hbound : ∀ n, n ≤ 0x100000 → decide (UInt32.ofNat n > kMaxRecords) = false := by
    intro n hn
    rw [decide_eq_false_iff_not, gt_iff_lt, UInt32.lt_iff_toNat_lt, hcount n hn]
    exact not_lt.mpr hn
  have hmany : ∀ {rs : List AllocationRecord} {ws : List Bytes} (t : Bytes), rs.length ≤ 0x100000 →
      List.Forall₂ RecordEncoding rs ws →
      (many readRecord (UInt32.ofNat rs.length).toNat).run (ws.flatten ++ t) = some (rs, t) := by
    intro rs ws t hle hrs
    rw [hcount _ hle]
    exact (record_recognizes.many _).run_append ⟨rfl, ws, hrs, rfl⟩ t
  rw [hw]
  unfold bodyBytes
  simp only [List.append_assoc]
  unfold decodeFields
  refine expect_bind_ok.mpr ⟨_, Recognizes.run_append inverts_u32 rfl _, ?_⟩
  refine reject_bind_ok.mpr ⟨by simp, ?_⟩
  refine expect_bind_ok.mpr ⟨_, Recognizes.run_append inverts_u32 rfl _, ?_⟩
  refine reject_bind_ok.mpr ⟨by simp, ?_⟩
  refine expect_bind_ok.mpr ⟨_, readDomain_append _ _, ?_⟩
  refine reject_bind_ok.mpr ⟨by simp [hs.watermarks], ?_⟩
  refine expect_bind_ok.mpr ⟨_, Recognizes.run_append inverts_u32 rfl _, ?_⟩
  refine reject_bind_ok.mpr ⟨hbound _ hs.records_le, ?_⟩
  refine expect_bind_ok.mpr ⟨_, hmany _ hs.records_le hlive, ?_⟩
  refine expect_bind_ok.mpr ⟨_, Recognizes.run_append inverts_u32 rfl _, ?_⟩
  refine reject_bind_ok.mpr ⟨hbound _ hs.retired_le, ?_⟩
  refine expect_bind_ok.mpr ⟨_, hmany _ hs.retired_le hretired, ?_⟩
  refine expect_bind_ok.mpr ⟨_, Recognizes.run_append inverts_u64 rfl _, ?_⟩
  refine expect_bind_ok.mpr ⟨_, Recognizes.run_append inverts_u64 rfl _, ?_⟩
  refine expect_bind_ok.mpr ⟨_, Recognizes.run_append inverts_u32 rfl _, ?_⟩
  simp only [pure, Except.pure, Except.ok.injEq, Prod.mk.injEq, and_true]
  rw [← hs.magic, ← hs.version]

theorem decodeFields_inv {b rest : Bytes} {s : PersistSnapshot} {stored : UInt32}
    (h : decodeFields b = .ok (s, stored, rest)) :
    ∃ w, BodyEncoding s w ∧ b = w ++ (Writer.u32 stored ++ rest) := by
  have hmany : ∀ {n : UInt32} {bs : Bytes} {rs : List AllocationRecord} {t : Bytes},
      decide (n > kMaxRecords) = false → (many readRecord n.toNat).run bs = some (rs, t) →
      rs.length ≤ 0x100000 ∧ n = UInt32.ofNat rs.length ∧
        ∃ ws, List.Forall₂ RecordEncoding rs ws ∧ bs = ws.flatten ++ t := by
    intro n bs rs t hle hrun
    obtain ⟨_, ⟨hlen, ws, hws, rfl⟩, hbs⟩ := (record_recognizes.many _ _ _ _).mp hrun
    have hn : n.toNat ≤ 0x100000 := by
      simpa [UInt32.lt_iff_toNat_lt, kMaxRecords] using hle
    exact ⟨by rw [hlen]; exact hn, by rw [hlen, UInt32.ofNat_toNat], ws, hws, hbs⟩
  unfold decodeFields at h
  obtain ⟨⟨magic, b1⟩, h1, h⟩ := expect_bind_ok.mp h
  obtain ⟨hmagic, h⟩ := reject_bind_ok.mp h
  obtain ⟨⟨version, b2⟩, h2, h⟩ := expect_bind_ok.mp h
  obtain ⟨hversion, h⟩ := reject_bind_ok.mp h
  obtain ⟨⟨domain, b3⟩, h3, h⟩ := expect_bind_ok.mp h
  obtain ⟨hwatermarks, h⟩ := reject_bind_ok.mp h
  obtain ⟨⟨rocount, b4⟩, h4, h⟩ := expect_bind_ok.mp h
  obtain ⟨hrocount, h⟩ := reject_bind_ok.mp h
  obtain ⟨⟨records, b5⟩, h5, h⟩ := expect_bind_ok.mp h
  obtain ⟨⟨trcount, b6⟩, h6, h⟩ := expect_bind_ok.mp h
  obtain ⟨htrcount, h⟩ := reject_bind_ok.mp h
  obtain ⟨⟨retired, b7⟩, h7, h⟩ := expect_bind_ok.mp h
  obtain ⟨⟨nextAllocId, b8⟩, h8, h⟩ := expect_bind_ok.mp h
  obtain ⟨⟨historyCount, b9⟩, h9, h⟩ := expect_bind_ok.mp h
  obtain ⟨⟨stored', b10⟩, h10, h⟩ := expect_bind_ok.mp h
  simp only [pure, Except.pure, Except.ok.injEq, Prod.mk.injEq] at h
  obtain ⟨rfl, rfl, rfl⟩ := h
  obtain ⟨_, rfl, hb1⟩ := (inverts_u32 _ _ _).mp h1
  obtain ⟨_, rfl, hb2⟩ := (inverts_u32 _ _ _).mp h2
  have hb3 := readDomain_inv h3
  obtain ⟨_, rfl, hb4⟩ := (inverts_u32 _ _ _).mp h4
  obtain ⟨hrecords, rfl, live, hlive, hb5⟩ := hmany hrocount h5
  obtain ⟨_, rfl, hb6⟩ := (inverts_u32 _ _ _).mp h6
  obtain ⟨hretired, rfl, gone, hgone, hb7⟩ := hmany htrcount h7
  obtain ⟨_, rfl, hb8⟩ := (inverts_u64 _ _ _).mp h8
  obtain ⟨_, rfl, hb9⟩ := (inverts_u64 _ _ _).mp h9
  obtain ⟨_, rfl, hb10⟩ := (inverts_u32 _ _ _).mp h10
  refine ⟨_, ⟨⟨rfl, rfl, by simpa using hwatermarks, hrecords, hretired⟩, live, gone, hlive, hgone,
    rfl⟩, ?_⟩
  unfold bodyBytes
  simp only [List.append_assoc]
  have hmagic' : magic = kMagic := by simpa using hmagic
  have hversion' : version = kVersion := by simpa using hversion
  rw [hb1, hb2, hb3, hb4, hb5, hb6, hb7, hb8, hb9, hb10, hmagic', hversion']

/-- **What the decoder accepts**: a body, its checksum, nothing behind it,
and a snapshot that passes the checks. -/
theorem decode_ok_iff {b : Bytes} {s : PersistSnapshot} :
    decode b = .ok s ↔
      ∃ w, BodyEncoding s w ∧ b = w ++ Writer.u32 (crc32 w) ∧ checkSnapshot s = .ok () := by
  have hstored : ∀ (w : Bytes) (stored : UInt32),
      (w ++ Writer.u32 stored).take ((w ++ Writer.u32 stored).length - 4) = w := by
    intro w stored
    have hlen : (Writer.u32 stored).length = 4 := length_putU32 _
    rw [List.length_append, hlen, Nat.add_sub_cancel]
    exact List.take_left
  constructor
  · intro h
    unfold decode at h
    obtain ⟨⟨s', stored, rest⟩, hfields, h⟩ := bind_ok.mp h
    obtain ⟨hrest, h⟩ := reject_bind_ok.mp h
    obtain ⟨hsum, h⟩ := reject_bind_ok.mp h
    obtain ⟨_, hcheck, h⟩ := bind_ok.mp h
    obtain rfl : s' = s := by simpa [pure, Except.pure] using h
    obtain ⟨w, hw, hb⟩ := decodeFields_inv hfields
    have hnil : rest = [] := by simpa using hrest
    rw [hnil, List.append_nil] at hb
    have hstored' : stored = crc32 w := by
      rw [hb, hstored] at hsum
      simpa using hsum
    exact ⟨w, hw, by rw [hb, hstored'], hcheck⟩
  · rintro ⟨w, hw, hb, hcheck⟩
    have hfields : decodeFields b = .ok (s, crc32 w, []) := by
      rw [hb, ← List.append_nil (Writer.u32 _)]
      exact decodeFields_append hw _ []
    unfold decode
    refine bind_ok.mpr ⟨_, hfields, reject_bind_ok.mpr ⟨rfl, reject_bind_ok.mpr ⟨?_, ?_⟩⟩⟩
    · rw [hb, hstored]
      simp
    · exact bind_ok.mpr ⟨(), hcheck, rfl⟩

end GpuMemoryService.Persist
