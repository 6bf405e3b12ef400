/-
GpuMemoryService.SnapshotAccess — which elements the snapshot decoder
accesses.

The readers of `Persistence` keep the bytes that are left. The code keeps a
position and indexes the buffer; here the decoder is written that way, with
a record of every element access: those of the words, of the references
strings are copied through, of the checksum loop and of the overlap check.
It has the results of the decoder of `Persistence` (`decode_result`).

The words check the room before they index. `str` checks the room for the
bytes of the string and then takes a reference to the first of them. For an
empty string at the end of the buffer that element does not exist. No other
access is ever outside (`decode_inside_iff`), so decoding is safe exactly on
the buffers that do not stop behind the length of an empty string.
-/
import GpuMemoryService.Lib.Access
import GpuMemoryService.SnapshotFiles

namespace GpuMemoryService.Persist

open Lib

/-! ## The decoder -/

namespace Indexed

def u8 (b : Bytes) : Indexing Unit UInt8 := do
  let w ← block b 1
  pure (UInt8.ofNat (gather w))

def u32 (b : Bytes) : Indexing Unit UInt32 := do
  let w ← block b 4
  pure (UInt32.ofNat (gather w))

def u64 (b : Bytes) : Indexing Unit UInt64 := do
  let w ← block b 8
  pure (UInt64.ofNat (gather w))

/-- The bytes are copied from `&b_[pos_]`, also when there are none. -/
def str (b : Bytes) : Indexing Unit Bytes := do
  let n ← u32 b
  if n > 0x100000 then throw ()
  else slice b n.toNat

def enum (E : Type) [ByteEnum E] (b : Bytes) : Indexing Unit E := do
  let v ← u8 b
  pure (ofByte v)

def readRecord (b : Bytes) : Indexing Unit AllocationRecord := do
  let id ← u64 b
  let generation ← u64 b
  let requestedBytes ← u64 b
  let regionSize ← u64 b
  let offset ← u64 b
  let alignment ← u64 b
  let regionId ← u64 b
  let regionGeneration ← u64 b
  let memClass ← enum MemoryClass b
  let reclaimability ← enum Reclaimability b
  let movability ← enum Movability b
  let pinCount ← u32 b
  let residency ← enum ResidencyState b
  let lifecycle ← enum LifecycleState b
  let owner ← str b
  let worker ← u64 b
  let workerBoot ← u64 b
  let sourceBoot ← u64 b
  let workload ← u64 b
  let execution ← u64 b
  let relocationGeneration ← u64 b
  let reservationGen ← u64 b
  let resourceClaimGen ← u64 b
  let placementGen ← u64 b
  let policyGen ← u64 b
  let backingRef ← str b
  let provenance ← enum Provenance b
  let flag ← u8 b
  pure
    { id := ⟨id⟩, generation := ⟨generation⟩
      requestedBytes, regionSize, offset, alignment
      regionId := ⟨regionId⟩, regionGeneration := ⟨regionGeneration⟩
      memClass, reclaimability, movability, pinCount, residency, lifecycle, owner
      worker := ⟨worker⟩, workerBoot := ⟨workerBoot⟩, sourceBoot := ⟨sourceBoot⟩
      workload := ⟨workload⟩, execution := ⟨execution⟩
      relocationGeneration := ⟨relocationGeneration⟩
      reservationGen := ⟨reservationGen⟩, resourceClaimGen := ⟨resourceClaimGen⟩
      placementGen := ⟨placementGen⟩, policyGen := ⟨policyGen⟩
      backingRef, provenance
      recoverable := flag == 1 }

def readDomain (b : Bytes) : Indexing Unit MemoryDomain := do
  let domainId ← u64 b
  let domainGeneration ← u64 b
  let deviceId ← u64 b
  let deviceGeneration ← u64 b
  let totalCapacity ← u64 b
  let allocatorVisibleCapacity ← u64 b
  let reservedHeadroom ← u64 b
  let managedCapacity ← u64 b
  let currentCommitted ← u64 b
  let currentPhysicallyAllocated ← u64 b
  let currentResident ← u64 b
  let currentReclaimable ← u64 b
  let currentMovable ← u64 b
  let currentPinned ← u64 b
  let externalFragmentation ← u64 b
  let pressure ← enum PressureState b
  let health ← enum DeviceHealth b
  let provenance ← enum Provenance b
  let generation ← u64 b
  let low ← u64 b
  let high ← u64 b
  let critical ← u64 b
  pure
    { domainId := ⟨domainId⟩, domainGeneration := ⟨domainGeneration⟩
      deviceId := ⟨deviceId⟩, deviceGeneration := ⟨deviceGeneration⟩
      totalCapacity, allocatorVisibleCapacity, reservedHeadroom, managedCapacity
      currentCommitted, currentPhysicallyAllocated, currentResident
      currentReclaimable, currentMovable, currentPinned
      externalFragmentation := ⟨externalFragmentation⟩
      pressure, health, provenance
      watermarks :=
        { low := ⟨low⟩, high := ⟨high⟩, critical := ⟨critical⟩, generation := ⟨generation⟩ } }

/-- A read that must succeed. -/
def expect {α : Type} (message : String) (t : Indexing Unit α) : Indexing Failure α :=
  orElseThrow ⟨.internalError, message⟩ t

/-- The fields of the buffer, with the stored checksum and what is left. -/
def decodeFields (b : Bytes) : Indexing Failure (PersistSnapshot × UInt32 × Bytes) := do
  let magic ← expect "truncated magic" (u32 b)
  check (reject (magic != kMagic) "bad magic")
  let version ← expect "truncated version" (u32 b)
  check (reject (version != kVersion) "unsupported version")
  let domain ← expect "malformed domain" (readDomain b)
  check (reject (!domain.watermarks.valid) "invalid watermarks (NaN/Inf/bad order)")
  let rocount ← expect "truncated record count" (u32 b)
  check (reject (rocount > kMaxRecords) "hostile record count")
  let records ← expect "malformed record" (times (readRecord b) rocount.toNat)
  let trcount ← expect "truncated retired count" (u32 b)
  check (reject (trcount > kMaxRecords) "hostile retired count")
  let retired ← expect "malformed retired record" (times (readRecord b) trcount.toNat)
  let nextAllocId ← expect "truncated next alloc id" (u64 b)
  let historyCount ← expect "truncated history" (u64 b)
  let stored ← expect "truncated checksum" (u32 b)
  let c ← get
  pure ({ domain, records, retired, nextAllocId, historyCount }, stored, b.drop c.pos)

/-- The loop over the first `len` bytes. -/
def crc32 (b : Bytes) (len : Nat) : Indexing Failure UInt32 := do
  (List.range len).forM (fun i => touch ⟨i, b.length⟩)
  pure (Persist.crc32 (b.take len))

/-- The loop over the sorted intervals, of which there are `size`: element
`i` is compared with the one before it. -/
def overlapsNext (size : Nat) : Nat → List (UInt64 × UInt64) → Indexing Failure Bool
  | i, p :: q :: iv => do
      touch ⟨i, size⟩
      touch ⟨i - 1, size⟩
      if q.1 < p.2 then pure true
      else overlapsNext size (i + 1) (q :: iv)
  | _, _ => pure false

def checkSnapshot (s : PersistSnapshot) : Indexing Failure Unit := do
  let managed := s.domain.managedCapacity
  let seen ← check (s.records.foldlM (admitRecord "invalid record" managed) [])
  let _ ← check (s.retired.foldlM (admitRecord "invalid retired record" managed) seen)
  check (reject (sumLive s.records > managed) "physical bytes exceed governed capacity")
  let iv := sortIntervals (intervals s.records)
  let overlap ← overlapsNext iv.length 1 iv
  check (reject overlap "overlapping persisted regions")

def decode (b : Bytes) : Indexing Failure PersistSnapshot := do
  let (s, stored, rest) ← decodeFields b
  check (reject (rest.length != 0) "trailing garbage")
  let sum ← crc32 b (b.length - 4)
  check (reject (stored != sum) "checksum mismatch")
  checkSnapshot s
  pure s

end Indexed

/-- The element accesses of decoding a buffer. -/
def accesses (b : Bytes) : List Access := (cursorOf ((Indexed.decode b).run {})).accesses

/-! ## Fields -/

section Fields

variable {b : Bytes}

theorem follows_u8 : FollowsSafely b (Indexed.u8 b) Read.u8 :=
  Follows.bind_safely (follows_block 1) (fun _ => Follows.pure _)

theorem follows_u32 : FollowsSafely b (Indexed.u32 b) Read.u32 :=
  Follows.bind_safely (follows_block 4) (fun _ => Follows.pure _)

theorem follows_u64 : FollowsSafely b (Indexed.u64 b) Read.u64 :=
  Follows.bind_safely (follows_block 8) (fun _ => Follows.pure _)

theorem follows_enum (E : Type) [ByteEnum E] : FollowsSafely b (Indexed.enum E b) (Read.enum E) :=
  Follows.bind_safely follows_u8 (fun _ => Follows.pure _)

theorem takes_u32 : Takes Read.u32 4 := (takes_takeBytes 4).map _

theorem takes_u64 : Takes Read.u64 8 := (takes_takeBytes 8).map _

theorem takes_enum (E : Type) [ByteEnum E] : Takes (Read.enum E) 1 := ((takes_takeBytes 1).map _).map _

/-- A string strays exactly if its length is zero and nothing follows. -/
theorem follows_str : Follows b (Indexed.str b) Read.str (fun bs => bs = Writer.u32 0) := by
  have hbody : ∀ n : UInt32, Follows b
      (if n > 0x100000 then throw () else slice b n.toNat)
      (if n > 0x100000 then failure else takeBytes n.toNat) (fun bs => n = 0 ∧ bs = []) := by
    intro n
    split
    · rename_i hlong
      refine Follows.fail.congr (fun bs => ?_)
      have hne : n ≠ 0 := by
        rintro rfl
        exact absurd hlong (by decide)
      simp [hne]
    · exact (follows_slice n.toNat).congr (fun bs => by rw [← UInt32.toNat_inj]; rfl)
  refine (Follows.bind_safe follows_u32 hbody).congr (fun bs => ?_)
  constructor
  · rintro ⟨n, rest, hrun, rfl, rfl⟩
    obtain ⟨_, rfl, hbs⟩ := (inverts_u32 _ _ _).mp hrun
    rw [hbs, List.append_nil]
  · rintro rfl
    exact ⟨0, [], (inverts_u32 _ _ _).mpr ⟨_, rfl, (List.append_nil _).symm⟩, rfl, rfl⟩

/-! ## Domain and records -/

theorem follows_readDomain : FollowsSafely b (Indexed.readDomain b) readDomain := by
  unfold Indexed.readDomain readDomain
  iterate 15 refine Follows.bind_safely follows_u64 (fun _ => ?_)
  iterate 3 refine Follows.bind_safely (follows_enum _) (fun _ => ?_)
  iterate 4 refine Follows.bind_safely follows_u64 (fun _ => ?_)
  exact Follows.pure _

/-- The bytes stop behind the length of an empty string of a record: of its
owner, which has 73 bytes before it, or of its backing reference, with ten
words between the two. -/
def StopsInRecord (bs : Bytes) : Prop :=
  ∃ head, head.length = 73 ∧ (bs = head ++ Writer.u32 0 ∨
    ∃ owner words, StrFits owner ∧ words.length = 80 ∧
      bs = head ++ (Writer.str owner ++ (words ++ Writer.u32 0)))

theorem follows_readRecord : Follows b (Indexed.readRecord b) readRecord StopsInRecord := by
  have htail : ∀ f : Bytes → Provenance → UInt8 → AllocationRecord, Follows b
      (do let s ← Indexed.str b; let e ← Indexed.enum Provenance b; let v ← Indexed.u8 b; pure (f s e v))
      (do let s ← Read.str; let e ← Read.enum Provenance; let v ← Read.u8; pure (f s e v))
      (fun bs => bs = Writer.u32 0) := by
    intro f
    refine (follows_str.bind (fun _ => Follows.bind_safely (follows_enum _) (fun _ =>
      Follows.bind_safely follows_u8 (fun _ => Follows.pure _)))).congr (by simp)
  have hfields : Follows b (Indexed.readRecord b) readRecord (Behind 73 (fun bs =>
      bs = Writer.u32 0 ∨ ∃ s rest, Read.str.run bs = some (s, rest) ∧
        Behind 80 (fun bs => bs = Writer.u32 0) rest)) := by
    unfold Indexed.readRecord readRecord
    iterate 8 refine Follows.bind_takes follows_u64 takes_u64 (fun _ => ?_)
    iterate 3 refine Follows.bind_takes (follows_enum _) (takes_enum _) (fun _ => ?_)
    refine Follows.bind_takes follows_u32 takes_u32 (fun _ => ?_)
    iterate 2 refine Follows.bind_takes (follows_enum _) (takes_enum _) (fun _ => ?_)
    refine Follows.behind (Follows.bind follows_str (fun _ => ?_))
    iterate 10 refine Follows.bind_takes follows_u64 takes_u64 (fun _ => ?_)
    exact Follows.behind (htail _)
  refine hfields.congr (fun bs => ?_)
  constructor
  · rintro ⟨head, rest, hhead, rfl, rfl | ⟨owner, rest, hrun, words, _, hwords, rfl, rfl⟩⟩
    · exact ⟨head, hhead, Or.inl rfl⟩
    · obtain ⟨_, ⟨rfl, hfit⟩, rfl⟩ := (str_recognizes _ _ _).mp hrun
      exact ⟨head, hhead, Or.inr ⟨owner, words, hfit, hwords, rfl⟩⟩
  · rintro ⟨head, hhead, rfl | ⟨owner, words, hfit, hwords, rfl⟩⟩
    · exact ⟨head, _, hhead, rfl, Or.inl rfl⟩
    · exact ⟨head, _, hhead, rfl, Or.inr ⟨owner, _, str_recognizes.run_append ⟨rfl, hfit⟩ _, words, _,
        hwords, rfl, rfl⟩⟩

/-! ## The fields of a buffer -/

/-- A counted list of records stops so: whole records, fewer than the count
says, and a record that is cut off. -/
def StopsInList (bs : Bytes) : Prop :=
  ∃ count records spans rest, count ≤ kMaxRecords ∧ records.length < count.toNat ∧
    List.Forall₂ RecordEncoding records spans ∧
    bs = Writer.u32 count ++ (spans.flatten ++ rest) ∧ StopsInRecord rest

/-- The buffer stops behind the length of an empty string, in a record that
the decoder reaches: magic, version and watermarks are right and the counts
within their bound. -/
def StopsAtEmptyString (b : Bytes) : Prop :=
  ∃ (domain : MemoryDomain) (rest : Bytes), domain.watermarks.valid = true ∧
    b = Writer.u32 kMagic ++ (Writer.u32 kVersion ++ (writeDomain domain ++ rest)) ∧
    (StopsInList rest ∨ ∃ count records spans rest', count ≤ kMaxRecords ∧
      records.length = count.toNat ∧ List.Forall₂ RecordEncoding records spans ∧
      rest = Writer.u32 count ++ (spans.flatten ++ rest') ∧ StopsInList rest')

section Rules

variable {α β : Type} {r : Reader α} {u : Indexing Unit α} {stray : Bytes → Prop}

theorem computes_expect (hu : Follows b u r stray) {message : String}
    {f : α → Indexing Failure β} {k : α × Bytes → Result β} {stray' : α → Bytes → Prop}
    (hf : ∀ a, Computes b (f a) (fun rest => k (a, rest)) (stray' a)) :
    Computes b (Indexed.expect message u >>= f) (fun bs => expect message (r.run bs) >>= k)
      (fun bs => stray bs ∨ ∃ a rest, r.run bs = some (a, rest) ∧ stray' a rest) := by
  have hread := Computes.read hu ⟨.internalError, message⟩ hf
  refine ⟨fun c hc => ?_, hread.strays⟩
  have hresult := hread.result c hc
  cases hrun : r.run (b.drop c.pos) with
  | none =>
      simp only [hrun, Option.elim_none] at hresult
      exact hresult
  | some x =>
      simp only [hrun, Option.elim_some] at hresult
      exact hresult

/-- A field with one encoding. -/
theorem computes_field {enc : α → Bytes} (hu : FollowsSafely b u r) (hr : Inverts r enc)
    {message : String} {f : α → Indexing Failure β} {k : α × Bytes → Result β}
    {stray' : α → Bytes → Prop}
    (hf : ∀ a, Computes b (f a) (fun rest => k (a, rest)) (stray' a)) :
    Computes b (Indexed.expect message u >>= f) (fun bs => expect message (r.run bs) >>= k)
      (fun bs => ∃ a rest, bs = enc a ++ rest ∧ stray' a rest) := by
  refine (computes_expect hu hf).congr (fun bs => ?_)
  rw [false_or]
  constructor
  · rintro ⟨a, rest, hrun, hstray⟩
    obtain ⟨_, rfl, hbs⟩ := (hr _ _ _).mp hrun
    exact ⟨a, rest, hbs, hstray⟩
  · rintro ⟨a, rest, hbs, hstray⟩
    exact ⟨a, rest, (hr _ _ _).mpr ⟨_, rfl, hbs⟩, hstray⟩

theorem computes_reject {bad : Bool} {message : String} {f : Unit → Indexing Failure β}
    {k : Bytes → Result β} (hf : Computes b (f ()) k stray) :
    Computes b (check (reject bad message) >>= f) (fun bs => reject bad message >>= fun _ => k bs)
      (fun bs => bad = false ∧ stray bs) := by
  refine (Computes.check_bind (fun _ _ => hf)).congr (fun bs => ?_)
  cases bad <;> simp [reject, fail]

end Rules

/-- The count of a list and its records, as the decoder reads them. -/
theorem stopsInList_iff {bs : Bytes} : StopsInList bs ↔
    ∃ count rest, bs = Writer.u32 count ++ rest ∧ decide (count > kMaxRecords) = false ∧
      ∃ k < count.toNat, ∃ records rest', (many readRecord k).run rest = some (records, rest') ∧
        StopsInRecord rest' := by
  constructor
  · rintro ⟨count, records, spans, rest, hmax, hlen, hspans, rfl, hstop⟩
    refine ⟨count, _, rfl, by simpa using hmax, records.length, hlen, records, rest, ?_, hstop⟩
    exact (record_recognizes.many _).run_append ⟨rfl, spans, hspans, rfl⟩ rest
  · rintro ⟨count, _, rfl, hmax, k, hk, records, rest, hrun, hstop⟩
    obtain ⟨_, ⟨rfl, spans, hspans, rfl⟩, rfl⟩ := (record_recognizes.many k _ _ _).mp hrun
    exact ⟨count, records, spans, rest, by simpa using hmax, hk, hspans, rfl, hstop⟩

/-- The same for the whole buffer, in the order of the decoder. -/
theorem stopsAtEmptyString_iff {bs : Bytes} : StopsAtEmptyString bs ↔
    ∃ magic rest, bs = Writer.u32 magic ++ rest ∧ (magic != kMagic) = false ∧
    ∃ version rest₁, rest = Writer.u32 version ++ rest₁ ∧ (version != kVersion) = false ∧
    ∃ domain rest₂, rest₁ = writeDomain domain ++ rest₂ ∧ (!domain.watermarks.valid) = false ∧
    ∃ count rest₃, rest₂ = Writer.u32 count ++ rest₃ ∧ decide (count > kMaxRecords) = false ∧
      ((∃ k < count.toNat, ∃ records rest₄, (many readRecord k).run rest₃ = some (records, rest₄) ∧
          StopsInRecord rest₄) ∨
        ∃ records rest₄, (many readRecord count.toNat).run rest₃ = some (records, rest₄) ∧
          StopsInList rest₄) := by
  constructor
  · rintro ⟨domain, rest, hvalid, rfl, hlists⟩
    refine ⟨kMagic, _, rfl, bne_self_eq_false _, ?_⟩
    refine ⟨kVersion, _, rfl, bne_self_eq_false _, ?_⟩
    refine ⟨domain, rest, rfl, by rw [hvalid, Bool.not_true], ?_⟩
    rcases hlists with hlive | ⟨count, records, spans, rest₁, hmax, hlen, hspans, rfl, hstop⟩
    · obtain ⟨count, rest₁, hrest, hmax, hlive⟩ := stopsInList_iff.mp hlive
      exact ⟨count, rest₁, hrest, hmax, Or.inl hlive⟩
    · refine ⟨count, _, rfl, by simpa using hmax, Or.inr ⟨records, rest₁, ?_, hstop⟩⟩
      exact (record_recognizes.many _).run_append ⟨hlen, spans, hspans, rfl⟩ rest₁
  · rintro ⟨magic, _, hbs, hmagic, version, _, hrest, hversion, domain, rest₂, hrest₁, hvalid, count,
      rest₃, hrest₂, hmax, hlists⟩
    have hmagic' : magic = kMagic := by simpa using hmagic
    have hversion' : version = kVersion := by simpa using hversion
    refine ⟨domain, rest₂, by simpa using hvalid, ?_, ?_⟩
    · rw [hbs, hrest, hrest₁, hmagic', hversion']
    · rcases hlists with hlive | ⟨records, rest₄, hrun, hstop⟩
      · exact Or.inl (stopsInList_iff.mpr ⟨count, rest₃, hrest₂, hmax, hlive⟩)
      · obtain ⟨_, ⟨hlen, spans, hspans, rfl⟩, rfl⟩ := (record_recognizes.many _ _ _ _).mp hrun
        exact Or.inr ⟨count, records, spans, rest₄, by simpa using hmax, hlen, hspans, hrest₂, hstop⟩

/-- Behind the live records only the retired ones can stray. -/
theorem computes_decodeFields :
    Computes b (Indexed.decodeFields b) decodeFields StopsAtEmptyString := by
  apply Computes.congr
  case h =>
    unfold Indexed.decodeFields decodeFields
    apply computes_field follows_u32 inverts_u32
    intro magic
    apply computes_reject
    apply computes_field follows_u32 inverts_u32
    intro version
    apply computes_reject
    apply computes_field follows_readDomain inverts_domain
    intro domain
    apply computes_reject
    apply computes_field follows_u32 inverts_u32
    intro rocount
    apply computes_reject
    apply computes_expect (follows_readRecord.many _)
    intro records
    refine (?_ : Computes b _ _ StopsInList)
    apply Computes.congr
    case h =>
      apply computes_field follows_u32 inverts_u32
      intro trcount
      apply computes_reject
      apply computes_expect (follows_readRecord.many _)
      intro retired
      apply computes_field follows_u64 inverts_u64
      intro nextAllocId
      apply computes_field follows_u64 inverts_u64
      intro historyCount
      apply computes_field follows_u32 inverts_u32
      intro stored
      exact Computes.finish (fun rest => (_, _, rest))
    case heq =>
      intro bs
      rw [stopsInList_iff]
      simp
  case heq =>
    intro bs
    rw [stopsAtEmptyString_iff]

/-! ## The checks behind the fields -/

/-- The checksum loop stays inside the buffer. -/
theorem settles_crc32 {len : Nat} (hlen : len ≤ b.length) :
    Settles b (Indexed.crc32 b len) (.ok (crc32 (b.take len))) := by
  have hloop : ∀ i ∈ List.range len, i < b.length ∧ i < b.length := by
    intro i hi
    have hlt := List.mem_range.mp hi
    omega
  exact (settles_touches hloop).bind_ok (settles_pure _)

/-- The overlap check stays inside its intervals, of which there are no more
than bytes. -/
theorem settles_overlapsNext {size : Nat} (hsize : size ≤ b.length) (iv : List (UInt64 × UInt64))
    (i : Nat) (hi : 1 ≤ i) (hend : i + iv.length ≤ size + 1) :
    Settles b (Indexed.overlapsNext size i iv) (.ok (overlapsNext iv)) := by
  fun_induction Indexed.overlapsNext size i iv with
  | case1 i p q iv ih =>
      rw [List.length_cons, List.length_cons] at hend
      have hsplit : overlapsNext (p :: q :: iv) = (decide (q.1 < p.2) || overlapsNext (q :: iv)) := rfl
      have hthis : i < size ∧ i < b.length := by omega
      have hbefore : i - 1 < size ∧ i - 1 < b.length := by omega
      rw [hsplit]
      refine (settles_touch hthis).bind_ok ((settles_touch hbefore).bind_ok ?_)
      by_cases hlt : q.1 < p.2
      · simp only [if_pos hlt, decide_eq_true hlt, Bool.true_or]
        exact settles_pure true
      · simp only [if_neg hlt, decide_eq_false hlt, Bool.false_or]
        exact ih (by omega) (by rw [List.length_cons]; omega)
  | case2 iv i hshort =>
      have hfalse : overlapsNext iv = false := by
        match iv with
        | [] => rfl
        | [_] => rfl
        | p :: q :: iv => exact (hshort p q iv rfl).elim
      rw [hfalse]
      exact settles_pure false

theorem settles_checkSnapshot {s : PersistSnapshot} (hcount : s.records.length ≤ b.length) :
    Settles b (Indexed.checkSnapshot s) (checkSnapshot s) := by
  have hsize : (sortIntervals (intervals s.records)).length ≤ b.length := by
    rw [sortIntervals, List.length_insertionSort, intervals, List.length_map]
    exact hcount
  unfold Indexed.checkSnapshot checkSnapshot
  refine (settles_check _).bind (fun seen _ => ?_)
  refine (settles_check _).bind (fun _ _ => ?_)
  refine (settles_check _).bind (fun _ _ => ?_)
  exact (settles_overlapsNext hsize _ 1 le_rfl (by omega)).bind_ok (settles_check _)

/-- There are no more records than bytes. -/
theorem length_records_le {records : List AllocationRecord} {spans : List Bytes}
    (h : List.Forall₂ RecordEncoding records spans) : records.length ≤ spans.flatten.length := by
  induction h with
  | nil => simp
  | @cons r w _ _ hr _ ih =>
      obtain ⟨_, flag, _, hw⟩ := hr
      have hpos : 0 < w.length := by
        rw [hw]
        exact List.length_pos_of_mem (List.mem_of_getLast? (getLast?_recordBytes r flag))
      rw [List.length_cons, List.flatten_cons, List.length_append]
      omega

theorem decodeFields_records_le {bs rest : Bytes} {s : PersistSnapshot} {stored : UInt32}
    (h : decodeFields bs = .ok (s, stored, rest)) : s.records.length ≤ bs.length := by
  obtain ⟨w, ⟨_, live, retired, hlive, _, hw⟩, hbs⟩ := decodeFields_inv h
  have hle := length_records_le hlive
  rw [hbs, hw, bodyBytes_split]
  simp only [List.length_append]
  omega

/-! ## Decoding -/

theorem computes_decode :
    Computes b (Indexed.decode b)
      (fun bs => do
        let (s, stored, rest) ← decodeFields bs
        reject (rest.length != 0) "trailing garbage"
        reject (stored != crc32 (b.take (b.length - 4))) "checksum mismatch"
        checkSnapshot s
        pure s) StopsAtEmptyString := by
  refine computes_decodeFields.bind_settles (fun bs x hlen hfields => ?_)
  obtain ⟨s, stored, rest⟩ := x
  have hcount : s.records.length ≤ b.length := (decodeFields_records_le hfields).trans hlen
  refine (settles_check _).bind (fun _ _ => ?_)
  refine (settles_crc32 (Nat.sub_le _ _)).bind_ok ?_
  refine (settles_check _).bind (fun _ _ => ?_)
  exact (settles_checkSnapshot hcount).bind (fun _ _ => settles_pure s)

end Fields

/-- The decoder that indexes the buffer has the results of the other. -/
theorem decode_result (b : Bytes) : resultOf ((Indexed.decode b).run {}) = decode b :=
  (computes_decode.result {} (Nat.zero_le _)).symm

/-- **Where the decoder indexes**: every access is inside exactly if the
buffer does not stop behind the length of an empty string. -/
theorem decode_inside_iff (b : Bytes) :
    (∀ a ∈ accesses b, a.index < a.size ∧ a.index < b.length) ↔ ¬ StopsAtEmptyString b := by
  have hstrays := computes_decode.strays (b := b) {} (Nat.zero_le _)
  have hfresh : ¬ ({} : Cursor).Strays b := by
    rintro ⟨a, ha, _⟩
    exact absurd ha List.not_mem_nil
  rw [or_iff_right hfresh] at hstrays
  rw [← not_iff_not, not_not, accesses]
  simpa [Cursor.Strays] using hstrays

/-- A file of one record without an owner, cut off behind the length of the
owner. -/
def tornBuffer : Bytes := (encode (ownedBy [])).take 244

/-- Decoding it takes a reference to element 244 of 244. -/
theorem tornBuffer_outside :
    tornBuffer.length = 244 ∧ ⟨244, 244⟩ ∈ accesses tornBuffer ∧
      ¬ ∀ a ∈ accesses tornBuffer, a.index < a.size ∧ a.index < tornBuffer.length := by
  have hlen : tornBuffer.length = 244 := by decide +kernel
  have hmem : ⟨244, 244⟩ ∈ accesses tornBuffer := by decide +kernel
  refine ⟨hlen, hmem, fun hall => ?_⟩
  exact absurd (hall _ hmem).1 (Nat.lt_irrefl 244)

end GpuMemoryService.Persist
