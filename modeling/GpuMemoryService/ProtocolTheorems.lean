/-
GpuMemoryService.ProtocolTheorems — the frame codec is exact.

`decode_frame_iff`: a buffer decodes to a frame exactly if it starts with
what `encode` writes for it. Every field test of the decoder is an equation on
the bytes at a position, that is a prefix of the buffer from there on, and
`append_prefix_iff` puts them together field by field. The stream law
follows by induction on the frames.

`encode_acceptable_iff`: the limit on the payload is checked by the receiver
alone, so `encode` also emits frames that no receiver accepts.
-/
import GpuMemoryService.Protocol

namespace GpuMemoryService.Mp

open Lib

/-! ## Fields at a position -/

/-- A concatenation is a prefix exactly if its parts stand one behind the
other. -/
theorem append_prefix_iff {a c l : Bytes} : a ++ c <+: l ↔ a <+: l ∧ c <+: l.drop a.length := by
  constructor
  · rintro ⟨t, rfl⟩
    refine ⟨⟨c ++ t, by simp⟩, ⟨t, by simp⟩⟩
  · rintro ⟨⟨t, rfl⟩, ⟨t', ht⟩⟩
    rw [List.drop_left] at ht
    exact ⟨t', by rw [List.append_assoc, ht]⟩

theorem takeWord_iff {w p k : Nat} {b bs : Bytes} (hpos : 0 < w) :
    takeWord w b p = some (bs, k) ↔ k = p + w ∧ bs.length = w ∧ bs <+: b.drop p := by
  unfold takeWord
  split
  · rename_i hshort
    simp only [reduceCtorEq, false_iff]
    rintro ⟨_, hlen, hpre⟩
    have hle := hpre.length_le
    rw [List.length_drop] at hle
    omega
  · rename_i hlong
    rw [Option.some.injEq, Prod.mk.injEq]
    have hlen : ((b.drop p).take w).length = w := by
      rw [List.length_take, List.length_drop]
      omega
    constructor
    · rintro ⟨rfl, rfl⟩
      exact ⟨rfl, hlen, List.take_prefix _ _⟩
    · rintro ⟨rfl, hw, hpre⟩
      exact ⟨by rw [← hw]; exact (List.prefix_iff_eq_take.mp hpre).symm, rfl⟩

/-- A field is read at a position exactly if its encoding stands there. -/
theorem takeWord_field_iff {α : Type} {w p k : Nat} {b : Bytes} {v : α} {f : Nat → α}
    {put : α → Bytes} (hpos : 0 < w)
    (hput : ∀ bs, bs.length = w → put (f (gather bs)) = bs)
    (hget : ∀ v, (put v).length = w ∧ f (gather (put v)) = v) :
    (takeWord w b p).bind (fun e => some (f (gather e.1), e.2)) = some (v, k) ↔
      k = p + w ∧ put v <+: b.drop p := by
  simp only [Option.bind_eq_some_iff, Prod.exists, Option.some.injEq, Prod.mk.injEq]
  constructor
  · rintro ⟨bs, k', hword, rfl, rfl⟩
    obtain ⟨hk, hlen, hpre⟩ := (takeWord_iff hpos).mp hword
    rw [hput bs hlen]
    exact ⟨hk, hpre⟩
  · rintro ⟨hk, hpre⟩
    exact ⟨put v, k, (takeWord_iff hpos).mpr ⟨hk, (hget v).1, hpre⟩, (hget v).2, rfl⟩

theorem takeU8_iff {p k : Nat} {b : Bytes} {v : UInt8} :
    takeU8 b p = some (v, k) ↔ k = p + 1 ∧ putU8 v <+: b.drop p := by
  refine takeWord_field_iff (f := UInt8.ofNat) (by decide) (fun bs hlen => ?_) (fun v => ?_)
  · obtain ⟨x, rfl⟩ := List.length_eq_one_iff.mp hlen
    simp [putU8, gather_cons]
  · simp [putU8, gather_cons]

theorem takeU32_iff {p k : Nat} {b : Bytes} {v : UInt32} :
    takeU32 b p = some (v, k) ↔ k = p + 4 ∧ putU32 v <+: b.drop p :=
  takeWord_field_iff (f := UInt32.ofNat) (by decide) (fun _ hlen => putU32_gather hlen)
    (fun v => ⟨length_putU32 v, gather_putU32 v⟩)

theorem takeU64_iff {p k : Nat} {b : Bytes} {v : UInt64} :
    takeU64 b p = some (v, k) ↔ k = p + 8 ∧ putU64 v <+: b.drop p :=
  takeWord_field_iff (f := UInt64.ofNat) (by decide) (fun _ hlen => putU64_gather hlen)
    (fun v => ⟨length_putU64 v, gather_putU64 v⟩)

/-! ## Frames -/

theorem guard_bind_iff {α : Type} {p : Prop} [Decidable p] {f : Unit → Option α} {x : α} :
    (guard p >>= f) = some x ↔ p ∧ f () = some x := by
  by_cases hp : p <;> simp [guard, hp]

/-- What the checksum covers. -/
def frameBody (type : Msg) (payload : Bytes) : Bytes :=
  putU32 kVersion ++ (putU8 type.toByte ++ (putU32 (UInt32.ofNat payload.length) ++ payload))

theorem encode_eq (type : Msg) (payload : Bytes) :
    encode type payload
      = putU32 kMagic ++ (frameBody type payload ++ putU32 (crc32 (frameBody type payload))) := by
  have hdrop : ((putU32 kMagic ++ frameBody type payload).drop 4) = frameBody type payload :=
    List.drop_left' (length_putU32 _)
  have hbody : appendU32 (appendU8 (appendU32 (appendU32 [] kMagic) kVersion) type.toByte)
      (UInt32.ofNat payload.length) ++ payload = putU32 kMagic ++ frameBody type payload := by
    simp [appendU32, appendU8, frameBody]
  unfold encode
  dsimp only
  rw [hbody, hdrop, appendU32, List.append_assoc]

theorem length_frameBody (type : Msg) (payload : Bytes) :
    (frameBody type payload).length = 9 + payload.length := by
  simp [frameBody]
  omega

theorem length_encode (type : Msg) (payload : Bytes) :
    (encode type payload).length = 17 + payload.length := by
  rw [encode_eq]
  simp [length_frameBody]
  omega

theorem encode_ne_nil (type : Msg) (payload : Bytes) : encode type payload ≠ [] := by
  intro h
  have hlen := length_encode type payload
  rw [h, List.length_nil] at hlen
  omega

theorem frameBody_prefix_iff {l : Bytes} {type : Msg} {payload : Bytes} :
    frameBody type payload <+: l ↔
      putU32 kVersion <+: l ∧ putU8 type.toByte <+: l.drop 4 ∧
        putU32 (UInt32.ofNat payload.length) <+: l.drop 5 ∧ payload <+: l.drop 9 := by
  unfold frameBody
  rw [append_prefix_iff, append_prefix_iff, append_prefix_iff]
  simp only [List.drop_drop, length_putU32, length_putU8, Nat.reduceAdd]

/-- A frame stands at the front of a buffer exactly if its parts stand at
their places. -/
theorem encode_prefix_iff {buf : Bytes} {type : Msg} {payload : Bytes} :
    encode type payload <+: buf ↔
      putU32 kMagic <+: buf ∧ frameBody type payload <+: buf.drop 4 ∧
        putU32 (crc32 (frameBody type payload)) <+: buf.drop (13 + payload.length) := by
  have hplace : 4 + (9 + payload.length) = 13 + payload.length := by omega
  rw [encode_eq, append_prefix_iff, append_prefix_iff, length_frameBody, length_putU32,
    List.drop_drop, hplace]

theorem take_frameBody {l : Bytes} {type : Msg} {payload : Bytes}
    (h : frameBody type payload <+: l) : l.take (9 + payload.length) = frameBody type payload := by
  rw [← length_frameBody type payload]
  exact (List.prefix_iff_eq_take.mp h).symm

/-- What decodes is what was encoded, at the front of the buffer. -/
theorem encode_prefix_of_decode {buf : Bytes} {f : Frame} {k : Nat} (h : decode buf = some (f, k)) :
    f.payload.length ≤ kMaxFrame.toNat ∧ k = 17 + f.payload.length ∧
      encode f.type f.payload <+: buf := by
  unfold decode at h
  obtain ⟨_, h⟩ := guard_bind_iff.mp h
  obtain ⟨⟨magic, p1⟩, h1, h⟩ := Option.bind_eq_some_iff.mp h
  obtain ⟨hmagic, h⟩ := guard_bind_iff.mp h
  obtain ⟨⟨ver, p2⟩, h2, h⟩ := Option.bind_eq_some_iff.mp h
  obtain ⟨hver, h⟩ := guard_bind_iff.mp h
  obtain ⟨⟨t, p3⟩, h3, h⟩ := Option.bind_eq_some_iff.mp h
  obtain ⟨⟨len, p4⟩, h4, h⟩ := Option.bind_eq_some_iff.mp h
  obtain ⟨hmax, h⟩ := guard_bind_iff.mp h
  obtain ⟨hroom, h⟩ := guard_bind_iff.mp h
  obtain ⟨⟨crcval, p5⟩, h5, h⟩ := Option.bind_eq_some_iff.mp h
  obtain ⟨hcrc, h⟩ := guard_bind_iff.mp h
  obtain ⟨rfl, f1⟩ := takeU32_iff.mp h1
  obtain ⟨rfl, f2⟩ := takeU32_iff.mp h2
  obtain ⟨rfl, f3⟩ := takeU8_iff.mp h3
  obtain ⟨rfl, f4⟩ := takeU32_iff.mp h4
  obtain ⟨rfl, f5⟩ := takeU32_iff.mp h5
  simp only [Option.pure_def, Option.some.injEq, Prod.mk.injEq] at h
  obtain ⟨rfl, rfl⟩ := h
  simp only [Nat.zero_add, Nat.reduceAdd] at hroom hcrc f1 f2 f3 f4 f5 ⊢
  have hlen : ((buf.drop 13).take len.toNat).length = len.toNat := by
    rw [List.length_take, List.length_drop]
    omega
  have hbody : frameBody (.ofByte t) ((buf.drop 13).take len.toNat) <+: buf.drop 4 := by
    rw [frameBody_prefix_iff, hlen, UInt32.ofNat_toNat, Msg.toByte_ofByte, ← hver]
    simp only [List.drop_drop, Nat.reduceAdd]
    exact ⟨f2, f3, f4, List.take_prefix _ _⟩
  have hsum : crcval = crc32 (frameBody (.ofByte t) ((buf.drop 13).take len.toNat)) := by
    rw [hcrc, ← take_frameBody hbody, hlen]
    congr 2
    omega
  refine ⟨?_, by omega, encode_prefix_iff.mpr ⟨by rw [← hmagic]; exact f1, hbody, ?_⟩⟩
  · rw [hlen]
    exact not_lt.mp (fun hlt => hmax (UInt32.lt_iff_toNat_lt.mpr hlt))
  · rw [← hsum, hlen]
    exact f5

theorem decode_of_encoded {buf : Bytes} {type : Msg} {payload : Bytes}
    (hmax : payload.length ≤ kMaxFrame.toNat) (h : encode type payload <+: buf) :
    decode buf = some ({ type, payload }, 17 + payload.length) := by
  have hroom := h.length_le
  rw [length_encode] at hroom
  obtain ⟨hmagic, hbody, hcrc⟩ := encode_prefix_iff.mp h
  obtain ⟨hver, htype, hlen, hpayload⟩ := frameBody_prefix_iff.mp hbody
  simp only [List.drop_drop, Nat.reduceAdd] at htype hlen hpayload
  have hfit : (UInt32.ofNat payload.length).toNat = payload.length := by
    have hbound : kMaxFrame.toNat < 2 ^ 32 := kMaxFrame.toNat_lt
    rw [UInt32.toNat_ofNat', Nat.mod_eq_of_lt (by omega)]
  unfold decode
  refine guard_bind_iff.mpr ⟨by omega, ?_⟩
  refine Option.bind_eq_some_iff.mpr ⟨_, takeU32_iff.mpr ⟨rfl, hmagic⟩, ?_⟩
  refine guard_bind_iff.mpr ⟨rfl, ?_⟩
  refine Option.bind_eq_some_iff.mpr ⟨_, takeU32_iff.mpr ⟨rfl, hver⟩, ?_⟩
  refine guard_bind_iff.mpr ⟨rfl, ?_⟩
  refine Option.bind_eq_some_iff.mpr ⟨_, takeU8_iff.mpr ⟨rfl, htype⟩, ?_⟩
  refine Option.bind_eq_some_iff.mpr ⟨_, takeU32_iff.mpr ⟨rfl, hlen⟩, ?_⟩
  refine guard_bind_iff.mpr ⟨?_, ?_⟩
  · rw [gt_iff_lt, UInt32.lt_iff_toNat_lt, hfit]
    exact not_lt.mpr hmax
  rw [hfit]
  refine guard_bind_iff.mpr ⟨by omega, ?_⟩
  refine Option.bind_eq_some_iff.mpr ⟨_, takeU32_iff.mpr ⟨rfl, hcrc⟩, ?_⟩
  refine guard_bind_iff.mpr ⟨?_, ?_⟩
  · rw [← take_frameBody hbody]
    congr 2
    omega
  · simp only [Option.pure_def, Option.some.injEq, Prod.mk.injEq, Frame.mk.injEq, Msg.ofByte_toByte,
      true_and]
    exact ⟨(List.prefix_iff_eq_take.mp hpayload).symm, by omega⟩

theorem decode_frame_iff {buf : Bytes} {type : Msg} {payload : Bytes} {k : Nat} :
    decode buf = some ({ type, payload }, k) ↔
      payload.length ≤ kMaxFrame.toNat ∧ k = 17 + payload.length ∧ encode type payload <+: buf := by
  constructor
  · exact encode_prefix_of_decode
  · rintro ⟨hmax, rfl, hpre⟩
    exact decode_of_encoded hmax hpre

/-! ## Streams -/

/-- A decoded frame takes bytes off the front. -/
theorem length_drop_consumed {buf : Bytes} {f : Frame} {k : Nat} (h : decode buf = some (f, k)) :
    (buf.drop k).length < buf.length := by
  obtain ⟨_, hk, hpre⟩ := encode_prefix_of_decode h
  have hle := hpre.length_le
  rw [length_encode] at hle
  rw [List.length_drop]
  omega

/-- Decodes frame after frame, advancing by what was consumed, until no
frame is at the front; returns the frames and what is left. -/
def decodeStream (buf : Bytes) : List Frame × Bytes :=
  match _h : decode buf with
  | none => ([], buf)
  | some (f, k) =>
      let (frames, rest) := decodeStream (buf.drop k)
      (f :: frames, rest)
termination_by buf.length
decreasing_by exact length_drop_consumed _h

theorem decodeStream_none {buf : Bytes} (h : decode buf = none) : decodeStream buf = ([], buf) := by
  rw [decodeStream]
  split
  · rfl
  · rename_i hsome
    rw [h] at hsome
    cases hsome

theorem decodeStream_some {buf : Bytes} {f : Frame} {k : Nat} (h : decode buf = some (f, k)) :
    decodeStream buf = (f :: (decodeStream (buf.drop k)).1, (decodeStream (buf.drop k)).2) := by
  rw [decodeStream]
  split
  · rename_i hnone
    rw [h] at hnone
    cases hnone
  · rename_i hsome
    rw [h] at hsome
    cases hsome
    rfl

/-- The frames of a stream, then whatever follows them. -/
theorem decodeStream_append {frames : List Frame}
    (hmax : ∀ f ∈ frames, f.payload.length ≤ kMaxFrame.toNat) {rest : Bytes}
    (hrest : decode rest = none) :
    decodeStream (frames.flatMap (fun f => encode f.type f.payload) ++ rest) = (frames, rest) := by
  induction frames with
  | nil => exact decodeStream_none hrest
  | cons f frames ih =>
      obtain ⟨hf, hframes⟩ := List.forall_mem_cons.mp hmax
      rw [List.flatMap_cons, List.append_assoc]
      have hfirst := decode_of_encoded hf (List.prefix_append (encode f.type f.payload)
        (frames.flatMap (fun f => encode f.type f.payload) ++ rest))
      rw [decodeStream_some hfirst, List.drop_left' (length_encode _ _), ih hframes]

/-- **The frame codec is exact**: a buffer decodes to a frame exactly if it
starts with the encoding, and a stream of encodings decodes to its frames. -/
theorem frame_codec :
    (∀ buf t q k, decode buf = some (⟨t, q⟩, k) ↔
      q.length ≤ kMaxFrame.toNat ∧ k = 17 + q.length ∧ encode t q <+: buf) ∧
    ∀ frames : List Frame, (∀ f ∈ frames, f.payload.length ≤ kMaxFrame.toNat) →
      decodeStream (frames.flatMap (fun f => encode f.type f.payload)) = (frames, []) := by
  constructor
  · intro buf t q k
    exact decode_frame_iff
  · intro frames hmax
    have hnil : decode [] = none := by decide
    have hstream := decodeStream_append hmax hnil
    rwa [List.append_nil] at hstream

theorem helloQuery_stream :
    let frames : List Frame := [⟨.hello, [1]⟩, ⟨.query, []⟩]
    (∀ f ∈ frames, f.payload.length ≤ kMaxFrame.toNat) ∧
      decodeStream (frames.flatMap (fun f => encode f.type f.payload)) = (frames, []) := by
  have hmax : ∀ f ∈ ([⟨.hello, [1]⟩, ⟨.query, []⟩] : List Frame),
      f.payload.length ≤ kMaxFrame.toNat := by decide
  exact ⟨hmax, frame_codec.2 _ hmax⟩

/-! ## Frames beyond the limits -/

/-- What `encode` emits is empty, or accepted as the frame it was made of. -/
def Acceptable (type : Msg) (payload : Bytes) : Prop :=
  encode type payload = [] ∨
    decode (encode type payload) = some ({ type, payload }, (encode type payload).length)

/-- A frame with a payload that is too long is never read back. -/
theorem not_acceptable_of_long {type : Msg} {payload : Bytes}
    (hlong : kMaxFrame.toNat < payload.length) : ¬ Acceptable type payload := by
  rintro (hnil | hread)
  · exact encode_ne_nil type payload hnil
  · have hmax := (decode_frame_iff.mp hread).1
    omega

/-- **The sender has no limit, the receiver has one.** A frame that `encode`
emits is accepted exactly if its payload has at most `kMaxFrame` bytes: beyond
that nothing is reported and the frame is emitted all the same, with the low
32 bits of its length. -/
theorem encode_acceptable_iff (type : Msg) (payload : Bytes) :
    Acceptable type payload ↔ payload.length ≤ kMaxFrame.toNat := by
  constructor
  · intro h
    by_contra hlong
    exact not_acceptable_of_long (Nat.lt_of_not_le hlong) h
  · intro hmax
    refine Or.inr (decode_frame_iff.mpr ⟨hmax, ?_, List.prefix_refl _⟩)
    exact length_encode type payload

/-- One byte too many. -/
theorem oversized_rejected :
    ¬ Acceptable .allocateResult (List.replicate (kMaxFrame.toNat + 1) 0) :=
  not_acceptable_of_long (by rw [List.length_replicate]; exact Nat.lt_succ_self _)

end GpuMemoryService.Mp
