/-
GpuMemoryService.PayloadCodec — payloads built from typed fields.

Coordinator and worker build every payload with the `append_*` functions
and read it with the `take_*` functions, field by field. A schema is a list
of field types. `payload_codec` says that for every list of fields the reader
with the same schema gets back what was appended and ends at the end of the
payload, and that on every proper prefix some call returns false after
nothing but correct values.

`take_iff` says when a field is read: exactly if its bytes stand at the
position. So a payload has only one reading (`bytes_inj`), and the induction
over the schema only has to know that what is left of the buffer is a prefix
of what is left of the payload.
-/
import GpuMemoryService.ProtocolTheorems

namespace GpuMemoryService.Mp

open Lib

/-! ## Fields -/

inductive FieldType where
  | u8
  | u32
  | u64
  | i32
  | str
deriving DecidableEq, Repr

inductive Field where
  | u8 (v : UInt8)
  | u32 (v : UInt32)
  | u64 (v : UInt64)
  | i32 (v : Int32)
  | str (v : Bytes)
deriving DecidableEq

namespace Field

def type : Field → FieldType
  | u8 _ => .u8
  | u32 _ => .u32
  | u64 _ => .u64
  | i32 _ => .i32
  | str _ => .str

def append (b : Bytes) : Field → Bytes
  | u8 v => appendU8 b v
  | u32 v => appendU32 b v
  | u64 v => appendU64 b v
  | i32 v => appendI32 b v
  | str v => appendStr b v

/-- A string is short enough for `take_str`. -/
def Bounded : Field → Prop
  | str v => v.length ≤ kMaxFrame.toNat
  | _ => True

instance : (f : Field) → Decidable f.Bounded
  | u8 _ => isTrue trivial
  | u32 _ => isTrue trivial
  | u64 _ => isTrue trivial
  | i32 _ => isTrue trivial
  | str v => inferInstanceAs (Decidable (v.length ≤ kMaxFrame.toNat))

end Field

/-- The `take_*` function of a type. -/
def FieldType.take (b : Bytes) (p : Nat) : FieldType → Option (Field × Nat)
  | .u8 => (takeU8 b p).map (fun e => (.u8 e.1, e.2))
  | .u32 => (takeU32 b p).map (fun e => (.u32 e.1, e.2))
  | .u64 => (takeU64 b p).map (fun e => (.u64 e.1, e.2))
  | .i32 => (takeI32 b p).map (fun e => (.i32 e.1, e.2))
  | .str => (takeStr b p).map (fun e => (.str e.1, e.2))

/-- Appends field after field. -/
def appendAll (b : Bytes) (fields : List Field) : Bytes := fields.foldl Field.append b

/-- Takes field after field until a call returns false: the values taken, and
the position behind the last one when every call returned true. -/
def takeAll (b : Bytes) (p : Nat) : List FieldType → List Field × Option Nat
  | [] => ([], some p)
  | t :: ts =>
      match t.take b p with
      | none => ([], none)
      | some (f, p) => (f :: (takeAll b p ts).1, (takeAll b p ts).2)

/-! ## One field -/

namespace Field

/-- What a field appends. -/
def bytes (f : Field) : Bytes := f.append []

theorem append_eq (b : Bytes) (f : Field) : f.append b = b ++ f.bytes := by
  cases f <;> simp [bytes, append, appendU8, appendU32, appendU64, appendI32, appendStr]

theorem bytes_str (s : Bytes) : (str s).bytes = putU32 (UInt32.ofNat s.length) ++ s := by
  simp [bytes, append, appendStr, appendU32]

end Field

/-- A string is read exactly if its length and its bytes stand there. -/
theorem takeStr_iff {b s : Bytes} {p k : Nat} :
    takeStr b p = some (s, k) ↔
      s.length ≤ kMaxFrame.toNat ∧ k = p + (4 + s.length) ∧ (Field.str s).bytes <+: b.drop p := by
  rw [Field.bytes_str, append_prefix_iff, length_putU32, List.drop_drop]
  rw [takeStr, Option.bind_eq_bind, Option.bind_eq_some_iff]
  simp only [Prod.exists, takeU32_iff]
  constructor
  · rintro ⟨n, q, ⟨rfl, hlen⟩, h⟩
    obtain ⟨hmax, h⟩ := guard_bind_iff.mp h
    obtain ⟨hroom, h⟩ := guard_bind_iff.mp h
    simp only [Option.pure_def, Option.some.injEq, Prod.mk.injEq] at h
    obtain ⟨rfl, rfl⟩ := h
    have hn : ((b.drop (p + 4)).take n.toNat).length = n.toNat := by
      rw [List.length_take, List.length_drop]
      omega
    rw [hn, UInt32.ofNat_toNat]
    refine ⟨?_, by omega, hlen, List.take_prefix _ _⟩
    exact UInt32.le_iff_toNat_le.mp (UInt32.not_lt.mp hmax)
  · rintro ⟨hmax, rfl, hlen, hpre⟩
    have hn : (UInt32.ofNat s.length).toNat = s.length := by
      refine UInt32.toNat_ofNat_of_lt' (lt_of_le_of_lt hmax ?_)
      decide
    have hroom := hpre.length_le
    rw [List.length_drop] at hroom
    refine ⟨UInt32.ofNat s.length, p + 4, ⟨rfl, hlen⟩, ?_⟩
    refine guard_bind_iff.mpr ⟨?_, guard_bind_iff.mpr ⟨?_, ?_⟩⟩
    · rw [gt_iff_lt, UInt32.lt_iff_toNat_lt, hn]
      omega
    · rw [hn]
      have hpos := length_putU32 (UInt32.ofNat s.length)
      have := hlen.length_le
      rw [List.length_drop] at this
      omega
    · rw [hn, (List.prefix_iff_eq_take.mp hpre).symm, Option.pure_def, Nat.add_assoc]

theorem takeI32_iff {b : Bytes} {p k : Nat} {v : Int32} :
    takeI32 b p = some (v, k) ↔ k = p + 4 ∧ putU32 v.toUInt32 <+: b.drop p := by
  simp only [takeI32, Option.bind_eq_bind, Option.bind_eq_some_iff, Prod.exists, takeU32_iff,
    Option.pure_def, Option.some.injEq, Prod.mk.injEq]
  constructor
  · rintro ⟨n, q, ⟨rfl, hpre⟩, rfl, rfl⟩
    exact ⟨rfl, hpre⟩
  · rintro ⟨rfl, hpre⟩
    exact ⟨v.toUInt32, p + 4, ⟨rfl, hpre⟩, rfl, rfl⟩

/-- The cases of `take_iff`: `mk` makes the fields of type `t` and `get` reads
them. -/
theorem map_take_iff {α : Type} {mk : α → Field} {t : FieldType} {get : Option (α × Nat)}
    {b : Bytes} {p : Nat} (htype : ∀ f : Field, f.type = t ↔ ∃ v, f = mk v)
    (hget : ∀ v k, get = some (v, k) ↔
      (mk v).Bounded ∧ k = p + (mk v).bytes.length ∧ (mk v).bytes <+: b.drop p)
    {f : Field} {k : Nat} :
    get.map (fun e => (mk e.1, e.2)) = some (f, k) ↔
      f.type = t ∧ f.Bounded ∧ k = p + f.bytes.length ∧ f.bytes <+: b.drop p := by
  simp only [Option.map_eq_some_iff, Prod.exists, Prod.mk.injEq]
  constructor
  · rintro ⟨v, q, hread, rfl, rfl⟩
    exact ⟨(htype _).mpr ⟨v, rfl⟩, (hget v q).mp hread⟩
  · rintro ⟨ht, hfield⟩
    obtain ⟨v, rfl⟩ := (htype f).mp ht
    exact ⟨v, k, (hget v k).mpr hfield, rfl, rfl⟩

/-- **A field is read exactly if its bytes stand at the position.** -/
theorem take_iff {t : FieldType} {b : Bytes} {p k : Nat} {f : Field} :
    t.take b p = some (f, k) ↔
      f.type = t ∧ f.Bounded ∧ k = p + f.bytes.length ∧ f.bytes <+: b.drop p := by
  cases t with
  | u8 =>
      refine map_take_iff (fun f => ?_) (fun v k => ?_)
      · cases f <;> simp [Field.type]
      · simp [takeU8_iff, Field.Bounded, Field.bytes, Field.append, appendU8]
  | u32 =>
      refine map_take_iff (fun f => ?_) (fun v k => ?_)
      · cases f <;> simp [Field.type]
      · simp [takeU32_iff, Field.Bounded, Field.bytes, Field.append, appendU32]
  | u64 =>
      refine map_take_iff (fun f => ?_) (fun v k => ?_)
      · cases f <;> simp [Field.type]
      · simp [takeU64_iff, Field.Bounded, Field.bytes, Field.append, appendU64]
  | i32 =>
      refine map_take_iff (fun f => ?_) (fun v k => ?_)
      · cases f <;> simp [Field.type]
      · simp [takeI32_iff, Field.Bounded, Field.bytes, Field.append, appendI32, appendU32]
  | str =>
      refine map_take_iff (fun f => ?_) (fun v k => ?_)
      · cases f <;> simp [Field.type]
      · rw [takeStr_iff, Field.bytes_str, List.length_append, length_putU32]
        rfl

/-- Fields of one type that stand at the same place are the same. -/
theorem bytes_inj {f f' : Field} {l : Bytes} (htype : f'.type = f.type) (h : f.Bounded)
    (h' : f'.Bounded) (hpre : f.bytes <+: l) (hpre' : f'.bytes <+: l) : f' = f := by
  have hread := (take_iff (t := f.type) (b := l) (p := 0)).mpr ⟨rfl, h, rfl, hpre⟩
  have hread' := (take_iff (t := f.type) (b := l) (p := 0)).mpr ⟨htype, h', rfl, hpre'⟩
  rw [hread] at hread'
  cases hread'
  rfl

/-! ## Lists of fields -/

/-- What a list of fields appends. -/
def payloadOf (fields : List Field) : Bytes := fields.flatMap Field.bytes

theorem appendAll_eq (b : Bytes) (fields : List Field) : appendAll b fields = b ++ payloadOf fields := by
  induction fields generalizing b with
  | nil => simp [appendAll, payloadOf]
  | cons f fields ih =>
      have hrest := ih (f.append b)
      simp only [appendAll, payloadOf, List.foldl_cons, List.flatMap_cons] at hrest ⊢
      rw [hrest, Field.append_eq, List.append_assoc]

/-- Everything stands there: every field is read. -/
theorem takeAll_prefixed {b : Bytes} {fields : List Field} {p : Nat}
    (hbounded : ∀ f ∈ fields, f.Bounded) (hpre : payloadOf fields <+: b.drop p) :
    takeAll b p (fields.map Field.type) = (fields, some (p + (payloadOf fields).length)) := by
  induction fields generalizing p with
  | nil => rfl
  | cons f fields ih =>
      obtain ⟨hf, hfields⟩ := List.forall_mem_cons.mp hbounded
      rw [payloadOf, List.flatMap_cons, append_prefix_iff, List.drop_drop] at hpre
      have hread := take_iff.mpr ⟨rfl, hf, rfl, hpre.1⟩
      rw [List.map_cons, takeAll, hread]
      dsimp only
      rw [ih hfields hpre.2, payloadOf, payloadOf, List.flatMap_cons, List.length_append,
        Nat.add_assoc]

/-- A part stands there: what is read is right, and to read everything takes
the bytes of everything. -/
theorem takeAll_of_truncated {b : Bytes} {fields : List Field} {p : Nat}
    (hbounded : ∀ f ∈ fields, f.Bounded) (hp : p ≤ b.length)
    (hpre : b.drop p <+: payloadOf fields) :
    (takeAll b p (fields.map Field.type)).1 <+: fields ∧
      ((takeAll b p (fields.map Field.type)).2 = none ∨
        p + (payloadOf fields).length ≤ b.length) := by
  induction fields generalizing p with
  | nil => exact ⟨List.prefix_refl _, Or.inr (by simpa [payloadOf] using hp)⟩
  | cons f fields ih =>
      obtain ⟨hf, hfields⟩ := List.forall_mem_cons.mp hbounded
      rw [List.map_cons, takeAll]
      cases hread : f.type.take b p with
      | none => exact ⟨List.nil_prefix, Or.inl rfl⟩
      | some e =>
          obtain ⟨f', q⟩ := e
          obtain ⟨htype, hf', rfl, hstands⟩ := take_iff.mp hread
          -- the bytes that were read are also the first bytes of the payload
          obtain rfl : f' = f := by
            refine bytes_inj htype hf hf' ?_ (hstands.trans hpre)
            rw [payloadOf, List.flatMap_cons]
            exact List.prefix_append _ _
          have hroom := hstands.length_le
          rw [List.length_drop] at hroom
          have hrest : b.drop (p + f'.bytes.length) <+: payloadOf fields := by
            obtain ⟨t, ht⟩ := hstands
            rw [← List.drop_drop, ← ht, List.drop_left]
            rw [← ht, payloadOf, List.flatMap_cons] at hpre
            exact (List.prefix_append_right_inj _).mp hpre
          obtain ⟨hvalues, hend⟩ := ih hfields (by omega) hrest
          refine ⟨(List.prefix_cons_inj f').mpr hvalues, ?_⟩
          rcases hend with hnone | hlen
          · exact Or.inl hnone
          · right
            rw [payloadOf, List.flatMap_cons, List.length_append]
            rw [payloadOf] at hlen
            omega

/-- **Payloads round trip and truncations are noticed.** For every list of
fields whose strings are not too long: taking the same types in order from
the payload gives the fields back and ends at its size, and on every proper
prefix some call returns false, with every value taken before it correct. -/
theorem payload_codec (fields : List Field) (hbounded : ∀ f ∈ fields, f.Bounded) :
    takeAll (appendAll [] fields) 0 (fields.map Field.type)
        = (fields, some (appendAll [] fields).length) ∧
      ∀ b, b <+: appendAll [] fields → b ≠ appendAll [] fields →
        (takeAll b 0 (fields.map Field.type)).2 = none ∧
          (takeAll b 0 (fields.map Field.type)).1 <+: fields := by
  rw [appendAll_eq, List.nil_append]
  constructor
  · rw [takeAll_prefixed hbounded (List.prefix_refl _), Nat.zero_add]
  · intro b hpre hne
    obtain ⟨hvalues, hend⟩ := takeAll_of_truncated (p := 0) hbounded (Nat.zero_le _) hpre
    refine ⟨?_, hvalues⟩
    rcases hend with hnone | hlen
    · exact hnone
    · exact absurd (hpre.eq_of_length_le (by omega)) hne

/-- Every type, with an empty string at the very end. -/
theorem payload_codec_emptyLast :
    let fields : List Field := [.u64 7, .u64 3, .i32 (-10), .u8 1, .u32 0, .str []]
    takeAll (appendAll [] fields) 0 (fields.map Field.type)
        = (fields, some (appendAll [] fields).length) ∧
      ∀ b, b <+: appendAll [] fields → b ≠ appendAll [] fields →
        (takeAll b 0 (fields.map Field.type)).2 = none ∧
          (takeAll b 0 (fields.map Field.type)).1 <+: fields :=
  payload_codec [.u64 7, .u64 3, .i32 (-10), .u8 1, .u32 0, .str []] (by decide)

end GpuMemoryService.Mp
