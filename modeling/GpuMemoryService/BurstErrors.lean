/-
GpuMemoryService.BurstErrors — corruption inside a window of four bytes is
detected, in snapshot files and in frames.

Both formats end in a checksum of the bytes before it, so what is accepted
is a codeword and two codewords of one length never differ inside so small
a window (`crc_burst`). A file is a codeword as a whole, with the checksum
at its end. Of a frame the part behind the magic is one; the length field
says where it ends, which is why a window that touches it is left out.
-/
import GpuMemoryService.SnapshotValidation
import GpuMemoryService.ProtocolTheorems

namespace GpuMemoryService

open Lib

/-- The polynomial of both checksums has its top bit. -/
theorem poly_top : (0xEDB88320 : UInt32).toBitVec.getLsbD 31 = true := by decide

namespace Persist

theorem eq_of_burst {b b' : Bytes} {s s' : PersistSnapshot} (h : decode b = .ok s)
    (h' : decode b' = .ok s') (hlen : b'.length = b.length) {i w : Nat} (hw : w ≤ 4)
    (hout : AgreeOutside i w b' b) : b' = b := by
  obtain ⟨body, _, hb, _⟩ := decode_ok_iff.mp h
  obtain ⟨body', _, hb', _⟩ := decode_ok_iff.mp h'
  exact crc_burst poly_top hb' hb hlen hw hout

end Persist

namespace Mp

theorem drop_encode (type : Msg) (payload : Bytes) :
    (encode type payload).drop 4
      = frameBody type payload ++ putU32 (crc32 (frameBody type payload)) := by
  rw [encode_eq, List.drop_left' (length_putU32 _)]

/-- Frames with one length field have payloads of one length. -/
theorem length_eq_of_field {f f' : Bytes} {type type' : Msg} {payload payload' : Bytes}
    (h : encode type payload <+: f) (h' : encode type' payload' <+: f')
    (hmax : payload.length ≤ kMaxFrame.toNat) (hmax' : payload'.length ≤ kMaxFrame.toNat)
    (hfield : (f'.drop 9).take 4 = (f.drop 9).take 4) : payload'.length = payload.length := by
  have hread : ∀ {g : Bytes} {t : Msg} {q : Bytes}, encode t q <+: g →
      (g.drop 9).take 4 = putU32 (UInt32.ofNat q.length) := by
    intro g t q hg
    have hlen := (frameBody_prefix_iff.mp (encode_prefix_iff.mp hg).2.1).2.2.1
    rw [List.drop_drop] at hlen
    rw [List.prefix_iff_eq_take.mp hlen, length_putU32]
  have hnat : ∀ {q : Bytes}, q.length ≤ kMaxFrame.toNat →
      (UInt32.ofNat q.length).toNat = q.length := by
    intro q hq
    have hbound : kMaxFrame.toNat < 2 ^ 32 := kMaxFrame.toNat_lt
    rw [UInt32.toNat_ofNat', Nat.mod_eq_of_lt (by omega)]
  rw [hread h, hread h'] at hfield
  have hword := congrArg (fun bs => UInt32.ofNat (gather bs)) hfield
  simp only [gather_putU32] at hword
  rw [← hnat hmax, ← hnat hmax', hword]

theorem eq_of_burst {type : Msg} {payload f : Bytes} {frame : Frame} {k : Nat}
    (hmax : payload.length ≤ kMaxFrame.toNat) (h : decode f = some (frame, k))
    (hlen : f.length = (encode type payload).length) {i w : Nat} (hw : w ≤ 4)
    (haway : i + w ≤ 9 ∨ 13 ≤ i) (hout : AgreeOutside i w f (encode type payload)) :
    f = encode type payload := by
  obtain ⟨hmax', _, hpre⟩ := encode_prefix_of_decode h
  have hfield : (f.drop 9).take 4 = ((encode type payload).drop 9).take 4 := by
    apply List.ext_getElem?
    intro j
    rw [List.getElem?_take, List.getElem?_take, List.getElem?_drop, List.getElem?_drop]
    split
    · exact hout _ (by omega)
    · rfl
  have hpayload := length_eq_of_field List.prefix_rfl hpre hmax hmax' hfield
  have hf : encode frame.type frame.payload = f :=
    hpre.eq_of_length (by rw [hlen, length_encode, length_encode, hpayload])
  have hcode : f.drop 4 = frameBody frame.type frame.payload ++
      putU32 (crc32 (frameBody frame.type frame.payload)) := by
    rw [← hf]
    exact drop_encode _ _
  have hrest : f.drop 4 = (encode type payload).drop 4 :=
    crc_burst poly_top hcode (drop_encode type payload) (by simp [hlen]) hw (hout.drop 4)
  rw [← hf, drop_encode, drop_encode] at hrest
  rw [← hf, encode_eq, encode_eq, hrest]

end Mp

/-- **Bursts are detected.** A buffer that differs from an accepted file, or
from an encoded frame of the same length, only inside a window of at most
four bytes is rejected; for frames the window does not touch the length
field. -/
theorem burst_detected :
    (∀ b s b' i w, Persist.decode b = .ok s → b'.length = b.length → w ≤ 4 →
      AgreeOutside i w b' b → b' ≠ b → ∃ e, Persist.decode b' = .error e) ∧
    ∀ t q f i w, q.length ≤ Mp.kMaxFrame.toNat → f.length = (Mp.encode t q).length → w ≤ 4 →
      (i + w ≤ 9 ∨ 13 ≤ i) → AgreeOutside i w f (Mp.encode t q) → f ≠ Mp.encode t q →
      Mp.decode f = none := by
  constructor
  · intro b s b' i w h hlen hw hout hne
    cases h' : Persist.decode b' with
    | error e => exact ⟨e, rfl⟩
    | ok s' => exact absurd (Persist.eq_of_burst h h' hlen hw hout) hne
  · intro t q f i w hmax hlen hw haway hout hne
    cases h : Mp.decode f with
    | none => rfl
    | some x => exact absurd (Mp.eq_of_burst hmax h hlen hw haway hout) hne

/-- One changed byte in the domain id of the sample file, and one that turns
a query into a release. -/
theorem changedByte_detected :
    (∃ e, Persist.decode ((Persist.encode Persist.sampleSnapshot).set 10 7) = .error e) ∧
      Mp.decode ((Mp.encode .query []).set 8 6) = none := by
  have hfile : (Persist.encode Persist.sampleSnapshot).set 10 7
      ≠ Persist.encode Persist.sampleSnapshot := by
    intro heq
    have hbyte := congrArg (fun l => l[10]?) heq
    revert hbyte
    decide +kernel
  have hframe : (Mp.encode .query []).set 8 6 ≠ Mp.encode .query [] := by decide +kernel
  constructor
  · exact burst_detected.1 _ _ _ 10 1
      (Persist.decode_encode_iff.mpr Persist.sampleSnapshot_storable) (List.length_set)
      (by decide) (agreeOutside_set _ _ _) hfile
  · exact burst_detected.2 .query [] _ 8 1 (by decide) (List.length_set) (by decide) (by decide)
      (agreeOutside_set _ _ _) hframe

end GpuMemoryService
