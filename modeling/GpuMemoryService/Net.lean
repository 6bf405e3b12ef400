/-
GpuMemoryService.Net — framed reads from a socket (`net.hpp`).

A connection delivers a byte stream in pieces. `Socket` is what is still to
come, as the nonempty chunks in which it will arrive, and the end of the
list is the disconnect. `recv n` returns the next chunk, or its first `n`
bytes: every answer the socket interface allows, between 1 and `n` of the
next bytes, is the answer for some chunking.

`recv_frame` reads a 13-byte header, parses it itself, reads as many bytes
as the header says and hands all of it to `mp::decode`. `recvFrame_iff` says
that the two parsers agree: a frame is received from a stream exactly if
`decode` finds it at the front of the stream's contents, and the bytes
taken are those it consumed. What is received depends on the contents
alone, also after a failed read (`recvFrames_congr`).

Translation notes.
* `recv_exact` counts up to `n`; here the recursion is on what is missing.
* The number of bytes asked for is at most the frame bound, so the cast to
  `int` loses nothing.
-/
import GpuMemoryService.ProtocolTheorems

namespace GpuMemoryService.Net

open Lib

/-! ## Sockets -/

/-- The chunks a connection has yet to deliver before it disconnects. -/
structure Socket where
  chunks : List Bytes
  nonempty : ∀ c ∈ chunks, c ≠ []

namespace Socket

/-- Everything still to come. -/
def contents (s : Socket) : Bytes := s.chunks.flatten

/-- Put what is left of a chunk back in front. -/
def unread (c : Bytes) (s : Socket) : Socket :=
  if h : c = [] then s
  else ⟨c :: s.chunks, fun d hd => by
    rcases List.mem_cons.mp hd with rfl | hd
    · exact h
    · exact s.nonempty d hd⟩

/-- `recv`: at most `n` bytes of the next chunk, or the disconnect. -/
def recv (n : Nat) : Socket → Option Bytes × Socket
  | ⟨[], h⟩ => (none, ⟨[], h⟩)
  | ⟨c :: cs, h⟩ => (some (c.take n), unread (c.drop n) ⟨cs, fun d hd => h d (by simp [hd])⟩)

@[simp] theorem contents_unread (c : Bytes) (s : Socket) :
    (unread c s).contents = c ++ s.contents := by
  unfold unread
  split
  · rename_i h
    simp [h]
  · rfl

/-- What `recv` does to the stream: nothing comes exactly when nothing is
left, and what comes is the front of the stream, at least one byte of it. -/
theorem recv_spec (s : Socket) {n : Nat} (hn : 0 < n) :
    (∃ s', s.recv n = (none, s') ∧ s.contents = [] ∧ s'.contents = []) ∨
    ∃ w s', s.recv n = (some w, s') ∧ 0 < w.length ∧ w.length ≤ n ∧
      s.contents = w ++ s'.contents := by
  obtain ⟨chunks, h⟩ := s
  cases chunks with
  | nil => exact Or.inl ⟨_, rfl, rfl, rfl⟩
  | cons c cs =>
      have hc : 0 < c.length := List.length_pos_iff.mpr (h c (by simp))
      refine Or.inr ⟨c.take n, _, rfl, ?_, ?_, ?_⟩
      · rw [List.length_take]
        omega
      · rw [List.length_take]
        omega
      · rw [contents_unread, ← List.append_assoc, List.take_append_drop]
        rfl

theorem recv_length_pos {s s' : Socket} {n : Nat} {w : Bytes} (hn : n ≠ 0)
    (h : s.recv n = (some w, s')) : 0 < w.length := by
  rcases recv_spec s (Nat.pos_of_ne_zero hn) with ⟨_, heq, _⟩ | ⟨_, _, heq, hpos, _⟩
  · rw [heq] at h
    cases h
  · rw [heq] at h
    cases h
    exact hpos

/-- Loop until `n` bytes have come; a disconnect before that is a failure. -/
def recvExact (s : Socket) (n : Nat) : Option Bytes × Socket :=
  if _hn : n = 0 then (some [], s)
  else
    match _h : s.recv n with
    | (none, s') => (none, s')
    | (some w, s') =>
        match s'.recvExact (n - w.length) with
        | (none, s'') => (none, s'')
        | (some rest, s'') => (some (w ++ rest), s'')
termination_by n
decreasing_by
  have := recv_length_pos _hn _h
  omega

/-- **`recv_exact` is exact**: it returns the first `n` bytes when there are
as many, and takes them, or all there are, off the stream. -/
theorem recvExact_spec (s : Socket) (n : Nat) :
    (s.recvExact n).1 = (if n ≤ s.contents.length then some (s.contents.take n) else none) ∧
      (s.recvExact n).2.contents = s.contents.drop n := by
  induction n using Nat.strongRecOn generalizing s with
  | ind n ih =>
      rw [recvExact]
      by_cases hn : n = 0
      · simp [hn]
      rw [dif_neg hn]
      rcases recv_spec s (Nat.pos_of_ne_zero hn) with
        ⟨s', heq, hnil, hnil'⟩ | ⟨w, s', heq, hpos, hle, hcontents⟩
      · split
        · rename_i h
          rw [heq] at h
          cases h
          simp [hnil, hnil', hn]
        · rename_i h
          rw [heq] at h
          cases h
      · split
        · rename_i h
          rw [heq] at h
          cases h
        · rename_i h
          rw [heq] at h
          cases h
          obtain ⟨hrest, hleft⟩ := ih (n - w.length) (by omega) s'
          have htake : s.contents.take n = w ++ s'.contents.take (n - w.length) := by
            rw [hcontents, List.take_append, List.take_of_length_le hle]
          have hdrop : s.contents.drop n = s'.contents.drop (n - w.length) := by
            rw [hcontents, List.drop_append, List.drop_of_length_le hle, List.nil_append]
          have hlen : n ≤ s.contents.length ↔ n - w.length ≤ s'.contents.length := by
            rw [hcontents, List.length_append]
            omega
          generalize s'.recvExact (n - w.length) = res at hrest hleft ⊢
          obtain ⟨r, s''⟩ := res
          dsimp only at hrest hleft
          by_cases hmore : n - w.length ≤ s'.contents.length
          · rw [if_pos hmore] at hrest
            subst hrest
            rw [if_pos (hlen.mpr hmore), htake, hdrop]
            exact ⟨rfl, hleft⟩
          · rw [if_neg hmore] at hrest
            subst hrest
            rw [if_neg (fun h => hmore (hlen.mp h)), hdrop]
            exact ⟨rfl, hleft⟩

/-- Either the bytes are there, or the stream ends before. -/
theorem recvExact_cases (s : Socket) (n : Nat) :
    (n ≤ s.contents.length ∧ ∃ s', s.recvExact n = (some (s.contents.take n), s') ∧
      s'.contents = s.contents.drop n) ∨
    (s.contents.length < n ∧ ∃ s', s.recvExact n = (none, s') ∧
      s'.contents = s.contents.drop n) := by
  obtain ⟨hres, hleft⟩ := s.recvExact_spec n
  by_cases hn : n ≤ s.contents.length
  · rw [if_pos hn] at hres
    exact Or.inl ⟨hn, _, Prod.ext hres rfl, hleft⟩
  · rw [if_neg hn] at hres
    exact Or.inr ⟨Nat.lt_of_not_le hn, _, Prod.ext hres rfl, hleft⟩

end Socket

/-! ## Frames -/

/-- The header checks of `recv_frame`: the payload length, unless one of the
fields is not acceptable. -/
def headerLength (hb : Bytes) : Option UInt32 := do
  let (magic, hp) ← Mp.takeU32 hb 0
  guard (magic = Mp.kMagic)
  let (ver, hp) ← Mp.takeU32 hb hp
  guard (ver = Mp.kVersion)
  let (_, hp) ← Mp.takeU8 hb hp
  let (len, _) ← Mp.takeU32 hb hp
  guard (¬ len > Mp.kMaxFrame)
  pure len

def recvFrame (s : Socket) : Option Mp.Frame × Socket :=
  match s.recvExact 13 with
  | (none, s) => (none, s)
  | (some hb, s) =>
      match headerLength hb with
      | none => (none, s)
      | some len =>
          match s.recvExact len.toNat with
          | (none, s) => (none, s)
          | (some payload, s) =>
              match s.recvExact 4 with
              | (none, s) => (none, s)
              | (some crcb, s) => ((Mp.decode (hb ++ payload ++ crcb)).map (·.1), s)

/-- A number of calls of `recv_frame` on one connection. -/
def recvFrames : Nat → Socket → List (Option Mp.Frame) × Socket
  | 0, s => ([], s)
  | n + 1, s =>
      let (f, s) := recvFrame s
      let (fs, s) := recvFrames n s
      (f :: fs, s)

theorem recvFrames_succ (n : Nat) (s : Socket) :
    recvFrames (n + 1) s
      = ((recvFrame s).1 :: (recvFrames n (recvFrame s).2).1,
        (recvFrames n (recvFrame s).2).2) := rfl

/-! ## Reading from the contents -/

theorem headerLength_iff {hb : Bytes} {len : UInt32} :
    headerLength hb = some len ↔
      putU32 Mp.kMagic <+: hb ∧ putU32 Mp.kVersion <+: hb.drop 4 ∧
        (∃ t, putU8 t <+: hb.drop 8) ∧ putU32 len <+: hb.drop 9 ∧ ¬ len > Mp.kMaxFrame := by
  unfold headerLength
  constructor
  · intro h
    obtain ⟨⟨magic, p1⟩, h1, h⟩ := Option.bind_eq_some_iff.mp h
    obtain ⟨hmagic, h⟩ := Mp.guard_bind_iff.mp h
    obtain ⟨⟨ver, p2⟩, h2, h⟩ := Option.bind_eq_some_iff.mp h
    obtain ⟨hver, h⟩ := Mp.guard_bind_iff.mp h
    obtain ⟨⟨t, p3⟩, h3, h⟩ := Option.bind_eq_some_iff.mp h
    obtain ⟨⟨len', p4⟩, h4, h⟩ := Option.bind_eq_some_iff.mp h
    obtain ⟨hmax, hlast⟩ := Mp.guard_bind_iff.mp h
    obtain ⟨rfl, f1⟩ := Mp.takeU32_iff.mp h1
    obtain ⟨rfl, f2⟩ := Mp.takeU32_iff.mp h2
    obtain ⟨rfl, f3⟩ := Mp.takeU8_iff.mp h3
    obtain ⟨rfl, f4⟩ := Mp.takeU32_iff.mp h4
    obtain rfl : len' = len := by simpa using hlast
    subst hmagic hver
    exact ⟨f1, f2, ⟨t, f3⟩, f4, hmax⟩
  · rintro ⟨f1, f2, ⟨t, f3⟩, f4, hmax⟩
    refine Option.bind_eq_some_iff.mpr ⟨_, Mp.takeU32_iff.mpr ⟨rfl, f1⟩, ?_⟩
    refine Mp.guard_bind_iff.mpr ⟨rfl, ?_⟩
    refine Option.bind_eq_some_iff.mpr ⟨_, Mp.takeU32_iff.mpr ⟨rfl, f2⟩, ?_⟩
    refine Mp.guard_bind_iff.mpr ⟨rfl, ?_⟩
    refine Option.bind_eq_some_iff.mpr ⟨_, Mp.takeU8_iff.mpr ⟨rfl, f3⟩, ?_⟩
    refine Option.bind_eq_some_iff.mpr ⟨_, Mp.takeU32_iff.mpr ⟨rfl, f4⟩, ?_⟩
    exact Mp.guard_bind_iff.mpr ⟨hmax, rfl⟩

/-- The header of a stream that starts with a frame announces its payload. -/
theorem headerLength_of_decode {b : Bytes} {f : Mp.Frame} {k : Nat}
    (h : Mp.decode b = some (f, k)) :
    headerLength (b.take 13) = some (UInt32.ofNat f.payload.length) ∧
      (UInt32.ofNat f.payload.length).toNat = f.payload.length := by
  obtain ⟨hmax, _, hpre⟩ := Mp.encode_prefix_of_decode h
  obtain ⟨hmagic, hbody, _⟩ := Mp.encode_prefix_iff.mp hpre
  obtain ⟨hver, htype, hlen, _⟩ := Mp.frameBody_prefix_iff.mp hbody
  simp only [List.drop_drop, Nat.reduceAdd] at htype hlen
  have hfit : (UInt32.ofNat f.payload.length).toNat = f.payload.length := by
    have hbound : Mp.kMaxFrame.toNat < 2 ^ 32 := Mp.kMaxFrame.toNat_lt
    rw [UInt32.toNat_ofNat', Nat.mod_eq_of_lt (by omega)]
  refine ⟨headerLength_iff.mpr ?_, hfit⟩
  simp only [List.drop_take, Nat.reduceSub, List.prefix_take_iff, length_putU32, length_putU8]
  refine ⟨⟨hmagic, by omega⟩, ⟨hver, by omega⟩, ⟨f.type.toByte, htype, by omega⟩, ⟨hlen, by omega⟩, ?_⟩
  rw [gt_iff_lt, UInt32.lt_iff_toNat_lt, hfit]
  omega

/-- `recv_frame` as a function of the contents: the frame, and what is left. -/
def frameAt (b : Bytes) : Option Mp.Frame × Bytes :=
  if b.length < 13 then (none, b.drop 13)
  else
    match headerLength (b.take 13) with
    | none => (none, b.drop 13)
    | some len =>
        if b.length < 13 + len.toNat then (none, b.drop (13 + len.toNat))
        else if b.length < 17 + len.toNat then (none, b.drop (17 + len.toNat))
        else ((Mp.decode (b.take (17 + len.toNat))).map (·.1), b.drop (17 + len.toNat))

theorem recvFrame_eq (s : Socket) :
    (recvFrame s).1 = (frameAt s.contents).1 ∧
      (recvFrame s).2.contents = (frameAt s.contents).2 := by
  unfold recvFrame frameAt
  rcases s.recvExact_cases 13 with ⟨hhead, s1, heq, c1⟩ | ⟨hshort, s1, heq, c1⟩
  swap
  · rw [heq, if_pos hshort]
    exact ⟨rfl, c1⟩
  rw [heq, if_neg (by omega)]
  dsimp only
  cases headerLength (s.contents.take 13) with
  | none => exact ⟨rfl, c1⟩
  | some len =>
      dsimp only
      rcases s1.recvExact_cases len.toNat with ⟨hbody, s2, heq, c2⟩ | ⟨hshort, s2, heq, c2⟩
      swap
      · rw [c1, List.length_drop] at hshort
        rw [heq, if_pos (by omega), c2, c1, List.drop_drop]
        exact ⟨rfl, rfl⟩
      rw [c1, List.length_drop] at hbody
      rw [c1, List.drop_drop] at c2
      rw [heq, if_neg (by omega)]
      dsimp only
      have hplace : 13 + len.toNat + 4 = 17 + len.toNat := by omega
      rcases s2.recvExact_cases 4 with ⟨hcrc, s3, heq, c3⟩ | ⟨hshort, s3, heq, c3⟩
      swap
      · rw [c2, List.length_drop] at hshort
        rw [heq, if_pos (by omega), c3, c2, List.drop_drop, hplace]
        exact ⟨rfl, rfl⟩
      rw [c2, List.length_drop] at hcrc
      rw [heq, if_neg (by omega)]
      dsimp only
      rw [c3, c2, c1, List.drop_drop, ← List.take_add, ← List.take_add, hplace]
      exact ⟨rfl, rfl⟩

/-- What `decode` finds at the front is read off the front. -/
theorem frameAt_of_decode {b : Bytes} {f : Mp.Frame} {k : Nat} (h : Mp.decode b = some (f, k)) :
    frameAt b = (some f, b.drop k) := by
  obtain ⟨hmax, hk, hpre⟩ := Mp.encode_prefix_of_decode h
  obtain ⟨hhead, hfit⟩ := headerLength_of_decode h
  have hlen := hpre.length_le
  rw [Mp.length_encode] at hlen
  have htake : Mp.encode f.type f.payload <+: b.take (17 + f.payload.length) :=
    List.prefix_take_iff.mpr ⟨hpre, by rw [Mp.length_encode]⟩
  unfold frameAt
  rw [if_neg (by omega), hhead]
  dsimp only
  rw [hfit, if_neg (by omega), if_neg (by omega), Mp.decode_of_encoded hmax htake, hk]
  rfl

/-- What is read off the front is what `decode` finds there. -/
theorem decode_of_frameAt {b : Bytes} {f : Mp.Frame} (h : (frameAt b).1 = some f) :
    ∃ k, Mp.decode b = some (f, k) := by
  unfold frameAt at h
  split at h
  · cases h
  split at h
  · cases h
  split at h
  · cases h
  split at h
  · cases h
  obtain ⟨⟨f', k⟩, hdec, rfl⟩ := Option.map_eq_some_iff.mp h
  obtain ⟨hmax, _, hpre⟩ := Mp.encode_prefix_of_decode hdec
  exact ⟨_, Mp.decode_of_encoded hmax (hpre.trans (List.take_prefix _ _))⟩

/-! ## The two parsers agree -/

/-- The read took exactly the first `k` bytes of the stream. -/
structure Consumed (s s' : Socket) (k : Nat) : Prop where
  within : k ≤ s.contents.length
  rest : s'.contents = s.contents.drop k

theorem Consumed.unique {s s' : Socket} {k j : Nat} (h : Consumed s s' k) (h' : Consumed s s' j) :
    k = j := by
  have hk := congrArg List.length h.rest
  have hj := congrArg List.length h'.rest
  rw [List.length_drop] at hk hj
  have := h.within
  have := h'.within
  omega

theorem recvFrame_of_decode {s : Socket} {f : Mp.Frame} {k : Nat}
    (h : Mp.decode s.contents = some (f, k)) :
    (recvFrame s).1 = some f ∧ Consumed s (recvFrame s).2 k := by
  obtain ⟨hres, hrest⟩ := recvFrame_eq s
  rw [frameAt_of_decode h] at hres hrest
  obtain ⟨_, hk, hpre⟩ := Mp.encode_prefix_of_decode h
  have hlen := hpre.length_le
  rw [Mp.length_encode] at hlen
  exact ⟨hres, by omega, hrest⟩

/-- A frame is received, with `k` bytes taken, exactly if `decode` returns
it from the contents with `k` bytes consumed. -/
theorem recvFrame_iff {s : Socket} {f : Mp.Frame} {k : Nat} :
    ((recvFrame s).1 = some f ∧ Consumed s (recvFrame s).2 k) ↔
      Mp.decode s.contents = some (f, k) := by
  constructor
  · rintro ⟨hres, hcons⟩
    obtain ⟨j, hdec⟩ := decode_of_frameAt ((recvFrame_eq s).1.symm.trans hres)
    rw [hcons.unique (recvFrame_of_decode hdec).2]
    exact hdec
  · exact recvFrame_of_decode

/-- Any number of calls sees the contents only. -/
theorem recvFrames_congr (n : Nat) {s s' : Socket} (h : s.contents = s'.contents) :
    (recvFrames n s).1 = (recvFrames n s').1 ∧
      (recvFrames n s).2.contents = (recvFrames n s').2.contents := by
  induction n generalizing s s' with
  | zero => exact ⟨rfl, h⟩
  | succ n ih =>
      obtain ⟨hf, hc⟩ := recvFrame_eq s
      obtain ⟨hf', hc'⟩ := recvFrame_eq s'
      rw [← h] at hf' hc'
      obtain ⟨hfs, hcs⟩ := ih (hc.trans hc'.symm)
      rw [recvFrames_succ, recvFrames_succ]
      exact ⟨by rw [hf, hf', hfs], hcs⟩

/-- As many calls as the contents hold frames receive exactly these. -/
theorem recvFrames_stream (s : Socket) :
    (recvFrames (Mp.decodeStream s.contents).1.length s).1
      = (Mp.decodeStream s.contents).1.map some := by
  generalize hframes : (Mp.decodeStream s.contents).1 = frames
  induction frames generalizing s with
  | nil => rfl
  | cons f frames ih =>
      cases hdec : Mp.decode s.contents with
      | none =>
          rw [Mp.decodeStream_none hdec] at hframes
          cases hframes
      | some fk =>
          obtain ⟨f', k⟩ := fk
          rw [Mp.decodeStream_some hdec] at hframes
          obtain ⟨rfl, htail⟩ := List.cons.inj hframes
          obtain ⟨hres, hcons⟩ := recvFrame_of_decode hdec
          rw [← hcons.rest] at htail
          rw [List.length_cons, recvFrames_succ, hres, List.map_cons, ih _ htail]

/-- **The streaming reader agrees with the buffer decoder**, for every
stream and every chunking of it, and so do runs of calls. -/
theorem streaming_agrees (s : Socket) :
    (∀ f k, ((recvFrame s).1 = some f ∧ Consumed s (recvFrame s).2 k) ↔
      Mp.decode s.contents = some (f, k)) ∧
    ((recvFrame s).1 = none ↔ Mp.decode s.contents = none) ∧
    (∀ s' : Socket, s.contents = s'.contents → ∀ n,
      (recvFrames n s).1 = (recvFrames n s').1 ∧
        (recvFrames n s).2.contents = (recvFrames n s').2.contents) ∧
    (recvFrames (Mp.decodeStream s.contents).1.length s).1
      = (Mp.decodeStream s.contents).1.map some := by
  refine ⟨fun f k => recvFrame_iff, ?_, fun s' h n => recvFrames_congr n h, recvFrames_stream s⟩
  constructor
  · intro hnone
    cases hdec : Mp.decode s.contents with
    | none => rfl
    | some fk =>
        rw [(recvFrame_of_decode hdec).1] at hnone
        cases hnone
  · intro hnone
    cases hres : (recvFrame s).1 with
    | none => rfl
    | some f =>
        obtain ⟨k, hdec⟩ := decode_of_frameAt ((recvFrame_eq s).1.symm.trans hres)
        rw [hnone] at hdec
        cases hdec

end GpuMemoryService.Net
