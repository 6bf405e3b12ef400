/-
GpuMemoryService.Transport — frames from one end of a connection to the
other (`net.hpp`).

`Sender` is the sending half of a connection: how many bytes each `send`
will take before the connection is gone. `send_exact` repeats `send` until
everything is out, `send_frame` encodes a frame and sends it, and both
report whether the connection held.

`transport_delivers` joins this with the reading half of `Net`. Neither the
way `send` cuts the bytes nor the way `recv` does can be seen at the other
end: the frames received are, in order, those at the front of what was
sent, then nothing; none is received that was not reported sent, and all
that were reported sent are received if no byte is lost on the way.

Translation notes.
* `send` answers between 1 and the number of bytes asked for, or fails. A
  connection on which a `send` failed is gone, and every later one fails.
* `send_exact` counts up to the size; here the recursion is on what is
  left. Frames a peer accepts are short enough for the cast to `int`.
-/
import GpuMemoryService.Net

namespace GpuMemoryService.Net

open Lib

/-! ## Sending -/

/-- How many bytes the next calls of `send` take, before they fail. -/
structure Sender where
  accepts : List Nat
  positive : ∀ k ∈ accepts, 0 < k

namespace Sender

/-- `send` of `n` bytes: how many of them were taken. -/
def send (n : Nat) : Sender → Option Nat × Sender
  | ⟨[], h⟩ => (none, ⟨[], h⟩)
  | ⟨k :: ks, h⟩ => (some (min k n), ⟨ks, fun j hj => h j (by simp [hj])⟩)

/-- The connection is gone. -/
def Spent (s : Sender) : Prop := s.accepts = []

theorem send_spec (s : Sender) {n : Nat} (hn : 0 < n) :
    (s.Spent ∧ s.send n = (none, s)) ∨
    ∃ w s', s.send n = (some w, s') ∧ 0 < w ∧ w ≤ n := by
  obtain ⟨accepts, h⟩ := s
  cases accepts with
  | nil => exact Or.inl ⟨rfl, rfl⟩
  | cons k ks =>
      have hk : 0 < k := h k (by simp)
      exact Or.inr ⟨min k n, _, rfl, by omega, by omega⟩

/-- Loop until all of `data` is out: whether it is, and the bytes that were
put on the wire. -/
def sendExact (s : Sender) (data : Bytes) : (Bool × Bytes) × Sender :=
  if _hn : data = [] then ((true, []), s)
  else
    match _h : s.send data.length with
    | (none, s') => ((false, []), s')
    | (some w, s') =>
        let ((sent, wire), s'') := s'.sendExact (data.drop w)
        ((sent, data.take w ++ wire), s'')
termination_by data.length
decreasing_by
  have hpos := List.length_pos_iff.mpr _hn
  rcases send_spec s hpos with ⟨_, heq⟩ | ⟨w', s₁, heq, hw, _⟩
  · rw [heq] at _h
    cases _h
  · rw [heq] at _h
    cases _h
    rw [List.length_drop]
    omega

/-- **`send_exact` is exact**: all of the data is put on the wire, or a
proper front of it and the connection is gone. -/
theorem sendExact_spec (s : Sender) (data : Bytes) :
    (∃ s', s.sendExact data = ((true, data), s')) ∨
    ∃ w s', s.sendExact data = ((false, w), s') ∧ w <+: data ∧ w.length < data.length ∧
      s'.Spent := by
  induction hlen : data.length using Nat.strongRecOn generalizing s data with
  | ind n ih =>
      rw [sendExact]
      by_cases hn : data = []
      · rw [dif_pos hn]
        exact Or.inl ⟨s, by rw [hn]⟩
      rw [dif_neg hn]
      have hpos := List.length_pos_iff.mpr hn
      rcases send_spec s hpos with ⟨hspent, heq⟩ | ⟨w, s₁, heq, hw, hle⟩
      · split
        · rename_i s' h
          obtain rfl : s = s' := congrArg Prod.snd (heq.symm.trans h)
          exact Or.inr ⟨[], s, rfl, List.nil_prefix, by rw [← hlen]; exact hpos, hspent⟩
        · rename_i h
          cases heq.symm.trans h
      · split
        · rename_i h
          cases heq.symm.trans h
        rename_i w' s' h
        obtain ⟨⟨rfl⟩, rfl⟩ := Prod.mk.inj (heq.symm.trans h)
        have hdrop : (data.drop w).length = n - w := by rw [List.length_drop, hlen]
        rcases ih (n - w) (by omega) s₁ (data.drop w) hdrop with
          ⟨s₂, heq'⟩ | ⟨v, s₂, heq', hv, hlt, hspent⟩
        · refine Or.inl ⟨s₂, ?_⟩
          simp only [heq', List.take_append_drop]
        · refine Or.inr ⟨data.take w ++ v, s₂, by rw [heq'], ?_, ?_, hspent⟩
          · have hfront := (List.prefix_append_right_inj (data.take w)).mpr hv
            rwa [List.take_append_drop] at hfront
          · rw [List.length_append, List.length_take]
            omega

end Sender

def sendFrame (s : Sender) (f : Mp.Frame) : (Bool × Bytes) × Sender :=
  s.sendExact (Mp.encode f.type f.payload)

/-- A number of calls of `send_frame` on one connection: what each returned,
and all that was put on the wire. -/
def sendFrames : Sender → List Mp.Frame → (List Bool × Bytes) × Sender
  | s, [] => (([], []), s)
  | s, f :: fs =>
      let ((sent, wire), s) := sendFrame s f
      let ((sents, wires), s) := sendFrames s fs
      ((sent :: sents, wire ++ wires), s)

/-- The bytes of a list of frames. -/
def wireOf (frames : List Mp.Frame) : Bytes := frames.flatMap (fun f => Mp.encode f.type f.payload)

@[simp] theorem wireOf_nil : wireOf [] = [] := rfl

@[simp] theorem wireOf_cons (f : Mp.Frame) (frames : List Mp.Frame) :
    wireOf (f :: frames) = Mp.encode f.type f.payload ++ wireOf frames := rfl

theorem wireOf_append (frames later : List Mp.Frame) :
    wireOf (frames ++ later) = wireOf frames ++ wireOf later := List.flatMap_append

/-- Nothing, or an unfinished frame that the next of the list would be. -/
inductive Torn : List Mp.Frame → Bytes → Prop
  | clean (rest : List Mp.Frame) : Torn rest []
  | cut {f : Mp.Frame} {rest : List Mp.Frame} {w : Bytes}
      (front : w <+: Mp.encode f.type f.payload)
      (short : w.length < (Mp.encode f.type f.payload).length) : Torn (f :: rest) w

theorem sendFrames_cons (s : Sender) (f : Mp.Frame) (fs : List Mp.Frame) :
    sendFrames s (f :: fs)
      = (((sendFrame s f).1.1 :: (sendFrames (sendFrame s f).2 fs).1.1,
          (sendFrame s f).1.2 ++ (sendFrames (sendFrame s f).2 fs).1.2),
        (sendFrames (sendFrame s f).2 fs).2) := rfl

/-- Nothing leaves through a connection that is gone. -/
theorem sendFrames_spent {s : Sender} (h : s.Spent) (frames : List Mp.Frame) :
    (sendFrames s frames).1 = (List.replicate frames.length false, []) := by
  obtain ⟨accepts, hpos⟩ := s
  obtain rfl : accepts = [] := h
  induction frames with
  | nil => rfl
  | cons f fs ih =>
      have hgone : sendFrame ⟨[], hpos⟩ f = ((false, []), ⟨[], hpos⟩) := by
        rw [sendFrame, Sender.sendExact, dif_neg (Mp.encode_ne_nil _ _)]
        rfl
      rw [sendFrames_cons, hgone, ih]
      rfl

/-- What a run of sends does: the frames reported sent come first, and all
their bytes are on the wire; of the first that was not, a proper front is. -/
theorem sendFrames_spec (s : Sender) (frames : List Mp.Frame) :
    ∃ k w, k ≤ frames.length ∧ Torn (frames.drop k) w ∧
      (sendFrames s frames).1
        = (List.replicate k true ++ List.replicate (frames.length - k) false,
          wireOf (frames.take k) ++ w) := by
  induction frames generalizing s with
  | nil => exact ⟨0, [], le_rfl, .clean _, rfl⟩
  | cons f fs ih =>
      rw [sendFrames_cons]
      rcases s.sendExact_spec (Mp.encode f.type f.payload) with
        ⟨s', heq⟩ | ⟨w, s', heq, hfront, hshort, hspent⟩
      · obtain ⟨k, w, hk, htorn, hrest⟩ := ih s'
        refine ⟨k + 1, w, Nat.succ_le_succ hk, htorn, ?_⟩
        rw [sendFrame, heq, hrest]
        simp [List.replicate_succ, List.append_assoc]
      · refine ⟨0, w, Nat.zero_le _, .cut hfront hshort, ?_⟩
        rw [sendFrame, heq, sendFrames_spent hspent]
        simp [List.replicate_succ]

theorem Torn.front {rest : List Mp.Frame} {w : Bytes} (h : Torn rest w) : w <+: wireOf rest := by
  cases h with
  | clean => exact List.nil_prefix
  | cut hfront _ => exact hfront.trans (List.prefix_append _ _)

/-- What is on the wire is a front of what was to be sent. -/
theorem sendFrames_wire_front (s : Sender) (frames : List Mp.Frame) :
    (sendFrames s frames).1.2 <+: wireOf frames := by
  obtain ⟨k, w, _, htorn, heq⟩ := sendFrames_spec s frames
  have hfront := (List.prefix_append_right_inj (wireOf (frames.take k))).mpr htorn.front
  rw [← wireOf_append, List.take_append_drop] at hfront
  rw [heq]
  exact hfront

/-! ## Receiving what was sent -/

theorem frameAt_nil : frameAt [] = (none, []) := rfl

/-- An unfinished frame is no frame, and nothing is left behind it. -/
theorem frameAt_torn {rest : List Mp.Frame} {w : Bytes} (h : Torn rest w)
    (hfit : ∀ f ∈ rest, f.payload.length ≤ Mp.kMaxFrame.toNat) : frameAt w = (none, []) := by
  cases h with
  | clean => exact frameAt_nil
  | @cut f rest w hfront hshort =>
      rw [Mp.length_encode] at hshort
      unfold frameAt
      by_cases hhead : w.length < 13
      · rw [if_pos hhead, List.drop_of_length_le (by omega)]
      have htake : w.take 13 = (Mp.encode f.type f.payload).take 13 := by
        obtain ⟨t, ht⟩ := hfront
        rw [← ht, List.take_append_of_le_length (by omega)]
      obtain ⟨hlen, hword⟩ :=
        headerLength_of_decode (Mp.decode_of_encoded (hfit f (by simp)) (List.prefix_refl _))
      rw [if_neg hhead, htake, hlen]
      dsimp only at hword ⊢
      rw [hword]
      by_cases hbody : w.length < 13 + f.payload.length
      · rw [if_pos hbody, List.drop_of_length_le (by omega)]
      · rw [if_neg hbody, if_pos hshort, List.drop_of_length_le (by omega)]

/-- Calls on a stream that has come to its end. -/
theorem recvFrames_end (n : Nat) {s : Socket} (h : s.contents = []) :
    (recvFrames n s).1 = List.replicate n none := by
  induction n generalizing s with
  | zero => rfl
  | succ n ih =>
      obtain ⟨hf, hc⟩ := recvFrame_eq s
      rw [h, frameAt_nil] at hf hc
      rw [recvFrames_succ, hf, ih hc]
      rfl

/-- The answers of `n` reads of a stream of frames: the frames, then nothing. -/
def answers (frames : List Mp.Frame) (n : Nat) : List (Option Mp.Frame) :=
  (frames.map some ++ List.replicate n none).take n

theorem answers_nil (n : Nat) : answers [] n = List.replicate n none := by
  simp [answers]

theorem answers_cons (f : Mp.Frame) (frames : List Mp.Frame) (n : Nat) :
    answers (f :: frames) (n + 1) = some f :: answers frames n := by
  simp only [answers, List.map_cons, List.cons_append, List.take_succ_cons, List.replicate_succ']
  rw [← List.append_assoc, List.take_append_of_le_length]
  simp

/-- The frame at the front is read off, and the rest is left. -/
theorem recvFrame_wire {f : Mp.Frame} (hfit : f.payload.length ≤ Mp.kMaxFrame.toNat) {s : Socket}
    {tail : Bytes} (hs : s.contents = Mp.encode f.type f.payload ++ tail) :
    (recvFrame s).1 = some f ∧ (recvFrame s).2.contents = tail := by
  have hdec : Mp.decode s.contents = some (f, 17 + f.payload.length) := by
    refine Mp.decode_of_encoded hfit ?_
    rw [hs]
    exact List.prefix_append _ _
  obtain ⟨hf, hcons⟩ := recvFrame_of_decode hdec
  refine ⟨hf, ?_⟩
  rw [hcons.rest, hs]
  exact List.drop_left' (Mp.length_encode _ _)

theorem recvFrames_front {frames : List Mp.Frame}
    (hfit : ∀ f ∈ frames, f.payload.length ≤ Mp.kMaxFrame.toNat) {s : Socket} {tail : Bytes}
    (hs : s.contents = wireOf frames ++ tail) :
    (recvFrames frames.length s).1 = frames.map some ∧
      (recvFrames frames.length s).2.contents = tail := by
  induction frames generalizing s with
  | nil => exact ⟨rfl, hs⟩
  | cons f frames ih =>
      rw [wireOf_cons, List.append_assoc] at hs
      obtain ⟨hf, hleft⟩ := recvFrame_wire (hfit f (by simp)) hs
      obtain ⟨hfs, hrest⟩ := ih (fun g hg => hfit g (by simp [hg])) hleft
      rw [List.length_cons, recvFrames_succ, hf, hfs]
      exact ⟨rfl, hrest⟩

/-- **Reading** whole frames with an unfinished one behind them. -/
theorem recvFrames_wire {frames rest : List Mp.Frame} {w : Bytes} (htorn : Torn rest w)
    (hframes : ∀ f ∈ frames, f.payload.length ≤ Mp.kMaxFrame.toNat)
    (hrest : ∀ f ∈ rest, f.payload.length ≤ Mp.kMaxFrame.toNat) {s : Socket}
    (hs : s.contents = wireOf frames ++ w) (n : Nat) :
    (recvFrames n s).1 = answers frames n := by
  induction n generalizing frames s with
  | zero => simp [answers, recvFrames]
  | succ n ih =>
      cases frames with
      | nil =>
          obtain ⟨hf, hc⟩ := recvFrame_eq s
          rw [hs, wireOf_nil, List.nil_append, frameAt_torn htorn hrest] at hf hc
          rw [recvFrames_succ, hf, recvFrames_end n hc, answers_nil]
          rfl
      | cons f frames =>
          rw [wireOf_cons, List.append_assoc] at hs
          obtain ⟨hf, hleft⟩ := recvFrame_wire (hframes f (by simp)) hs
          rw [recvFrames_succ, hf, answers_cons, ih (fun g hg => hframes g (by simp [hg])) hleft]

/-- A front of a stream of frames is whole frames and an unfinished one, and
all the frames if it is all of the stream. -/
theorem prefix_wire_cases {b : Bytes} {frames rest : List Mp.Frame} {w : Bytes}
    (htorn : Torn rest w) (h : b <+: wireOf frames ++ w) :
    ∃ j v, j ≤ frames.length ∧ Torn (frames.drop j ++ rest) v ∧
      b = wireOf (frames.take j) ++ v ∧ (b = wireOf frames ++ w → j = frames.length) := by
  induction frames generalizing b with
  | nil =>
      rw [wireOf_nil, List.nil_append] at h
      refine ⟨0, b, le_rfl, ?_, rfl, fun _ => rfl⟩
      cases htorn with
      | clean =>
          rw [List.prefix_nil.mp h]
          exact .clean _
      | cut hfront hshort => exact .cut (h.trans hfront) (lt_of_le_of_lt h.length_le hshort)
  | cons f frames ih =>
      rw [wireOf_cons, List.append_assoc] at h ⊢
      have hhead : Mp.encode f.type f.payload <+:
          Mp.encode f.type f.payload ++ (wireOf frames ++ w) := List.prefix_append _ _
      by_cases hshort : b.length < (Mp.encode f.type f.payload).length
      · have hfront := List.prefix_of_prefix_length_le h hhead (by omega)
        refine ⟨0, b, Nat.zero_le _, .cut hfront hshort, rfl, fun heq => ?_⟩
        rw [heq] at hshort
        exact absurd hhead.length_le (by omega)
      · obtain ⟨t, rfl⟩ := List.prefix_of_prefix_length_le hhead h (by omega)
        obtain ⟨j, v, hj, hv, rfl, hall⟩ := ih ((List.prefix_append_right_inj _).mp h)
        refine ⟨j + 1, v, Nat.succ_le_succ hj, hv, ?_, fun heq => ?_⟩
        · rw [List.take_succ_cons, wireOf_cons, List.append_assoc]
        · rw [List.length_cons, hall (List.append_cancel_left heq)]

/-- **Transport.** Frames within the bound are sent one after another, with
any cuts and any failure of `send`, and any front of what was put on the wire
arrives, in any chunks. Then the frames reported sent are a front of the
list, the frames received are a front of those, whatever the number of reads,
and they are the same if everything on the wire arrived. -/
theorem transport_delivers (frames : List Mp.Frame)
    (hfit : ∀ f ∈ frames, f.payload.length ≤ Mp.kMaxFrame.toNat) (tx : Sender) (rx : Socket)
    (hwire : rx.contents <+: (sendFrames tx frames).1.2) :
    ∃ k j, j ≤ k ∧ k ≤ frames.length ∧
      (sendFrames tx frames).1.1
        = List.replicate k true ++ List.replicate (frames.length - k) false ∧
      (∀ n, (recvFrames n rx).1 = answers (frames.take j) n) ∧
      (rx.contents = (sendFrames tx frames).1.2 → j = k) := by
  obtain ⟨k, w, hk, htorn, heq⟩ := sendFrames_spec tx frames
  rw [heq] at hwire ⊢
  obtain ⟨j, v, hj, hv, hcontents, hall⟩ := prefix_wire_cases htorn hwire
  rw [List.length_take, Nat.min_eq_left hk] at hj hall
  rw [List.take_take, Nat.min_eq_left hj] at hcontents
  have hmem : ∀ f ∈ (frames.take k).drop j ++ frames.drop k, f ∈ frames := by
    intro f hf
    rcases List.mem_append.mp hf with hf | hf
    · exact List.mem_of_mem_take (List.mem_of_mem_drop hf)
    · exact List.mem_of_mem_drop hf
  refine ⟨k, j, hj, hk, rfl, fun n => ?_, hall⟩
  exact recvFrames_wire hv (fun f hf => hfit f (List.mem_of_mem_take hf))
    (fun f hf => hfit f (hmem f hf)) hcontents n

/-- Two frames over a connection that takes five bytes, then thirteen, then
three, and is gone: the first arrives, the second does not. -/
theorem transport_cut_short :
    let frames : List Mp.Frame := [⟨.hello, [1]⟩, ⟨.query, []⟩]
    let tx : Sender := ⟨[5, 13, 3], by decide⟩
    let rx : Socket := .unread (sendFrames tx frames).1.2 ⟨[], by decide⟩
    (sendFrames tx frames).1.1 = [true, false] ∧
      ∃ k j, j ≤ k ∧ k ≤ frames.length ∧
        (sendFrames tx frames).1.1
          = List.replicate k true ++ List.replicate (frames.length - k) false ∧
        (∀ n, (recvFrames n rx).1 = answers (frames.take j) n) ∧
        (rx.contents = (sendFrames tx frames).1.2 → j = k) := by
  intro frames tx rx
  refine ⟨by decide +kernel, transport_delivers frames (by decide) tx rx ?_⟩
  rw [Socket.contents_unread]
  exact (List.append_nil _) ▸ List.prefix_refl _

end GpuMemoryService.Net
